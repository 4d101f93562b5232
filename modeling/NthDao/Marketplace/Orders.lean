/-
  Orders between agents (`nth_dao/marketplace.py`).

  An order is a file with a status; its reward is taken from the creator's
  credits when it is created.

  * `Market`: the order files, the credit files and the ledgers of all agents;
  * `transferCredits`: a change of a balance, with its row of the ledger;
  * `createOrder` … `checkExpired`: the nine operations;
  * `Market.step`: a call of one of them by some agent;
  * `call_cases`: what a call that returns has done.

  Credits are exact numbers, times are microseconds.  Order ids are hexadecimal
  and name their files.  The texts of an order that no operation looks at, its
  signatures and the messages to the channel are left out.
-/
import NthDao.Py.Check
import NthDao.Py.Dict
import NthDao.SafeId
import Mathlib.Data.Rat.Floor

namespace NthDao

open Py

namespace Marketplace

variable (H : Host)

/-! ## Records -/

/-- `OrderStatus`. -/
inductive OrderStatus where
  | open_ | claimed | inProgress | submitted | completed | failed | cancelled | disputed | expired
  deriving DecidableEq

/-- What a row of the timeline says. -/
inductive TimelineAction where
  | created
  | claimed
  | started
  | submitted (proof : String)
  | completed (rating : ℚ)
  | rejected (reason rejectedClaimant : String)
  | cancelled
  | failed (reason : String)
  | expired
  | claimExpired
  deriving DecidableEq

structure TimelineEntry where
  action : TimelineAction
  actor : String
  timestamp : ℤ
  deriving DecidableEq

/-- `TaskOrder`. -/
structure TaskOrder where
  orderId : String
  creator : String
  reward : ℚ
  minReputation : ℚ
  status : OrderStatus := .open_
  claimant : String := ""
  submissionProof : String := ""
  submissionAt : Option ℤ := none
  rating : ℚ := 0
  feedback : String := ""
  createdAt : ℤ
  claimedAt : Option ℤ := none
  completedAt : Option ℤ := none
  timeline : List TimelineEntry
  deriving DecidableEq

/-- `is_finished`. -/
def OrderStatus.finished : OrderStatus → Bool
  | completed | failed | cancelled | expired => true
  | _ => false

/-- The kinds of a row of the ledger. -/
inductive CreditKind where
  | escrowLock | escrowRefundCancel | escrowRefundExpired
  deriving DecidableEq

/-- A row of the ledger of a credit file. -/
structure LedgerEntry where
  account : String
  kind : CreditKind
  delta : ℚ
  balanceBefore : ℚ
  orderId : String
  deriving DecidableEq

/-- The files: the orders by their ids, the balances by the names of the credit files, and
    the rows of the ledgers in the order in which they were written. -/
structure Market where
  orders : Dict String TaskOrder := []
  credits : Dict String ℚ
  ledger : List LedgerEntry := []

/-! ## Credits -/

/-- `round(x)`: half to even. -/
def roundEven (x : ℚ) : ℤ :=
  let d := x - ⌊x⌋
  if d < 1 / 2 then ⌊x⌋ else if 1 / 2 < d then ⌊x⌋ + 1 else if 2 ∣ ⌊x⌋ then ⌊x⌋ else ⌊x⌋ + 1

/-- `round(x, 2)`. -/
def round2 (x : ℚ) : ℚ := roundEven (x * 100) / 100

namespace Market

variable (w : Market)

/-- `_read_credits`. -/
def readCredits (agent : String) : ℚ := (w.credits.get (safeId H agent)).getD 0

/-- `_transfer_credits`. -/
def transferCredits (agent : String) (delta : ℚ) (orderId : String) (kind : CreditKind) :
    Except String Market :=
  let before := w.readCredits H agent
  let after := round2 (before + delta)
  if after < 0 - 1 / 1000000000 then .error "insufficient credits"
  else .ok { w with
    credits := w.credits.set (safeId H agent) (round2 after)
    ledger := w.ledger ++ [⟨safeId H agent, kind, round2 delta, before, orderId⟩] }

/-! ## Operations -/

/-- `_save`. -/
def save (o : TaskOrder) : Market := { w with orders := w.orders.set o.orderId o }

/-- `_require_my_order`. -/
def requireMyOrder (agent orderId : String) : Except String TaskOrder := do
  let o ← expect (w.orders.get orderId) "Order not found"
  require (o.creator == agent) "Order belongs to another agent"
  return o

/-- `_require_my_claim`. -/
def requireMyClaim (agent orderId : String) : Except String TaskOrder := do
  let o ← expect (w.orders.get orderId) "Order not found"
  require (o.claimant == agent) "Order is claimed by another agent"
  return o

/-- `create_order`; the id and the time are arguments. -/
def createOrder (agent orderId : String) (reward minReputation : ℚ) (now : ℤ) :
    Except String Market := do
  require (0 ≤ reward) "reward must be >= 0"
  require (reward ≤ 0 || reward ≤ w.readCredits H agent) "Insufficient credits"
  let o : TaskOrder :=
    { orderId := orderId, creator := agent, reward := reward, minReputation := minReputation,
      createdAt := now, timeline := [⟨.created, agent, now⟩] }
  let w₁ ← if 0 < reward then w.transferCredits H agent (-reward) orderId .escrowLock else .ok w
  return w₁.save o

/-- `claim`; `score` is the agent's reputation, if there is a reputation manager. -/
def claim (agent orderId : String) (score : Option ℚ) (now : ℤ) : Except String Market := do
  let o ← expect (w.orders.get orderId) "Order not found"
  require (o.status == .open_) "Order is not open"
  require (o.creator != agent) "Cannot claim your own order"
  require (o.minReputation ≤ 0 || score.all fun s => o.minReputation ≤ s) "Reputation too low"
  return w.save { o with
    status := .claimed
    claimant := agent
    claimedAt := some now
    timeline := o.timeline ++ [⟨.claimed, agent, now⟩] }

/-- `start_work`. -/
def startWork (agent orderId : String) (now : ℤ) : Except String Market := do
  let o ← w.requireMyClaim agent orderId
  return w.save { o with
    status := .inProgress
    timeline := o.timeline ++ [⟨.started, agent, now⟩] }

/-- `submit`. -/
def submit (agent orderId proof : String) (now : ℤ) : Except String Market := do
  let o ← w.requireMyClaim agent orderId
  require (o.status == .claimed || o.status == .inProgress) "cannot submit"
  return w.save { o with
    status := .submitted
    submissionProof := proof
    submissionAt := some now
    timeline := o.timeline ++
      [⟨.submitted (String.ofList ((chars proof).take 200)), agent, now⟩] }

/-- `accept`. -/
def accept (agent orderId : String) (rating : ℚ) (feedback : String) (now : ℤ) :
    Except String Market := do
  let o ← w.requireMyOrder agent orderId
  require (o.status == .submitted) "Order is not submitted"
  let rating := max 0 (min 5 rating)
  return w.save { o with
    status := .completed
    rating := rating
    feedback := feedback
    completedAt := some now
    timeline := o.timeline ++ [⟨.completed rating, agent, now⟩] }

/-- `reject`. -/
def reject (agent orderId reason : String) (now : ℤ) : Except String Market := do
  let o ← w.requireMyOrder agent orderId
  require (o.status == .submitted) "Order is not submitted"
  return w.save { o with
    status := .open_
    claimant := ""
    submissionProof := ""
    submissionAt := none
    timeline := o.timeline ++ [⟨.rejected reason o.claimant, agent, now⟩] }

/-- `cancel`: the credits go back before the order is saved. -/
def cancel (agent orderId : String) (now : ℤ) : Except String Market := do
  let o ← w.requireMyOrder agent orderId
  require (o.status == .open_ || o.status == .expired) "Cannot cancel order"
  let w₁ ←
    if 0 < o.reward then w.transferCredits H agent o.reward o.orderId .escrowRefundCancel
    else .ok w
  return w₁.save { o with
    status := .cancelled
    timeline := o.timeline ++ [⟨.cancelled, agent, now⟩] }

/-- `fail`. -/
def fail (agent orderId reason : String) (now : ℤ) : Except String Market := do
  let o ← w.requireMyClaim agent orderId
  require (o.status == .claimed || o.status == .inProgress) "cannot fail"
  return w.save { o with
    status := .failed
    timeline := o.timeline ++ [⟨.failed reason, agent, now⟩] }

end Market

/-- An open order has been there for seven days. -/
def TaskOrder.expires (o : TaskOrder) (now : ℤ) : Bool :=
  o.status == .open_ && 7 * 86400000000 ≤ now - o.createdAt

/-- A claim is older than 48 hours. -/
def TaskOrder.claimLapses (o : TaskOrder) (now : ℤ) : Bool :=
  (o.status == .claimed || o.status == .inProgress) &&
    o.claimedAt.any fun t => 48 * 3600000000 < now - t

namespace Market

/-- One file in the loop of `check_expired`. -/
def expireFile (agent : String) (now : ℤ) (w : Market) (orderId : String) : Market :=
  match w.orders.get orderId with
  | none => w
  | some o =>
    if o.expires now then
      let w₁ := w.save { o with
        status := .expired
        timeline := o.timeline ++ [⟨.expired, "system", now⟩] }
      if 0 < o.reward then
        -- an exception is logged, with the order saved
        match w₁.transferCredits H agent o.reward o.orderId .escrowRefundExpired with
        | .ok w₂ => w₂
        | .error _ => w₁
      else w₁
    else if o.claimLapses now then
      w.save { o with
        status := .open_
        claimant := ""
        timeline := o.timeline ++ [⟨.claimExpired, "system", now⟩] }
    else w

/-- `check_expired`; the files in the order in which the directory lists them. -/
def checkExpired (w : Market) (agent : String) (files : List String) (now : ℤ) : Market :=
  files.foldl (expireFile H agent now) w

end Market

/-! ## Calls -/

/-- A call by some agent. -/
inductive MarketCall where
  | createOrder (agent orderId : String) (reward minReputation : ℚ) (now : ℤ)
  | claim (agent orderId : String) (score : Option ℚ) (now : ℤ)
  | startWork (agent orderId : String) (now : ℤ)
  | submit (agent orderId proof : String) (now : ℤ)
  | accept (agent orderId : String) (rating : ℚ) (feedback : String) (now : ℤ)
  | reject (agent orderId reason : String) (now : ℤ)
  | cancel (agent orderId : String) (now : ℤ)
  | fail (agent orderId reason : String) (now : ℤ)
  | checkExpired (agent : String) (files : List String) (now : ℤ)

namespace Market

/-- What a call returns. -/
def call (w : Market) : MarketCall → Except String Market
  | .createOrder agent orderId reward minReputation now =>
    w.createOrder H agent orderId reward minReputation now
  | .claim agent orderId score now => w.claim agent orderId score now
  | .startWork agent orderId now => w.startWork agent orderId now
  | .submit agent orderId proof now => w.submit agent orderId proof now
  | .accept agent orderId rating feedback now => w.accept agent orderId rating feedback now
  | .reject agent orderId reason now => w.reject agent orderId reason now
  | .cancel agent orderId now => w.cancel H agent orderId now
  | .fail agent orderId reason now => w.fail agent orderId reason now
  | .checkExpired agent files now => .ok (w.checkExpired H agent files now)

/-- A minted id is new, and a directory lists a file once. -/
def wellFormed (w : Market) : MarketCall → Bool
  | .createOrder _ orderId _ _ _ => !w.orders.has orderId
  | .checkExpired _ files _ => files.dedup == files
  | _ => true

/-- One call; one that raises changes nothing. -/
def step (w : Market) (c : MarketCall) : Option Market :=
  if w.wellFormed c then
    match w.call H c with
    | .ok w' => some w'
    | .error _ => some w
  else none

end Market

/-! ## What a call does -/

/-- What a call does to the order it is about. -/
inductive Edit : MarketCall → TaskOrder → TaskOrder → Prop where
  | claim {agent orderId : String} {score : Option ℚ} {now : ℤ} {o : TaskOrder}
      (status : o.status = .open_) :
      Edit (.claim agent orderId score now) o { o with
        status := .claimed
        claimant := agent
        claimedAt := some now
        timeline := o.timeline ++ [⟨.claimed, agent, now⟩] }
  | startWork {agent orderId : String} {now : ℤ} {o : TaskOrder} (mine : o.claimant = agent) :
      Edit (.startWork agent orderId now) o { o with
        status := .inProgress
        timeline := o.timeline ++ [⟨.started, agent, now⟩] }
  | submit {agent orderId proof : String} {now : ℤ} {o : TaskOrder} (mine : o.claimant = agent)
      (status : o.status = .claimed ∨ o.status = .inProgress) :
      Edit (.submit agent orderId proof now) o { o with
        status := .submitted
        submissionProof := proof
        submissionAt := some now
        timeline := o.timeline ++
          [⟨.submitted (String.ofList ((chars proof).take 200)), agent, now⟩] }
  | accept {agent orderId feedback : String} {rating : ℚ} {now : ℤ} {o : TaskOrder}
      (mine : o.creator = agent) (status : o.status = .submitted) :
      Edit (.accept agent orderId rating feedback now) o { o with
        status := .completed
        rating := max 0 (min 5 rating)
        feedback := feedback
        completedAt := some now
        timeline := o.timeline ++ [⟨.completed (max 0 (min 5 rating)), agent, now⟩] }
  | reject {agent orderId reason : String} {now : ℤ} {o : TaskOrder} (mine : o.creator = agent)
      (status : o.status = .submitted) :
      Edit (.reject agent orderId reason now) o { o with
        status := .open_
        claimant := ""
        submissionProof := ""
        submissionAt := none
        timeline := o.timeline ++ [⟨.rejected reason o.claimant, agent, now⟩] }
  | cancel {agent orderId : String} {now : ℤ} {o : TaskOrder} (mine : o.creator = agent)
      (status : o.status = .open_ ∨ o.status = .expired) :
      Edit (.cancel agent orderId now) o { o with
        status := .cancelled
        timeline := o.timeline ++ [⟨.cancelled, agent, now⟩] }
  | fail {agent orderId reason : String} {now : ℤ} {o : TaskOrder} (mine : o.claimant = agent)
      (status : o.status = .claimed ∨ o.status = .inProgress) :
      Edit (.fail agent orderId reason now) o { o with
        status := .failed
        timeline := o.timeline ++ [⟨.failed reason, agent, now⟩] }

/-- The order that a call is about. -/
def MarketCall.orderId : MarketCall → Option String
  | .createOrder .. => none
  | .claim _ k _ _ => some k
  | .startWork _ k _ => some k
  | .submit _ k _ _ => some k
  | .accept _ k _ _ _ => some k
  | .reject _ k _ _ => some k
  | .cancel _ k _ => some k
  | .fail _ k _ _ => some k
  | .checkExpired .. => none

/-- The market when an edited order is saved: a cancelled order has been paid back. -/
inductive Paid (w : Market) (o : TaskOrder) : MarketCall → Market → Prop where
  | none {c : MarketCall} (h : ∀ agent k now, c = .cancel agent k now → o.reward ≤ 0) :
      Paid w o c w
  | cancel {agent k : String} {now : ℤ} {w₁ : Market} (pos : 0 < o.reward)
      (h : w.transferCredits H agent o.reward o.orderId .escrowRefundCancel = .ok w₁) :
      Paid w o (.cancel agent k now) w₁

/-- The order that `create_order` makes. -/
def newOrder (agent orderId : String) (reward minReputation : ℚ) (now : ℤ) : TaskOrder :=
  { orderId := orderId, creator := agent, reward := reward, minReputation := minReputation,
    createdAt := now, timeline := [⟨.created, agent, now⟩] }

/-- What a call has done when it returns. -/
inductive Done (w : Market) : MarketCall → Market → Prop where
  | created {agent orderId : String} {reward minReputation : ℚ} {now : ℤ} {w₁ : Market}
      (nonneg : 0 ≤ reward) (covered : reward ≤ 0 ∨ reward ≤ w.readCredits H agent)
      (locked : if 0 < reward then
        w.transferCredits H agent (-reward) orderId .escrowLock = .ok w₁ else w₁ = w) :
      Done w (.createOrder agent orderId reward minReputation now)
        (w₁.save (newOrder agent orderId reward minReputation now))
  | edited {c : MarketCall} {k : String} {o o' : TaskOrder} {w₁ : Market}
      (about : c.orderId = some k) (found : w.orders.get k = some o) (edit : Edit c o o')
      (paid : Paid H w o c w₁) : Done w c (w₁.save o')
  | checked {agent : String} {files : List String} {now : ℤ} :
      Done w (.checkExpired agent files now) (w.checkExpired H agent files now)

variable {H} {w w' : Market}

theorem requireMyOrder_eq_ok {agent k : String} {o : TaskOrder} :
    w.requireMyOrder agent k = .ok o ↔ w.orders.get k = some o ∧ o.creator = agent := by
  simp only [Market.requireMyOrder, expect_bind_eq_ok, require_bind_eq_ok, beq_iff_eq, pure_eq_ok]
  constructor
  · rintro ⟨_, h, hc, rfl⟩
    exact ⟨h, hc⟩
  · rintro ⟨h, hc⟩
    exact ⟨o, h, hc, rfl⟩

theorem requireMyClaim_eq_ok {agent k : String} {o : TaskOrder} :
    w.requireMyClaim agent k = .ok o ↔ w.orders.get k = some o ∧ o.claimant = agent := by
  simp only [Market.requireMyClaim, expect_bind_eq_ok, require_bind_eq_ok, beq_iff_eq, pure_eq_ok]
  constructor
  · rintro ⟨_, h, hc, rfl⟩
    exact ⟨h, hc⟩
  · rintro ⟨h, hc⟩
    exact ⟨o, h, hc, rfl⟩

/-- **What a call has done.** -/
theorem call_cases {c : MarketCall} (h : w.call H c = .ok w') : Done H w c w' := by
  have keeps : ∀ {c : MarketCall} (o : TaskOrder), (∀ agent k now, c ≠ .cancel agent k now) →
      Paid H w o c w := fun o hc => .none fun agent k now he => absurd he (hc agent k now)
  cases c with
  | createOrder agent orderId reward minReputation now =>
    simp only [Market.call, Market.createOrder, bind_eq_ok, require_eq_ok, decide_eq_true_eq,
      Bool.or_eq_true] at h
    obtain ⟨_, hn, _, hc, h⟩ := h
    split_ifs at h with hpos
    · simp only [bind_eq_ok, pure_eq_ok] at h
      obtain ⟨w₁, hl, rfl⟩ := h
      exact .created hn hc (by rwa [if_pos hpos])
    · cases h
      exact .created hn hc (by rw [if_neg hpos])
  | claim agent orderId score now =>
    simp only [Market.call, Market.claim, bind_eq_ok, expect_eq_ok, require_eq_ok, beq_iff_eq,
      pure_eq_ok] at h
    obtain ⟨o, ho, _, hs, _, -, _, -, rfl⟩ := h
    exact .edited rfl ho (.claim hs) (keeps o (by simp))
  | startWork agent orderId now =>
    simp only [Market.call, Market.startWork, bind_eq_ok, requireMyClaim_eq_ok, pure_eq_ok] at h
    obtain ⟨o, ⟨ho, hm⟩, rfl⟩ := h
    exact .edited rfl ho (.startWork hm) (keeps o (by simp))
  | submit agent orderId proof now =>
    simp only [Market.call, Market.submit, bind_eq_ok, requireMyClaim_eq_ok, require_eq_ok,
      Bool.or_eq_true, beq_iff_eq, pure_eq_ok] at h
    obtain ⟨o, ⟨ho, hm⟩, _, hs, rfl⟩ := h
    exact .edited rfl ho (.submit hm hs) (keeps o (by simp))
  | accept agent orderId rating feedback now =>
    simp only [Market.call, Market.accept, bind_eq_ok, requireMyOrder_eq_ok, require_eq_ok,
      beq_iff_eq, pure_eq_ok] at h
    obtain ⟨o, ⟨ho, hm⟩, _, hs, rfl⟩ := h
    exact .edited rfl ho (.accept hm hs) (keeps o (by simp))
  | reject agent orderId reason now =>
    simp only [Market.call, Market.reject, bind_eq_ok, requireMyOrder_eq_ok, require_eq_ok,
      beq_iff_eq, pure_eq_ok] at h
    obtain ⟨o, ⟨ho, hm⟩, _, hs, rfl⟩ := h
    exact .edited rfl ho (.reject hm hs) (keeps o (by simp))
  | cancel agent orderId now =>
    simp only [Market.call, Market.cancel, bind_eq_ok, requireMyOrder_eq_ok, require_eq_ok,
      Bool.or_eq_true, beq_iff_eq] at h
    obtain ⟨o, ⟨ho, hm⟩, _, hs, h⟩ := h
    split_ifs at h with hpos
    · simp only [bind_eq_ok, pure_eq_ok] at h
      obtain ⟨w₁, hp, rfl⟩ := h
      exact .edited rfl ho (.cancel hm hs) (.cancel hpos hp)
    · cases h
      exact .edited rfl ho (.cancel hm hs) (.none fun _ _ _ _ => not_lt.1 hpos)
  | fail agent orderId reason now =>
    simp only [Market.call, Market.fail, bind_eq_ok, requireMyClaim_eq_ok, require_eq_ok,
      Bool.or_eq_true, beq_iff_eq, pure_eq_ok] at h
    obtain ⟨o, ⟨ho, hm⟩, _, hs, rfl⟩ := h
    exact .edited rfl ho (.fail hm hs) (keeps o (by simp))
  | checkExpired agent files now =>
    cases h
    exact .checked

/-- An edit keeps what the order is about. -/
theorem Edit.frame {c : MarketCall} {o o' : TaskOrder} (h : Edit c o o') :
    o'.orderId = o.orderId ∧ o'.creator = o.creator ∧ o'.reward = o.reward := by
  cases h <;> exact ⟨rfl, rfl, rfl⟩

/-! ## Frames -/

theorem transferCredits_orders {agent orderId : String} {delta : ℚ} {kind : CreditKind}
    (h : w.transferCredits H agent delta orderId kind = .ok w') : w'.orders = w.orders := by
  rw [Market.transferCredits] at h
  split_ifs at h
  cases h
  rfl

theorem Paid.orders {c : MarketCall} {o : TaskOrder} (h : Paid H w o c w') :
    w'.orders = w.orders := by
  cases h with
  | none => rfl
  | cancel _ h => exact transferCredits_orders h

theorem get_save (w : Market) (o : TaskOrder) (k : String) :
    (w.save o).orders.get k = if k = o.orderId then some o else w.orders.get k := by
  rw [Market.save, Dict.get_set]

/-- Every order is in the file of its id. -/
def Filed (w : Market) : Prop := ∀ k o, w.orders.get k = some o → o.orderId = k

theorem Filed.save (h : Filed w) (o : TaskOrder) : Filed (w.save o) := by
  intro k p hp
  rw [get_save] at hp
  split_ifs at hp with hk
  · cases hp
    exact hk.symm
  · exact h k p hp

theorem Filed.of_orders (h : Filed w) (ho : w'.orders = w.orders) : Filed w' := by
  intro k o hk
  exact h k o (ho ▸ hk)

/-- What `check_expired` does with one file. -/
inductive Checked (H : Host) (w : Market) (agent : String) (now : ℤ) (k : String) : Market → Prop
  where
  | same : Checked H w agent now k w
  | expired {o : TaskOrder} (found : w.orders.get k = some o) (old : o.expires now = true)
      (free : o.reward ≤ 0) :
      Checked H w agent now k (w.save { o with
        status := .expired
        timeline := o.timeline ++ [⟨.expired, "system", now⟩] })
  | refunded {o : TaskOrder} {w₁ : Market} (found : w.orders.get k = some o)
      (old : o.expires now = true) (pos : 0 < o.reward)
      (paid : (w.save { o with
        status := .expired
        timeline := o.timeline ++ [⟨.expired, "system", now⟩] }).transferCredits H agent o.reward
          o.orderId .escrowRefundExpired = .ok w₁) :
      Checked H w agent now k w₁
  | refused {o : TaskOrder} {text : String} (found : w.orders.get k = some o)
      (old : o.expires now = true) (pos : 0 < o.reward)
      (paid : (w.save { o with
        status := .expired
        timeline := o.timeline ++ [⟨.expired, "system", now⟩] }).transferCredits H agent o.reward
          o.orderId .escrowRefundExpired = .error text) :
      Checked H w agent now k (w.save { o with
        status := .expired
        timeline := o.timeline ++ [⟨.expired, "system", now⟩] })
  | lapsed {o : TaskOrder} (found : w.orders.get k = some o) (old : o.claimLapses now = true) :
      Checked H w agent now k (w.save { o with
        status := .open_
        claimant := ""
        timeline := o.timeline ++ [⟨.claimExpired, "system", now⟩] })

theorem expireFile_cases (w : Market) (agent : String) (now : ℤ) (k : String) :
    Checked H w agent now k (w.expireFile H agent now k) := by
  rw [Market.expireFile]
  split
  · exact .same
  rename_i o ho
  split_ifs with hexp hpos hlapse
  · dsimp only
    split
    · rename_i h
      exact .refunded ho hexp hpos h
    · rename_i h
      exact .refused ho hexp hpos h
  · exact .expired ho hexp (not_lt.1 hpos)
  · exact .lapsed ho hlapse
  · exact .same

end Marketplace

end NthDao
