/-
  The escrow of an order.

  * `Books`: the balances are whole hundredths, none below zero;
  * `Market.held`: what the ledgers hold for an order;
  * `Careful`: the calls that neither keep nor misplace a reward;
  * `escrow_conserved`: in runs of such calls balances and escrow add up to the
    same number, and an order is paid back once, to its creator, when it ends;
  * `accepted_unpaid`: the reward of an accepted order is nobody's.
-/
import NthDao.Marketplace.Lifecycle
import Mathlib.Tactic.FieldSimp
import Mathlib.Tactic.Linarith

namespace NthDao

open Py Runs

namespace Marketplace

variable {H : Host}

/-! ## Hundredths -/

/-- A whole number of hundredths. -/
def Cents (x : ℚ) : Prop := ∃ n : ℤ, x = n / 100

theorem Cents.add {x y : ℚ} (hx : Cents x) (hy : Cents y) : Cents (x + y) := by
  obtain ⟨m, rfl⟩ := hx
  obtain ⟨n, rfl⟩ := hy
  exact ⟨m + n, by push_cast; ring⟩

theorem Cents.neg {x : ℚ} (hx : Cents x) : Cents (-x) := by
  obtain ⟨m, rfl⟩ := hx
  exact ⟨-m, by push_cast; ring⟩

theorem Cents.zero : Cents 0 := ⟨0, by simp⟩

theorem roundEven_intCast (n : ℤ) : roundEven n = n := by
  rw [roundEven, Int.floor_intCast]
  simp

/-- Rounding keeps whole hundredths. -/
theorem Cents.round2_eq {x : ℚ} (hx : Cents x) : round2 x = x := by
  obtain ⟨n, rfl⟩ := hx
  rw [round2, div_mul_cancel₀ _ (by norm_num), roundEven_intCast]

/-! ## Balances -/

/-- One balance a file, in whole hundredths and not below zero. -/
structure Books (w : Market) : Prop where
  keys : (w.credits.map Prod.fst).Nodup
  cents : ∀ p ∈ w.credits, Cents p.2 ∧ 0 ≤ p.2

/-- The sum of all balances. -/
def Market.balances (w : Market) : ℚ := (w.credits.map Prod.snd).sum

variable {w w' : Market}

theorem Books.of_credits (h : Books w) (hc : w'.credits = w.credits) : Books w' :=
  ⟨hc ▸ h.keys, hc ▸ h.cents⟩

theorem Books.read (h : Books w) (agent : String) :
    Cents (w.readCredits H agent) ∧ 0 ≤ w.readCredits H agent := by
  rw [Market.readCredits]
  cases hg : w.credits.get (safeId H agent) with
  | none => exact ⟨.zero, le_rfl⟩
  | some b => exact h.cents _ (Dict.mem_of_get hg)

/-- The market after a transfer of whole hundredths. -/
def Market.moved (H : Host) (w : Market) (agent : String) (delta : ℚ) (orderId : String)
    (kind : CreditKind) : Market :=
  { w with
    credits := w.credits.set (safeId H agent) (w.readCredits H agent + delta)
    ledger := w.ledger ++
      [⟨safeId H agent, kind, delta, w.readCredits H agent, orderId⟩] }

theorem Books.transferCredits (h : Books w) {agent orderId : String} {delta : ℚ}
    {kind : CreditKind} (hd : Cents delta) (hpos : 0 ≤ w.readCredits H agent + delta) :
    w.transferCredits H agent delta orderId kind = .ok (w.moved H agent delta orderId kind) := by
  have hc := (h.read (H := H) agent).1.add hd
  have hneg : ¬ w.readCredits H agent + delta < 0 - 1 / 1000000000 := by
    have : (0 : ℚ) < 1 / 1000000000 := by norm_num
    linarith
  simp only [Market.transferCredits, hc.round2_eq, hd.round2_eq, if_neg hneg]
  rfl

theorem Books.moved (h : Books w) {agent : String} {delta : ℚ} (hd : Cents delta)
    (hpos : 0 ≤ w.readCredits H agent + delta) (orderId : String) (kind : CreditKind) :
    Books (w.moved H agent delta orderId kind) := by
  refine ⟨Dict.nodup_set h.keys _ _, fun p hp => ?_⟩
  rcases Dict.mem_set hp with hp | rfl
  · exact h.cents p hp
  · exact ⟨(h.read agent).1.add hd, hpos⟩

theorem Books.balances_moved (h : Books w) (agent : String) (delta : ℚ) (orderId : String)
    (kind : CreditKind) :
    (w.moved H agent delta orderId kind).balances = w.balances + delta := by
  rw [Market.balances, Market.moved, Dict.sum_set _ h.keys, Market.readCredits, Market.balances]
  cases w.credits.get (safeId H agent) with
  | none => simp
  | some b =>
    simp only [Option.map_some, Option.getD_some]
    ring

/-! ## Escrow -/

/-- What an order holds: its reward, until it ends. -/
def TaskOrder.escrow (o : TaskOrder) : ℚ := if o.status.finished then 0 else o.reward

/-- The escrow of all orders. -/
def Market.escrow (w : Market) : ℚ := (w.orders.map fun p => p.2.escrow).sum

/-- The rows of the ledgers about an order. -/
def Market.rows (w : Market) (k : String) : List LedgerEntry :=
  w.ledger.filter fun r => r.orderId == k

/-- What the ledgers hold for an order. -/
def Market.held (w : Market) (k : String) : ℚ := -((w.rows k).map LedgerEntry.delta).sum

/-- The rows that pay an order back. -/
def Market.released (w : Market) (k : String) : List LedgerEntry :=
  (w.rows k).filter fun r => r.kind != .escrowLock

/-- Who an order is to be paid to. -/
def TaskOrder.payee (o : TaskOrder) : String :=
  if o.status = .completed then o.claimant else o.creator

variable (H)

/-- The calls that neither keep nor misplace a reward:

    * a reward is a whole number of hundredths;
    * an order with a reward is neither accepted nor failed, and not cancelled once it has
      expired;
    * `start_work` does not get to an order with a reward that has ended;
    * orders with a reward expire in calls by their creators (whose file the caller's is). -/
def Careful (w : Market) : MarketCall → Prop
  | .createOrder agent _ reward _ _ => 0 < reward → reward ≤ w.readCredits H agent → Cents reward
  | .startWork agent k _ => ∀ o, w.orders.get k = some o → o.claimant = agent → 0 < o.reward →
      o.status.finished = false
  | .accept agent k _ _ _ => ∀ o, w.orders.get k = some o → o.creator = agent →
      o.status = .submitted → o.reward ≤ 0
  | .cancel agent k _ => ∀ o, w.orders.get k = some o → o.creator = agent →
      o.status = .expired → o.reward ≤ 0
  | .fail agent k _ _ => ∀ o, w.orders.get k = some o → o.claimant = agent →
      o.status = .claimed ∨ o.status = .inProgress → o.reward ≤ 0
  | .checkExpired agent files now => ∀ k ∈ files, ∀ o, w.orders.get k = some o →
      o.expires now = true → 0 < o.reward → safeId H agent = safeId H o.creator
  | _ => True

/-- The row that takes the reward from the creator. -/
structure Locks (o : TaskOrder) (r : LedgerEntry) : Prop where
  kind : r.kind = .escrowLock
  account : r.account = safeId H o.creator
  delta : r.delta = -o.reward

/-- The row that pays it back. -/
structure Releases (o : TaskOrder) (r : LedgerEntry) : Prop where
  kind : r.kind ≠ .escrowLock
  account : r.account = safeId H o.creator
  delta : r.delta = o.reward

/-- The rows about an order. -/
inductive Ledgered (o : TaskOrder) : List LedgerEntry → Prop where
  | free (reward : o.reward = 0) : Ledgered o []
  | locked {r : LedgerEntry} (pos : 0 < o.reward) (cents : Cents o.reward)
      (status : o.status.finished = false) (lock : Locks H o r) : Ledgered o [r]
  | released {r r' : LedgerEntry} (pos : 0 < o.reward) (cents : Cents o.reward)
      (status : o.status = .cancelled ∨ o.status = .expired) (lock : Locks H o r)
      (release : Releases H o r') : Ledgered o [r, r']

/-- The rows about a file. -/
def Recorded : Option TaskOrder → List LedgerEntry → Prop
  | none, rs => rs = []
  | some o, rs => Ledgered H o rs

/-- The state of a market in which nothing is lost. -/
structure Sound (total : ℚ) (w : Market) : Prop where
  books : Books w
  filed : Filed w
  keys : (w.orders.map Prod.fst).Nodup
  conserved : w.balances + w.escrow = total
  recorded : ∀ k, Recorded H (w.orders.get k) (w.rows k)

variable {H} {total : ℚ}

/-! ## Changes of one order -/

/-- What keeps the state sound: the rows written are about the order saved, and the balances
    change by what its escrow does. -/
theorem Sound.update (h : Sound H total w) {k : String} {o' : TaskOrder} (rs : List LedgerEntry)
    (hid : o'.orderId = k) (horders : w'.orders = w.orders.set k o')
    (hledger : w'.ledger = w.ledger ++ rs) (habout : ∀ r ∈ rs, r.orderId = k) (hbooks : Books w')
    (hbal : w'.balances =
      w.balances + ((w.orders.get k).map TaskOrder.escrow).getD 0 - o'.escrow)
    (hrows : Ledgered H o' (w.rows k ++ rs)) : Sound H total w' := by
  have hrow : ∀ l, w'.rows l = if l = k then w.rows k ++ rs else w.rows l := by
    intro l
    rw [Market.rows, hledger, List.filter_append]
    by_cases hl : l = k
    · rw [if_pos hl, hl]
      congr 1
      exact List.filter_eq_self.2 fun r hr => beq_iff_eq.2 (habout r hr)
    · have hnone : (rs.filter fun r => r.orderId == l) = [] := by
        refine List.filter_eq_nil_iff.2 fun r hr => ?_
        rw [habout r hr, beq_iff_eq]
        exact Ne.symm hl
      rw [if_neg hl, hnone, List.append_nil, Market.rows]
  refine ⟨hbooks, ?_, ?_, ?_, fun l => ?_⟩
  · have : (w.save o').orders = w'.orders := by rw [horders, Market.save, hid]
    exact (h.filed.save o').of_orders this.symm
  · rw [horders]
    exact Dict.nodup_set h.keys k o'
  · rw [hbal, Market.escrow, horders, Dict.sum_set _ h.keys, ← h.conserved, Market.escrow]
    show _ + (_ - ((w.orders.get k).map TaskOrder.escrow).getD 0 + _) = _
    ring
  · rw [hrow, horders, Dict.get_set]
    by_cases hl : l = k
    · rw [if_pos hl, if_pos hl]
      exact hrows
    · rw [if_neg hl, if_neg hl]
      exact h.recorded l

theorem Ledgered.of_frame {o o' : TaskOrder} {rs : List LedgerEntry} (h : Ledgered H o rs)
    (hc : o'.creator = o.creator) (hr : o'.reward = o.reward)
    (hlive : 0 < o.reward → o.status.finished = false ∧ o'.status.finished = false) :
    Ledgered H o' rs := by
  cases h with
  | free reward => exact .free (hr.trans reward)
  | locked pos cents status lock =>
    exact .locked (hr ▸ pos) (hr ▸ cents) (hlive pos).2 ⟨lock.kind, hc ▸ lock.account, hr ▸ lock.delta⟩
  | released pos cents status =>
    have hl := (hlive pos).1
    rcases status with hs | hs
    · rw [hs] at hl
      cases hl
    · rw [hs] at hl
      cases hl

theorem Ledgered.cents {o : TaskOrder} {rs : List LedgerEntry} (h : Ledgered H o rs) :
    0 ≤ o.reward ∧ Cents o.reward := by
  cases h with
  | free reward => exact ⟨reward.ge, reward ▸ .zero⟩
  | locked pos cents => exact ⟨pos.le, cents⟩
  | released pos cents => exact ⟨pos.le, cents⟩

theorem Sound.ledgered (h : Sound H total w) {k : String} {o : TaskOrder}
    (ho : w.orders.get k = some o) : Ledgered H o (w.rows k) := by
  have := h.recorded k
  rwa [ho] at this

/-- A change that moves no credits. -/
theorem Sound.edit (h : Sound H total w) {k : String} {o o' : TaskOrder}
    (ho : w.orders.get k = some o) (hid : o'.orderId = o.orderId) (hc : o'.creator = o.creator)
    (hr : o'.reward = o.reward)
    (hlive : 0 < o.reward → o.status.finished = false ∧ o'.status.finished = false) :
    Sound H total (w.save o') := by
  have hl := h.ledgered ho
  have hk : o'.orderId = k := hid.trans (h.filed k o ho)
  have hesc : o'.escrow = o.escrow := by
    rw [TaskOrder.escrow, TaskOrder.escrow, hr]
    rcases hl.cents.1.eq_or_lt with hz | hpos
    · rw [← hz, ite_self, ite_self]
    · rw [(hlive hpos).1, (hlive hpos).2]
  refine h.update [] hk ?_ ?_ ?_ (h.books.of_credits rfl) ?_ ?_
  · rw [Market.save, hk]
  · exact (List.append_nil _).symm
  · intro r hr
    cases hr
  · show w.balances = _
    rw [ho, hesc, Option.map_some, Option.getD_some, add_sub_cancel_right]
  · rw [List.append_nil]
    exact hl.of_frame hc hr hlive

/-- An order that ends is paid back to its creator. -/
theorem Sound.release (h : Sound H total w) {k agent : String} {o o' : TaskOrder}
    {kind : CreditKind} (ho : w.orders.get k = some o) (hid : o'.orderId = o.orderId)
    (hc : o'.creator = o.creator) (hr : o'.reward = o.reward) (hpos : 0 < o.reward)
    (hlive : o.status.finished = false) (hend : o'.status = .cancelled ∨ o'.status = .expired)
    (hagent : safeId H agent = safeId H o.creator) (hkind : kind ≠ .escrowLock) :
    Sound H total ((w.moved H agent o.reward o.orderId kind).save o') := by
  have hl := h.ledgered ho
  have hk : o.orderId = k := h.filed k o ho
  have hread : 0 ≤ w.readCredits H agent + o.reward :=
    add_nonneg (h.books.read agent).2 hpos.le
  refine h.update (k := k) _ (hid.trans hk) ?_ rfl ?_
    ((h.books.moved hl.cents.2 hread o.orderId kind).of_credits rfl) ?_ ?_
  · rw [Market.save, hid, hk]
    rfl
  · intro r hr
    rw [List.mem_singleton.1 hr]
    exact hk
  · show (w.moved H agent o.reward o.orderId kind).balances = _
    have hend' : o'.status.finished = true := by rcases hend with hs | hs <;> rw [hs] <;> rfl
    have hesc : o'.escrow = 0 := by rw [TaskOrder.escrow, hend', if_pos rfl]
    have hold : o.escrow = o.reward := by rw [TaskOrder.escrow, hlive, if_neg (by simp)]
    rw [h.books.balances_moved, ho, Option.map_some, Option.getD_some, hesc, hold, sub_zero]
  · generalize w.rows k = rs at hl
    cases hl with
    | free reward => exact absurd reward hpos.ne'
    | locked pos cents status lock =>
      exact .released (hr ▸ pos) (hr ▸ cents) hend ⟨lock.kind, hc ▸ lock.account, hr ▸ lock.delta⟩
        ⟨hkind, hc ▸ hagent, hr.symm⟩
    | released pos cents status =>
      rcases status with hs | hs
      · rw [hs] at hlive
        cases hlive
      · rw [hs] at hlive
        cases hlive

/-! ## Steps -/

/-- A new order: the reward leaves the balance of its creator. -/
theorem Sound.create (h : Sound H total w) {agent k : String} {reward minReputation : ℚ} {now : ℤ}
    (hnew : w.orders.get k = none) (hpos : 0 ≤ reward)
    (hcov : reward ≤ 0 ∨ reward ≤ w.readCredits H agent)
    (hcents : 0 < reward → reward ≤ w.readCredits H agent → Cents reward)
    (hlock : if 0 < reward then w.transferCredits H agent (-reward) k .escrowLock = .ok w'
      else w' = w) :
    Sound H total (w'.save (newOrder agent k reward minReputation now)) := by
  have hnone : w.rows k = [] := by
    have := h.recorded k
    rwa [hnew] at this
  have hesc : (newOrder agent k reward minReputation now).escrow = reward := rfl
  by_cases hp : 0 < reward
  · have hle : reward ≤ w.readCredits H agent := hcov.resolve_left (not_le.2 hp)
    have hc := hcents hp hle
    have hread : 0 ≤ w.readCredits H agent + -reward := by linarith
    rw [if_pos hp, h.books.transferCredits hc.neg hread] at hlock
    cases hlock
    refine h.update (k := k) _ rfl rfl rfl ?_
      ((h.books.moved hc.neg hread k .escrowLock).of_credits rfl) ?_ ?_
    · intro r hr
      rw [List.mem_singleton.1 hr]
    · show (w.moved H agent (-reward) k .escrowLock).balances = _
      rw [h.books.balances_moved, hnew, hesc, Option.map_none, Option.getD_none, add_zero,
        sub_eq_add_neg]
    · rw [hnone]
      exact .locked hp hc rfl ⟨rfl, rfl, rfl⟩
  · have hz : reward = 0 := le_antisymm (not_lt.1 hp) hpos
    rw [if_neg hp] at hlock
    subst hlock
    refine h.update (k := k) [] rfl rfl (List.append_nil _).symm ?_
      (h.books.of_credits rfl) ?_ ?_
    · intro r hr
      cases hr
    · show w'.balances = _
      rw [hnew, hesc, hz, Option.map_none, Option.getD_none, add_zero, sub_zero]
    · rw [hnone]
      exact .free hz

/-- One file of `check_expired`. -/
theorem Sound.expireFile (h : Sound H total w) {agent : String} {now : ℤ} {k : String}
    (hc : ∀ o, w.orders.get k = some o → o.expires now = true → 0 < o.reward →
      safeId H agent = safeId H o.creator) : Sound H total (w.expireFile H agent now k) := by
  have opened : ∀ {o : TaskOrder}, o.expires now = true → o.status.finished = false := by
    intro o ho
    rw [TaskOrder.expires, Bool.and_eq_true, beq_iff_eq] at ho
    rw [ho.1]
    rfl
  have repaid : ∀ {o o' : TaskOrder}, w.orders.get k = some o → 0 < o.reward →
      (w.save o').transferCredits H agent o.reward o.orderId .escrowRefundExpired =
        .ok ((w.moved H agent o.reward o.orderId .escrowRefundExpired).save o') := by
    intro o o' ho hpos
    have hb : Books (w.save o') := h.books.of_credits rfl
    exact hb.transferCredits (h.ledgered ho).cents.2 (add_nonneg (hb.read agent).2 hpos.le)
  have hch := expireFile_cases (H := H) w agent now k
  generalize w.expireFile H agent now k = w₁ at hch ⊢
  cases hch with
  | same => exact h
  | expired found old free =>
    exact h.edit found rfl rfl rfl fun hpos => absurd hpos (not_lt.2 free)
  | refunded found old pos paid =>
    rw [repaid found pos] at paid
    cases paid
    exact h.release found rfl rfl rfl pos (opened old) (.inr rfl) (hc _ found old pos) (by simp)
  | refused found old pos paid =>
    rw [repaid found pos] at paid
    cases paid
  | lapsed found old =>
    refine h.edit found rfl rfl rfl fun _ => ⟨?_, rfl⟩
    rw [TaskOrder.claimLapses, Bool.and_eq_true, Bool.or_eq_true, beq_iff_eq, beq_iff_eq] at old
    rcases old.1 with hs | hs <;> rw [hs] <;> rfl

theorem Sound.checkExpired {agent : String} {files : List String} {now : ℤ} (hn : files.Nodup)
    (h : Sound H total w)
    (hc : ∀ k ∈ files, ∀ o, w.orders.get k = some o → o.expires now = true → 0 < o.reward →
      safeId H agent = safeId H o.creator) :
    Sound H total (w.checkExpired H agent files now) := by
  induction files generalizing w with
  | nil => exact h
  | cons k files ih =>
    rw [List.nodup_cons] at hn
    refine ih hn.2 (h.expireFile (hc k (by simp))) fun l hl o ho => ?_
    -- the file has not been looked at yet
    have hne : l ≠ k := fun he => hn.1 (he ▸ hl)
    rw [(fileStep_expireFile h.filed agent now k l).2.2 hne] at ho
    exact hc l (List.mem_cons_of_mem _ hl) o ho

/-- One call that changes an order. -/
theorem Sound.edited (h : Sound H total w) {c : MarketCall} {k : String} {o o' : TaskOrder}
    (hc : Careful H w c) (about : c.orderId = some k) (found : w.orders.get k = some o)
    (edit : Edit c o o') (paid : Paid H w o c w') : Sound H total (w'.save o') := by
  have never : o.reward ≤ 0 → 0 < o.reward → o.status.finished = false ∧ o'.status.finished = false :=
    fun hle hpos => absurd hpos (not_lt.2 hle)
  cases edit with
  | claim status =>
    cases paid
    exact h.edit found rfl rfl rfl fun _ => ⟨by rw [status]; rfl, rfl⟩
  | startWork mine =>
    cases paid
    cases about
    exact h.edit found rfl rfl rfl fun hpos => ⟨hc o found mine hpos, rfl⟩
  | submit mine status =>
    cases paid
    refine h.edit found rfl rfl rfl fun _ => ⟨?_, rfl⟩
    rcases status with hs | hs <;> rw [hs] <;> rfl
  | accept mine status =>
    cases paid
    cases about
    exact h.edit found rfl rfl rfl (never (hc o found mine status))
  | reject mine status =>
    cases paid
    exact h.edit found rfl rfl rfl fun _ => ⟨by rw [status]; rfl, rfl⟩
  | cancel mine status =>
    cases about
    cases paid with
    | none hfree => exact h.edit found rfl rfl rfl (never (hfree _ _ _ rfl))
    | cancel pos ht =>
      have hopen : o.status = .open_ :=
        status.resolve_right fun hs => absurd pos (not_lt.2 (hc o found mine hs))
      rw [h.books.transferCredits (h.ledgered found).cents.2
        (add_nonneg (h.books.read _).2 pos.le)] at ht
      cases ht
      exact h.release found rfl rfl rfl pos (by rw [hopen]; rfl) (.inl rfl) (by rw [mine])
        (by simp)
  | fail mine status =>
    cases paid
    cases about
    exact h.edit found rfl rfl rfl (never (hc o found mine status))

/-- One call. -/
theorem Sound.step (h : Sound H total w) {c : MarketCall} (hc : Careful H w c)
    (hs : w.step H c = some w') : Sound H total w' := by
  rw [Market.step] at hs
  split_ifs at hs with hwf
  split at hs
  · rename_i w₁ hcall
    cases hs
    cases call_cases hcall with
    | created nonneg covered locked =>
      refine h.create ?_ nonneg covered hc locked
      simp only [Market.wellFormed, Bool.not_eq_true'] at hwf
      rwa [Dict.get_eq_none, ← Dict.has_eq_false]
    | edited about found edit paid => exact h.edited hc about found edit paid
    | checked =>
      simp only [Market.wellFormed, beq_iff_eq] at hwf
      exact Sound.checkExpired (hwf ▸ List.nodup_dedup _) h hc
  · cases hs
    exact h

/-! ## Runs -/

theorem Ledgered.held {o : TaskOrder} {rs : List LedgerEntry} (h : Ledgered H o rs) :
    -(rs.map LedgerEntry.delta).sum = o.escrow := by
  cases h with
  | free reward => simp [TaskOrder.escrow, reward]
  | locked pos cents status lock => simp [TaskOrder.escrow, status, lock.delta]
  | released pos cents status lock release =>
    have : o.status.finished = true := by rcases status with hs | hs <;> rw [hs] <;> rfl
    simp [TaskOrder.escrow, this, lock.delta, release.delta]

theorem Ledgered.payee {o : TaskOrder} {rs : List LedgerEntry} (h : Ledgered H o rs) :
    (rs.filter fun r => r.kind != .escrowLock).length ≤ 1 ∧
    ∀ r ∈ rs.filter fun r => r.kind != .escrowLock,
      r.account = safeId H o.payee ∧ r.delta = o.reward := by
  cases h with
  | free reward => exact ⟨Nat.zero_le 1, fun r hr => by cases hr⟩
  | locked pos cents status lock => simp [lock.kind]
  | released pos cents status lock release =>
    have hne : o.status ≠ .completed := by rcases status with hs | hs <;> rw [hs] <;> simp
    simp [lock.kind, release.kind, TaskOrder.payee, hne, release.account, release.delta]

/-- **Escrow is conserved** in runs of careful calls, from any balances in whole hundredths:

    * balances and escrow add up to what there was at the start;
    * the ledgers hold for an order its reward until it ends, and nothing afterwards;
    * an order is paid back at most once, with its reward, to its creator (to its claimant if
      it has been accepted). -/
theorem escrow_conserved {credits : Dict String ℚ} (hb : Books { credits := credits })
    (h : Reach (Market.step H) (Careful H) { credits := credits } w) :
    w.balances + w.escrow = (credits.map Prod.snd).sum ∧
    ∀ k o, w.orders.get k = some o →
      w.held k = (if o.status.finished then 0 else o.reward) ∧
      (w.released k).length ≤ 1 ∧
      ∀ r ∈ w.released k, r.account = safeId H o.payee ∧ r.delta = o.reward := by
  have inv : Sound H (credits.map Prod.snd).sum w := by
    refine h.invariant (P := Sound H _) ⟨hb, ?_, List.nodup_nil, ?_, fun _ => rfl⟩ ?_
    · intro k o hk
      cases hk
    · exact add_zero _
    · intro w c w' hi hc hs
      exact hi.step hc hs
  refine ⟨inv.conserved, fun k o ho => ?_⟩
  have hl := inv.ledgered ho
  exact ⟨hl.held, hl.payee⟩

/-! ## Samples -/

/-- The balances of two agents. -/
def sampleCredits : Dict String ℚ := [("alice", 100), ("bob", 100)]

/-- An order that is done and accepted. -/
def paidCalls : List MarketCall :=
  [.createOrder "alice" "0a" 10 0 0, .claim "bob" "0a" none 1, .submit "bob" "0a" "done" 2,
    .accept "alice" "0a" 5 "" 3]

/-- The credits that there are, held ones included. -/
def Market.funds (w : Market) : ℚ := w.balances + w.escrow

/-- **The reward of an accepted order is nobody's**: it leaves the balance of the creator, and
    no balance gets it. -/
theorem accepted_unpaid :
    ((run (Market.step checksumHost) { credits := sampleCredits } paidCalls).map
      fun w => (w.statusOf "0a", w.credits, w.funds)) =
      some (some .completed, [("alice", 90), ("bob", 100)], 190) ∧
    (run (Market.step checksumHost) { credits := sampleCredits } (paidCalls.take 3)).map
      Market.funds = some 200 := by
  decide +kernel

/-- The statement for an order that is made and cancelled. -/
theorem escrow_conserved_sample : ∃ w : Market, w.statusOf "0a" = some .cancelled ∧
    w.balances + w.escrow = (sampleCredits.map Prod.snd).sum := by
  have hrun : ((Market.step checksumHost { credits := sampleCredits }
      (.createOrder "alice" "0a" 10 0 0)).bind fun w => (w.step checksumHost
        (.cancel "alice" "0a" 1)).map fun w' => (w.statusOf "0a", w'.statusOf "0a")) =
      some (some .open_, some .cancelled) := by
    decide +kernel
  obtain ⟨w, hw, hrun⟩ := Option.bind_eq_some_iff.1 hrun
  obtain ⟨w', hw', hstatus⟩ := Option.map_eq_some_iff.1 hrun
  obtain ⟨hopen, hend⟩ := Prod.mk.inj hstatus
  have hb : Books { credits := sampleCredits } := by
    refine ⟨by decide, fun p hp => ?_⟩
    have : p.2 = 100 := by
      simp only [sampleCredits, List.mem_cons, List.not_mem_nil, or_false] at hp
      rcases hp with rfl | rfl <;> rfl
    rw [this]
    exact ⟨⟨10000, by norm_num⟩, by norm_num⟩
  have hc₀ : Careful checksumHost { credits := sampleCredits }
      (.createOrder "alice" "0a" 10 0 0) := fun _ _ => ⟨1000, by norm_num⟩
  have h₁ : Reach (Market.step checksumHost) (Careful checksumHost) { credits := sampleCredits } w :=
    Reach.start.step hc₀ hw
  have hc : Careful checksumHost w (.cancel "alice" "0a" 1) := by
    intro o ho _ hs
    rw [Market.statusOf, ho, Option.map_some, hs] at hopen
    cases hopen
  exact ⟨w', hend, (escrow_conserved hb (h₁.step hc hw')).1⟩

end Marketplace

end NthDao
