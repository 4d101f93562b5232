/-
  The life of an order.

  * `Lifecycle`: the changes of status;
  * `StartsClaimed`: `start_work` gets to claimed orders and to those in progress
    only (it does not look at the status);
  * `order_lifecycle`: in such runs an order takes these changes only, and a
    finished one stays as it is, but that an expired order may be cancelled;
  * `expired_then_cancelled`: it may.
-/
import NthDao.Marketplace.Orders
import NthDao.Reach

namespace NthDao

open Py Runs

namespace Marketplace

variable {H : Host}

/-! ## Changes of an order -/

/-- The changes of status. -/
inductive Lifecycle : OrderStatus → OrderStatus → Prop where
  | claim : Lifecycle .open_ .claimed
  | start : Lifecycle .claimed .inProgress
  | submitClaimed : Lifecycle .claimed .submitted
  | submit : Lifecycle .inProgress .submitted
  | accept : Lifecycle .submitted .completed
  | reject : Lifecycle .submitted .open_
  | cancel : Lifecycle .open_ .cancelled
  | cancelExpired : Lifecycle .expired .cancelled
  | failClaimed : Lifecycle .claimed .failed
  | fail : Lifecycle .inProgress .failed
  | expire : Lifecycle .open_ .expired
  | lapseClaimed : Lifecycle .claimed .open_
  | lapse : Lifecycle .inProgress .open_

/-- Who has claimed an order, and the result of the work. -/
def TaskOrder.outcome (o : TaskOrder) :
    String × String × Option ℤ × ℚ × String × Option ℤ :=
  (o.claimant, o.submissionProof, o.submissionAt, o.rating, o.feedback, o.completedAt)

/-- An order before and after a call. -/
inductive Next (o o' : TaskOrder) : Prop where
  | stays (status : o'.status = o.status) (outcome : o'.outcome = o.outcome)
  | moves (status : Lifecycle o.status o'.status)
      (outcome : o.status = .expired → o'.outcome = o.outcome)

/-- A file before and after a call: a new order is open, and no order goes. -/
def FileStep : Option TaskOrder → Option TaskOrder → Prop
  | none, none => True
  | none, some o => o.status = .open_
  | some o, some o' => Next o o'
  | some _, none => False

theorem FileStep.refl (x : Option TaskOrder) : FileStep x x := by
  cases x with
  | none => trivial
  | some o => exact .stays rfl rfl

/-- A `start_work` that gets to the order finds it claimed or in progress. -/
def StartsClaimed (w : Market) : MarketCall → Prop
  | .startWork agent k _ => ∀ o, w.orders.get k = some o → o.claimant = agent →
      o.status = .claimed ∨ o.status = .inProgress
  | _ => True

variable {w w' : Market}

theorem Edit.next {c : MarketCall} {k : String} {o o' : TaskOrder} (h : Edit c o o')
    (hk : c.orderId = some k) (ho : w.orders.get k = some o) (hc : StartsClaimed w c) :
    Next o o' := by
  cases h with
  | claim status => exact .moves (status ▸ .claim) fun he => by rw [status] at he; cases he
  | startWork mine =>
    cases hk
    rcases hc o ho mine with hs | hs
    · exact .moves (hs ▸ .start) fun he => by rw [hs] at he; cases he
    · exact .stays hs.symm rfl
  | submit mine status =>
    rcases status with hs | hs
    · exact .moves (hs ▸ .submitClaimed) fun he => by rw [hs] at he; cases he
    · exact .moves (hs ▸ .submit) fun he => by rw [hs] at he; cases he
  | accept mine status => exact .moves (status ▸ .accept) fun he => by rw [status] at he; cases he
  | reject mine status => exact .moves (status ▸ .reject) fun he => by rw [status] at he; cases he
  | cancel mine status =>
    rcases status with hs | hs
    · exact .moves (hs ▸ .cancel) fun he => by rw [hs] at he; cases he
    · exact .moves (hs ▸ .cancelExpired) fun _ => rfl
  | fail mine status =>
    rcases status with hs | hs
    · exact .moves (hs ▸ .failClaimed) fun he => by rw [hs] at he; cases he
    · exact .moves (hs ▸ .fail) fun he => by rw [hs] at he; cases he

/-! ## Steps -/

/-- Only the file of the saved order changes. -/
theorem fileStep_save (hf : Filed w) {k : String} {o o' : TaskOrder}
    (ho : w.orders.get k = some o) (hid : o'.orderId = o.orderId) (hn : Next o o') (l : String) :
    FileStep (w.orders.get l) ((w.save o').orders.get l) := by
  rw [get_save, hid, hf k o ho]
  by_cases hl : l = k
  · rw [if_pos hl, hl, ho]
    exact hn
  · rw [if_neg hl]
    exact .refl _

/-- One file of `check_expired`. -/
theorem fileStep_expireFile (hf : Filed w) (agent : String) (now : ℤ) (k l : String) :
    FileStep (w.orders.get l) ((w.expireFile H agent now k).orders.get l) ∧
      Filed (w.expireFile H agent now k) ∧
      (l ≠ k → (w.expireFile H agent now k).orders.get l = w.orders.get l) := by
  have saved : ∀ {o o' : TaskOrder}, w.orders.get k = some o → Next o o' →
      o'.orderId = o.orderId → FileStep (w.orders.get l) ((w.save o').orders.get l) ∧
        Filed (w.save o') ∧ (l ≠ k → (w.save o').orders.get l = w.orders.get l) := by
    intro o o' ho hn hid
    refine ⟨fileStep_save hf ho hid hn l, hf.save o', fun hl => ?_⟩
    rw [get_save, hid, hf k o ho, if_neg hl]
  have opened : ∀ {o : TaskOrder}, o.expires now = true → o.status = .open_ := by
    intro o ho
    rw [TaskOrder.expires, Bool.and_eq_true, beq_iff_eq] at ho
    exact ho.1
  have expires : ∀ {o : TaskOrder}, o.expires now = true → Next o { o with
      status := .expired
      timeline := o.timeline ++ [⟨.expired, "system", now⟩] } := by
    intro o ho
    exact .moves (opened ho ▸ .expire) fun _ => rfl
  have hch := expireFile_cases (H := H) w agent now k
  generalize w.expireFile H agent now k = w₁ at hch ⊢
  cases hch with
  | same => exact ⟨.refl _, hf, fun _ => rfl⟩
  | expired found old free => exact saved found (expires old) rfl
  | refunded found old pos paid =>
    have ho := transferCredits_orders paid
    obtain ⟨h₁, h₂, h₃⟩ := saved found (expires old) rfl
    rw [ho]
    exact ⟨h₁, h₂.of_orders ho, h₃⟩
  | refused found old pos paid => exact saved found (expires old) rfl
  | lapsed found old =>
    refine saved found ?_ rfl
    rw [TaskOrder.claimLapses, Bool.and_eq_true, Bool.or_eq_true, beq_iff_eq, beq_iff_eq] at old
    rcases old.1 with hs | hs
    · exact .moves (hs ▸ .lapseClaimed) fun he => by rw [hs] at he; cases he
    · exact .moves (hs ▸ .lapse) fun he => by rw [hs] at he; cases he

/-- The loop of `check_expired` comes to every file once. -/
theorem fileStep_checkExpired (hf : Filed w) (agent : String) {files : List String}
    (hn : files.Nodup) (now : ℤ) (l : String) :
    FileStep (w.orders.get l) ((w.checkExpired H agent files now).orders.get l) ∧
      Filed (w.checkExpired H agent files now) ∧
      (l ∉ files → (w.checkExpired H agent files now).orders.get l = w.orders.get l) := by
  induction files generalizing w with
  | nil => exact ⟨.refl _, hf, fun _ => rfl⟩
  | cons k files ih =>
    rw [List.nodup_cons] at hn
    obtain ⟨h₁, h₂, h₃⟩ := fileStep_expireFile (H := H) hf agent now k l
    obtain ⟨h₄, h₅, h₆⟩ := ih h₂ hn.2
    have hfold : w.checkExpired H agent (k :: files) now =
        (w.expireFile H agent now k).checkExpired H agent files now := rfl
    rw [hfold]
    refine ⟨?_, h₅, fun hl => ?_⟩
    · by_cases hl : l = k
      · rw [h₆ (hl ▸ hn.1)]
        exact h₁
      · rw [h₃ hl] at h₄
        exact h₄
    · rw [List.mem_cons, not_or] at hl
      rw [h₆ hl.2, h₃ hl.1]

/-- One call. -/
theorem fileStep_step (hf : Filed w) {c : MarketCall} (hc : StartsClaimed w c)
    (hs : w.step H c = some w') (l : String) :
    FileStep (w.orders.get l) (w'.orders.get l) ∧ Filed w' := by
  rw [Market.step] at hs
  split_ifs at hs with hwf
  split at hs
  · rename_i w₁ hcall
    cases hs
    cases call_cases hcall with
    | @created agent orderId reward minReputation now w₁ nonneg covered locked =>
      have ho : w₁.orders = w.orders := by
        split_ifs at locked
        · exact transferCredits_orders locked
        · rw [locked]
      refine ⟨?_, (hf.of_orders ho).save _⟩
      rw [get_save, ho]
      show FileStep _ (if l = orderId then _ else _)
      by_cases hl : l = orderId
      · have hnew : w.orders.get l = none := by
          simp only [Market.wellFormed, Bool.not_eq_true'] at hwf
          rw [hl, Dict.get_eq_none, ← Dict.has_eq_false]
          exact hwf
        rw [if_pos hl, hnew]
        rfl
      · rw [if_neg hl]
        exact .refl _
    | edited about found edit paid =>
      have ho := paid.orders
      have hn := edit.next about found hc
      refine ⟨?_, (hf.of_orders ho).save _⟩
      have := fileStep_save (hf.of_orders ho) (ho ▸ found) edit.frame.1 hn l
      rwa [ho] at this
    | checked =>
      simp only [Market.wellFormed, beq_iff_eq] at hwf
      obtain ⟨h₁, h₂, -⟩ := fileStep_checkExpired (H := H) hf _ (hwf ▸ List.nodup_dedup _) _ l
      exact ⟨h₁, h₂⟩
  · cases hs
    exact ⟨.refl _, hf⟩

/-! ## Runs -/

/-- A finished order stays as it is, but for the cancellation of an expired one. -/
structure Stays (o o' : TaskOrder) : Prop where
  outcome : o'.outcome = o.outcome
  status : o'.status = o.status ∨ o.status = .expired ∧ o'.status = .cancelled

theorem Stays.finished {o o' : TaskOrder} (h : Stays o o') (hf : o.status.finished = true) :
    o'.status.finished = true := by
  rcases h.status with hs | ⟨-, hs⟩
  · rwa [hs]
  · rw [hs]
    rfl

/-- What a change does to a finished order. -/
theorem Next.stays_of_finished {o o' : TaskOrder} (h : Next o o')
    (hf : o.status.finished = true) : Stays o o' := by
  cases h with
  | stays status outcome => exact ⟨outcome, .inl status⟩
  | moves status outcome =>
    revert hf outcome
    generalize hs : o.status = s at *
    generalize hs' : o'.status = s' at *
    cases status
    all_goals intro hf
    all_goals first
      | (cases hf; done)
      | exact fun outcome => ⟨outcome rfl, .inr ⟨hs, hs'⟩⟩

theorem Stays.trans {o o' o'' : TaskOrder} (h : Stays o o') (h' : Stays o' o'') : Stays o o'' := by
  refine ⟨h'.outcome.trans h.outcome, ?_⟩
  rcases h'.status with hs' | ⟨hs', hs''⟩
  · rw [hs']
    exact h.status
  · rcases h.status with hs | ⟨-, hs⟩
    · exact .inr ⟨hs ▸ hs', hs''⟩
    · rw [hs] at hs'
      cases hs'

theorem filed_of_reach {credits : Dict String ℚ}
    (h : Reach (Market.step H) StartsClaimed { credits := credits } w) : Filed w := by
  refine h.invariant (P := Filed) (fun k o hk => by cases hk) ?_
  intro w c w' hf hc hs
  exact (fileStep_step hf hc hs "").2

/-- **The life of an order**: when `start_work` gets to claimed orders and to those in
    progress only, every call moves every order along the lifecycle or not at all, and
    a completed, failed or cancelled order keeps its status, claimant and result for ever,
    an expired one until its creator cancels it. -/
theorem order_lifecycle {credits : Dict String ℚ}
    (h : Reach (Market.step H) StartsClaimed { credits := credits } w) :
    (∀ c w', StartsClaimed w c → w.step H c = some w' →
      ∀ k, FileStep (w.orders.get k) (w'.orders.get k)) ∧
    ∀ w', Reach (Market.step H) StartsClaimed w w' → ∀ k o, w.orders.get k = some o →
      o.status.finished = true → ∃ o', w'.orders.get k = some o' ∧ Stays o o' := by
  have hf := filed_of_reach h
  refine ⟨fun c w' hc hs k => (fileStep_step hf hc hs k).1, fun w' h' k o ho hfin => ?_⟩
  have inv : Filed w' ∧ ∃ o', w'.orders.get k = some o' ∧ Stays o o' := by
    refine h'.invariant (P := fun w' => Filed w' ∧ ∃ o', w'.orders.get k = some o' ∧ Stays o o')
      ⟨hf, o, ho, rfl, .inl rfl⟩ ?_
    rintro w₁ c w₂ ⟨hf₁, o₁, ho₁, hst⟩ hc hs
    obtain ⟨hstep, hf₂⟩ := fileStep_step hf₁ hc hs k
    refine ⟨hf₂, ?_⟩
    rw [ho₁] at hstep
    cases ho₂ : w₂.orders.get k with
    | none => rw [ho₂] at hstep; cases hstep
    | some o₂ =>
      rw [ho₂] at hstep
      exact ⟨o₂, rfl, hst.trans (hstep.stays_of_finished (hst.finished hfin))⟩
  exact inv.2

/-! ## Samples -/

/-- An order that nobody claims for eight days, and its creator cancels. -/
def sampleCalls : List MarketCall :=
  [.createOrder "alice" "0a" 0 0 0, .checkExpired "bob" ["0a"] 691200000000,
    .cancel "alice" "0a" 691200000001]

/-- The status of an order. -/
def Market.statusOf (w : Market) (k : String) : Option OrderStatus :=
  (w.orders.get k).map TaskOrder.status

/-- **An expired order is cancelled**: its status changes once more. -/
theorem expired_then_cancelled :
    ((run (Market.step checksumHost) { credits := [] } (sampleCalls.take 2)).bind fun w =>
      w.statusOf "0a") = some .expired ∧
    ((run (Market.step checksumHost) { credits := [] } sampleCalls).bind fun w =>
      w.statusOf "0a") = some .cancelled := by
  decide

/-- The statement for a market of one order that has expired. -/
theorem order_lifecycle_sample : ∃ w o, w.orders.get "0a" = some o ∧ o.status = .expired ∧
    ∀ w', Reach (Market.step checksumHost) StartsClaimed w w' →
      ∃ o', w'.orders.get "0a" = some o' ∧ Stays o o' := by
  have hstep : ∃ w, run (Market.step checksumHost) { credits := [] } (sampleCalls.take 2) =
      some w ∧ w.statusOf "0a" = some .expired := by
    have h := expired_then_cancelled.1
    rw [Option.bind_eq_some_iff] at h
    exact h
  obtain ⟨w, hw, hs⟩ := hstep
  obtain ⟨o, ho, hso⟩ := Option.map_eq_some_iff.1 hs
  have hreach : Reach (Market.step checksumHost) StartsClaimed { credits := [] } w :=
    reach_of_run .start hw fun s c hc => by
      simp only [sampleCalls, List.take_succ_cons, List.take_zero, List.mem_cons,
        List.not_mem_nil, or_false] at hc
      rcases hc with rfl | rfl <;> trivial
  exact ⟨w, o, ho, hso, fun w' h' => (order_lifecycle hreach).2 w' h' "0a" o ho (by rw [hso]; rfl)⟩

end Marketplace

end NthDao
