/-
  Committed payments and blocked attempts.

  * `Effect`: what a step does to the stored attempts and to the receipts of the
    rail;
  * `operate_state`: the state of an attempt after an operation, and the lease
    that a block needs;
  * `no_dead_end`: no attempt is blocked while the rail holds a receipt for its
    key, in runs where no executor gives up on a committed payment;
  * `committed_payment_blocked`: the executor does give up on one when `pay`
    commits and raises on the last allowed attempt.
-/
import NthDao.Commerce.AttemptChain
import NthDao.Commerce.AttemptRuns
import NthDao.Commerce.OnePayment

namespace NthDao

open Py

variable {H : Host}

/-! ## Giving up -/

/-- Whether the executor blocks the attempt on this error: it does not say that
    the payment may have committed, and it is permanent or comes on the last
    allowed attempt. -/
def givesUp (config : ExecutorConfig) (claimed : View) : Exc → Bool
  | .settlementFailed f => !f.paymentMayHaveCommitted &&
    (permanentSettlementFailures.contains f.reason || config.maxAttempts ≤ claimed.attempts)
  | .tradeConflict | .tradeRejected _ | .connectionError | .osError | .runtimeError
  | .attemptConflict | .timeoutError => config.maxAttempts ≤ claimed.attempts
  | .attemptRejected _ | .valueError | .typeError | .attributeError => false

theorem retryOrBlock_eq_block {config : ExecutorConfig} {claimed : View} {e : Exc} {permanent : Bool}
    {lease code : String} (h : retryOrBlock H config claimed e permanent = .block lease code) :
    (permanent || config.maxAttempts ≤ claimed.attempts) = true ∧
      lease = viewText claimed.leaseId := by
  unfold retryOrBlock at h
  split_ifs at h with hc
  cases h
  exact ⟨hc, rfl⟩

/-- The executor blocks only when it gives up, under its lease. -/
theorem executorResponse_eq_block {config : ExecutorConfig} {claimed : View} {e : Exc}
    {lease code : String} (h : executorResponse H config claimed e = some (.block lease code)) :
    givesUp config claimed e = true ∧ lease = viewText claimed.leaseId := by
  cases e with
  | settlementFailed f =>
    simp only [executorResponse] at h
    split_ifs at h with hf
    · cases h
    · obtain ⟨hp, hl⟩ := retryOrBlock_eq_block (Option.some_inj.1 h)
      refine ⟨?_, hl⟩
      rw [givesUp, hp, Bool.and_true, Bool.not_eq_true']
      exact Bool.eq_false_iff.2 hf
  | tradeConflict | tradeRejected _ | connectionError | osError | runtimeError | attemptConflict
  | timeoutError =>
    obtain ⟨hp, hl⟩ := retryOrBlock_eq_block (Option.some_inj.1 h)
    exact ⟨hp, hl⟩
  | attemptRejected _ | valueError | typeError | attributeError => cases h

theorem executorResponse_ne_create {config : ExecutorConfig} {claimed : View} {e : Exc}
    {intent : SettlementIntent} {adapterId : String} :
    executorResponse H config claimed e ≠ some (.create intent adapterId) := by
  have hr : ∀ e permanent, retryOrBlock H config claimed e permanent ≠ .create intent adapterId := by
    intro e permanent h
    unfold retryOrBlock at h
    split_ifs at h
  intro h
  cases e with
  | settlementFailed f =>
    simp only [executorResponse] at h
    split_ifs at h
    · cases h
    · exact hr _ _ (Option.some_inj.1 h)
  | tradeConflict | tradeRejected _ | connectionError | osError | runtimeError | attemptConflict
  | timeoutError => exact hr _ _ (Option.some_inj.1 h)
  | attemptRejected _ | valueError | typeError | attributeError => cases h

/-! ## What a step does to attempts and receipts -/

/-- The receipt that `pay` commits. -/
def PayOutcome.committed : PayOutcome → Option RailReturn
  | .paid ret | .lost ret _ => some ret
  | .refused _ => none

/-- The step is the end of an executor that gives the attempt `id` up under `lease`. -/
def GivesUp (w : World H) (a : Action H) (id lease : String) : Prop :=
  ∃ i clock now c e config claimed, a = .handle i clock now ∧ w.workers i = .failing c e ∧
    c.job = .executor config claimed ∧ givesUp config claimed e = true ∧
    id = viewText claimed.attemptId ∧ lease = viewText claimed.leaseId

/-- What the step `a` from `w` to `w'` does to the attempts and the receipts. -/
inductive Effect (w : World H) (a : Action H) (w' : World H) : Prop
  | nothing : w'.attempts = w.attempts → w'.rail = w.rail → Effect w a w'
  | stores (id : String) (events : List Json) (call : AttemptCall H) :
      w.operate id call.actor call.createdAtMs call.now call.op = .ok (some events) →
      (∀ intent adapterId, call.op = .create intent adapterId →
        settlementIdempotencyKey H intent = .ok id) →
      (∀ lease code, call.op = .block lease code → GivesUp w a id lease) →
      w'.attempts = Function.update w.attempts id (some events) → w'.rail = w.rail →
      Effect w a w'
  | commits (i : ℕ) (c : Settling H) (key : String) (outcome : PayOutcome) (ret : RailReturn) :
      a = .pay i outcome → w.workers i = .absent c key → outcome.committed = some ret →
      w'.attempts = w.attempts → w'.rail = Function.update w.rail key (some ret) → Effect w a w'

/-- An operation that a worker concludes with. -/
theorem Effect.conclude {w : World H} {a : Action H} {i : ℕ} {id : String} {actor : H.SecretKey}
    {at' now : ℤ} {op : AttemptOp} (hcreate : ∀ intent adapterId, op ≠ .create intent adapterId)
    (hblock : ∀ lease code, op = .block lease code → GivesUp w a id lease) :
    Effect w a (w.conclude i id actor at' now op) := by
  unfold World.conclude
  split
  · rename_i events h
    exact .stores id events ⟨op, actor, at', now, "", 0⟩ h (fun _ _ hc => absurd hc (hcreate _ _))
      hblock rfl rfl
  · exact .nothing rfl rfl

theorem Effect.recordResult (w : World H) (a : Action H) (i : ℕ) (c : Settling H)
    (seen : Option RailReturn) (t t' : ℤ) : Effect w a (w.recordResult i c seen t t') := by
  unfold World.recordResult
  split
  · exact .nothing rfl rfl
  · split
    · exact .nothing rfl rfl
    · exact .nothing rfl rfl

theorem World.step_effect {w w' : World H} {a : Action H} (hs : w.step a = some w') :
    Effect w a w' := by
  cases a with
  | create actor intent adapterId at' now =>
    simp only [World.step, World.create] at hs
    split at hs
    · cases hs
    · rename_i id hk
      split at hs
      · rename_i events h
        cases hs
        refine .stores id events ⟨.create intent adapterId, actor, at', now, "", 0⟩ h ?_ ?_ rfl rfl
        · rintro _ _ ⟨⟩; exact hk
        · rintro _ _ ⟨⟩
      · cases hs
  | claim i id config actor network ov clock now lease =>
    simp only [World.step, World.claim] at hs
    split at hs
    · split at hs
      · rename_i events h
        have heff : w'.attempts = Function.update w.attempts id (some events) ∧ w'.rail = w.rail := by
          split at hs
          · cases hs; exact ⟨rfl, rfl⟩
          · cases hs; exact ⟨rfl, rfl⟩
        exact .stores id events ⟨.claim config.leaseMs lease, actor, timestamp ov clock, now, "", 0⟩
          h (by rintro _ _ ⟨⟩) (by rintro _ _ ⟨⟩) heff.1 heff.2
      · cases hs
    · cases hs
  | pay i outcome =>
    simp only [World.step, World.pay] at hs
    split at hs
    · rename_i c key hw
      split at hs
      · cases hs; exact .nothing rfl rfl
      · cases hs; exact .commits i c key _ _ rfl hw rfl rfl rfl
      · cases hs; exact .nothing rfl rfl
      · cases hs; exact .commits i c key _ _ rfl hw rfl rfl rfl
      · cases hs; exact .nothing rfl rfl
    · cases hs
  | record i t t' =>
    simp only [World.step, World.record] at hs
    split at hs
    · split_ifs at hs
      cases hs; exact .recordResult ..
    · cases hs; exact .recordResult ..
    · cases hs
  | handle i clock now =>
    simp only [World.step, World.handle] at hs
    split at hs
    · rename_i c e hw
      split at hs
      · cases hs; exact .nothing rfl rfl
      · cases hs; exact .nothing rfl rfl
      · rename_i config claimed hj
        split at hs
        · cases hs; exact .nothing rfl rfl
        · rename_i op hop
          cases hs
          refine .conclude (fun _ _ hc => ?_) fun lease code hb => ?_
          · rw [hc] at hop; exact executorResponse_ne_create hop
          · rw [hb] at hop
            obtain ⟨hg, hl⟩ := executorResponse_eq_block hop
            exact ⟨i, clock, now, c, e, config, claimed, rfl, hw, hj, hg, rfl, hl⟩
    · cases hs
  | finish i clock now =>
    simp only [World.step, World.finish] at hs
    split at hs
    · split at hs
      · cases hs; exact .conclude (by rintro _ _ ⟨⟩) (by rintro _ _ ⟨⟩)
      · cases hs; exact .conclude (by rintro _ _ ⟨⟩) (by rintro _ _ ⟨⟩)
      · cases hs; exact .nothing rfl rfl
    · cases hs
  | settle _ _ | reconcile _ _ _ _ _ _ | read _ | preflight _ _ | lookup _ _ | crash _ | trade _ =>
    have h : w'.attempts = w.attempts ∧ w'.rail = w.rail := by
      simp only [World.step, World.reconcile, World.read, World.preflight, World.lookup] at hs
      repeat' split at hs
      all_goals first | (cases hs; done) | (cases hs; exact ⟨rfl, rfl⟩)
    exact .nothing h.1 h.2

/-! ## The state after an operation -/

theorem AttemptEvent.fromDict_toDict (e : AttemptEvent) :
    AttemptEvent.fromDict e.toDict.fields = e := by
  simp [AttemptEvent.fromDict, AttemptEvent.toDict, Json.get, Json.lookup_cons]

/-- The state of a view is the one its last event leads to. -/
theorem projectVerified_state {events : List Json} (hne : events ≠ []) (e : AttemptEvent) :
    (projectVerified (events ++ [e.toDict])).state = e.newState := by
  obtain ⟨raw, es, rfl⟩ := List.exists_cons_of_ne_nil hne
  rw [List.cons_append, projectVerified, List.foldl_append, List.foldl_cons, List.foldl_nil]
  simp only [View.step, AttemptEvent.fromDict_toDict]
  split <;> rfl

/-- The lease `lease` of the attempt is current. -/
def HoldsLease (events : List Json) (lease : String) : Prop :=
  (projectVerified events).state = .str AttemptState.inflight.wire ∧
    (projectVerified events).leaseId = .str lease

/-- A block is accepted under the current lease only. -/
theorem holdsLease_of_block {id lease code : String} {actor : H.SecretKey} {at' now : ℤ}
    {stored : Option (List Json)} {candidate : List Json}
    (h : (AttemptOp.block lease code).next H id actor at' now stored = .ok (some candidate)) :
    ∃ events, stored = some events ∧ HoldsLease events lease := by
  simp only [AttemptOp.next, appendEvents, extendEvents, bind_eq_ok, expect_eq_ok, pure_eq_ok,
    Option.some_inj] at h
  obtain ⟨events, hs, ⟨⟩, hex, _, ⟨_, -, e, he, t, ht, rfl⟩, rfl⟩ := h
  have hne := checkExisting_ne_nil hex
  obtain ⟨-, b, -, rfl⟩ := signAttemptEvent_eq_ok he
  obtain ⟨u, mv, at', hag, hm, hen⟩ := verifyPaymentAttempt_last H hne ht
  have hpay := hm.payload
  have htype := congrArg AttemptType.ofWire hm.type
  rw [AttemptEvent.fromDict_toDict] at hpay htype
  rw [AttemptType.ofWire_str, AttemptType.ofWire_str, Option.some_inj] at htype
  cases mv with
  | blocked l c =>
    refine ⟨events, hs, ?_, ?_⟩
    · rw [hag.state, hen.1]
    · rw [hag.leaseId, ← hen.2]
      exact hpay.1.symm
  | claimed _ _ | retry _ _ _ | settled _ _ | orphaned _ _ _ _ | reconciled _ _ =>
    cases htype

/-- **The state of an attempt after an operation** is the one it leads to, and a
    block needs the current lease. -/
theorem operate_state {w : World H} {call : AttemptCall H} {id : String} {events : List Json}
    (hid : ∀ intent adapterId, call.op = .create intent adapterId →
      settlementIdempotencyKey H intent = .ok id)
    (h : w.operate id call.actor call.createdAtMs call.now call.op = .ok (some events)) :
    (projectVerified events).state = .str call.op.newState.wire ∧
      ∀ lease code, call.op = .block lease code →
        ∃ before, w.attempts id = some before ∧ HoldsLease before lease := by
  simp only [World.operate, bind_eq_ok] at h
  obtain ⟨⟨⟩, hcheck, h⟩ := h
  refine ⟨?_, fun lease code hop => ?_⟩
  · rcases next_cases hid hcheck h with
      ⟨-, _, _, _, e, hop, -, -, rfl⟩ | ⟨before, -, e, -, rfl, -, -, hn, hne⟩
    · rw [hop]; rfl
    · rw [projectVerified_state hne e, hn]
  · rw [hop] at h
    exact holdsLease_of_block h

/-! ## Runs -/

/-- No executor gives up on a committed payment, and nobody commits a payment of
    a blocked attempt: an executor that gives up under the current lease does so
    before the rail has a receipt, and a worker that saw no receipt does not pay
    after the attempt was blocked. -/
def KeepsRecoverable (w : World H) : Action H → Prop
  | .handle i _ _ => ∀ c e config claimed events, w.workers i = .failing c e →
    c.job = .executor config claimed → givesUp config claimed e = true →
    w.attempts (viewText claimed.attemptId) = some events →
    HoldsLease events (viewText claimed.leaseId) → w.rail (viewText claimed.attemptId) = none
  | .pay i outcome => ∀ c key ret events, w.workers i = .absent c key →
    outcome.committed = some ret → w.attempts key = some events →
    (projectVerified events).state ≠ .str AttemptState.blocked.wire
  | _ => True

/-- Every stored attempt has a state, and a blocked one has no receipt. -/
def Recoverable (w : World H) : Prop :=
  ∀ id events, w.attempts id = some events → ∃ st : AttemptState,
    (projectVerified events).state = .str st.wire ∧ (st = .blocked → w.rail id = none)

theorem Recoverable.step {w w' : World H} {a : Action H} (h : Recoverable w)
    (hc : KeepsRecoverable w a) (hs : w.step a = some w') : Recoverable w' := by
  cases World.step_effect hs with
  | nothing ha hr => unfold Recoverable; rw [ha, hr]; exact h
  | stores id events call hop hid hblock ha hr =>
    obtain ⟨hstate, hlease⟩ := operate_state hid hop
    intro id' events' he
    rw [ha] at he
    rw [hr]
    by_cases hid' : id' = id
    · subst hid'
      rw [Function.update_self, Option.some_inj] at he
      subst he
      refine ⟨call.op.newState, hstate, fun hb => ?_⟩
      cases hcall : call.op with
      | block lease code =>
        obtain ⟨before, hbefore, hl⟩ := hlease lease code hcall
        obtain ⟨i, clock, now, c, e, config, claimed, rfl, hw, hj, hg, rfl, rfl⟩ :=
          hblock lease code hcall
        exact hc c e config claimed before hw hj hg hbefore hl
      | create _ _ | claim _ _ | scheduleRetry _ _ _ | recordSettled _ _ | recordOrphaned _ _ _ _
      | recordReconciled _ _ => rw [hcall] at hb; cases hb
    · rw [Function.update_of_ne hid'] at he
      exact h id' events' he
  | commits i c key outcome ret hact hw hout ha hr =>
    subst hact
    intro id events he
    rw [ha] at he
    obtain ⟨st, hst, hblocked⟩ := h id events he
    refine ⟨st, hst, fun hb => ?_⟩
    subst hb
    by_cases hid : id = key
    · subst hid
      exact absurd hst (hc c id ret events hw hout he)
    · rw [hr, Function.update_of_ne hid]
      exact hblocked rfl

/-- **Committed payments stay recoverable.**  In every run from an empty store
    whose steps keep them so, an attempt with a committed receipt is pending,
    inflight, settled or orphaned, and not blocked. -/
theorem no_dead_end {w₀ w : World H} (h₀ : ∀ id, w₀.attempts id = none)
    (hr : Runs.Reach World.step KeepsRecoverable w₀ w) {id : String} {events : List Json}
    (he : w.attempts id = some events) (hc : w.rail id ≠ none) :
    (projectVerified events).state ≠ .str AttemptState.blocked.wire ∧
      ∃ st ∈ [AttemptState.pending, .inflight, .settled, .orphaned],
        (projectVerified events).state = .str st.wire := by
  have h : Recoverable w := hr.invariant (fun id events he => by rw [h₀] at he; cases he)
    fun _ _ _ h hc hs => h.step hc hs
  obtain ⟨st, hst, hb⟩ := h id events he
  rw [hst]
  cases st with
  | blocked => exact absurd (hb rfl) hc
  | pending | inflight | settled | orphaned => exact ⟨by decide, _, by decide, rfl⟩

/-- An executor that makes one attempt. -/
def onceConfig : ExecutorConfig := { maxAttempts := 1 }

/-- The attempt to pay the sample trade. -/
def payerAttempt : String :=
  (settlementIdempotencyKey checksumHost (payerCall "").intent).toOption.getD ""

/-- The creation of the attempt. -/
def payerCreate : Action checksumHost :=
  .create (4 : UInt8) (payerCall "").intent adapterX402Testnet 1000 10

/-- An executor claims the attempt on its only try; the rail commits the payment
    and its answer is lost. -/
def lostAnswer : List (Action checksumHost) :=
  [payerCreate,
    .claim 0 payerAttempt onceConfig (4 : UInt8) (.str "aptos:2") 2000 0 10
      "00000000000000000000000000000000",
    .read 0, .read 0, .read 0, .read 0, .read 0, .preflight 0 10, .lookup 0 none,
    .pay 0 (.lost payerReceipt .timeoutError), .handle 0 0 10]

/-- The state of the attempt `id`. -/
def World.attemptState (w : World H) (id : String) : Option Json :=
  (w.attempts id).map fun events => (projectVerified events).state

/-- The key that worker 0 is about to pay, with the state of its attempt. -/
def World.aboutToPay (w : World H) : Option (String × Option Json) :=
  match w.workers 0 with
  | .absent _ key => some (key, w.attemptState key)
  | _ => none

/-- The run with the lost answer, and the run up to the payment. -/
theorem payer_runs :
    (Runs.run World.step payerWorld lostAnswer).map
        (fun w => (w.attemptState payerAttempt, (w.rail payerAttempt).isSome)) =
      some (some (.str AttemptState.blocked.wire), true) ∧
    (Runs.run World.step payerWorld (payerCreate :: upToLookup 0 "")).map World.aboutToPay =
      some (some (payerAttempt, some (.str AttemptState.pending.wire))) := by
  decide +kernel

/-- The run with the lost answer: the rail has committed the payment, and the attempt is blocked. -/
def lostAnswerRun : PLift ((Runs.run World.step payerWorld lostAnswer).map
    (fun w => (w.attemptState payerAttempt, (w.rail payerAttempt).isSome)) =
      some (some (.str AttemptState.blocked.wire), true)) := ⟨payer_runs.1⟩

/-- The rail has committed the payment, and the executor blocks the attempt. -/
theorem committed_payment_blocked :
    ¬ ∀ w, Runs.Reach World.step (fun _ _ => True) payerWorld w →
      ∀ id events, w.attempts id = some events → w.rail id ≠ none →
        (projectVerified events).state ≠ .str AttemptState.blocked.wire := by
  intro h
  obtain ⟨w, hw, hres⟩ := Option.map_eq_some_iff.1 lostAnswerRun.down
  obtain ⟨hstate, hrail⟩ := Prod.mk.inj hres
  obtain ⟨events, he, hstate⟩ := Option.map_eq_some_iff.1 hstate
  refine h w (Runs.reach_of_run .start hw fun _ _ _ => trivial) payerAttempt events he ?_ hstate
  exact Option.isSome_iff_ne_none.1 hrail

/-- The run up to the payment. -/
def upToPayment : PLift ((Runs.run World.step payerWorld
    (payerCreate :: upToLookup 0 "")).map World.aboutToPay =
      some (some (payerAttempt, some (.str AttemptState.pending.wire)))) := ⟨payer_runs.2⟩

/-- The sample trade is paid while its attempt is pending. -/
theorem no_dead_end_paid :
    ∃ (w : World checksumHost) (events : List Json), w.attempts payerAttempt = some events ∧
      w.rail payerAttempt ≠ none ∧
      (projectVerified events).state ≠ .str AttemptState.blocked.wire := by
  obtain ⟨w, hw, hpay⟩ := Option.map_eq_some_iff.1 upToPayment.down
  have hreach : Runs.Reach World.step KeepsRecoverable payerWorld w :=
    Runs.reach_of_run .start hw fun _ => by
      simp [payerCreate, upToLookup, KeepsRecoverable]
  unfold World.aboutToPay at hpay
  split at hpay
  · rename_i c key hworker
    rw [Option.some_inj, Prod.mk.injEq] at hpay
    obtain ⟨rfl, hstate⟩ := hpay
    obtain ⟨events, he, hstate⟩ := Option.map_eq_some_iff.1 hstate
    have hcond : KeepsRecoverable w (.pay 0 (.paid payerReceipt)) := by
      intro c' key' ret events' hw' _ he'
      rw [hworker] at hw'
      cases hw'
      rw [he] at he'
      cases he'
      rw [hstate]; decide
    obtain ⟨w', hs, ha, hr⟩ : ∃ w', w.step (.pay 0 (.paid payerReceipt)) = some w' ∧
        w'.attempts = w.attempts ∧ w'.rail payerAttempt ≠ none := by
      simp only [World.step, World.pay, hworker]
      cases hrail : w.rail payerAttempt with
      | none => exact ⟨_, rfl, rfl, by simp [World.goto, World.commit]⟩
      | some ret => exact ⟨_, rfl, rfl, by simp [World.goto, hrail]⟩
    rw [← ha] at he
    exact ⟨w', events, he, hr, (no_dead_end (fun _ => rfl) (hreach.step hcond hs) he hr).1⟩
  · cases hpay

end NthDao
