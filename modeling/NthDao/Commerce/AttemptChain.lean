/-
  The lease automaton that `verify_payment_attempt` checks.

  * `Move`: what an event after the creation does; `Enabled` when it may, and
    `Track.apply` what it changes;
  * `verifyAttemptStep_ok`: one turn of the loop accepts an enabled move;
  * `AttemptRun`: the moves of an accepted chain;
  * `verifyPaymentAttempt_sound`: the lease discipline of accepted chains, and
    the agreement of the verifier with `_project_verified`.
-/
import NthDao.Commerce.PaymentAttempt

namespace NthDao

open Py

variable (H : Host)

/-! ## Moves -/

/-- What an event after the creation does. -/
inductive Move where
  | claimed (lease : String) (expires : ℤ)
  | retry (lease error : String) (next : ℤ)
  | settled (lease : String) (settlement : Fields)
  | blocked (lease error : String)
  | orphaned (lease error reference digest : String)
  | reconciled (settlement : Fields) (digest : String)

/-- The event type of a move. -/
def Move.type : Move → AttemptType
  | .claimed .. => .claimed
  | .retry .. => .retryScheduled
  | .settled .. => .settled
  | .blocked .. => .blocked
  | .orphaned .. => .orphaned
  | .reconciled .. => .orphanReconciled

/-- The state a move leads to. -/
def Move.newState : Move → AttemptState
  | .claimed .. => .inflight
  | .retry .. => .pending
  | .settled .. => .settled
  | .blocked .. => .blocked
  | .orphaned .. => .orphaned
  | .reconciled .. => .settled

/-- The lease under which a move ends a claim. -/
def Move.lease : Move → Option String
  | .retry lease .. | .settled lease _ | .blocked lease _ | .orphaned lease .. => some lease
  | .claimed .. | .reconciled .. => none

/-- The payload of a move. -/
def Move.Payload (p : Fields) : Move → Prop
  | .claimed lease expires =>
    Json.get p "lease_id" = .str lease ∧ Json.get p "lease_expires_at_ms" = .int expires
  | .retry lease error next =>
    Json.get p "lease_id" = .str lease ∧ Json.get p "error_code" = .str error ∧
      Json.get p "next_attempt_at_ms" = .int next
  | .settled lease settlement =>
    Json.get p "lease_id" = .str lease ∧ Json.get p "settlement" = .obj settlement
  | .blocked lease error =>
    Json.get p "lease_id" = .str lease ∧ Json.get p "error_code" = .str error
  | .orphaned lease error reference digest =>
    Json.get p "lease_id" = .str lease ∧ Json.get p "error_code" = .str error ∧
      Json.get p "provider_reference" = .str reference ∧
      Json.get p "evidence_digest" = .str digest
  | .reconciled settlement digest =>
    Json.get p "settlement" = .obj settlement ∧ Json.get p "orphan_evidence_digest" = .str digest

/-- The event `raw` makes the move `m` at time `at'`. -/
structure Makes (raw : Json) (m : Move) (at' : ℤ) : Prop where
  type : (AttemptEvent.fromDict raw.fields).type = .str m.type.wire
  new : (AttemptEvent.fromDict raw.fields).newState = .str m.newState.wire
  time : (AttemptEvent.fromDict raw.fields).createdAtMs = .int at'
  payload : m.Payload (AttemptEvent.fromDict raw.fields).payload.fields

/-- The settlement `s` settles the intent under its key. -/
def SettlementOk (now : ℤ) (t : Track) (s : Fields) : Prop :=
  ∃ payer proof, Settles now s t.expected payer ∧ Json.get s "proof" = .obj proof ∧
    Json.get proof "idempotency_key" = .str t.attemptId

/-- When a move may be made. -/
def Enabled (now : ℤ) (t : Track) (at' : ℤ) : Move → Prop
  | .claimed _ expires =>
    ((t.state = .pending ∧ t.nextAttemptAtMs ≤ at') ∨
      (t.state = .inflight ∧ t.leaseExpiresAtMs ≤ at')) ∧
    at' + 1000 ≤ expires ∧ expires ≤ at' + 300000
  | .retry lease _ next => t.state = .inflight ∧ lease = t.leaseId ∧ at' ≤ next
  | .settled lease s => t.state = .inflight ∧ lease = t.leaseId ∧ SettlementOk now t s
  | .blocked lease _ | .orphaned lease .. => t.state = .inflight ∧ lease = t.leaseId
  | .reconciled s digest =>
    t.state = .orphaned ∧ digest = t.orphanEvidenceDigest ∧ SettlementOk now t s

/-- What a move changes. -/
def Track.apply (t : Track) (at' : ℤ) (hash : String) (m : Move) : Track :=
  let t := { t with state := m.newState, lastCreatedAtMs := at', prevHash := hash }
  match m with
  | .claimed lease expires =>
    { t with leaseId := lease, leaseExpiresAtMs := expires, nextAttemptAtMs := 0 }
  | .retry _ _ next => { t with leaseId := "", leaseExpiresAtMs := 0, nextAttemptAtMs := next }
  | .settled .. | .blocked .. => { t with leaseId := "", leaseExpiresAtMs := 0 }
  | .orphaned _ _ _ digest =>
    { t with leaseId := "", leaseExpiresAtMs := 0, orphanEvidenceDigest := digest }
  | .reconciled .. => { t with orphanEvidenceDigest := "" }

section Fields
variable (t : Track) (at' : ℤ) (hash : String) (m : Move)

@[simp] theorem Track.apply_state : (t.apply at' hash m).state = m.newState := by cases m <;> rfl
@[simp] theorem Track.apply_last : (t.apply at' hash m).lastCreatedAtMs = at' := by cases m <;> rfl
@[simp] theorem Track.apply_intent : (t.apply at' hash m).intent = t.intent := by cases m <;> rfl
@[simp] theorem Track.apply_attemptId : (t.apply at' hash m).attemptId = t.attemptId := by
  cases m <;> rfl
@[simp] theorem Track.apply_actorDid : (t.apply at' hash m).actorDid = t.actorDid := by
  cases m <;> rfl

end Fields

/-! ## One turn of the loop -/

@[simp] theorem AttemptType.ofWire_str (t : AttemptType) : AttemptType.ofWire (.str t.wire) = some t := by
  cases t <;> decide

theorem AttemptType.eq_of_ofWire {v : Json} {t : AttemptType} (h : AttemptType.ofWire v = some t) :
    v = .str t.wire := by
  have hb := List.find?_some h
  exact Json.eqStr_iff.1 hb

theorem verifyAttemptSettlement_ok {now : ℤ} {t : Track} {j : Json} {label binding : String}
    (h : verifyAttemptSettlement now t j label binding = .ok ()) :
    ∃ s, j = .obj s ∧ SettlementOk now t s := by
  unfold verifyAttemptSettlement at h
  rw [mapError_bind_eq_ok] at h
  obtain ⟨⟨⟩, hv, h⟩ := h
  obtain ⟨s, payer, rfl, hs⟩ := verifySettlement_ok_iff.1 hv
  rw [require_eq_ok, Bool.and_eq_true, Json.eqStr_iff] at h
  obtain ⟨ho, hk⟩ := h
  rw [Json.fields_obj] at ho hk
  cases hp : Json.get s "proof" with
  | obj proof => rw [hp] at hk; exact ⟨s, rfl, payer, proof, hs, hp, hk⟩
  | _ => rw [hp] at ho; cases ho

/-- What the metadata check has read. -/
theorem verifyMeta_ok {i : ℕ} {prevHash : String} {last : ℤ} {raw : Json} {m : Meta}
    (h : verifyMeta H i prevHash last raw = .ok m) :
    m.event = AttemptEvent.fromDict raw.fields ∧ m.payload = m.event.payload.fields ∧
      m.event.createdAtMs = .int m.createdAtMs ∧ last ≤ m.createdAtMs ∧
      m.event.attemptId = .str m.attemptId ∧ m.event.actorDid = .str m.actorDid := by
  unfold verifyMeta at h
  simp only [bind_eq_ok, require_eq_ok, expect_eq_ok, pure_eq_ok, positiveAmount_eq_some,
    decide_eq_true_iff, Json.asStr_eq_some] at h
  obtain ⟨_, -, _, -, _, -, id, hid, _, -, c, ⟨hc, -⟩, _, hle, did, hsig, hash, -, rfl⟩ := h
  unfold verifyAttemptSignature at hsig
  simp only [bind_eq_ok, expect_eq_ok, pure_eq_ok, Json.asStr_eq_some] at hsig
  obtain ⟨did', hdid, _, -, _, -, _, -, _, -, _, -, rfl⟩ := hsig
  exact ⟨rfl, rfl, hc, hle, hid, hdid⟩

/-- The checked event makes the enabled move `mv`. -/
structure Performs (now : ℤ) (t : Track) (m : Meta) (t' : Track) (mv : Move) : Prop where
  new : m.event.newState = .str mv.newState.wire
  payload : mv.Payload m.payload
  enabled : Enabled now t m.createdAtMs mv
  apply_eq : t' = t.apply m.createdAtMs m.hash mv

section Transitions
variable {now : ℤ} {t t' : Track} {m : Meta}

theorem verifyClaimed_ok (h : verifyClaimed t m = .ok t') :
    ∃ lease expires, Performs now t m t' (.claimed lease expires) := by
  unfold verifyClaimed at h
  simp only [bind_eq_ok, require_eq_ok, expect_eq_ok, pure_eq_ok, Json.asStr_eq_some,
    Json.asInt_eq_some, Bool.and_eq_true, Bool.or_eq_true, beq_iff_eq, bne_iff_ne, ne_eq,
    decide_eq_true_iff, Json.eqStr_iff] at h
  obtain ⟨_, hs, _, hp, _, hi, _, -, lease, hl, expires, he, _, ⟨⟨⟨-, h₁⟩, h₂⟩, hn⟩, rfl⟩ := h
  refine ⟨lease, expires, hn, ⟨hl, he⟩, ⟨?_, h₁, h₂⟩, rfl⟩
  rcases hs with hs | hs
  · exact .inl ⟨hs, hp.resolve_left fun hc => hc hs⟩
  · exact .inr ⟨hs, hi.resolve_left fun hc => hc hs⟩

theorem verifyRetry_ok (h : verifyRetry t m = .ok t') :
    ∃ lease error next, Performs now t m t' (.retry lease error next) := by
  unfold verifyRetry at h
  simp only [bind_eq_ok, require_eq_ok, expect_eq_ok, pure_eq_ok, Json.asStr_eq_some,
    Json.asInt_eq_some, Bool.and_eq_true, beq_iff_eq, decide_eq_true_iff, Json.eqStr_iff] at h
  obtain ⟨_, ⟨hs, hn⟩, _, -, _, hl, error, he, _, -, next, hx, _, hle, rfl⟩ := h
  exact ⟨t.leaseId, error, next, hn, ⟨hl, he, hx⟩, ⟨hs, rfl, hle⟩, rfl⟩

theorem verifySettled_ok (h : verifySettled now t m = .ok t') :
    ∃ lease s, Performs now t m t' (.settled lease s) := by
  unfold verifySettled at h
  simp only [bind_eq_ok, require_eq_ok, pure_eq_ok, Bool.and_eq_true, beq_iff_eq,
    Json.eqStr_iff] at h
  obtain ⟨_, ⟨hs, hn⟩, _, -, _, ⟨hl, -⟩, ⟨⟩, hset, rfl⟩ := h
  obtain ⟨s, hj, hok⟩ := verifyAttemptSettlement_ok hset
  exact ⟨t.leaseId, s, hn, ⟨hl, hj⟩, ⟨hs, rfl, hok⟩, rfl⟩

theorem verifyBlocked_ok (h : verifyBlocked t m = .ok t') :
    ∃ lease error, Performs now t m t' (.blocked lease error) := by
  unfold verifyBlocked at h
  simp only [bind_eq_ok, require_eq_ok, expect_eq_ok, pure_eq_ok, Json.asStr_eq_some,
    Bool.and_eq_true, beq_iff_eq, Json.eqStr_iff] at h
  obtain ⟨_, ⟨hs, hn⟩, _, -, _, hl, error, he, _, -, rfl⟩ := h
  exact ⟨t.leaseId, error, hn, ⟨hl, he⟩, ⟨hs, rfl⟩, rfl⟩

theorem verifyOrphaned_ok (h : verifyOrphaned t m = .ok t') :
    ∃ lease error reference digest, Performs now t m t' (.orphaned lease error reference digest) := by
  unfold verifyOrphaned at h
  simp only [bind_eq_ok, require_eq_ok, expect_eq_ok, pure_eq_ok, Json.asStr_eq_some,
    Bool.and_eq_true, beq_iff_eq, Json.eqStr_iff] at h
  obtain ⟨_, ⟨hs, hn⟩, _, -, _, hl, error, he, _, -, reference, hr, _, -, digest, hd, _, -, rfl⟩ := h
  exact ⟨t.leaseId, error, reference, digest, hn, ⟨hl, he, hr, hd⟩, ⟨hs, rfl⟩, rfl⟩

theorem verifyReconciled_ok (h : verifyReconciled now t m = .ok t') :
    ∃ s digest, Performs now t m t' (.reconciled s digest) := by
  unfold verifyReconciled at h
  simp only [bind_eq_ok, require_eq_ok, pure_eq_ok, Bool.and_eq_true, beq_iff_eq,
    Json.eqStr_iff] at h
  obtain ⟨_, ⟨hs, hn⟩, _, -, _, ⟨hd, -⟩, ⟨⟩, hset, rfl⟩ := h
  obtain ⟨s, hj, hok⟩ := verifyAttemptSettlement_ok hset
  exact ⟨s, t.orphanEvidenceDigest, hn, ⟨hj, hd⟩, ⟨hs, rfl, hok⟩, rfl⟩

theorem verifyTransition_ok (h : verifyTransition now t m = .ok t') :
    ∃ mv : Move, m.event.type = .str mv.type.wire ∧ Performs now t m t' mv := by
  unfold verifyTransition at h
  cases ht : AttemptType.ofWire m.event.type with
  | none => rw [ht] at h; cases h
  | some type =>
    have hw := AttemptType.eq_of_ofWire ht
    rw [ht] at h
    cases type with
    | created => cases h
    | claimed => obtain ⟨_, _, hp⟩ := verifyClaimed_ok h; exact ⟨.claimed _ _, hw, hp⟩
    | retryScheduled => obtain ⟨_, _, _, hp⟩ := verifyRetry_ok h; exact ⟨.retry _ _ _, hw, hp⟩
    | settled => obtain ⟨_, _, hp⟩ := verifySettled_ok h; exact ⟨.settled _ _, hw, hp⟩
    | blocked => obtain ⟨_, _, hp⟩ := verifyBlocked_ok h; exact ⟨.blocked _ _, hw, hp⟩
    | orphaned => obtain ⟨_, _, _, _, hp⟩ := verifyOrphaned_ok h; exact ⟨.orphaned _ _ _ _, hw, hp⟩
    | orphanReconciled => obtain ⟨_, _, hp⟩ := verifyReconciled_ok h; exact ⟨.reconciled _ _, hw, hp⟩

end Transitions

/-- **One turn of the loop** accepts an enabled move, no earlier than the last. -/
theorem verifyAttemptStep_ok {now : ℤ} {i : ℕ} {t t' : Track} {raw : Json}
    (h : verifyAttemptStep H now i t raw = .ok t') :
    ∃ mv at' hash, Makes raw mv at' ∧ t.lastCreatedAtMs ≤ at' ∧ Enabled now t at' mv ∧
      t' = t.apply at' hash mv := by
  unfold verifyAttemptStep at h
  rw [bind_eq_ok] at h
  obtain ⟨m, hm, h⟩ := h
  rw [require_bind_eq_ok, require_bind_eq_ok] at h
  obtain ⟨-, -, h⟩ := h
  obtain ⟨hev, hpay, htime, hle, -, -⟩ := verifyMeta_ok H hm
  obtain ⟨mv, htype, hp⟩ := verifyTransition_ok h
  have hnew := hp.new
  have hpayload := hp.payload
  rw [hev] at htype hnew htime
  rw [hpay, hev] at hpayload
  exact ⟨mv, m.createdAtMs, m.hash, ⟨htype, hnew, htime, hpayload⟩, hle, hp.enabled, hp.apply_eq⟩

/-! ## Runs -/

/-- The moves of an accepted chain, with their times, and where they lead. -/
inductive AttemptRun (now : ℤ) : Track → List (Move × ℤ) → Track → Prop
  | nil (t : Track) : AttemptRun now t [] t
  | cons {t u : Track} {mv : Move} {at' : ℤ} {hash : String} {ms : List (Move × ℤ)} :
      t.lastCreatedAtMs ≤ at' → Enabled now t at' mv → AttemptRun now (t.apply at' hash mv) ms u →
      AttemptRun now t ((mv, at') :: ms) u

theorem run_of_verifyAttemptFrom {now : ℤ} {t' : Track} :
    ∀ {es : List Json} {i : ℕ} {t : Track}, verifyAttemptFrom H now i t es = .ok t' →
      ∃ ms, List.Forall₂ (fun raw m => Makes raw m.1 m.2) es ms ∧ AttemptRun now t ms t'
  | [], _, _, h => by cases h; exact ⟨[], .nil, .nil _⟩
  | raw :: es, i, t, h => by
    rw [verifyAttemptFrom, bind_eq_ok] at h
    obtain ⟨u, hu, h⟩ := h
    obtain ⟨mv, at', hash, hmk, hle, hen, rfl⟩ := verifyAttemptStep_ok H hu
    obtain ⟨ms, hf, hr⟩ := run_of_verifyAttemptFrom h
    exact ⟨(mv, at') :: ms, .cons hmk hf, .cons hle hen hr⟩

namespace AttemptRun

variable {now : ℤ} {t u : Track}

theorem append_inv {xs ys : List (Move × ℤ)} (h : AttemptRun now t (xs ++ ys) u) :
    ∃ v, AttemptRun now t xs v ∧ AttemptRun now v ys u := by
  induction xs generalizing t with
  | nil => exact ⟨t, .nil t, h⟩
  | cons x xs ih =>
    cases h with
    | cons hle hen h =>
      obtain ⟨v, hx, hy⟩ := ih h
      exact ⟨v, .cons hle hen hx, hy⟩

/-- Nothing follows `settled` and `blocked`. -/
theorem nil_of_final {ms : List (Move × ℤ)} (h : AttemptRun now t ms u)
    (ht : t.state = .settled ∨ t.state = .blocked) : ms = [] := by
  cases h with
  | nil => rfl
  | @cons _ _ mv _ _ _ _ hen _ =>
    exfalso
    rcases ht with ht | ht <;> cases mv <;> simp [Enabled, ht] at hen

/-- The state after a last move. -/
theorem state_concat {xs : List (Move × ℤ)} {mv : Move} {at' : ℤ}
    (h : AttemptRun now t (xs ++ [(mv, at')]) u) :
    ∃ v hash, AttemptRun now t xs v ∧ Enabled now v at' mv ∧ u = v.apply at' hash mv := by
  obtain ⟨v, hx, h⟩ := append_inv h
  cases h with
  | cons _ hen h => cases h; exact ⟨v, _, hx, hen, rfl⟩

/-- A run that ends inflight ends with the claim of the lease held. -/
theorem claim_of_inflight {ms : List (Move × ℤ)} (h : AttemptRun now t ms u)
    (ht : t.state = .pending) (hu : u.state = .inflight) :
    ∃ ms' at', ms = ms' ++ [(.claimed u.leaseId u.leaseExpiresAtMs, at')] := by
  rcases List.eq_nil_or_concat' ms with rfl | ⟨xs, ⟨mv, at'⟩, rfl⟩
  · cases h; rw [ht] at hu; cases hu
  · obtain ⟨v, hash, -, -, rfl⟩ := state_concat h
    rw [Track.apply_state] at hu
    cases mv with
    | claimed lease expires => exact ⟨xs, at', rfl⟩
    | _ => cases hu

theorem times_le {ms : List (Move × ℤ)} (h : AttemptRun now t ms u) :
    (t.lastCreatedAtMs :: ms.map Prod.snd).Pairwise (· ≤ ·) := by
  induction h with
  | nil t => simp
  | cons hle _ _ ih =>
    rw [Track.apply_last] at ih
    refine List.pairwise_cons.2 ⟨?_, ih⟩
    intro x hx
    rcases List.mem_cons.1 hx with rfl | hx
    · exact hle
    · exact hle.trans ((List.pairwise_cons.1 ih).1 x hx)

end AttemptRun

/-! ## The projection -/

/-- The settlement record `s` settles the intent `i` under the key `key`. -/
structure SettlesIntent (i : SettlementIntent) (key : String) (s : Fields) : Prop where
  amount : Json.get s "amount_minor" = .int i.amountMinor
  currency : Json.get s "currency" = .str i.currency
  payee : Json.get s "payee_did" = .str i.payeeDid
  payer : Json.get s "payer_did" = .str i.payerDid
  key : Json.get (Json.get s "proof").fields "idempotency_key" = .str key

theorem SettlementOk.settlesIntent {now : ℤ} {t : Track} {s : Fields} (h : SettlementOk now t s)
    (hp : t.intent.payerDid ≠ "") : SettlesIntent t.intent t.attemptId s := by
  obtain ⟨payer, proof, hs, hproof, hk⟩ := h
  refine ⟨hs.amount, hs.currency, hs.payee, ?_, by rw [hproof]; exact hk⟩
  rw [hs.payer_eq, hs.payer_expected hp]; rfl

/-- The view `v` shows what the verifier tracked. -/
structure Agrees (v : View) (t : Track) : Prop where
  attemptId : v.attemptId = .str t.attemptId
  actorDid : v.actorDid = .str t.actorDid
  state : v.state = .str t.state.wire
  leaseId : v.leaseId = .str t.leaseId
  leaseExpires : v.leaseExpiresAtMs = .int t.leaseExpiresAtMs
  nextAttempt : v.nextAttemptAtMs = .int t.nextAttemptAtMs
  evidence : v.evidenceDigest = .str t.orphanEvidenceDigest
  settlement : t.state = .settled →
    ∃ s, v.settlement = .obj s ∧ SettlesIntent t.intent t.attemptId s

/-- The two folds stay in agreement. -/
theorem Agrees.step {now : ℤ} {v : View} {t : Track} {raw : Json} {mv : Move} {at' : ℤ}
    {hash : String} (h : Agrees v t) (hp : t.intent.payerDid ≠ "") (hm : Makes raw mv at')
    (he : Enabled now t at' mv) : Agrees (v.step raw) (t.apply at' hash mv) := by
  have hpay := hm.payload
  simp only [View.step, hm.type, AttemptType.ofWire_str, hm.new]
  cases mv with
  | claimed lease expires =>
    exact ⟨h.attemptId, h.actorDid, rfl, hpay.1, hpay.2, rfl, h.evidence, fun hs => by cases hs⟩
  | retry lease error next =>
    exact ⟨h.attemptId, h.actorDid, rfl, rfl, rfl, hpay.2.2, h.evidence, fun hs => by cases hs⟩
  | settled lease s =>
    exact ⟨h.attemptId, h.actorDid, rfl, rfl, rfl, h.nextAttempt, h.evidence,
      fun _ => ⟨s, hpay.2, he.2.2.settlesIntent hp⟩⟩
  | blocked lease error =>
    exact ⟨h.attemptId, h.actorDid, rfl, rfl, rfl, h.nextAttempt, h.evidence, fun hs => by cases hs⟩
  | orphaned lease error reference digest =>
    exact ⟨h.attemptId, h.actorDid, rfl, rfl, rfl, h.nextAttempt, hpay.2.2.2, fun hs => by cases hs⟩
  | reconciled s digest =>
    exact ⟨h.attemptId, h.actorDid, rfl, h.leaseId, h.leaseExpires, h.nextAttempt, rfl,
      fun _ => ⟨s, hpay.1, he.2.2.settlesIntent hp⟩⟩

theorem Agrees.foldl {now : ℤ} {t u : Track} {ms : List (Move × ℤ)} (hr : AttemptRun now t ms u)
    {es : List Json} {v : View} (hp : t.intent.payerDid ≠ "")
    (hf : List.Forall₂ (fun raw m => Makes raw m.1 m.2) es ms) (h : Agrees v t) :
    Agrees (es.foldl View.step v) u := by
  induction hr generalizing es v with
  | nil => cases hf; exact h
  | cons _ hen _ ih =>
    cases hf with
    | cons hm hf =>
      rw [List.foldl_cons]
      exact ih (by rwa [Track.apply_intent]) hf (h.step hp hm hen)

/-! ## Soundness -/

/-- The lease discipline of the moves after a creation at time `created`. -/
structure LeaseSound (created : ℤ) (ms : List (Move × ℤ)) : Prop where
  final : ∀ pre mv at' post, ms = pre ++ (mv, at') :: post →
    mv.newState = .settled ∨ mv.newState = .blocked → post = []
  orphan : ∀ pre mv at' mv' at'' post, ms = pre ++ (mv, at') :: (mv', at'') :: post →
    mv.newState = .orphaned → ∃ s digest, mv' = .reconciled s digest
  times : (created :: ms.map Prod.snd).Pairwise (· ≤ ·)
  lease : ∀ pre mv at' post lease, ms = pre ++ (mv, at') :: post → mv.lease = some lease →
    ∃ pre' expires at'', pre = pre' ++ [(.claimed lease expires, at'')]
  renewal : ∀ pre lease expires at' lease' expires' at'' post,
    ms = pre ++ (.claimed lease expires, at') :: (.claimed lease' expires', at'') :: post →
    expires ≤ at''

theorem AttemptRun.leaseSound {now : ℤ} {t u : Track} {ms : List (Move × ℤ)}
    (h : AttemptRun now t ms u) (ht : t.state = .pending) : LeaseSound t.lastCreatedAtMs ms where
  final := by
    rintro pre mv at' post rfl hm
    obtain ⟨v, -, hv⟩ := h.append_inv
    cases hv with
    | cons _ _ hv => exact hv.nil_of_final (by simpa using hm)
  orphan := by
    rintro pre mv at' mv' at'' post rfl hm
    obtain ⟨v, -, hv⟩ := h.append_inv
    cases hv with
    | cons _ _ hv =>
      cases hv with
      | cons _ hen _ =>
        cases mv' with
        | reconciled s digest => exact ⟨s, digest, rfl⟩
        | _ => simp [Enabled, hm] at hen
  times := h.times_le
  lease := by
    rintro pre mv at' post lease rfl hm
    obtain ⟨v, hpre, hv⟩ := h.append_inv
    cases hv with
    | cons _ hen _ =>
      -- a move that ends a lease is made inflight, under the lease of the claim before it
      have hst : v.state = .inflight ∧ lease = v.leaseId := by
        cases mv with
        | claimed _ _ => cases hm
        | reconciled _ _ => cases hm
        | retry _ _ _ => cases hm; exact ⟨hen.1, hen.2.1⟩
        | settled _ _ => cases hm; exact ⟨hen.1, hen.2.1⟩
        | blocked _ _ => cases hm; exact hen
        | orphaned _ _ _ _ => cases hm; exact hen
      obtain ⟨pre', at'', rfl⟩ := hpre.claim_of_inflight ht hst.1
      exact ⟨pre', v.leaseExpiresAtMs, at'', by rw [hst.2]⟩
  renewal := by
    rintro pre lease expires at' lease' expires' at'' post rfl
    obtain ⟨v, -, hv⟩ := h.append_inv
    cases hv with
    | cons _ _ hv =>
      cases hv with
      | cons _ hen _ =>
        rcases hen.1 with ⟨hc, -⟩ | ⟨-, hle⟩
        · rw [Track.apply_state] at hc; cases hc
        · exact hle

/-- What the acceptance of `events`, ending in `t`, guarantees. -/
structure AttemptSound (now : ℤ) (events : List Json) (t : Track) : Prop where
  run : ∃ raw es created ms, events = raw :: es ∧
    (AttemptEvent.fromDict raw.fields).createdAtMs = .int created ∧
    List.Forall₂ (fun raw m => Makes raw m.1 m.2) es ms ∧ LeaseSound created ms
  intent : ∀ raw es, events = raw :: es →
    intentFromDict (Json.get (AttemptEvent.fromDict raw.fields).payload.fields "intent") =
      .ok t.intent
  key : settlementIdempotencyKey H t.intent = .ok t.attemptId
  agrees : Agrees (projectVerified events) t

theorem verifyCreated_ok {m : Meta} {t : Track} (h : verifyCreated H m = .ok t) :
    intentFromDict (Json.get m.payload "intent") = .ok t.intent ∧ t.intent.payerDid ≠ "" ∧
      settlementIdempotencyKey H t.intent = .ok t.attemptId ∧
      t = { state := .pending, actorDid := m.actorDid, attemptId := m.attemptId, intent := t.intent,
            lastCreatedAtMs := m.createdAtMs, prevHash := m.hash } := by
  unfold verifyCreated at h
  simp only [bind_eq_ok, require_eq_ok, pure_eq_ok, Bool.and_eq_true, beq_iff_eq, bne_iff_ne] at h
  obtain ⟨_, -, intent, hi, _, ⟨hp, -⟩, key, hk, _, rfl, rfl⟩ := h
  exact ⟨hi, hp, hk, rfl⟩

theorem AttemptRun.intent_eq {now : ℤ} {t u : Track} {ms : List (Move × ℤ)}
    (h : AttemptRun now t ms u) : u.intent = t.intent ∧ u.attemptId = t.attemptId := by
  induction h with
  | nil => exact ⟨rfl, rfl⟩
  | cons _ _ _ ih => simpa using ih

/-- The run of an accepted chain from its creation event. -/
theorem verifyPaymentAttempt_run {now : ℤ} {raw : Json} {es : List Json} {t : Track}
    (h : verifyPaymentAttempt H now (raw :: es) = .ok t) :
    ∃ t₀ ms, List.Forall₂ (fun raw m => Makes raw m.1 m.2) es ms ∧ AttemptRun now t₀ ms t ∧
      t₀.state = .pending ∧ t₀.intent.payerDid ≠ "" ∧ Agrees (View.ofCreated raw) t₀ ∧
      (AttemptEvent.fromDict raw.fields).createdAtMs = .int t₀.lastCreatedAtMs ∧
      intentFromDict (Json.get (AttemptEvent.fromDict raw.fields).payload.fields "intent") =
        .ok t₀.intent ∧
      settlementIdempotencyKey H t₀.intent = .ok t₀.attemptId := by
  simp only [verifyPaymentAttempt, bind_eq_ok, require_eq_ok, expect_eq_ok] at h
  obtain ⟨_, -, _, -, _, -, m, hm, t₀, ht₀, h⟩ := h
  obtain ⟨hev, hpay, htime, -, hid, hdid⟩ := verifyMeta_ok H hm
  obtain ⟨hi, hp, hk, heq⟩ := verifyCreated_ok H ht₀
  obtain ⟨ms, hf, hr⟩ := run_of_verifyAttemptFrom H h
  rw [hpay, hev] at hi
  rw [hev] at htime hid hdid
  refine ⟨t₀, ms, hf, hr, by rw [heq], hp, ?_, by rw [heq]; exact htime, hi, hk⟩
  rw [heq]
  exact ⟨hid, hdid, rfl, rfl, rfl, rfl, rfl, fun hs => by cases hs⟩

/-- The last event of an accepted chain makes a move that the view of the events
    before it allows. -/
theorem verifyPaymentAttempt_last {now : ℤ} {events : List Json} {raw : Json} {t : Track}
    (hne : events ≠ []) (h : verifyPaymentAttempt H now (events ++ [raw]) = .ok t) :
    ∃ u mv at', Agrees (projectVerified events) u ∧ Makes raw mv at' ∧ Enabled now u at' mv := by
  obtain ⟨first, es, rfl⟩ := List.exists_cons_of_ne_nil hne
  rw [List.cons_append] at h
  obtain ⟨t₀, ms, hf, hr, -, hp, hag, -⟩ := verifyPaymentAttempt_run H h
  have hx := List.forall₂_take es.length hf
  have hy := List.forall₂_drop es.length hf
  rw [List.take_left] at hx
  rw [List.drop_left] at hy
  rw [← List.take_append_drop es.length ms] at hr
  obtain ⟨u, hu, hr⟩ := hr.append_inv
  revert hy hr
  cases ms.drop es.length with
  | nil => intro hy; cases hy
  | cons m ms =>
    intro hy hr
    cases hy with
    | cons hm _ =>
      cases hr with
      | cons _ hen _ => exact ⟨u, _, _, Agrees.foldl hu hp hx hag, hm, hen⟩

/-- **Soundness of `verify_payment_attempt`.**  An accepted chain follows the
    lease automaton: settled and blocked attempts have no successor, an orphan
    is only reconciled, time does not go back, a lease is ended by its holder
    and renewed only after it expired; `_project_verified` computes what the
    verifier tracked, and a settled view carries a settlement of the intent. -/
theorem verifyPaymentAttempt_sound {now : ℤ} {events : List Json} {t : Track}
    (h : verifyPaymentAttempt H now events = .ok t) : AttemptSound H now events t := by
  cases events with
  | nil => cases h
  | cons raw es =>
    obtain ⟨t₀, ms, hf, hr, hst, hp, hag, htime, hi, hk⟩ := verifyPaymentAttempt_run H h
    obtain ⟨hint, hatt⟩ := hr.intent_eq
    refine ⟨⟨raw, es, _, ms, rfl, htime, hf, hr.leaseSound hst⟩, ?_, ?_, ?_⟩
    · rintro _ _ ⟨⟩; rw [hint]; exact hi
    · rw [hint, hatt]; exact hk
    · exact Agrees.foldl hr hp hf hag

/-- An event signed by key 1. -/
def signedByOne (e : AttemptEvent) : Json :=
  ((signAttemptEvent checksumHost (1 : UInt8) e).toOption.getD e).toDict

/-- An intent paid by key 1. -/
def oneIntent : SettlementIntent :=
  { tradeId := "t", amountMinor := 5, currency := "USDC", payeeDid := "did:c",
    payerDid := asDid checksumHost (1 : UInt8) }

def oneAttemptId : Json :=
  .str ((settlementIdempotencyKey checksumHost oneIntent).toOption.getD "")

def oneCreated : Json :=
  signedByOne
    { attemptId := oneAttemptId, seq := .int 0, type := .str "payment_attempt_created",
      actorDid := .str oneIntent.payerDid, prevState := .str "", newState := .str "pending",
      payload := .obj [("schema_version", .int 1), ("adapter_id", .str adapterX402Testnet),
        ("intent", .obj ((intentDict oneIntent).toOption.getD []))],
      prevEventHash := .str "", createdAtMs := .int 1000 }

def oneClaimed : Json :=
  signedByOne
    { attemptId := oneAttemptId, seq := .int 1, type := .str "payment_attempt_claimed",
      actorDid := .str oneIntent.payerDid, prevState := .str "pending",
      newState := .str "inflight",
      payload := .obj [("lease_id", .str "00000000000000000000000000000000"),
        ("lease_expires_at_ms", .int 3000)],
      prevEventHash := .str ((attemptEventHash checksumHost oneCreated).getD ""),
      createdAtMs := .int 2000 }

/-- The two events verify. -/
def claimedVerified : PLift ((verifyPaymentAttempt checksumHost 10
    [oneCreated, oneClaimed]).toOption.isSome = true) := ⟨by decide +kernel⟩

theorem verifyPaymentAttempt_sound_claimed :
    ∃ t, verifyPaymentAttempt checksumHost 10 [oneCreated, oneClaimed] = .ok t ∧
      AttemptSound checksumHost 10 [oneCreated, oneClaimed] t := by
  have h := claimedVerified.down
  cases hv : verifyPaymentAttempt checksumHost 10 [oneCreated, oneClaimed] with
  | error e => rw [hv] at h; cases h
  | ok t => exact ⟨t, rfl, verifyPaymentAttempt_sound checksumHost hv⟩

end NthDao
