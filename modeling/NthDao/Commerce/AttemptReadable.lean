/-
  When a payment attempt stays readable.

  * `Readable`: the anchors pass their check and accept the stored document;
    `Readable.prepare` and `Readable.commit` for the two anchors of an
    operation;
  * `Good`: a store that `load` accepts, kept by every stage of an operation
    whose time is not before the newest anchor and whose document fits its
    file;
  * `Room`: as long as there is no document, the journal has room for a create;
  * `run_readable`: runs of calls that meet these conditions;
  * `run_detects_rollback`: which documents such a run accepts.
-/
import NthDao.Commerce.AttemptChain
import NthDao.Commerce.AttemptSizes

namespace NthDao

open Py

variable {H : Host}

/-! ## Readable anchors -/

variable {attemptId payer : String}

theorem verifyAnchor_signed {d : Document} {actor : H.SecretKey} {at' : ℤ} {op : String}
    {phase : Phase} {a : Anchor} (h : d.signed H actor at' op phase a) (hop : isLeaseId op = true)
    (hid : isAttemptId d.attemptId = true) (hh : isEventHash d.headHash = true)
    (hne : d.events ≠ []) (ht : 0 < at') : verifyAnchor H a = .ok () := by
  obtain ⟨-, b, hb, rfl⟩ := h.eq
  have hlen : (1 : ℤ) ≤ d.events.length := by exact_mod_cast List.length_pos_iff.2 hne
  have hsign : ({ d.anchor H actor at' op phase with signature := signText H actor b } :
      Anchor).signingBody = (d.anchor H actor at' op phase).signingBody := rfl
  rw [verifyAnchor, hsign, hb, require_bind_eq_ok]
  refine ⟨?_, ?_⟩
  · simp only [Document.anchor, hop, hid, hh, isDidKey_asDid, Bool.and_true, Bool.true_and,
      Bool.and_eq_true]
    exact ⟨decide_eq_true (by omega), decide_eq_true ht⟩
  · simp only [Document.anchor, expect, ok_bind, verifySig_signText, require, if_true]

/-- The anchors are accepted, and they accept the version `head`. -/
def Readable (H : Host) (attemptId payer : String) (head : Option (ℤ × String))
    (as : List Anchor) : Prop :=
  (∃ seen, Ledger H attemptId payer as seen) ∧ ∀ h, head = some h → h ∈ acceptedAnchorHeads as

/-- The two anchors of an operation that `as` does not know, at a time not
    before its anchors. -/
structure NewAnchors (H : Host) (attemptId payer : String) (d : Document) (p q : Anchor)
    (as : List Anchor) : Prop where
  prepared : p.phase = .prepared
  committed : q.phase = .committed
  verified : verifyAnchor H p = .ok () ∧ verifyAnchor H q = .ok ()
  attemptId : p.attemptId = attemptId ∧ q.attemptId = attemptId
  actorDid : p.actorDid = payer ∧ q.actorDid = payer
  head : p.head = d.head ∧ q.head = d.head
  operation : p.operationId = q.operationId
  time : p.createdAtMs = q.createdAtMs
  newest : ∀ b ∈ as, b.createdAtMs ≤ p.createdAtMs
  fresh : ∀ b ∈ as, b.operationId ≠ p.operationId

section
variable {d : Document} {p q : Anchor} {as : List Anchor} {head : Option (ℤ × String)}

theorem NewAnchors.mono {as' : List Anchor} (h : NewAnchors H attemptId payer d p q as)
    (hs : as' ⊆ as) : NewAnchors H attemptId payer d p q as' :=
  { h with newest := fun b hb => h.newest b (hs hb), fresh := fun b hb => h.fresh b (hs hb) }

/-- The prepare keeps the old version and adds the new one. -/
theorem Readable.prepare (h : Readable H attemptId payer head as)
    (hn : NewAnchors H attemptId payer d p q as) :
    Readable H attemptId payer head (as ++ [p]) ∧
      Readable H attemptId payer (some d.head) (as ++ [p]) := by
  obtain ⟨⟨seen, hl⟩, hh⟩ := h
  have hl' := hl.prepare hn.prepared hn.verified.1 hn.attemptId.1 hn.actorDid.1 hn.newest hn.fresh
  rw [Readable, Readable, accepted_prepared hn.prepared]
  refine ⟨⟨⟨_, hl'⟩, fun x hx => List.mem_append_left _ (hh x hx)⟩, ⟨⟨_, hl'⟩, fun x hx => ?_⟩⟩
  cases hx
  rw [hn.head.1]; simp

/-- The commit leaves the new version. -/
theorem Readable.commit (h : Readable H attemptId payer head as)
    (hn : NewAnchors H attemptId payer d p q as) :
    Readable H attemptId payer (some d.head) (as ++ [p] ++ [q]) := by
  obtain ⟨⟨seen, hl⟩, -⟩ := h
  have hl' := hl.prepare hn.prepared hn.verified.1 hn.attemptId.1 hn.actorDid.1 hn.newest hn.fresh
  refine ⟨hl'.commit (p := p) rfl hn.operation (hn.head.1.trans hn.head.2.symm) hn.attemptId.1
    hn.actorDid.1 hn.committed hn.verified.2 hn.attemptId.2 hn.actorDid.2 hn.time.le ?_, ?_⟩
  · intro hmem
    rcases List.mem_cons.1 hmem with heq | hmem
    · rw [hn.prepared] at heq; cases (Prod.mk.inj heq).2
    · obtain ⟨b, hb, he⟩ := hl.phases _ hmem
      exact hn.fresh b hb (he.trans hn.operation.symm)
  · intro x hx
    cases hx
    rw [accepted_committed hn.committed, hn.head.2]; simp

end

/-! ## Stores that can be read -/

/-- The document passes the checks of `_load` on itself. -/
structure DocumentOk (H : Host) (attemptId payer : String) (d : Document) : Prop where
  size : d.fileBytes ≤ maxFileBytes
  attemptId : d.attemptId = attemptId ∧ isAttemptId attemptId = true
  events : d.events ≠ []
  hash : attemptEventHash H (d.events.getLastD .null) = some d.headHash
  actor : payer ≠ "" ∧ ∃ kvs, d.events.headD .null = .obj kvs ∧
    Json.get kvs "actor_did" = .str payer

/-- A store that `_load` accepts. -/
structure Good (H : Host) (attemptId payer : String) (s : AttemptStore) : Prop where
  document : ∀ d, s.document = some d → DocumentOk H attemptId payer d
  journal : Readable H attemptId payer (s.document.map Document.head) s.journal
  size : anchorsBytes s.journal ≤ maxAnchorFileBytes
  witness : ∀ w, s.witness = some w → Readable H attemptId payer (s.document.map Document.head) w ∧
    readWitness w = .ok () ∧ w.Sublist s.journal

theorem isEmpty_of_mem_accepted {as : List Anchor} {h : ℤ × String}
    (hm : h ∈ acceptedAnchorHeads as) : (!as.isEmpty) = true := by
  cases as with
  | nil => cases hm
  | cons a as => rfl

theorem Good.load {s : AttemptStore} (h : Good H attemptId payer s) {d : Document}
    (hd : s.document = some d) : s.load H attemptId = .ok (some d.events) := by
  have hok := h.document d hd
  obtain ⟨hne, kvs, hobj, hactor⟩ := hok.actor
  obtain ⟨⟨seen, hl⟩, hacc⟩ := h.journal
  have hacc := hacc d.head (by rw [hd]; rfl)
  have hempty : (!d.events.isEmpty) = true := by simpa using hok.events
  have hwit : validateWitness H attemptId payer d.head s.witness = .ok () := by
    cases hw : s.witness with
    | none => rfl
    | some w =>
      obtain ⟨⟨⟨seen', hl'⟩, hacc'⟩, hr, -⟩ := h.witness w hw
      have hacc' := hacc' d.head (by rw [hd]; rfl)
      simp [validateWitness, hr, ok_bind, hl'.valid, require, hacc', isEmpty_of_mem_accepted hacc']
  have hval : s.validateAnchor H attemptId d = .ok () := by
    simp only [AttemptStore.validateAnchor, AttemptStore.readAnchors, hobj, Json.fields_obj, hactor]
    simp [Json.isObj, Json.asStr, expect, require, ok_bind, hne, hacc, h.size, hl.valid, hwit,
      isEmpty_of_mem_accepted hacc]
  simp only [AttemptStore.load, hd, hok.hash, hval]
  simp [require, expect, ok_bind, hok.size, hok.attemptId.1, hempty, isEventHash_digest hok.hash]

/-- A call persists at a time not before the anchors of the journal, and a
    document that fits its file. -/
def Timely (attemptId : String) (s : AttemptStore) (c : AttemptCall H) : Prop :=
  ∀ candidate, c.events attemptId s = .ok (some candidate) →
    (∀ a ∈ s.journal, a.createdAtMs ≤ c.createdAtMs) ∧
    ∀ d, documentOf H attemptId candidate = .ok d → d.fileBytes ≤ maxFileBytes

/-- The document that a call writes is in order, and the call is the payer's. -/
theorem DocumentOk.next {s : AttemptStore} {c : AttemptCall H} {candidate : List Json} {d : Document}
    (h : Good H attemptId payer s) (hadm : Admissible attemptId payer s c)
    (hev : c.events attemptId s = .ok (some candidate))
    (hd : documentOf H attemptId candidate = .ok d) (hsize : d.fileBytes ≤ maxFileBytes) :
    DocumentOk H attemptId payer d ∧ asDid H c.actor = payer := by
  obtain ⟨hid, hde, hne, hhash⟩ := documentOf_eq_ok hd
  rcases events_cases (fun i a hop => (hadm.intent i a hop).1) hev with
    ⟨-, intent, adapterId, payload, e, hop, hc, he, rfl⟩ | ⟨d₀, hd₀, -, e, hact, rfl, hdid, -⟩
  · obtain ⟨-, hp, hdid, -, hatt, -⟩ := createId_eq_ok hc
    obtain ⟨-, b, -, rfl⟩ := signAttemptEvent_eq_ok he
    have hpayer := (hadm.intent intent adapterId hop).2
    rw [hpayer] at hp hdid
    refine ⟨⟨hsize, ⟨hid, hatt⟩, hde ▸ hne, hde ▸ hhash, hp, _, by rw [hde]; rfl, ?_⟩, hdid⟩
    rw [← hdid]; simp [Json.get, Json.lookup, createdEvent]
  · have h₀ := h.document d₀ hd₀
    obtain ⟨hp, kvs, hobj, hactor⟩ := h₀.actor
    cases hes : d₀.events with
    | nil => exact absurd hes h₀.events
    | cons raw es =>
      rw [hes] at hobj hact hne hde hhash
      rw [projectVerified_actorDid, show raw = .obj kvs from hobj, Json.fields_obj, hactor] at hact
      refine ⟨⟨hsize, ⟨hid, h₀.attemptId.2⟩, hde ▸ hne, hde ▸ hhash, hp, kvs, ?_, hactor⟩, ?_⟩
      · rw [hde]; exact hobj
      · exact Json.str.inj (hdid.symm.trans hact)

theorem NewAnchors.ofCall {s : AttemptStore} {c : AttemptCall H} {d : Document} {p q : Anchor}
    (hadm : Admissible attemptId payer s c) (hok : DocumentOk H attemptId payer d)
    (hdid : asDid H c.actor = payer) (htime : ∀ a ∈ s.journal, a.createdAtMs ≤ c.createdAtMs)
    (hp : d.signed H c.actor c.createdAtMs c.operationId .prepared p)
    (hq : d.signed H c.actor c.createdAtMs c.operationId .committed q) :
    NewAnchors H attemptId payer d p q s.journal := by
  have hp' := hp.anchorOf
  have hq' := hq.anchorOf
  have hid : isAttemptId d.attemptId = true := hok.attemptId.1 ▸ hok.attemptId.2
  have hv : ∀ {phase : Phase} {a : Anchor}, d.signed H c.actor c.createdAtMs c.operationId phase a →
      verifyAnchor H a = .ok () := fun ha =>
    verifyAnchor_signed ha hadm.uuid hid (isEventHash_digest hok.hash) hok.events hadm.time
  exact
    { prepared := hp'.phase, committed := hq'.phase, verified := ⟨hv hp, hv hq⟩,
      attemptId := ⟨hp'.attemptId.trans hok.attemptId.1, hq'.attemptId.trans hok.attemptId.1⟩,
      actorDid := ⟨hp'.actorDid.trans hdid, hq'.actorDid.trans hdid⟩, head := ⟨hp'.head, hq'.head⟩,
      operation := hp'.operationId.trans hq'.operationId.symm,
      time := hp'.createdAtMs.trans hq'.createdAtMs.symm,
      newest := hp'.createdAtMs ▸ htime, fresh := hp'.operationId ▸ hadm.fresh }

/-- The witness after the prepare. -/
theorem NewAnchors.witnessed {j : List Anchor} {head : Option (ℤ × String)} {d : Document}
    {p q : Anchor} {w w' : Option (List Anchor)} (hn : NewAnchors H attemptId payer d p q j)
    (hw : ∀ v, w = some v → Readable H attemptId payer head v ∧ readWitness v = .ok () ∧ v.Sublist j)
    (h : Witnessed p w w') : ∀ v, w' = some v →
      (Readable H attemptId payer head v ∧ Readable H attemptId payer (some d.head) v) ∧
      readWitness v = .ok () ∧ v.Sublist (j ++ [p]) := by
  rintro v rfl
  cases h with
  | again hlast =>
    obtain ⟨-, -, hsub⟩ := hw v rfl
    exact absurd rfl (hn.fresh p (hsub.subset (List.mem_of_getLast? hlast)))
  | @append w₀ hread =>
    obtain ⟨hr, -, hsub⟩ := hw w₀ rfl
    exact ⟨hr.prepare (hn.mono hsub.subset), hread, hsub.append (List.Sublist.refl _)⟩

/-- The witness after the commit. -/
theorem NewAnchors.witnessed_commit {j : List Anchor} {head : Option (ℤ × String)} {d : Document}
    {p q : Anchor} {w w' w'' : Option (List Anchor)} (hn : NewAnchors H attemptId payer d p q j)
    (hw : ∀ v, w = some v → Readable H attemptId payer head v ∧ readWitness v = .ok () ∧ v.Sublist j)
    (h : Witnessed p w w') (h' : Witnessed q w' w'') : ∀ v, w'' = some v →
      Readable H attemptId payer (some d.head) v ∧ readWitness v = .ok () ∧
      v.Sublist (j ++ [p] ++ [q]) := by
  rintro v rfl
  have hne : p ≠ q := fun he => by
    have := hn.prepared
    rw [he, hn.committed] at this; cases this
  have hfresh : ∀ v : List Anchor, v.Sublist j → q ∉ v := fun v hv hq =>
    hn.fresh q (hv.subset hq) hn.operation.symm
  cases h with
  | none => cases h'
  | @again w₀ hlast =>
    obtain ⟨-, -, hsub⟩ := hw w₀ rfl
    exact absurd rfl (hn.fresh p (hsub.subset (List.mem_of_getLast? hlast)))
  | @append w₀ hread =>
    obtain ⟨hr, -, hsub⟩ := hw w₀ rfl
    cases h' with
    | again hlast =>
      rw [List.getLast?_concat] at hlast
      exact absurd (Option.some.inj hlast) hne
    | append hread' =>
      exact ⟨hr.commit (hn.mono hsub.subset), hread',
        (hsub.append (List.Sublist.refl _)).append (List.Sublist.refl _)⟩

/-- **Every stage of a timely call can be read.** -/
theorem Good.stage {s s' : AttemptStore} {d : Document} {p q : Anchor}
    (h : Good H attemptId payer s) (hok : DocumentOk H attemptId payer d)
    (hn : NewAnchors H attemptId payer d p q s.journal) (hs : Stage s d p q s') :
    Good H attemptId payer s' := by
  have hdoc : ∀ e, some d = some e → DocumentOk H attemptId payer e := by rintro e ⟨⟩; exact hok
  cases hs with
  | prepared hb =>
    refine ⟨h.document, (h.journal.prepare hn).1, hb, fun w hw => ?_⟩
    obtain ⟨h₁, h₂, h₃⟩ := h.witness w hw
    exact ⟨h₁, h₂, h₃.trans (List.sublist_append_left _ _)⟩
  | witnessed hb hw =>
    refine ⟨h.document, (h.journal.prepare hn).1, hb, fun v hv => ?_⟩
    obtain ⟨⟨h₁, -⟩, h₂, h₃⟩ := hn.witnessed h.witness hw v hv
    exact ⟨h₁, h₂, h₃⟩
  | written hb hw =>
    refine ⟨hdoc, (h.journal.prepare hn).2, hb, fun v hv => ?_⟩
    obtain ⟨⟨-, h₁⟩, h₂, h₃⟩ := hn.witnessed h.witness hw v hv
    exact ⟨h₁, h₂, h₃⟩
  | committed hb hw =>
    refine ⟨hdoc, h.journal.commit hn, hb, fun v hv => ?_⟩
    obtain ⟨⟨-, h₁⟩, h₂, h₃⟩ := hn.witnessed h.witness hw v hv
    exact ⟨h₁, h₂, h₃.trans (List.sublist_append_left _ _)⟩
  | done hb hw hw' =>
    exact ⟨hdoc, h.journal.commit hn, hb, hn.witnessed_commit h.witness hw hw'⟩

theorem Good.perform {s : AttemptStore} {c : AttemptCall H} (h : Good H attemptId payer s)
    (hadm : Admissible attemptId payer s c) (ht : Timely attemptId s c) :
    Good H attemptId payer (c.perform attemptId s).1 := by
  rcases perform_cases c attemptId s with heq | ⟨candidate, d, p, q, hev, hd, hp, hq, hs⟩
  · rw [heq]; exact h
  · obtain ⟨htime, hsize⟩ := ht candidate hev
    obtain ⟨hok, hdid⟩ := DocumentOk.next h hadm hev hd (hsize d hd)
    exact h.stage hok (.ofCall hadm hok hdid htime hp hq) hs

theorem Good.start (witnessed : Bool) :
    Good H attemptId payer { witness := if witnessed then some [] else none } := by
  have hnil : Readable H attemptId payer none [] := ⟨⟨_, Ledger.nil H _ _⟩, fun _ hx => by cases hx⟩
  refine ⟨fun _ hx => (by cases hx), hnil, Nat.zero_le _, fun w hw => ?_⟩
  cases witnessed with
  | false => cases hw
  | true => cases hw; exact ⟨hnil, rfl, List.Sublist.refl _⟩

/-- **Rollback detection.**  In every run a version persisted before a
    committed one is rejected; if the calls are timely, the document on disk is
    accepted in every state of the run. -/
theorem run_detects_rollback {cond : AttemptStore → AttemptCall H → Prop} {s : AttemptStore}
    {vs : List Document} (h : StoreRun attemptId payer cond s vs) :
    RollbackRejected H attemptId s vs ∧
      ((∀ s c, cond s c → Timely attemptId s c) →
        ∀ d, s.document = some d → s.load H attemptId = .ok (some d.events)) := by
  refine ⟨h.ordered.rollbackRejected attemptId, fun hcond => ?_⟩
  have hgood : Good H attemptId payer s := by
    induction h with
    | start witnessed => exact .start witnessed
    | call c _ hadm hc ih => exact ih.perform hadm (hcond _ c hc)
  exact fun d hd => hgood.load hd

/-- A create of an attempt that is not stored writes a document that fits. -/
theorem Timely.create {s : AttemptStore} {c : AttemptCall H}
    (hadm : Admissible attemptId payer s c) (hn : s.document = none)
    (h : ∀ a ∈ s.journal, a.createdAtMs ≤ c.createdAtMs) : Timely attemptId s c := by
  refine fun candidate hev => ⟨h, fun d hd => ?_⟩
  rcases events_cases (fun i a hop => (hadm.intent i a hop).1) hev with ⟨-, hcr⟩ | ⟨d₀, hd₀, -⟩
  · exact created_fits hcr hd
  · rw [hn] at hd₀; cases hd₀

/-! ## Room for a create -/

/-- While there is no document, the two lines of a create at some time fit the
    journal. -/
def Room (payer : String) (s : AttemptStore) : Prop :=
  s.document = none → ∃ t : ℤ, 0 < t ∧ (Json.int t).encodable = true ∧
    (∀ a ∈ s.journal, a.createdAtMs ≤ t) ∧
    anchorsBytes s.journal + 2 * createLineBytes payer t + 1 ≤ maxAnchorFileBytes

/-- The call, if it creates the attempt, leaves room for the lines of another
    create. -/
def LeavesRoom (attemptId payer : String) (s : AttemptStore) (c : AttemptCall H) : Prop :=
  s.document = none → ∀ candidate, c.events attemptId s = .ok (some candidate) →
    anchorsBytes s.journal + 3 * createLineBytes payer c.createdAtMs + 1 ≤ maxAnchorFileBytes

theorem Room.perform {s : AttemptStore} {c : AttemptCall H} (h : Good H attemptId payer s)
    (hr : Room payer s) (hadm : Admissible attemptId payer s c) (ht : Timely attemptId s c)
    (hl : LeavesRoom attemptId payer s c) : Room payer (c.perform attemptId s).1 := by
  rcases perform_cases c attemptId s with heq | ⟨candidate, d, p, q, hev, hd, hp, hq, hs⟩
  · rw [heq]; exact hr
  · obtain ⟨htime, hsize⟩ := ht candidate hev
    obtain ⟨hok, hdid⟩ := DocumentOk.next h hadm hev hd (hsize d hd)
    have hroom : s.document = none → ∃ t : ℤ, 0 < t ∧ (Json.int t).encodable = true ∧
        (∀ a ∈ s.journal ++ [p], a.createdAtMs ≤ t) ∧
        anchorsBytes (s.journal ++ [p]) + 2 * createLineBytes payer t + 1 ≤ maxAnchorFileBytes := by
      intro hn
      have hcount := events_count (fun i a hop => (hadm.intent i a hop).1) hev
      have hlen : d.events.length = 1 := by
        rw [(documentOf_eq_ok hd).2.1, hcount, AttemptStore.count, hn]; rfl
      have hid : isAttemptId d.attemptId = true := hok.attemptId.1 ▸ hok.attemptId.2
      have hline := lineBytes_eq hp.anchorOf hadm.uuid hid (isEventHash_digest hok.hash) hlen
      rw [if_pos rfl, hdid] at hline
      have hroom := hl hn candidate hev
      refine ⟨c.createdAtMs, hadm.time, hp.anchorOf.createdAtMs ▸ hp.anchorOf.printable.2, ?_, ?_⟩
      · intro a ha
        rcases List.mem_append.1 ha with ha | ha
        · exact htime a ha
        · rw [List.mem_singleton.1 ha, hp.anchorOf.createdAtMs]
      · rw [anchorsBytes_snoc]; omega
    revert hs
    generalize (c.perform attemptId s).1 = s'
    intro hs
    cases hs with
    | prepared _ => exact hroom
    | witnessed _ _ => exact hroom
    | written _ _ | committed _ _ | done _ _ _ => intro hx; cases hx

theorem createLineBytes_le (actor : H.SecretKey) {t : ℤ} (h : (Json.int t).encodable = true) :
    createLineBytes (asDid H actor) t ≤ 5100 := by
  have h₁ := weight_int_le h
  have h₂ := strWeight_le (asDid H actor)
  have h₃ : (asDid H actor).length ≤ 56 := length_encodeDidKey (H.pubkey_length actor)
  rw [maxIntDigits] at h₁
  rw [createLineBytes]; omega

theorem isAttemptId_key {i : SettlementIntent} {key : String}
    (h : settlementIdempotencyKey H i = .ok key) : isAttemptId key = true := by
  obtain ⟨-, b, -, rfl⟩ := (settlementIdempotencyKey_eq_ok H).1 h
  have hl : ("nth-settlement:v1:sha256:" ++ H.sha256 b).toList =
      "nth-settlement:v1:sha256:".toList ++ (H.sha256 b).toList := String.toList_append
  rw [isAttemptId, startsWith, chars_eq, chars_eq, hl, Bool.and_eq_true]
  refine ⟨by simp, ?_⟩
  rw [show (25 : ℕ) = "nth-settlement:v1:sha256:".toList.length from rfl, List.drop_left]
  exact H.sha256_isHex b

theorem appendAnchor_of_fits {s : AttemptStore} {a : Anchor} (hp : a.Printable)
    (h : anchorsBytes (s.journal ++ [a]) ≤ maxAnchorFileBytes) :
    s.appendAnchor a = .ok { s with journal := s.journal ++ [a] } := by
  obtain ⟨b, hb⟩ := toDict_isSome.2 hp
  rw [anchorsBytes_snoc, canonicalJson_lineBytes hb] at h
  have h' : anchorsBytes s.journal ≤ maxAnchorFileBytes := by omega
  simp [AttemptStore.appendAnchor, hb, expect, ok_bind, require, h', h]

theorem appendWitness_of_fits {s : AttemptStore} {a : Anchor} (hp : a.Printable)
    (hline : a.lineBytes ≤ maxRecordBytes + 1)
    (h : ∀ w, s.witness = some w → readWitness w = .ok () ∧ a ∉ w ∧
      anchorsBytes (w ++ [a]) ≤ maxWitnessBytes) :
    s.appendWitness a = .ok { s with witness := s.witness.map (· ++ [a]) } := by
  obtain ⟨doc, journal, witness⟩ := s
  cases witness with
  | none => rfl
  | some w =>
    obtain ⟨hr, hnew, hle⟩ := h w rfl
    obtain ⟨b, hb⟩ := toDict_isSome.2 hp
    rw [canonicalJson_lineBytes hb] at hline
    rw [anchorsBytes_snoc, canonicalJson_lineBytes hb, ← Nat.add_assoc] at hle
    have hlast : w.getLast? ≠ some a := fun hl => hnew (List.mem_of_getLast? hl)
    have hrec : b.length ≤ maxRecordBytes := by omega
    have hfile : appendWitnessFile w a = .ok (w ++ [a]) := by
      rw [appendWitnessFile, hb]
      simp only [expect, ok_bind, require, hrec, decide_true, if_true, hr, hlast, if_false, hle]
      rfl
    simp only [AttemptStore.appendWitness, hfile]; rfl

/-- A creation event of a valid intent has a text. -/
theorem createdEvent_encodable (actor : H.SecretKey) {intent : SettlementIntent} {payload : Fields}
    {t : ℤ} (hk : settlementIdempotencyKey H intent = .ok attemptId)
    (hpay : intentDict intent = .ok payload) (ht : (Json.int t).encodable = true) (sig : String) :
    ∀ p ∈ ({ createdEvent H attemptId actor payload t with signature := .str sig } :
      AttemptEvent).toDict.fields, p.2.encodable = true := by
  obtain ⟨-, b, hb, -⟩ := (settlementIdempotencyKey_eq_ok H).1 hk
  obtain ⟨-, rfl⟩ := intentDict_eq_ok hpay
  have ha := Json.encodable_obj.1 (canonicalJson_eq_some hb).1
    ("amount_minor", .int intent.amountMinor) (by simp)
  have hint : ∀ n : ℤ, n = 0 ∨ n = 1 → (Json.int n).encodable = true := by
    rintro n (rfl | rfl) <;> decide
  simp only [AttemptEvent.toDict, Json.fields_obj, createdEvent, List.forall_mem_cons, ht]
  refine ⟨rfl, hint 0 (Or.inl rfl), rfl, rfl, rfl, rfl, ?_, rfl, trivial, rfl, rfl, by simp⟩
  rw [Json.encodable_obj]
  simp only [List.forall_mem_cons]
  refine ⟨hint 1 (Or.inr rfl), rfl, ?_, by simp⟩
  rw [Json.encodable_obj]
  simp only [List.forall_mem_cons, ha]
  exact ⟨rfl, trivial, rfl, rfl, rfl, rfl, by simp⟩

/-- A create that is not cut. -/
def createCall (actor : H.SecretKey) (intent : SettlementIntent) (createdAtMs now : ℤ)
    (operationId : String) : AttemptCall H :=
  { op := .create intent adapterX402Testnet, actor, createdAtMs, now, operationId, crash := 5 }

/-- A create of an attempt that is not stored decides to persist it. -/
theorem create_events {s : AttemptStore} {actor : H.SecretKey} {intent : SettlementIntent}
    {t : ℤ} (now : ℤ) (op : String) (hn : s.document = none)
    (hk : settlementIdempotencyKey H intent = .ok attemptId)
    (hpayer : asDid H actor = intent.payerDid) (ht : 0 < t) (henc : (Json.int t).encodable = true) :
    ∃ candidate d, (createCall actor intent t now op).events attemptId s = .ok (some candidate) ∧
      documentOf H attemptId candidate = .ok d := by
  have hval := ((settlementIdempotencyKey_eq_ok H).1 hk).1
  have hne : intent.payerDid ≠ "" := hpayer ▸ asDid_ne_empty H actor
  obtain ⟨payload, hpay⟩ : ∃ payload, intentDict intent = .ok payload :=
    ⟨_, by rw [intentDict, hval]; rfl⟩
  have hid : createId H actor intent adapterX402Testnet t = .ok (attemptId, payload) := by
    simp [createId, require, ok_bind, hpay, hne, hpayer, hk, isAttemptId_key hk, ht]
  have hload : s.load H attemptId = .ok none := by rw [AttemptStore.load, hn]
  have hfields := createdEvent_encodable actor hk hpay henc
  obtain ⟨m, hm⟩ : ∃ m, canonicalJson (createdEvent H attemptId actor payload t).signingBody =
      some m :=
    canonicalJson_isSome.2 fun p hp => hfields "" p
      (List.mem_append_left [("signature", Json.str "")] hp)
  obtain ⟨e, hsign, b, hb⟩ : ∃ e, signAttemptEvent H actor
      (createdEvent H attemptId actor payload t) = .ok e ∧ ∃ b, canonicalJson e.toDict = some b := by
    refine ⟨{ createdEvent H attemptId actor payload t with
              signature := .str (signText H actor m) }, ?_, ?_⟩
    · rw [signAttemptEvent, hm]
      simp [createdEvent, Json.eqStr, require, ok_bind, expect]
    · exact canonicalJson_isSome.2 (hfields (signText H actor m))
  refine ⟨[e.toDict], { attemptId := attemptId, events := [e.toDict],
                        headHash := "sha256:" ++ H.sha256 b }, ?_, ?_⟩
  · simp only [createCall, AttemptCall.events, AttemptStore.nextEvents, AttemptOp.check,
      AttemptOp.next, hid, ok_bind, hload, hpay, createEvents, hsign]
    rfl
  · have hhash : attemptEventHash H e.toDict = some ("sha256:" ++ H.sha256 b) := by
      rw [attemptEventHash, digestOf, hb]; rfl
    simp [documentOf, require, ok_bind, hhash, expect]

theorem anchorsBytes_sublist {w j : List Anchor} (h : w.Sublist j) :
    anchorsBytes w ≤ anchorsBytes j :=
  (h.map Anchor.lineBytes).sum_le_sum fun _ _ => Nat.zero_le _

/-- The five steps of persisting a document whose anchors fit. -/
theorem persist_succeeds {s : AttemptStore} {d : Document} {actor : H.SecretKey} {t : ℤ}
    {op : String} {p q : Anchor} (h : Good H attemptId payer s)
    (hp : d.signed H actor t op .prepared p) (hq : d.signed H actor t op .committed q)
    (hfresh : ∀ a ∈ s.journal, a.operationId ≠ op)
    (hpl : p.lineBytes ≤ maxRecordBytes + 1) (hql : q.lineBytes ≤ maxRecordBytes + 1)
    (hfit : anchorsBytes s.journal + p.lineBytes + q.lineBytes ≤ maxAnchorFileBytes) :
    ∃ s', Durable.exec (persistSteps H actor t op d) s = .ok s' ∧ s'.document = some d := by
  have hstep : ∀ {a a' : Anchor} {s : AttemptStore}, signAnchor H actor a = .ok a' →
      a'.Printable → anchorsBytes (s.journal ++ [a']) ≤ maxAnchorFileBytes →
      anchorStep H actor a s = .ok { s with journal := s.journal ++ [a'] } := by
    intro a a' s ha hpr hf
    rw [anchorStep, ha]; exact appendAnchor_of_fits hpr hf
  have wstep : ∀ {a a' : Anchor} {s : AttemptStore}, signAnchor H actor a = .ok a' →
      a'.Printable → a'.lineBytes ≤ maxRecordBytes + 1 →
      (∀ w, s.witness = some w → readWitness w = .ok () ∧ a' ∉ w ∧
        anchorsBytes (w ++ [a']) ≤ maxWitnessBytes) →
      witnessStep H actor a s = .ok { s with witness := s.witness.map (· ++ [a']) } := by
    intro a a' s ha hpr hl hw
    rw [witnessStep, ha]; exact appendWitness_of_fits hpr hl hw
  have hlim : maxAnchorFileBytes ≤ maxWitnessBytes := by decide
  have hne : q ≠ p := fun he => by
    have := hq.anchorOf.phase
    rw [he, hp.anchorOf.phase] at this; cases this
  have hold : ∀ w, s.witness = some w → readWitness w = .ok () ∧ w.Sublist s.journal ∧ p ∉ w ∧ q ∉ w := by
    intro w hw
    obtain ⟨-, hr, hsub⟩ := h.witness w hw
    exact ⟨hr, hsub, fun hm => hfresh p (hsub.subset hm) hp.anchorOf.operationId,
      fun hm => hfresh q (hsub.subset hm) hq.anchorOf.operationId⟩
  have h₁ : anchorStep H actor (d.anchor H actor t op .prepared) s =
      .ok { s with journal := s.journal ++ [p] } :=
    hstep hp hp.anchorOf.printable (by rw [anchorsBytes_snoc]; omega)
  have h₂ : witnessStep H actor (d.anchor H actor t op .prepared)
      { s with journal := s.journal ++ [p] } =
      .ok { s with journal := s.journal ++ [p], witness := s.witness.map (· ++ [p]) } := by
    refine wstep hp hp.anchorOf.printable hpl fun w hw => ?_
    obtain ⟨hr, hsub, hpw, -⟩ := hold w hw
    have := anchorsBytes_sublist hsub
    exact ⟨hr, hpw, by rw [anchorsBytes_snoc]; omega⟩
  have h₄ : anchorStep H actor (d.anchor H actor t op .committed)
      { document := some d, journal := s.journal ++ [p], witness := s.witness.map (· ++ [p]) } =
      .ok { document := some d, journal := s.journal ++ [p] ++ [q],
            witness := s.witness.map (· ++ [p]) } :=
    hstep hq hq.anchorOf.printable (by rw [anchorsBytes_snoc, anchorsBytes_snoc]; omega)
  have h₅ : witnessStep H actor (d.anchor H actor t op .committed)
      { document := some d, journal := s.journal ++ [p] ++ [q],
        witness := s.witness.map (· ++ [p]) } =
      .ok { document := some d, journal := s.journal ++ [p] ++ [q],
            witness := (s.witness.map (· ++ [p])).map (· ++ [q]) } := by
    refine wstep hq hq.anchorOf.printable hql fun w hw => ?_
    obtain ⟨w₀, hw₀, rfl⟩ := Option.map_eq_some_iff.1 hw
    obtain ⟨hr, hsub, -, hqw⟩ := hold w₀ hw₀
    have hle := anchorsBytes_sublist hsub
    obtain ⟨-, hall⟩ := readWitness_eq_ok.1 hr
    refine ⟨readWitness_eq_ok.2 ⟨by rw [anchorsBytes_snoc]; omega, fun a ha => ?_⟩, fun hm => ?_,
      by rw [anchorsBytes_snoc, anchorsBytes_snoc]; omega⟩
    · rcases List.mem_append.1 ha with ha | ha
      · exact hall a ha
      · rw [List.mem_singleton.1 ha]; exact hpl
    · rcases List.mem_append.1 hm with hm | hm
      · exact hqw hm
      · exact hne (List.mem_singleton.1 hm)
  refine ⟨{ document := some d, journal := s.journal ++ [p] ++ [q],
            witness := (s.witness.map (· ++ [p])).map (· ++ [q]) }, ?_, rfl⟩
  simp only [persistSteps, Durable.exec, h₁, h₂, h₄, h₅, ok_bind]

/-- **A create of an attempt that is not stored succeeds**, if the two lines of
    its anchors fit the journal. -/
theorem create_succeeds {s : AttemptStore} {actor : H.SecretKey} {intent : SettlementIntent} {t : ℤ}
    {now : ℤ} {op : String} (h : Good H attemptId payer s) (hn : s.document = none)
    (hadm : Admissible attemptId payer s (createCall actor intent t now op))
    (hpayer : asDid H actor = payer) (henc : (Json.int t).encodable = true)
    (hnew : ∀ a ∈ s.journal, a.createdAtMs ≤ t)
    (hroom : anchorsBytes s.journal + 2 * createLineBytes payer t + 1 ≤ maxAnchorFileBytes) :
    ∃ s' d, (createCall actor intent t now op).perform attemptId s = (s', .done) ∧
      s'.document = some d ∧ s'.load H attemptId = .ok (some d.events) := by
  obtain ⟨hk, hip⟩ := hadm.intent intent _ rfl
  obtain ⟨candidate, d, hev, hd⟩ :=
    create_events (t := t) now op hn hk (hpayer.trans hip.symm) hadm.time henc
  have htimely := Timely.create hadm hn hnew
  have hfit := (htimely candidate hev).2 d hd
  obtain ⟨hok, -⟩ := DocumentOk.next h hadm hev hd hfit
  have hlen : d.events.length = 1 := by
    rw [(documentOf_eq_ok hd).2.1, events_count (fun i a hop => (hadm.intent i a hop).1) hev,
      AttemptStore.count, hn]
    rfl
  have hprint : ∀ phase, (d.anchor H actor t op phase).Printable := fun phase => by
    refine ⟨?_, henc⟩
    simp only [Document.anchor, hlen]; decide
  obtain ⟨p, hp⟩ := Document.exists_signed (hprint .prepared)
  obtain ⟨q, hq⟩ := Document.exists_signed (hprint .committed)
  have hid : isAttemptId d.attemptId = true := hok.attemptId.1 ▸ hok.attemptId.2
  have hpl := lineBytes_eq hp.anchorOf hadm.uuid hid (isEventHash_digest hok.hash) hlen
  have hql := lineBytes_eq hq.anchorOf hadm.uuid hid (isEventHash_digest hok.hash) hlen
  rw [hpayer] at hpl hql
  have hmax := createLineBytes_le actor henc
  rw [hpayer] at hmax
  have hrec : 5101 ≤ maxRecordBytes + 1 := by decide
  simp only [reduceCtorEq, if_true, if_false] at hpl hql
  obtain ⟨s', hexec, hs'⟩ := persist_succeeds h hp hq hadm.fresh (by omega) (by omega) (by omega)
  have hperf : (createCall actor intent t now op).perform attemptId s = (s', .done) := by
    rw [AttemptCall.perform, hev]
    simp only [hd]
    exact Durable.run_exec hexec (le_refl 5)
  have hgood := h.perform hadm htimely
  rw [hperf] at hgood
  exact ⟨s', d, hperf, hs', hgood.load hs'⟩

theorem Room.start (actor : H.SecretKey) (witnessed : Bool) :
    Room (asDid H actor) { witness := if witnessed then some [] else none } := by
  have henc : (Json.int 1).encodable = true := by decide
  have hle := createLineBytes_le actor henc
  have hmax : 2 * 5100 + 1 ≤ maxAnchorFileBytes := by decide
  refine fun _ => ⟨1, by decide, henc, fun a ha => absurd ha List.not_mem_nil, ?_⟩
  rw [show anchorsBytes [] = 0 from rfl]; omega

/-- **The store bricks no attempt.**  In a run of timely calls that leave room
    for another create, a document that exists can be read, and an attempt
    without one can be created. -/
theorem run_readable {actor : H.SecretKey} {s : AttemptStore} {vs : List Document}
    (h : StoreRun attemptId (asDid H actor)
      (fun s (c : AttemptCall H) => Timely attemptId s c ∧ LeavesRoom attemptId (asDid H actor) s c)
      s vs) :
    (∀ d, s.document = some d → s.load H attemptId = .ok (some d.events)) ∧
    (s.document = none → ∀ intent, settlementIdempotencyKey H intent = .ok attemptId →
      intent.payerDid = asDid H actor → ∃ t : ℤ, 0 < t ∧
        ∀ now op, isLeaseId op = true → (∀ a ∈ s.journal, a.operationId ≠ op) →
          ∃ s' d, (createCall actor intent t now op).perform attemptId s = (s', .done) ∧
            s'.document = some d ∧ s'.load H attemptId = .ok (some d.events)) := by
  have hgood : Good H attemptId (asDid H actor) s ∧ Room (asDid H actor) s := by
    induction h with
    | start witnessed => exact ⟨.start witnessed, .start actor witnessed⟩
    | call c _ hadm hc ih =>
      exact ⟨ih.1.perform hadm hc.1, ih.2.perform ih.1 hadm hc.1 hc.2⟩
  refine ⟨fun d hd => hgood.1.load hd, fun hn intent hk hip => ?_⟩
  obtain ⟨t, ht, henc, hnew, hroom⟩ := hgood.2 hn
  refine ⟨t, ht, fun now op hop hfresh => create_succeeds hgood.1 hn ?_ rfl henc hnew hroom⟩
  refine ⟨ht, hop, hfresh, ?_⟩
  rintro i a ⟨⟩
  exact ⟨hk, hip⟩

/-! ## Examples -/

/-- The id of the attempt of `oneIntent`. -/
def oneId : String := (settlementIdempotencyKey checksumHost oneIntent).toOption.getD ""

/-- The intent has a key. -/
def oneIntentKey : PLift ((settlementIdempotencyKey checksumHost oneIntent).toOption.isSome = true) :=
  ⟨by decide +kernel⟩

theorem oneId_eq : settlementIdempotencyKey checksumHost oneIntent = .ok oneId := by
  have h := oneIntentKey.down
  unfold oneId
  cases hk : settlementIdempotencyKey checksumHost oneIntent with
  | error e => rw [hk] at h; cases h
  | ok k => rfl

/-- A create of `oneIntent` at the time `t`, cut after `n` steps; `c` is the
    digit of its operation id. -/
def oneCreate (t : ℤ) (c : Char) (n : ℕ) : AttemptCall checksumHost :=
  { op := .create oneIntent adapterX402Testnet, actor := (1 : UInt8), createdAtMs := t, now := 10,
    operationId := String.ofList (List.replicate 32 c), crash := n }

/-- The payer of `oneIntent`. -/
def oneDid : String := asDid checksumHost (1 : UInt8)

theorem oneCreate_admissible {s : AttemptStore} {t : ℤ} {c : Char} {n : ℕ} (ht : 0 < t)
    (hc : isHexChar c = true)
    (hfresh : ∀ a ∈ s.journal, a.operationId ≠ String.ofList (List.replicate 32 c)) :
    Admissible oneId oneDid s (oneCreate t c n) := by
  refine ⟨ht, ?_, hfresh, ?_⟩
  · simp [oneCreate, isLeaseId, isHex, hc]
  · rintro i a ⟨⟩
    exact ⟨oneId_eq, rfl⟩

/-- A create cut before it writes the document, and another cut after `n` steps. -/
def twoCreates (t t' : ℤ) (n : ℕ) : AttemptStore :=
  ((oneCreate t' 'b' n).perform oneId ((oneCreate t 'a' 1).perform oneId {}).1).1

theorem twoCreates_run (t t' : ℤ) (ht : 0 < t) (ht' : 0 < t') (n : ℕ) :
    ∃ vs, StoreRun oneId oneDid (fun _ (_ : AttemptCall checksumHost) => True)
      (twoCreates t t' n) vs := by
  refine ⟨_, .call _ (.call _ (.start false) (oneCreate_admissible ht (by decide) ?_) trivial)
    (oneCreate_admissible ht' (by decide) ?_) trivial⟩
  · exact fun a ha => absurd ha List.not_mem_nil
  · intro a ha
    rcases perform_operations ha with ha | ha
    · cases ha
    · rw [ha, show (oneCreate t 'a' 1).operationId = String.ofList (List.replicate 32 'a') from rfl]
      decide

/-- The documents that both creates leave. -/
theorem bricked_creates :
    (((twoCreates 5000 3000 5).document.isSome &&
      ((twoCreates 5000 3000 5).load checksumHost oneId).toOption.isNone) = true) ∧
    (((twoCreates 5000 3000 3).document.isSome &&
      ((twoCreates 5000 3000 3).load checksumHost oneId).toOption.isNone) = true) := by
  decide +kernel

/-- The document of the cut and the complete create. -/
def brickedAfterFive : PLift (((twoCreates 5000 3000 5).document.isSome &&
    ((twoCreates 5000 3000 5).load checksumHost oneId).toOption.isNone) = true) := ⟨bricked_creates.1⟩

/-- A create at the time 5000 is cut after its prepare, one at 3000 is
    complete: the document is written and cannot be read. -/
theorem create_before_prepare_bricks :
    ¬ ∀ s vs, StoreRun oneId oneDid (fun _ (_ : AttemptCall checksumHost) => True) s vs →
      ∀ d, s.document = some d → s.load checksumHost oneId = .ok (some d.events) := by
  intro h
  obtain ⟨vs, hrun⟩ := twoCreates_run 5000 3000 (by decide) (by decide) 5
  have hb := brickedAfterFive.down
  rw [Bool.and_eq_true] at hb
  obtain ⟨d, hd⟩ := Option.isSome_iff_exists.1 hb.1
  rw [h _ vs hrun d hd] at hb
  cases hb.2

/-- The document of the cut create alone. -/
def brickedAfterThree : PLift (((twoCreates 5000 3000 3).document.isSome &&
    ((twoCreates 5000 3000 3).load checksumHost oneId).toOption.isNone) = true) := ⟨bricked_creates.2⟩

/-- The same run cut right after the document is written. -/
theorem current_document_rejected :
    ¬ ∀ s vs, StoreRun oneId oneDid (fun _ (_ : AttemptCall checksumHost) => True) s vs →
      RollbackRejected checksumHost oneId s vs ∧
      ∀ d, s.document = some d → s.load checksumHost oneId = .ok (some d.events) := by
  intro h
  obtain ⟨vs, hrun⟩ := twoCreates_run 5000 3000 (by decide) (by decide) 3
  have hb := brickedAfterThree.down
  rw [Bool.and_eq_true] at hb
  obtain ⟨d, hd⟩ := Option.isSome_iff_exists.1 hb.1
  rw [(h _ vs hrun).2 d hd] at hb
  cases hb.2

theorem oneCreate_timely {t : ℤ} {c : Char} {n : ℕ} (ht : 0 < t) (hc : isHexChar c = true) :
    Timely oneId {} (oneCreate t c n) :=
  Timely.create (oneCreate_admissible ht hc fun _ ha => absurd ha List.not_mem_nil) rfl
    fun _ ha => absurd ha List.not_mem_nil

/-- A create cut after three steps has written its document, and so has a complete one. -/
def oneCreateWrites : PLift (
    ((oneCreate 5000 'a' 3).perform oneId
      { witness := if false then some [] else none }).1.document.isSome = true ∧
    ((oneCreate 5000 'a' 5).perform oneId
      { witness := if false then some [] else none }).1.document.isSome = true) :=
  ⟨by decide +kernel⟩

theorem run_detects_rollback_created :
    ∃ s vs, RollbackRejected checksumHost oneId s vs ∧ s.document.isSome = true ∧
      ∀ d, s.document = some d → s.load checksumHost oneId = .ok (some d.events) := by
  have hadm : Admissible oneId oneDid {} (oneCreate 5000 'a' 3) :=
    oneCreate_admissible (by decide) (by decide) fun a ha => absurd ha List.not_mem_nil
  have htimely : Timely oneId {} (oneCreate 5000 'a' 3) :=
    oneCreate_timely (by decide) (by decide)
  obtain ⟨h₁, h₂⟩ := run_detects_rollback (.call _ (.start false) hadm htimely)
  exact ⟨_, _, h₁, oneCreateWrites.down.1, h₂ fun _ _ h => h⟩

theorem run_readable_created :
    ∃ s : AttemptStore, s.document.isSome = true ∧
      ∀ d, s.document = some d → s.load checksumHost oneId = .ok (some d.events) := by
  have henc : (Json.int 5000).encodable = true := by decide
  have hle := createLineBytes_le (H := checksumHost) (1 : UInt8) henc
  have hmax : 3 * 5100 + 1 ≤ maxAnchorFileBytes := by decide
  have hroom : LeavesRoom oneId (asDid checksumHost (1 : UInt8)) {} (oneCreate 5000 'a' 5) := by
    intro _ _ _
    rw [show anchorsBytes (AttemptStore.journal {}) = 0 from rfl]
    exact (by omega : 0 + 3 * createLineBytes (asDid checksumHost (1 : UInt8)) 5000 + 1 ≤
      maxAnchorFileBytes)
  have h := @run_readable checksumHost oneId (1 : UInt8) _ _
    (.call (oneCreate 5000 'a' 5) (.start false)
      (oneCreate_admissible (by decide) (by decide) fun a ha => absurd ha List.not_mem_nil)
      ⟨oneCreate_timely (by decide) (by decide), hroom⟩)
  exact ⟨_, oneCreateWrites.down.2, h.1⟩

end NthDao
