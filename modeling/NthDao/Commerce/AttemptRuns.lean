/-
  Runs of the payment-attempt store with crashes.

  * `perform_cases`: what a call of an operation, cut anywhere, can leave;
  * `Run`: the stores that calls reach, with the versions of the document that
    were on disk;
  * `Ordered`: versions only grow, and no anchor is older than a commit before
    it;
-/
import NthDao.Commerce.HeadJournal

namespace NthDao

open Py

variable (H : Host)

/-! ## One step -/

theorem signAnchor_eq_ok {actor : H.SecretKey} {a a' : Anchor} (h : signAnchor H actor a = .ok a') :
    ∃ b, canonicalJson a.signingBody = some b ∧ a.actorDid = asDid H actor ∧
      a' = { a with signature := signText H actor b } := by
  simp only [signAnchor, bind_eq_ok, require_eq_ok, expect_eq_ok, pure_eq_ok, beq_iff_eq] at h
  obtain ⟨_, hd, b, hb, rfl⟩ := h
  exact ⟨b, hb, hd.symm, rfl⟩

theorem canonicalJson_lineBytes {a : Anchor} {b : Bytes} (h : canonicalJson a.toDict = some b) :
    a.lineBytes = b.length + 1 := by
  rw [Anchor.lineBytes, h]; rfl

theorem anchorsBytes_snoc (as : List Anchor) (a : Anchor) :
    anchorsBytes (as ++ [a]) = anchorsBytes as + a.lineBytes := by
  simp [anchorsBytes]

theorem appendAnchor_eq_ok {s s' : AttemptStore} {a : Anchor} (h : s.appendAnchor a = .ok s') :
    s' = { s with journal := s.journal ++ [a] } ∧
      anchorsBytes (s.journal ++ [a]) ≤ maxAnchorFileBytes := by
  simp only [AttemptStore.appendAnchor, bind_eq_ok, require_eq_ok, expect_eq_ok, pure_eq_ok,
    decide_eq_true_eq] at h
  obtain ⟨b, hb, _, -, _, hle, rfl⟩ := h
  rw [anchorsBytes_snoc, canonicalJson_lineBytes hb]
  exact ⟨rfl, hle⟩

/-- What appending an anchor makes of the witness. -/
inductive Witnessed (a : Anchor) : Option (List Anchor) → Option (List Anchor) → Prop
  | none : Witnessed a none none
  | again {w : List Anchor} : w.getLast? = some a → Witnessed a (some w) (some w)
  | append {w : List Anchor} : readWitness (w ++ [a]) = .ok () → Witnessed a (some w) (some (w ++ [a]))

theorem readWitness_eq_ok {w : List Anchor} :
    readWitness w = .ok () ↔
      anchorsBytes w ≤ maxWitnessBytes ∧ ∀ a ∈ w, a.lineBytes ≤ maxRecordBytes + 1 := by
  simp [readWitness]

theorem appendWitnessFile_eq_ok {w w' : List Anchor} {a : Anchor}
    (h : appendWitnessFile w a = .ok w') : Witnessed a (some w) (some w') := by
  simp only [appendWitnessFile, bind_eq_ok, require_eq_ok, expect_eq_ok, decide_eq_true_eq] at h
  obtain ⟨b, hb, _, hrec, ⟨⟩, hread, h⟩ := h
  obtain ⟨-, hall⟩ := readWitness_eq_ok.1 hread
  split at h
  · cases h; exact .again ‹_›
  · simp only [bind_eq_ok, require_eq_ok, pure_eq_ok, decide_eq_true_eq] at h
    obtain ⟨_, hle, rfl⟩ := h
    have hline := canonicalJson_lineBytes hb
    refine .append (readWitness_eq_ok.2 ⟨?_, fun x hx => ?_⟩)
    · rw [anchorsBytes_snoc]; omega
    · rcases List.mem_append.1 hx with hx | hx
      · exact hall x hx
      · rw [List.mem_singleton.1 hx]; omega

theorem appendWitness_eq_ok {s s' : AttemptStore} {a : Anchor} (h : s.appendWitness a = .ok s') :
    ∃ w, Witnessed a s.witness w ∧ s' = { s with witness := w } := by
  obtain ⟨doc, journal, witness⟩ := s
  cases witness with
  | none => cases h; exact ⟨none, .none, rfl⟩
  | some w =>
    simp only [AttemptStore.appendWitness, bind_eq_ok, pure_eq_ok] at h
    obtain ⟨w', hw, rfl⟩ := h
    exact ⟨some w', appendWitnessFile_eq_ok hw, rfl⟩

/-- The stores between the steps of `_persist` of the document `d` with the
    signed anchors `p` and `c`. -/
inductive Stage (s : AttemptStore) (d : Document) (p c : Anchor) : AttemptStore → Prop
  | prepared : anchorsBytes (s.journal ++ [p]) ≤ maxAnchorFileBytes →
    Stage s d p c { s with journal := s.journal ++ [p] }
  | witnessed {w : Option (List Anchor)} :
    anchorsBytes (s.journal ++ [p]) ≤ maxAnchorFileBytes → Witnessed p s.witness w →
    Stage s d p c { s with journal := s.journal ++ [p], witness := w }
  | written {w : Option (List Anchor)} :
    anchorsBytes (s.journal ++ [p]) ≤ maxAnchorFileBytes → Witnessed p s.witness w →
    Stage s d p c { document := some d, journal := s.journal ++ [p], witness := w }
  | committed {w : Option (List Anchor)} :
    anchorsBytes (s.journal ++ [p] ++ [c]) ≤ maxAnchorFileBytes → Witnessed p s.witness w →
    Stage s d p c { document := some d, journal := s.journal ++ [p] ++ [c], witness := w }
  | done {w w' : Option (List Anchor)} :
    anchorsBytes (s.journal ++ [p] ++ [c]) ≤ maxAnchorFileBytes → Witnessed p s.witness w →
    Witnessed c w w' →
    Stage s d p c { document := some d, journal := s.journal ++ [p] ++ [c], witness := w' }

/-- The anchor of a document, signed. -/
def Document.signed (d : Document) (actor : H.SecretKey) (createdAtMs : ℤ) (operationId : String)
    (phase : Phase) (a : Anchor) : Prop :=
  signAnchor H actor (d.anchor H actor createdAtMs operationId phase) = .ok a

theorem persist_keeps {P : AttemptStore → Prop} {actor : H.SecretKey} {at' : ℤ} {op : String}
    {d : Document} {s : AttemptStore} (h₀ : P s)
    (h : ∀ p c s', d.signed H actor at' op .prepared p → d.signed H actor at' op .committed c →
      Stage s d p c s' → P s')
    (hc : ∀ p, d.signed H actor at' op .prepared p → ∃ c, d.signed H actor at' op .committed c) :
    Durable.Keeps P (persistSteps H actor at' op d) s := by
  have hstep : ∀ {a a' : Anchor} {s s' : AttemptStore}, signAnchor H actor a = .ok a' →
      anchorStep H actor a s = .ok s' → s' = { s with journal := s.journal ++ [a'] } ∧
        anchorsBytes (s.journal ++ [a']) ≤ maxAnchorFileBytes := by
    intro a a' s s' ha hs
    rw [anchorStep, ha, ok_bind] at hs
    exact appendAnchor_eq_ok hs
  have wstep : ∀ {a a' : Anchor} {s s' : AttemptStore}, signAnchor H actor a = .ok a' →
      witnessStep H actor a s = .ok s' → ∃ w, Witnessed a' s.witness w ∧
        s' = { s with witness := w } := by
    intro a a' s s' ha hs
    rw [witnessStep, ha, ok_bind] at hs
    exact appendWitness_eq_ok hs
  refine ⟨h₀, fun s₁ h₁ => ?_⟩
  obtain ⟨p, hp, -⟩ := bind_eq_ok.1 h₁
  obtain ⟨c, hcs⟩ := hc p hp
  obtain ⟨rfl, hb₁⟩ := hstep hp h₁
  refine ⟨h p c _ hp hcs (.prepared hb₁), fun s₂ h₂ => ?_⟩
  obtain ⟨w, hw, rfl⟩ := wstep hp h₂
  refine ⟨h p c _ hp hcs (.witnessed hb₁ hw), fun s₃ h₃ => ?_⟩
  cases h₃
  refine ⟨h p c _ hp hcs (.written hb₁ hw), fun s₄ h₄ => ?_⟩
  obtain ⟨rfl, hb₄⟩ := hstep hcs h₄
  refine ⟨h p c _ hp hcs (.committed hb₄ hw), fun s₅ h₅ => ?_⟩
  obtain ⟨w', hw', rfl⟩ := wstep hcs h₅
  exact h p c _ hp hcs (.done hb₄ hw hw')

/-- The numbers of an anchor have a text. -/
def Anchor.Printable (a : Anchor) : Prop :=
  (Json.int a.seq).encodable = true ∧ (Json.int a.createdAtMs).encodable = true

theorem signingBody_isSome {a : Anchor} :
    (∃ b, canonicalJson a.signingBody = some b) ↔ a.Printable := by
  rw [Anchor.signingBody, canonicalJson_isSome]
  simp [Json.encodable, Anchor.Printable]

theorem toDict_isSome {a : Anchor} : (∃ b, canonicalJson a.toDict = some b) ↔ a.Printable := by
  rw [Anchor.toDict, canonicalJson_isSome]
  simp [Json.encodable, Anchor.Printable]

variable {H}

theorem Document.exists_signed {d : Document} {actor : H.SecretKey} {at' : ℤ} {op : String}
    {phase : Phase} (h : (d.anchor H actor at' op phase).Printable) :
    ∃ a, d.signed H actor at' op phase a := by
  obtain ⟨b, hb⟩ := signingBody_isSome.2 h
  refine ⟨{ d.anchor H actor at' op phase with signature := signText H actor b }, ?_⟩
  rw [Document.signed, signAnchor, hb]
  simp [Document.anchor, require, ok_bind, expect]

theorem Document.signed.eq {d : Document} {actor : H.SecretKey} {at' : ℤ} {op : String}
    {phase : Phase} {a : Anchor} (h : d.signed H actor at' op phase a) :
    a.Printable ∧ ∃ b, canonicalJson (d.anchor H actor at' op phase).signingBody = some b ∧
      a = { d.anchor H actor at' op phase with signature := signText H actor b } := by
  obtain ⟨b, hb, -, rfl⟩ := signAnchor_eq_ok H h
  exact ⟨signingBody_isSome.1 ⟨b, hb⟩, b, hb, rfl⟩

/-- What the signed anchor `a` of a document says. -/
structure AnchorOf (d : Document) (actor : H.SecretKey) (createdAtMs : ℤ) (operationId : String)
    (phase : Phase) (a : Anchor) : Prop where
  phase : a.phase = phase
  head : a.head = d.head
  attemptId : a.attemptId = d.attemptId
  actorDid : a.actorDid = asDid H actor
  operationId : a.operationId = operationId
  createdAtMs : a.createdAtMs = createdAtMs
  printable : a.Printable
  signature : ∃ m, a.signature = signText H actor m

theorem Document.signed.anchorOf {d : Document} {actor : H.SecretKey} {at' : ℤ} {op : String}
    {phase : Phase} {a : Anchor} (h : d.signed H actor at' op phase a) :
    AnchorOf d actor at' op phase a := by
  obtain ⟨hp, b, -, rfl⟩ := h.eq
  exact ⟨rfl, rfl, rfl, rfl, rfl, rfl, hp, b, rfl⟩

theorem AnchorOf.seq_eq {d : Document} {actor : H.SecretKey} {at' : ℤ} {op : String}
    {phase : Phase} {a : Anchor} (h : AnchorOf d actor at' op phase a) :
    a.seq = (d.events.length : ℤ) - 1 := congrArg Prod.fst h.head

/-! ## What a call decides -/

theorem load_eq_none {s : AttemptStore} {id : String} (h : s.load H id = .ok none) :
    s.document = none := by
  unfold AttemptStore.load at h
  split at h
  · assumption
  · simp only [bind_eq_ok, pure_eq_ok] at h
    obtain ⟨_, -, _, -, _, -, _, -, _, -, h⟩ := h
    cases h

theorem load_eq_some {s : AttemptStore} {id : String} {events : List Json}
    (h : s.load H id = .ok (some events)) : ∃ d, s.document = some d ∧ d.events = events ∧
      d.head ∈ acceptedAnchorHeads s.journal ∧
      ∀ w, s.witness = some w → d.head ∈ acceptedAnchorHeads w := by
  unfold AttemptStore.load at h
  split at h
  · cases h
  · rename_i d hd
    simp only [bind_eq_ok, pure_eq_ok, Option.some_inj] at h
    obtain ⟨_, -, _, -, _, -, _, -, ⟨⟩, hv, he⟩ := h
    simp only [AttemptStore.validateAnchor, bind_eq_ok, require_eq_ok,
      List.contains_iff_mem] at hv
    obtain ⟨_, -, _, -, _, -, _, -, _, -, _, hj, hw⟩ := hv
    refine ⟨d, hd, he, hj, fun w hs => ?_⟩
    rw [hs] at hw
    simp only [validateWitness, bind_eq_ok, require_eq_ok, List.contains_iff_mem] at hw
    obtain ⟨_, -, _, -, _, -, hw⟩ := hw
    exact hw

theorem projectVerified_actorDid (raw : Json) (es : List Json) :
    (projectVerified (raw :: es)).actorDid = Json.get raw.fields "actor_did" := by
  have hstep : ∀ (v : View) (e : Json), (v.step e).actorDid = v.actorDid := by
    intro v e
    simp only [View.step]
    split <;> rfl
  have hfold : ∀ (es : List Json) (v : View), (es.foldl View.step v).actorDid = v.actorDid := by
    intro es
    induction es with
    | nil => intro v; rfl
    | cons e es ih => intro v; rw [List.foldl_cons, ih, hstep]
  rw [projectVerified, hfold]; rfl

/-- The state an operation leads to. -/
def AttemptOp.newState : AttemptOp → AttemptState
  | .create .. | .scheduleRetry .. => .pending
  | .claim .. => .inflight
  | .recordSettled .. | .recordReconciled .. => .settled
  | .block .. => .blocked
  | .recordOrphaned .. => .orphaned

/-- The events that follow the stored ones. -/
def Extends (attemptId : String) (c : AttemptCall H) (events candidate : List Json) : Prop :=
  ∃ e : AttemptEvent, e.actorDid = (projectVerified events).actorDid ∧
    candidate = events ++ [e.toDict] ∧ e.actorDid = .str (asDid H c.actor) ∧
    e.attemptId = .str attemptId ∧ e.newState = .str c.op.newState.wire ∧ events ≠ []

theorem signAttemptEvent_eq_ok {actor : H.SecretKey} {e e' : AttemptEvent}
    (h : signAttemptEvent H actor e = .ok e') : e.actorDid = .str (asDid H actor) ∧
      ∃ b, canonicalJson e.signingBody = some b ∧
        e' = { e with signature := .str (signText H actor b) } := by
  simp only [signAttemptEvent, bind_eq_ok, require_eq_ok, expect_eq_ok, pure_eq_ok] at h
  obtain ⟨_, hd, b, hb, rfl⟩ := h
  exact ⟨Json.eqStr_iff.1 hd, b, hb, rfl⟩

theorem checkExisting_ne_nil {actor : H.SecretKey} {now : ℤ} {events : List Json}
    (h : checkExisting H actor now events = .ok ()) : events ≠ [] := by
  rintro rfl
  simp only [checkExisting, bind_eq_ok] at h
  obtain ⟨_, hv, -⟩ := h
  cases hv

theorem extendEvents_eq_ok {id : String} {c : AttemptCall H} {type : AttemptType}
    {payload : Fields} {at' now : ℤ} {events candidate : List Json}
    (hne : events ≠ [])
    (h : extendEvents H id c.actor type c.op.newState payload at' now events = .ok candidate) :
    Extends id c events candidate := by
  simp only [extendEvents, bind_eq_ok, expect_eq_ok, pure_eq_ok] at h
  obtain ⟨_, -, e, he, _, -, rfl⟩ := h
  obtain ⟨hd, b, -, rfl⟩ := signAttemptEvent_eq_ok he
  exact ⟨_, rfl, rfl, hd, rfl, rfl, hne⟩

theorem appendEvents_eq_ok {id : String} {c : AttemptCall H} {type : AttemptType}
    {payload : Fields} {at' now : ℤ} {stored : Option (List Json)} {candidate : List Json}
    (h : appendEvents H id c.actor type c.op.newState payload at' now stored =
      .ok (some candidate)) :
    ∃ events, stored = some events ∧ Extends id c events candidate := by
  simp only [appendEvents, bind_eq_ok, expect_eq_ok, pure_eq_ok, Option.some_inj] at h
  obtain ⟨events, hs, ⟨⟩, hc, _, he, rfl⟩ := h
  exact ⟨events, hs, extendEvents_eq_ok (checkExisting_ne_nil hc) he⟩

/-- The events of a creation. -/
def Creates (attemptId : String) (c : AttemptCall H) (candidate : List Json) : Prop :=
  ∃ intent adapterId payload e, c.op = .create intent adapterId ∧
    createId H c.actor intent adapterId c.createdAtMs = .ok (attemptId, payload) ∧
    signAttemptEvent H c.actor (createdEvent H attemptId c.actor payload c.createdAtMs) = .ok e ∧
    candidate = [e.toDict]

/-- **What a call adds to the stored events**: the creation of an attempt that
    is not stored, or one more event after the stored ones. -/
theorem next_cases {c : AttemptCall H} {id : String} {stored : Option (List Json)}
    {candidate : List Json}
    (hid : ∀ intent adapterId, c.op = .create intent adapterId →
      settlementIdempotencyKey H intent = .ok id)
    (hcheck : c.op.check H c.actor c.createdAtMs = .ok ())
    (h : c.op.next H id c.actor c.createdAtMs c.now stored = .ok (some candidate)) :
    (stored = none ∧ Creates id c candidate) ∨
      ∃ events, stored = some events ∧ Extends id c events candidate := by
  obtain ⟨op, actor, at', now, operation, crash⟩ := c
  cases op with
  | create intent adapterId =>
    simp only [AttemptOp.check, bind_eq_ok] at hcheck
    obtain ⟨⟨id', payload⟩, hc, -⟩ := hcheck
    obtain ⟨hpay, hid'⟩ : intentDict intent = .ok payload ∧ id' = id := by
      have hk := hid intent adapterId rfl
      simp only [createId, bind_eq_ok, pure_eq_ok, hk] at hc
      obtain ⟨_, -, _, hp, _, -, _, hk', _, -, _, -, hc⟩ := hc
      cases hk'; cases hc; exact ⟨hp, rfl⟩
    subst hid'
    simp only [AttemptOp.next, hpay, ok_bind] at h
    cases stored with
    | some existing =>
      simp only [createEvents, bind_eq_ok] at h
      obtain ⟨_, -, _, -, h⟩ := h
      cases h
    | none =>
      simp only [createEvents, bind_eq_ok, pure_eq_ok, Option.some_inj] at h
      obtain ⟨e, he, rfl⟩ := h
      exact Or.inl ⟨rfl, intent, adapterId, payload, e, rfl, hc, he, rfl⟩
  | claim leaseMs leaseId =>
    cases stored with
    | none => cases h
    | some events =>
      simp only [AttemptOp.next, claimEvents, bind_eq_ok] at h
      obtain ⟨⟨⟩, hc, h⟩ := h
      split at h
      · simp only [bind_eq_ok, pure_eq_ok, Option.some_inj] at h
        obtain ⟨_, he, rfl⟩ := h
        exact Or.inr ⟨events, rfl, extendEvents_eq_ok (checkExisting_ne_nil hc) he⟩
      · cases h
  | scheduleRetry _ _ _ | recordSettled _ _ | block _ _ | recordOrphaned _ _ _ _
  | recordReconciled _ _ => exact Or.inr (appendEvents_eq_ok h)

/-- What a call persists. -/
theorem events_cases {c : AttemptCall H} {id : String} {s : AttemptStore} {candidate : List Json}
    (hid : ∀ intent adapterId, c.op = .create intent adapterId →
      settlementIdempotencyKey H intent = .ok id)
    (h : c.events id s = .ok (some candidate)) :
    (s.document = none ∧ Creates id c candidate) ∨
      ∃ d, s.document = some d ∧ s.load H id = .ok (some d.events) ∧
        Extends id c d.events candidate := by
  simp only [AttemptCall.events, AttemptStore.nextEvents, bind_eq_ok] at h
  obtain ⟨⟨⟩, hcheck, stored, hl, h⟩ := h
  rcases next_cases hid hcheck h with ⟨rfl, hc⟩ | ⟨events, rfl, he⟩
  · exact Or.inl ⟨load_eq_none hl, hc⟩
  · obtain ⟨d, hd, rfl, -⟩ := load_eq_some hl
    exact Or.inr ⟨d, hd, hl, he⟩

theorem documentOf_eq_ok {id : String} {events : List Json} {d : Document}
    (h : documentOf H id events = .ok d) : d.attemptId = id ∧ d.events = events ∧ events ≠ [] ∧
      attemptEventHash H (events.getLastD .null) = some d.headHash := by
  simp only [documentOf, bind_eq_ok, require_eq_ok, expect_eq_ok, pure_eq_ok] at h
  obtain ⟨_, he, hash, hh, rfl⟩ := h
  exact ⟨rfl, rfl, by simpa using he, hh⟩

/-- **What a call can leave**, wherever it is cut: the store as it was, or a
    stage of persisting the events it decided on. -/
theorem perform_cases (c : AttemptCall H) (id : String) (s : AttemptStore) :
    (c.perform id s).1 = s ∨ ∃ candidate d p q, c.events id s = .ok (some candidate) ∧
      documentOf H id candidate = .ok d ∧
      d.signed H c.actor c.createdAtMs c.operationId .prepared p ∧
      d.signed H c.actor c.createdAtMs c.operationId .committed q ∧
      Stage s d p q (c.perform id s).1 := by
  unfold AttemptCall.perform
  split
  · exact Or.inl rfl
  · exact Or.inl rfl
  · rename_i candidate hc
    split
    · exact Or.inl rfl
    · rename_i d hd
      have hkeeps : Durable.Keeps (fun s' => s' = s ∨ ∃ p q,
          d.signed H c.actor c.createdAtMs c.operationId .prepared p ∧
          d.signed H c.actor c.createdAtMs c.operationId .committed q ∧ Stage s d p q s')
          (persistSteps H c.actor c.createdAtMs c.operationId d) s := by
        refine persist_keeps H (Or.inl rfl) (fun p q s' hp hq hs => Or.inr ⟨p, q, hp, hq, hs⟩)
          fun p hp => Document.exists_signed ?_
        obtain ⟨hpr, b, -, rfl⟩ := hp.eq
        exact hpr
      rcases Durable.run_keeps hkeeps c.crash with h | ⟨p, q, hp, hq, hs⟩
      · exact Or.inl h
      · exact Or.inr ⟨candidate, d, p, q, hc, hd, hp, hq, hs⟩

theorem Stage.mem_journal {s s' : AttemptStore} {d : Document} {p q a : Anchor}
    (h : Stage s d p q s') (ha : a ∈ s'.journal) : a ∈ s.journal ∨ a = p ∨ a = q := by
  cases h with
  | prepared _ | witnessed _ _ | written _ _ =>
    rcases List.mem_append.1 ha with ha | ha
    · exact Or.inl ha
    · exact Or.inr (Or.inl (List.mem_singleton.1 ha))
  | committed _ _ | done _ _ _ =>
    rcases List.mem_append.1 ha with ha | ha
    · rcases List.mem_append.1 ha with ha | ha
      · exact Or.inl ha
      · exact Or.inr (Or.inl (List.mem_singleton.1 ha))
    · exact Or.inr (Or.inr (List.mem_singleton.1 ha))

/-- The anchors a call adds carry its operation id. -/
theorem perform_operations {c : AttemptCall H} {id : String} {s : AttemptStore} {a : Anchor}
    (h : a ∈ (c.perform id s).1.journal) : a ∈ s.journal ∨ a.operationId = c.operationId := by
  rcases perform_cases c id s with heq | ⟨candidate, d, p, q, -, -, hp, hq, hs⟩
  · rw [heq] at h; exact Or.inl h
  · rcases hs.mem_journal h with h | rfl | rfl
    · exact Or.inl h
    · exact Or.inr hp.anchorOf.operationId
    · exact Or.inr hq.anchorOf.operationId

/-! ## Runs -/

/-- The calls made on an attempt of `payer`: times are positive, `uuid4` gives
    new operation ids, and the intents with the id of the attempt, which hashes
    the payer, are of that payer. -/
structure Admissible (attemptId payer : String) (s : AttemptStore) (c : AttemptCall H) : Prop where
  time : 0 < c.createdAtMs
  uuid : isLeaseId c.operationId = true
  fresh : ∀ a ∈ s.journal, a.operationId ≠ c.operationId
  intent : ∀ intent adapterId, c.op = .create intent adapterId →
    settlementIdempotencyKey H intent = .ok attemptId ∧ intent.payerDid = payer

/-- The stores reached from nothing by calls that meet `cond`, with the
    documents found on disk after each call. -/
inductive StoreRun (attemptId payer : String) (cond : AttemptStore → AttemptCall H → Prop) :
    AttemptStore → List Document → Prop
  | start (witnessed : Bool) :
    StoreRun attemptId payer cond { witness := if witnessed then some [] else none } []
  | call {s : AttemptStore} {vs : List Document} (c : AttemptCall H) :
    StoreRun attemptId payer cond s vs → Admissible attemptId payer s c → cond s c →
    StoreRun attemptId payer cond (c.perform attemptId s).1
      (vs ++ (c.perform attemptId s).1.document.toList)

/-! ## Versions -/

/-- The number of events of the stored document. -/
def AttemptStore.count (s : AttemptStore) : ℕ := (s.document.map (·.events.length)).getD 0

/-- Anchors that grow and commit nothing beyond `n` events. -/
def Behind (n : ℕ) (as : List Anchor) : Prop :=
  Grows as ∧ ∀ a ∈ as, a.phase = .committed → a.seq < n

theorem Behind.mono {n m : ℕ} {as : List Anchor} (h : Behind n as) (hm : n ≤ m) : Behind m as :=
  ⟨h.1, fun a ha hc => (h.2 a ha hc).trans_le (by exact_mod_cast hm)⟩

theorem Behind.prepare {n : ℕ} {as : List Anchor} {p : Anchor} (h : Behind n as)
    (hp : p.phase = .prepared) (hs : p.seq = n) : Behind n (as ++ [p]) := by
  refine ⟨h.1.snoc fun a ha hc => hs ▸ (h.2 a ha hc).le, fun a ha hc => ?_⟩
  rcases List.mem_append.1 ha with ha | ha
  · exact h.2 a ha hc
  · rw [List.mem_singleton.1 ha, hp] at hc; cases hc

theorem Behind.commit {n : ℕ} {as : List Anchor} {c : Anchor} (h : Behind (n + 1) as)
    (hs : c.seq = n) : Behind (n + 1) (as ++ [c]) := by
  refine ⟨h.1.snoc fun a ha hc => ?_, fun a ha hc => ?_⟩
  · have := h.2 a ha hc
    push_cast at this; omega
  · rcases List.mem_append.1 ha with ha | ha
    · exact h.2 a ha hc
    · rw [List.mem_singleton.1 ha, hs]; push_cast; omega

theorem Witnessed.behind {n : ℕ} {a : Anchor} {w w' : Option (List Anchor)} (h : Witnessed a w w')
    (hb : ∀ as, Behind n as → Behind n (as ++ [a])) (hw : ∀ as, w = some as → Behind n as) :
    ∀ as, w' = some as → Behind n as := by
  rintro as rfl
  cases h with
  | again _ => exact hw as rfl
  | append _ => exact hb _ (hw _ rfl)

/-- Versions only grow, and no anchor is older than a commit before it. -/
structure Ordered (s : AttemptStore) (vs : List Document) : Prop where
  versions : vs.Pairwise fun u v => u = v ∨ u.events.length < v.events.length
  current : ∀ u ∈ vs, ∃ d, s.document = some d ∧ (u = d ∨ u.events.length < d.events.length)
  journal : Behind s.count s.journal
  witness : ∀ w, s.witness = some w → Behind s.count w

/-- A version is one event longer than the one before. -/
theorem events_count {c : AttemptCall H} {id : String} {s : AttemptStore} {candidate : List Json}
    (hid : ∀ intent adapterId, c.op = .create intent adapterId →
      settlementIdempotencyKey H intent = .ok id)
    (h : c.events id s = .ok (some candidate)) : candidate.length = s.count + 1 := by
  rcases events_cases hid h with ⟨hn, _, _, _, e, -, -, -, rfl⟩ | ⟨d, hd, -, e, -, rfl, -⟩
  · simp [AttemptStore.count, hn]
  · simp [AttemptStore.count, hd]

/-- The stages of a call keep the order. -/
theorem Ordered.stage {c : AttemptCall H} {s s' : AttemptStore} {vs : List Document}
    {d : Document} {p q : Anchor} (h : Ordered s vs) (hn : d.events.length = s.count + 1)
    (hp : d.signed H c.actor c.createdAtMs c.operationId .prepared p)
    (hq : d.signed H c.actor c.createdAtMs c.operationId .committed q)
    (hs : Stage s d p q s') : Ordered s' vs := by
  have hseq : (d.events.length : ℤ) - 1 = s.count := by rw [hn]; push_cast; omega
  have hprep : ∀ as, Behind s.count as → Behind s.count (as ++ [p]) :=
    fun as hb => hb.prepare hp.anchorOf.phase (hp.anchorOf.seq_eq.trans hseq)
  have hcomm : ∀ as, Behind (s.count + 1) as → Behind (s.count + 1) (as ++ [q]) :=
    fun as hb => hb.commit (hq.anchorOf.seq_eq.trans hseq)
  have hnew : ∀ u ∈ vs, ∃ e, some d = some e ∧ (u = e ∨ u.events.length < e.events.length) := by
    intro u hu
    obtain ⟨e, he, hu⟩ := h.current u hu
    have hcount : s.count = e.events.length := by rw [AttemptStore.count, he]; rfl
    refine ⟨d, rfl, Or.inr ?_⟩
    rcases hu with rfl | hu <;> omega
  have hcount : ∀ j w, (AttemptStore.mk (some d) j w).count = s.count + 1 := fun _ _ => hn
  cases hs with
  | prepared _ => exact ⟨h.versions, h.current, hprep _ h.journal, h.witness⟩
  | witnessed _ hw =>
    exact ⟨h.versions, h.current, hprep _ h.journal, hw.behind hprep h.witness⟩
  | written _ hw =>
    refine ⟨h.versions, hnew, ?_, ?_⟩ <;> rw [hcount]
    · exact (hprep _ h.journal).mono (by omega)
    · exact fun as ha => (hw.behind hprep h.witness as ha).mono (by omega)
  | committed _ hw =>
    refine ⟨h.versions, hnew, ?_, ?_⟩ <;> rw [hcount]
    · exact hcomm _ ((hprep _ h.journal).mono (by omega))
    · exact fun as ha => (hw.behind hprep h.witness as ha).mono (by omega)
  | done _ hw hw' =>
    refine ⟨h.versions, hnew, ?_, ?_⟩ <;> rw [hcount]
    · exact hcomm _ ((hprep _ h.journal).mono (by omega))
    · exact hw'.behind hcomm fun as ha => (hw.behind hprep h.witness as ha).mono (by omega)

theorem Ordered.snoc {s : AttemptStore} {vs : List Document} (h : Ordered s vs) :
    Ordered s (vs ++ s.document.toList) := by
  cases hd : s.document with
  | none => simpa using h
  | some d =>
    refine ⟨List.pairwise_append.2 ⟨h.versions, by simp, fun u hu v hv => ?_⟩, fun u hu => ?_,
      h.journal, h.witness⟩
    · obtain ⟨e, he, hu⟩ := h.current u hu
      cases hd.symm.trans he
      rw [Option.toList_some, List.mem_singleton] at hv
      rwa [hv]
    · rcases List.mem_append.1 hu with hu | hu
      · exact hd ▸ h.current u hu
      · rw [Option.toList_some, List.mem_singleton] at hu
        exact ⟨d, hd, Or.inl hu⟩

theorem StoreRun.ordered {id payer : String} {cond : AttemptStore → AttemptCall H → Prop}
    {s : AttemptStore} {vs : List Document} (h : StoreRun id payer cond s vs) : Ordered s vs := by
  induction h with
  | start witnessed =>
    refine ⟨List.Pairwise.nil, by simp, ⟨List.Pairwise.nil, by simp⟩, fun w hw => ?_⟩
    cases witnessed with
    | false => cases hw
    | true => cases hw; exact ⟨List.Pairwise.nil, by simp⟩
  | call c _ hadm _ ih =>
    refine Ordered.snoc ?_
    rcases perform_cases c id _ with heq | ⟨candidate, d, p, q, hev, hd, hp, hq, hs⟩
    · rw [heq]; exact ih
    · refine ih.stage ?_ hp hq hs
      rw [(documentOf_eq_ok hd).2.1]
      exact events_count (fun i a hop => (hadm.intent i a hop).1) hev

/-- The committed anchor `a` names the version `v`. -/
def Commits (a : Anchor) (v : Document) : Prop := a.phase = .committed ∧ a.head = v.head

/-- A version before a committed one is not accepted. -/
theorem Ordered.not_accepted {s : AttemptStore} {vs : List Document} (h : Ordered s vs)
    {u v : Document} (huv : [u, v].Sublist vs) (hne : u ≠ v) {as : List Anchor} (hg : Grows as)
    {a : Anchor} (ha : a ∈ as) (hc : Commits a v) : u.head ∉ acceptedAnchorHeads as := by
  intro hu
  have hle := le_of_accepted hg ha hc.1 hu
  have hpair := (h.versions.sublist huv)
  rw [List.pairwise_pair] at hpair
  have hseq : a.seq = v.head.1 := congrArg Prod.fst hc.2
  simp only [Document.head] at hle hseq
  rcases hpair with rfl | hlt
  · exact hne rfl
  · omega

/-- Rolling back is detected: a version persisted before a committed one is
    rejected, and with a witness also under any other journal. -/
def RollbackRejected (H : Host) (attemptId : String) (s : AttemptStore) (vs : List Document) :
    Prop :=
  ∀ u v a, [u, v].Sublist vs → u ≠ v → Commits a v →
    (a ∈ s.journal → ∃ e, AttemptStore.load H { s with document := some u } attemptId = .error e) ∧
    ∀ w, s.witness = some w → a ∈ w → ∀ journal,
      ∃ e, AttemptStore.load H { s with document := some u, journal } attemptId = .error e

theorem Ordered.rollbackRejected {s : AttemptStore} {vs : List Document} (h : Ordered s vs)
    (id : String) : RollbackRejected H id s vs := by
  have hload : ∀ {s : AttemptStore} {u : Document}, s.document = some u →
      (∀ events, s.load H id ≠ .ok (some events)) → ∃ e, s.load H id = .error e := by
    intro s u hs hne
    cases hl : s.load H id with
    | error e => exact ⟨e, rfl⟩
    | ok r =>
      cases r with
      | none => cases hs.symm.trans (load_eq_none hl)
      | some events => exact absurd hl (hne events)
  intro u v a huv hne hc
  refine ⟨fun ha => hload rfl fun events hl => ?_, fun w hw ha journal => hload rfl fun events hl => ?_⟩
  · obtain ⟨d, hd, -, hj, -⟩ := load_eq_some hl
    cases hd
    exact h.not_accepted huv hne h.journal.1 ha hc hj
  · obtain ⟨d, hd, -, -, hj⟩ := load_eq_some hl
    cases hd
    exact h.not_accepted huv hne (h.witness w hw).1 ha hc (hj w hw)

end NthDao
