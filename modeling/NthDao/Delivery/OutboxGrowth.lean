/-
  The size of the outbox journal.

  * `OutboxCall.sizeAfter`: the size of the journal after a call that succeeds;
  * `outbox_reopens`: a new process loads the journal in every reached state, if no
    call pushes it past the limit of `_load`;
  * `outbox_outgrown`: the writers check the number of pending records only, and 4096
    messages, as many as the default allows, make a journal that does not load.
-/
import NthDao.Delivery.OutboxCalls

namespace NthDao

namespace Delivery

open Py Runs Relation

variable {H : Host}

/-! ## The size after a call -/

variable (H) in
/-- The events that a call appends for a process that holds `m`. -/
def OutboxCall.events (maxPending : ℕ) (m : Records) : OutboxCall → List Fields
  | .enqueue e now =>
    match Outbox.enqueueArgs H e now with
    | .ok r =>
      if (m.get r.messageId).isNone && (m.countP fun r => !r.state.isTerminal) < maxPending
      then [enqueuedEvent r now] else []
    | .error _ => []
  | .recordAttempt id transport outcome atMs errorCode =>
    match Outbox.attemptArgs transport outcome atMs errorCode with
    | .ok a =>
      if (m.get id).any fun r => r.state == .queued && r.attempts.length < maxAttemptsPerRecord
      then [attemptEvent id a] else []
    | .error _ => []
  | .handleAck ack nowMs _ clock₂ =>
    match ack.messageId.asStr, canonicalText ack.toDict with
    | some id, some text =>
      if (m.get id).any fun r => r.state == .queued
      then [deliveredEvent id (nowMs.getD clock₂) text] else []
    | _, _ => []
  | .pending now =>
    (m.filter fun r => r.state == .queued && r.expiresAtMs ≤ now).map fun r =>
      expiredEvent r.messageId now
  | .get _ => []
  | .compact => []

variable (H) in
/-- The size of the journal after the call. -/
def OutboxCall.sizeAfter (maxPending : ℕ) (raw : Bytes) (m : Records) (c : OutboxCall) : ℕ :=
  match c with
  | .compact => (Jsonl.eventsText (m.keep.flatMap Outbox.compactEvents)).length
  | c => (raw ++ Jsonl.eventsText (c.events H maxPending m)).length

theorem foldlM_expired_bytes {now : ℤ} {rs : Records} {o o' : Outbox} {f f' : JournalFile}
    (h : rs.foldlM (Outbox.transitionExpired now) (o, f) = .ok (o', f')) :
    f'.bytes = f.bytes ++ Jsonl.eventsText (rs.map fun r => expiredEvent r.messageId now) := by
  induction rs generalizing o f with
  | nil => cases h; simp
  | cons r rs ih =>
    rw [List.foldlM_cons, bind_eq_ok] at h
    obtain ⟨⟨o₁, f₁⟩, h₁, h⟩ := h
    simp only [Outbox.transitionExpired, bind_eq_ok, pure_eq_ok, Prod.mk.injEq, Prod.exists] at h₁
    obtain ⟨o₂, f₂, happ, rfl, rfl⟩ := h₁
    obtain ⟨-, rfl, -⟩ := append_eq_ok happ
    rw [ih h, bytes_write, List.append_assoc, ← Jsonl.eventsText_append]
    rfl

/-- The size after a new message. -/
theorem sizeAfter_enqueue {e : TransportEnvelope} {now : ℤ} {r : OutboxRecord}
    (hr : Outbox.enqueueArgs H e now = .ok r) {m : Records} (hnone : m.get r.messageId = none)
    {n : ℕ} (hcap : (m.countP fun r => !r.state.isTerminal) < n) (raw : Bytes) :
    OutboxCall.sizeAfter H n raw m (.enqueue e now) =
      (raw ++ Jsonl.eventsText [enqueuedEvent r now]).length := by
  simp [OutboxCall.sizeAfter, OutboxCall.events, hr, hnone, hcap]

/-- **The journal after a call** has the size foreseen, or it is unchanged. -/
theorem body_bytes {c : OutboxCall} {b : Outbox.Body} (hb : Outbox.body H c = .ok b)
    {o o' : Outbox} {f f' : JournalFile} {rs : Records} (h : b f o = .ok (o', f', rs)) :
    f' = f ∨ f'.bytes.length = c.sizeAfter H o.maxPending f.bytes o.records := by
  cases c with
  | enqueue e now =>
    simp only [Outbox.body, bind_eq_ok, pure_eq_ok] at hb
    obtain ⟨r, hr, rfl⟩ := hb
    obtain ⟨r', h⟩ := one_eq_ok h
    unfold Outbox.enqueueLocked at h
    split at h
    · simp only [require_bind_eq_ok, pure_eq_ok, Prod.mk.injEq] at h
      obtain ⟨-, -, rfl, -⟩ := h
      exact .inl rfl
    · rename_i hnone
      simp only [bind_eq_ok, require_eq_ok, pure_eq_ok, Prod.mk.injEq, Prod.exists] at h
      obtain ⟨_, hcap, o₁, f₁, happ, -, rfl, -⟩ := h
      obtain ⟨-, rfl, -⟩ := append_eq_ok happ
      right
      rw [sizeAfter_enqueue hr hnone (by simpa using hcap)]
      rfl
  | recordAttempt id transport outcome atMs errorCode =>
    simp only [Outbox.body, bind_eq_ok, pure_eq_ok] at hb
    obtain ⟨a, ha, rfl⟩ := hb
    obtain ⟨r', h⟩ := one_eq_ok h
    simp only [Outbox.attemptLocked, bind_eq_ok, require_eq_ok, pure_eq_ok, Prod.mk.injEq,
      Prod.exists] at h
    obtain ⟨r, hr, _, hl, o₁, f₁, happ, -, rfl, -⟩ := h
    obtain ⟨hget, rfl, hq⟩ := requireLive_ok hr
    obtain ⟨-, rfl, -⟩ := append_eq_ok happ
    right
    simp only [OutboxCall.sizeAfter, OutboxCall.events, ha, hget, Option.any_some, hq, hl,
      bytes_write]
    rfl
  | handleAck ack nowMs clock₁ clock₂ =>
    simp only [Outbox.body, bind_eq_ok, pure_eq_ok] at hb
    obtain ⟨_, -, rfl⟩ := hb
    obtain ⟨r', h⟩ := one_eq_ok h
    simp only [Outbox.ackLocked, bind_eq_ok, expect_eq_ok, require_eq_ok] at h
    obtain ⟨id, hid, sha, -, receiver, -, received, -, r, hr, e, -, _, -, h⟩ := h
    split_ifs at h with hd
    · simp only [bind_eq_ok, require_eq_ok, pure_eq_ok, Prod.mk.injEq] at h
      obtain ⟨_, -, -, rfl, -⟩ := h
      exact .inl rfl
    · simp only [bind_eq_ok, expect_eq_ok, require_eq_ok, pure_eq_ok, Prod.mk.injEq, Prod.exists] at h
      obtain ⟨_, hq, _, -, text, htext, o₁, f₁, happ, -, rfl, -⟩ := h
      obtain ⟨-, rfl, -⟩ := append_eq_ok happ
      right
      simp only [OutboxCall.sizeAfter, OutboxCall.events, hid, htext, hr, Option.any_some, hq,
        bytes_write]
      rfl
  | pending now =>
    simp only [Outbox.body, bind_eq_ok, pure_eq_ok] at hb
    obtain ⟨_, -, rfl⟩ := hb
    simp only [Outbox.pendingLocked, bind_eq_ok, pure_eq_ok, Prod.mk.injEq, Prod.exists] at h
    obtain ⟨o₁, f₁, h, -, rfl, -⟩ := h
    right
    rw [foldlM_expired_bytes h]
    rfl
  | get id =>
    simp only [Outbox.body, pure_eq_ok] at hb
    subst hb
    cases h
    exact .inl rfl
  | compact =>
    simp only [Outbox.body, pure_eq_ok] at hb
    subst hb
    obtain ⟨s, hc, hs⟩ := map_eq_ok.1 h
    simp only [Outbox.compactLocked, bind_eq_ok, pure_eq_ok] at hc
    obtain ⟨raw, hraw, rfl⟩ := hc
    cases hs
    obtain ⟨-, rfl⟩ := eventsText_eq_ok hraw
    exact .inr rfl

/-! ## The size and the fold -/

theorem strip_compactEvents (r : OutboxRecord) :
    Outbox.compactEvents r.strip = Outbox.compactEvents r := rfl

/-- What is read of a record but for its last error is the same in records that agree. -/
theorem Records.Agree.any_get {rs ss : Records} (h : rs.Agree ss) (id : String)
    {q : OutboxRecord → Bool} (hq : ∀ r, q r.strip = q r) : (rs.get id).any q = (ss.get id).any q := by
  have hany : ∀ o : Option OutboxRecord, o.any q = (o.map OutboxRecord.strip).any q := by
    intro o
    cases o with
    | none => rfl
    | some r => exact (hq r).symm
  rw [hany, hany (ss.get id), h.get id]

theorem Records.Agree.countP_eq {rs ss : Records} (h : rs.Agree ss) (q : OutboxRecord → Bool)
    (hq : ∀ r, q r.strip = q r) : rs.countP q = ss.countP q := by
  rw [List.countP_eq_length_filter, List.countP_eq_length_filter]
  have := congrArg List.length (h.filter q hq)
  simpa using this

/-- The events of a call are the same for records that agree. -/
theorem OutboxCall.events_agree {rs ss : Records} (h : rs.Agree ss) (n : ℕ) (c : OutboxCall) :
    c.events H n rs = c.events H n ss := by
  cases c with
  | enqueue e now =>
    have hnone : ∀ id, (rs.get id).isNone = (ss.get id).isNone := by
      intro id
      rw [Bool.eq_iff_iff, Option.isNone_iff_eq_none, Option.isNone_iff_eq_none]
      exact h.get_eq_none id
    have hcount := h.countP_eq (fun r => !r.state.isTerminal) fun _ => rfl
    simp only [OutboxCall.events, hnone, hcount]
  | recordAttempt id transport outcome atMs errorCode =>
    simp only [OutboxCall.events, h.any_get id (q := fun r => r.state == .queued &&
      r.attempts.length < maxAttemptsPerRecord) fun _ => rfl]
  | handleAck ack nowMs clock₁ clock₂ =>
    have hany := fun id => h.any_get id (q := fun r => r.state == .queued) fun _ => rfl
    simp only [OutboxCall.events, hany]
  | pending now =>
    exact (h.filter (fun r => r.state == .queued && r.expiresAtMs ≤ now) fun _ => rfl).map_eq _
      fun _ => rfl
  | get id => rfl
  | compact => rfl

theorem OutboxCall.sizeAfter_agree {rs ss : Records} (h : rs.Agree ss) (n : ℕ) (raw : Bytes)
    (c : OutboxCall) : c.sizeAfter H n raw rs = c.sizeAfter H n raw ss := by
  cases c with
  | compact =>
    have hkeep : Records.Agree rs.keep ss.keep := h.filter _ fun _ => rfl
    have hmap := hkeep.map_eq Outbox.compactEvents strip_compactEvents
    simp only [OutboxCall.sizeAfter, List.flatMap_def, hmap]
  | _ => simp only [OutboxCall.sizeAfter, OutboxCall.events_agree h]

/-! ## Runs -/

variable (H) in
/-- The acknowledgement of the call holds at both readings of the clock, and the
    journal stays within the limit of `_load`. -/
def OutboxWorld.Fits (w : OutboxWorld) (a : OutboxAct) : Prop :=
  ∀ i c, a = .call i c → c.AckHolds H ∧
    ∀ v p, (outboxReader H).load w.file.bytes [] = .ok v → w.procs[i]? = some p →
      c.sizeAfter H p.maxPending w.file.bytes v ≤ maxJournalBytes

/-- **The outbox can be opened** in every reached state. -/
theorem outbox_reopens {w : OutboxWorld}
    (h : Reach (OutboxWorld.step H) (OutboxWorld.Fits H) {} w) (maxPending : ℕ)
    (authorizeAck : Option (DeliveryAck → TransportEnvelope → Option (Bool × String))) :
    (Outbox.load H { maxPending := maxPending, authorizeAck := authorizeAck } w.file).2 = .ok () := by
  have hinv : ∃ v, w.Inv H Records.Agree False v ∧ w.file.bytes.length ≤ maxJournalBytes := by
    refine h.invariant
      (P := fun w => ∃ v, w.Inv H Records.Agree False v ∧ w.file.bytes.length ≤ maxJournalBytes)
      ⟨[], inv_start (tracks_agree (P := fun _ _ => True) (Q := fun _ => True)), Nat.zero_le _⟩ ?_
    rintro s a s' ⟨v, hv, hlen⟩ hcond hstep
    obtain ⟨v', hv', hst⟩ := inv_step hv tracks_agree (fun i c ha => (hcond i c ha).1)
      (fun _ c _ _ _ => ⟨c.meets_of_forall fun _ _ => trivial, c.enqueues_of_forall fun _ => trivial⟩)
      (fun hf => hf.elim) hstep
    refine ⟨v', hv', ?_⟩
    cases hst with
    | idle hf _ _ => rwa [hf]
    | @call i c b p o o' _ hb hi hcap hs _ _ _ hres _ =>
      rcases hres with ⟨-, hf⟩ | ⟨rs, hrs⟩
      · rwa [hf]
      · rcases body_bytes hb hrs with hf | hf
        · rwa [hf]
        · rw [hf, hcap, ← OutboxCall.sizeAfter_agree hs.agree]
          exact (hcond i c rfl).2 v p hv.folds.load hi
  obtain ⟨v, hv, hlen⟩ := hinv
  rcases load_of_folds hv.folds { maxPending := maxPending, authorizeAck := authorizeAck }
    with ⟨-, hl⟩ | ⟨hlt, -⟩
  · rw [hl]
  · exact absurd hlt (by omega)

theorem length_line (event : Fields) :
    (Jsonl.line event).length = weight false (.obj event) := by
  rw [Jsonl.line, ← weight_norm, weight]

theorem length_of_isDigest {s : String} (h : isDigest s = true) : s.length = 71 := by
  rw [isDigest, Bool.and_eq_true, isHex, Bool.and_eq_true, beq_iff_eq, List.length_drop] at h
  have hlen := h.2.1
  rw [chars_eq, String.length_toList] at hlen
  omega

/-- **One message takes 4 MiB of the journal** at most. -/
theorem eventsText_enqueued_le {e : TransportEnvelope} (hw : e.wf = true) {now : ℤ}
    (hnow : (Json.int now).encodable = true) {r : OutboxRecord}
    (h : Outbox.enqueueArgs H e now = .ok r) :
    (Jsonl.eventsText [enqueuedEvent r now]).length ≤ 4 * 1024 * 1024 := by
  obtain ⟨he, -, -, -⟩ := enqueueArgs_ok hw h
  obtain ⟨hf, hsha, -⟩ := recordEnvelope_facts he
  have hjson : r.envelopeJson.length ≤ maxEnvelopeBytes := by
    simp only [Outbox.enqueueArgs, bind_eq_ok, require_eq_ok, pure_eq_ok, decide_eq_true_eq] at h
    obtain ⟨_, -, _, -, q, -, _, hle, rfl⟩ := h
    have := length_le_utf8 (chars q.envelopeJson)
    rw [chars_eq, String.length_toList] at this
    rw [chars_eq] at hle
    omega
  have hx := hf.expires_le
  have hc := hf.created_pos
  have hlt := hf.expires_gt
  unfold maxSafeInteger at hx
  have h₁ := strWeight_le r.messageId
  have h₂ := strWeight_le r.envelopeJson
  have h₃ := strWeight_le r.envelopeSha256
  have h₄ := weight_int_le (Json.encodable_int (n := r.createdAtMs) (by omega))
  have h₅ := weight_int_le (Json.encodable_int (n := r.expiresAtMs) (by omega))
  have h₆ := weight_int_le hnow
  have hkeys : strWeight false "event" + strWeight false "enqueued" + strWeight false "message_id" +
      strWeight false "envelope_json" + strWeight false "envelope_sha256" +
      strWeight false "created_at_ms" + strWeight false "expires_at_ms" + strWeight false "at_ms" ≤
      200 := by decide
  rw [length_of_isDigest hf.id_isDigest] at h₁
  rw [length_of_isDigest hsha] at h₃
  unfold maxIntDigits at h₄ h₅ h₆
  unfold maxEnvelopeBytes at hjson
  rw [Jsonl.eventsText_cons, Jsonl.eventsText_nil, List.append_nil, List.length_append, length_line,
    enqueuedEvent, weight_obj false (by simp)]
  simp only [List.map_cons, List.map_nil, List.sum_cons, List.sum_nil, itemWeight, weight_str,
    List.length_singleton]
  omega
/-- The theorem on a queued message. -/
theorem outbox_reopens_enqueue : ∃ w : OutboxWorld,
    Reach (OutboxWorld.step checksumHost) (OutboxWorld.Fits checksumHost) {} w ∧
    w.file.journal.isSome = true ∧
    (Outbox.load checksumHost { maxPending := 8, authorizeAck := none } w.file).2 = .ok () := by
  obtain ⟨r, hr, hid, -, -⟩ := exists_sampleRecord
  have hstart : OutboxWorld.Fits checksumHost {} (.start 8 none) := fun _ _ h => by cases h
  have hcall : OutboxWorld.Fits checksumHost (soloStart 8)
      (.call 0 (.enqueue sampleEnvelope 1500)) := by
    rintro i c ⟨⟩
    refine ⟨trivial, fun v p hv hp => ?_⟩
    obtain rfl : [] = v := Except.ok.inj hv
    obtain rfl : (⟨8, none, [], none⟩ : Outbox) = p := Option.some.inj hp
    have hle := eventsText_enqueued_le sampleEnvelope_wf (by decide) hr
    have hsize := sizeAfter_enqueue hr (m := []) rfl (n := 8) (by decide) []
    have hmax : 4 * 1024 * 1024 ≤ maxJournalBytes := by unfold maxJournalBytes; omega
    exact (hsize.le.trans hle).trans hmax
  have hstep := step_enqueue (H := checksumHost) (i := 0) (w := soloStart 8) rfl rfl sampleEnvelope_wf
    hr (by decide) rfl (by decide)
  have h := (Reach.start.step hstart rfl).step hcall hstep
  exact ⟨_, h, rfl, outbox_reopens h 8 none⟩

/-! ## Messages that outgrow the journal -/

/-- A host whose digests are the lengths of the texts. -/
def lengthHost : Host :=
  { checksumHost with
    sha256 := fun b => String.ofList (hexDigits 64 b.length)
    sha256_isHex := fun b => by simp [isHex, length_hexDigits, all_hexDigits] }

theorem length_of_digest {a b : Bytes} (ha : a.length < 16 ^ 64) (hb : b.length < 16 ^ 64)
    (h : digest lengthHost a = digest lengthHost b) : a.length = b.length := by
  have hlist := congrArg String.toList h
  simp only [digest, String.toList_append, List.append_cancel_left_eq] at hlist
  have hd : hexDigits 64 a.length = hexDigits 64 b.length := by
    simpa [lengthHost] using hlist
  have := hexDigits_injective hd
  rwa [Nat.mod_eq_of_lt ha, Nat.mod_eq_of_lt hb] at this

theorem strWeight_digest (H : Host) (b : Bytes) : strWeight false (digest H b) = 73 := by
  have h : (digest H b).toList = "sha256:".toList ++ (H.sha256 b).toList := by
    rw [digest, String.toList_append]
  exact strWeight_hex h (List.all_eq_true.1 (by decide)) (H.sha256_isHex b)

/-- The sample with other texts. -/
def bulkEnvelope (id hash signature text : String) : TransportEnvelope :=
  { sampleEnvelope with
    messageId := .str id
    payloadHash := .str hash
    payload := .obj [("text", .str text)]
    signature := .str signature }

section
variable (id hash signature text : String)

theorem toDict_bulk : (bulkEnvelope id hash signature text).toDict = 
    [("message_id", .str id), ("kind", sampleEnvelope.kind),
      ("sender_did", sampleEnvelope.senderDid), ("recipient", sampleEnvelope.recipient),
      ("created_at_ms", sampleEnvelope.createdAtMs), ("expires_at_ms", sampleEnvelope.expiresAtMs),
      ("nonce", sampleEnvelope.nonce), ("payload_hash", .str hash),
      ("payload", .obj [("text", .str text)]), ("routing", sampleEnvelope.routing),
      ("signature", .str signature), ("protocol", sampleEnvelope.protocol),
      ("version", sampleEnvelope.version)] := rfl

theorem contentBody_bulk : (bulkEnvelope id hash signature text).contentBody =
    [("kind", sampleEnvelope.kind), ("sender_did", sampleEnvelope.senderDid),
      ("recipient", sampleEnvelope.recipient), ("created_at_ms", sampleEnvelope.createdAtMs),
      ("expires_at_ms", sampleEnvelope.expiresAtMs), ("nonce", sampleEnvelope.nonce),
      ("payload_hash", .str hash), ("payload", .obj [("text", .str text)]),
      ("routing", .obj [("hop_limit", .int 0)]), ("protocol", sampleEnvelope.protocol),
      ("version", sampleEnvelope.version)] := rfl

theorem weight_payload : weight false (.obj [("text", .str text)]) = strWeight false text + 9 := by
  rw [weight_obj false (by simp), List.map_singleton, List.sum_singleton, itemWeight, weight_str,
    show strWeight false "text" = 6 by decide]
  omega

theorem weight_bulk : weight false (.obj (bulkEnvelope id hash signature text).toDict) + 8 =
    weight false (.obj (bulkEnvelope "" "" "" "").toDict) + strWeight false id +
      strWeight false hash + strWeight false signature + strWeight false text := by
  have h : strWeight false "" = 2 := by decide
  rw [toDict_bulk, toDict_bulk, weight_obj false (by simp), weight_obj false (by simp)]
  simp only [List.map_cons, List.map_nil, List.sum_cons, List.sum_nil, itemWeight, weight_str,
    weight_payload, h]
  omega

theorem weight_bulkContent :
    weight false (.obj (bulkEnvelope id hash signature text).contentBody) + 4 =
      weight false (.obj (bulkEnvelope "" "" "" "").contentBody) + strWeight false hash +
        strWeight false text := by
  have h : strWeight false "" = 2 := by decide
  rw [contentBody_bulk, contentBody_bulk, weight_obj false (by simp), weight_obj false (by simp)]
  simp only [List.map_cons, List.map_nil, List.sum_cons, List.sum_nil, itemWeight, weight_str,
    weight_payload, h]
  omega

end

/-- The author of the samples. -/
def oneDid : PLift (asDid lengthHost (1 : UInt8) =
    "did:key:z6MkeXBLjYiSvqnhFb6D7sHm8yKm4jV45wwBFRaatf1cfZ76") := ⟨by decide +kernel⟩

theorem asDid_one : asDid lengthHost (1 : UInt8) =
    "did:key:z6MkeXBLjYiSvqnhFb6D7sHm8yKm4jV45wwBFRaatf1cfZ76" := oneDid.down

/-- The weights of a sample without texts. -/
def bulkWeights : PLift (weight false (.obj (bulkEnvelope "" "" "" "").toDict) ≤ 1000 ∧
    weight false (.obj (bulkEnvelope "" "" "" "").contentBody) ≤ 1000) := ⟨by decide +kernel⟩

theorem weight_bulk_le : weight false (.obj (bulkEnvelope "" "" "" "").toDict) ≤ 1000 :=
  bulkWeights.down.1

theorem weight_bulkContent_le :
    weight false (.obj (bulkEnvelope "" "" "" "").contentBody) ≤ 1000 := bulkWeights.down.2

theorem strWeight_signText (k : UInt8) (m : Bytes) :
    strWeight false (signText lengthHost k m) = 88 := by
  rw [← weight_str]
  exact weight_signature (lengthHost.sign_length k m)

/-- **The sample with another text** is valid with its digests and signature. -/
theorem validate_bulkEnvelope {id hash signature text : String} (ht : strWeight false text ≤ 30000)
    (hhash : hash = digest lengthHost (Jsonl.line [("text", .str text)]))
    (hid : id = digest lengthHost (Jsonl.line (bulkEnvelope "" hash "" text).contentBody))
    (hsig : signature = signText lengthHost (1 : UInt8)
      (Jsonl.line (bulkEnvelope id hash "" text).signingBody)) :
    validateEnvelope lengthHost (bulkEnvelope id hash signature text) none true = .ok () := by
  have hs := validate_sampleEnvelope
  simp only [validateEnvelope, bind_eq_ok] at hs
  obtain ⟨_, hhead, p, hperiod, _, hnonce, _, -, _, hrouting, -⟩ := hs
  have hpayload : checkPayload lengthHost (bulkEnvelope id hash signature text) = .ok () := by
    simp only [checkPayload, bind_eq_ok, expect_eq_ok, require_eq_ok]
    refine ⟨(), rfl, (), rfl, _, canonicalJson_line rfl, (), ?_, ?_⟩
    · rw [length_line, weight_payload, decide_eq_true_eq]
      unfold maxPayloadBytes
      omega
    · rw [Json.eqStr_iff, ← hhash]
      rfl
  have hsigned : checkSignature lengthHost (bulkEnvelope id hash signature text) = .ok () := by
    simp only [checkSignature, bind_eq_ok, expect_eq_ok, require_eq_ok]
    refine ⟨signature, rfl, (), ?_, _, rfl, _, canonicalJson_line rfl, ?_⟩
    · rw [bne_iff_ne]
      rintro rfl
      have hlen := (congrArg String.length hsig).trans (length_signText lengthHost (1 : UInt8) _)
      cases hlen
    · rw [hsig, ← asDid_one]
      exact verifySig_signText lengthHost (1 : UInt8) _
  have hwire : weight false (.obj (bulkEnvelope id hash signature text).toDict) ≤
      maxEnvelopeBytes := by
    have := weight_bulk id hash signature text
    have hbase := weight_bulk_le
    rw [hsig, strWeight_signText, ← hsig, hid, strWeight_digest, ← hid, hhash, strWeight_digest,
      ← hhash] at this
    unfold maxEnvelopeBytes
    omega
  simp only [validateEnvelope, bind_eq_ok, expect_eq_ok, require_eq_ok, if_true]
  refine ⟨(), hhead, p, hperiod, (), hnonce, (), hpayload, (), hrouting, id, ?_, (), ?_,
    Jsonl.line (bulkEnvelope id hash signature text).toDict, canonicalJson_line rfl, (), ?_, hsigned⟩
  · rw [contentAddress, canonicalJson_line rfl, Option.map_some, hid]
    rfl
  · exact Json.eqStr_iff.2 rfl
  · rw [length_line, decide_eq_true_eq]
    exact hwire

/-- A text of 20000 characters and more. -/
def bulkText (n : ℕ) : String := String.ofList (List.replicate (20000 + n) 'a')

theorem strWeight_bulkText (n : ℕ) : strWeight false (bulkText n) = 20002 + n := by
  rw [strWeight_plain]
  · simp [bulkText]; omega
  · intro c hc
    rw [bulkText, String.toList_ofList, List.mem_replicate] at hc
    rw [hc.2]
    decide

/-- The digest of the payload. -/
def bulkHash (n : ℕ) : String := digest lengthHost (Jsonl.line [("text", .str (bulkText n))])

/-- The id of the message `n`. -/
def bulkId (n : ℕ) : String :=
  digest lengthHost (Jsonl.line (bulkEnvelope "" (bulkHash n) "" (bulkText n)).contentBody)

/-- The message `n`, signed by the key 1. -/
def bulk (n : ℕ) : TransportEnvelope :=
  bulkEnvelope (bulkId n) (bulkHash n) (signText lengthHost (1 : UInt8)
    (Jsonl.line (bulkEnvelope (bulkId n) (bulkHash n) "" (bulkText n)).signingBody)) (bulkText n)

theorem bulkId_injective {n k : ℕ} (hn : n < 4096) (hk : k < 4096) (h : bulkId n = bulkId k) :
    n = k := by
  have hw : ∀ m, (Jsonl.line (bulkEnvelope "" (bulkHash m) "" (bulkText m)).contentBody).length + 4 =
      weight false (.obj (bulkEnvelope "" "" "" "").contentBody) + 20075 + m := by
    intro m
    rw [length_line, weight_bulkContent, strWeight_bulkText, bulkHash, strWeight_digest]
    omega
  have hc := weight_bulkContent_le
  have h₁ := hw n
  have h₂ := hw k
  have := length_of_digest (by omega) (by omega) h
  omega

/-- The line of a new record is not shorter than its envelope. -/
theorem weight_le_eventsText {e : TransportEnvelope} {now : ℤ} {r : OutboxRecord}
    (h : Outbox.enqueueArgs H e now = .ok r) :
    weight false (.obj e.toDict) ≤ (Jsonl.eventsText [enqueuedEvent r now]).length := by
  have hjson : canonicalText e.toDict = some r.envelopeJson := by
    simp only [Outbox.enqueueArgs, bind_eq_ok, expect_eq_ok, pure_eq_ok, Outbox.newRecord,
      Option.bind_eq_bind, Option.bind_eq_some_iff, Option.pure_def, Option.some.injEq] at h
    obtain ⟨_, -, _, -, q, ⟨json, hjson, _, -, _, -, _, -, _, -, rfl⟩, _, -, rfl⟩ := h
    exact hjson
  have hlen : (utf8 (chars r.envelopeJson)).length = weight false (.obj e.toDict) := by
    rw [(canonicalText_eq_some hjson).2]
    exact length_line e.toDict
  have hstr := utf8_le_strWeight r.envelopeJson
  have hev : strWeight false r.envelopeJson ≤ weight false (.obj (enqueuedEvent r now)) := by
    rw [enqueuedEvent, weight_obj false (by simp)]
    simp only [List.map_cons, List.sum_cons, itemWeight, weight_str]
    omega
  rw [Jsonl.eventsText_cons, Jsonl.eventsText_nil, List.append_nil, List.length_append, length_line]
  omega

/-- The record of the message `n` and the size of its line. -/
theorem exists_bulkRecord {n : ℕ} (hn : n < 4096) : ∃ r : OutboxRecord,
    Outbox.enqueueArgs lengthHost (bulk n) 1500 = .ok r ∧ r.messageId = bulkId n ∧
    r = r.fresh ∧ 20000 ≤ (Jsonl.eventsText [enqueuedEvent r 1500]).length := by
  have hv : validateEnvelope lengthHost (bulk n) none true = .ok () :=
    validate_bulkEnvelope (by rw [strWeight_bulkText]; omega) rfl rfl rfl
  have hv' : validateEnvelope lengthHost (bulk n) (some 1500) true = .ok () :=
    validateEnvelope_some _ hv rfl rfl rfl
  have hid' : (bulk n).messageId = .str (bulkId n) := rfl
  obtain ⟨r, hr, hid⟩ := enqueueArgs_of_valid (by decide) hv' hid'
  have hwf : (bulk n).wf = true := rfl
  obtain ⟨he, hfresh, -, -⟩ := enqueueArgs_ok hwf hr
  refine ⟨r, hr, hid, hfresh, ?_⟩
  have hline := weight_le_eventsText hr
  have hw := weight_bulk (bulkId n) (bulkHash n) (signText lengthHost (1 : UInt8)
    (Jsonl.line (bulkEnvelope (bulkId n) (bulkHash n) "" (bulkText n)).signingBody)) (bulkText n)
  rw [strWeight_bulkText, strWeight_signText] at hw
  change weight false (.obj (bulk n).toDict) + 8 = _ at hw
  omega

theorem countP_queued {m : Records} (h : ∀ r ∈ m, r.state = .queued) :
    (m.countP fun r => !r.state.isTerminal) = m.length := by
  rw [List.countP_eq_length]
  intro r hr
  rw [h r hr]
  rfl

/-- The run that enqueues `k` messages. -/
theorem exists_bulkRun {k : ℕ} (hk : k ≤ 4096) : ∃ (w : OutboxWorld) (m : Records),
    Solo lengthHost (fun _ _ => True) 4096 w m m ∧ m.length = k ∧ (∀ r ∈ m, r.state = .queued) ∧
    (∀ r ∈ m, ∃ n < k, r.messageId = bulkId n) ∧ 20000 * k ≤ w.file.bytes.length := by
  induction k with
  | zero =>
    exact ⟨_, [], Solo.start (by decide) trivial, rfl, fun _ hr => absurd hr List.not_mem_nil,
      fun _ hr => absurd hr List.not_mem_nil, Nat.zero_le _⟩
  | succ k ih =>
    obtain ⟨w, m, hw, hlen, hq, hids, hsize⟩ := ih (by omega)
    obtain ⟨r, hr, hid, hfresh, hline⟩ := exists_bulkRecord (n := k) (by omega)
    have hnew : m.get r.messageId = none := by
      rw [Records.get_eq_none, List.mem_map]
      rintro ⟨q, hqm, he⟩
      obtain ⟨n, hn, hn'⟩ := hids q hqm
      have := bulkId_injective (by omega) (by omega) (hn'.symm.trans (he.trans hid))
      omega
    have hcap : (m.countP fun r => !r.state.isTerminal) < 4096 := by
      rw [countP_queued hq]
      omega
    have hwf : (bulk k).wf = true := rfl
    obtain ⟨w', hw', -, hbytes⟩ := hw.enqueue hwf trivial hr (by decide) hnew hnew hcap
    refine ⟨w', _, hw', by simp [hlen], ?_, ?_, ?_⟩
    · intro q hqm
      rcases List.mem_append.1 hqm with hqm | hqm
      · exact hq q hqm
      · rw [List.mem_singleton.1 hqm, hfresh]; rfl
    · intro q hqm
      rcases List.mem_append.1 hqm with hqm | hqm
      · obtain ⟨n, hn, hn'⟩ := hids q hqm
        exact ⟨n, by omega, hn'⟩
      · rw [List.mem_singleton.1 hqm]
        exact ⟨k, by omega, hid⟩
    · rw [hbytes, List.length_append]
      omega

/-- **As many messages as the default allows** make a journal that does not load. -/
theorem outbox_outgrown : ∃ w : OutboxWorld,
    Reach (OutboxWorld.step lengthHost) (fun _ _ => True) {} w ∧
    (∀ o ∈ w.procs, o.maxPending = 4096 ∧ o.records.length = 4096) ∧
    ∃ reason, (Outbox.load lengthHost { maxPending := 4096, authorizeAck := none } w.file).2 =
      .error reason := by
  obtain ⟨w, m, hw, hlen, -, -, hsize⟩ := exists_bulkRun (le_refl 4096)
  refine ⟨w, hw.reach, fun o ho => ?_, ?_⟩
  · rw [hw.procs, List.mem_singleton] at ho
    rw [ho]
    exact ⟨rfl, hlen⟩
  · rcases load_of_folds hw.folds { maxPending := 4096, authorizeAck := none }
      with ⟨hle, -⟩ | ⟨-, e, he⟩
    · unfold maxJournalBytes at hle
      omega
    · exact ⟨e, by rw [he]⟩

end Delivery

end NthDao
