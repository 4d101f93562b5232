/-
  The fold of the outbox journal.

  * `foldEvent_line`: the fold sees no order of keys;
  * `foldEvent_enqueued`, `foldEvent_attempt`, `foldEvent_delivered`,
    `foldEvent_expired`: when the fold accepts the events the outbox writes, and
    what they do;
  * `Records.Agree`: records that are equal but for their last error codes; the
    fold cannot tell them apart (`foldEvent_agree`);
  * `fold_compact`: the events `compact` writes fold to the records it keeps.
-/
import NthDao.Delivery.Outbox

namespace NthDao

namespace Delivery

open Py

variable {H : Host}

/-! ## Records by id -/

namespace Records

theorem get_eq_some {rs : Records} {id : String} {r : OutboxRecord} (h : rs.get id = some r) :
    r ∈ rs ∧ r.messageId = id :=
  ⟨List.mem_of_find?_eq_some h, by simpa using List.find?_some h⟩

theorem get_eq_none {rs : Records} {id : String} :
    rs.get id = none ↔ id ∉ rs.map OutboxRecord.messageId := by
  simp [get, List.find?_eq_none]

theorem get_append (pre rs : Records) (id : String) (h : id ∉ pre.map OutboxRecord.messageId) :
    (pre ++ rs).get id = rs.get id := by
  have hn := get_eq_none.2 h
  unfold get at hn ⊢
  rw [List.find?_append, hn, Option.none_or]

theorem get_of_mem {rs : Records} (hn : (rs.map OutboxRecord.messageId).Nodup) {r : OutboxRecord}
    (h : r ∈ rs) : rs.get r.messageId = some r := by
  induction rs with
  | nil => cases h
  | cons q rs ih =>
    rw [List.map_cons, List.nodup_cons] at hn
    rcases List.mem_cons.1 h with rfl | h
    · simp [get]
    · have hq : q.messageId ≠ r.messageId := fun he => hn.1 (he ▸ List.mem_map_of_mem h)
      have := ih hn.2 h
      unfold get at this ⊢
      rw [List.find?_cons_of_neg (by simpa using hq), this]

theorem set_of_not_mem {rs : Records} {r : OutboxRecord}
    (h : r.messageId ∉ rs.map OutboxRecord.messageId) : rs.set r = rs := by
  refine (List.map_congr_left fun q hq => ?_).trans (List.map_id rs)
  have : q.messageId ≠ r.messageId := fun he => h (he ▸ List.mem_map_of_mem hq)
  simp [this]

theorem set_append (pre rs : Records) (r : OutboxRecord) :
    (pre ++ rs).set r = pre.set r ++ rs.set r := List.map_append

@[simp] theorem ids_set (rs : Records) (r : OutboxRecord) :
    (rs.set r).map OutboxRecord.messageId = rs.map OutboxRecord.messageId := by
  rw [set, List.map_map]
  refine List.map_congr_left fun q _ => ?_
  by_cases h : q.messageId = r.messageId <;> simp [h]

/-- The records of a changed dictionary. -/
theorem mem_set {rs : Records} {r q : OutboxRecord} (h : q ∈ rs.set r) :
    q = r ∨ (q ∈ rs ∧ q.messageId ≠ r.messageId) := by
  obtain ⟨p, hp, he⟩ := List.mem_map.1 h
  by_cases hq : p.messageId = r.messageId
  · simp only [hq, beq_self_eq_true, if_true] at he
    exact .inl he.symm
  · simp only [beq_iff_eq, hq, if_false] at he
    subst he
    exact .inr ⟨hp, hq⟩

end Records

/-! ## The order of keys -/

theorem foldEvent_congr {xs ys : Fields} (h : ∀ k, Json.lookup xs k = Json.lookup ys k)
    (rs : Records) : foldEvent H xs rs = foldEvent H ys rs := by
  have hg : ∀ k, Json.get xs k = Json.get ys k := fun k => by rw [Json.get, h, Json.get]
  have hd : ∀ k v, Json.getD xs k v = Json.getD ys k v := fun k v => by rw [Json.getD, h, Json.getD]
  have hf : ∀ kind : OutboxEvent, kind.fieldsOk xs = kind.fieldsOk ys := fun kind => by
    cases kind <;> simp only [OutboxEvent.fieldsOk, Json.keysEq_congr h]
  have he : ∀ id, foldEnqueued H xs id rs = foldEnqueued H ys id rs := fun id => by
    simp only [foldEnqueued, foldAtMs, hg]
  have hr : ∀ kind r, foldRecord H kind xs r = foldRecord H kind ys r := fun kind r => by
    cases kind <;> simp only [foldRecord, foldAttempt, foldDelivered, foldRejected, foldExpired,
      foldTransport, foldAtMs, hg, hd]
  simp only [foldEvent, hg, hf, he, hr]

/-- **The line of an event** does in the fold what the event does. -/
theorem foldEvent_line {event : Fields} (h : Json.flat event = true) (rs : Records) :
    foldEvent H (Json.obj event).norm.fields rs = foldEvent H event rs :=
  foldEvent_congr (Json.lookup_norm_flat h) rs

/-! ## Envelopes of records -/

theorem isDigest_digest (H : Host) (b : Bytes) : isDigest (digest H b) = true := by
  have h := H.sha256_isHex b
  simp only [isDigest, digest, startsWith, chars_eq, String.toList_append]
  rw [Bool.and_eq_true]
  constructor
  · exact List.isPrefixOf_iff_prefix.2 (List.prefix_append _ _)
  · rw [show ("sha256:".toList ++ (H.sha256 b).toList).drop 7 = (H.sha256 b).toList from
      List.drop_left' rfl]
    exact h

/-- What an envelope that validates fixes. -/
structure EnvelopeFacts (e : TransportEnvelope) (id : String) (created expires : ℤ) : Prop where
  id_eq : e.messageId = .str id
  id_isDigest : isDigest id = true
  created_eq : e.createdAtMs = .int created
  expires_eq : e.expiresAtMs = .int expires
  created_pos : 0 < created
  created_le : created ≤ maxSafeInteger
  expires_gt : created < expires
  expires_le : expires ≤ maxSafeInteger
  keys : Json.keysEq e.toDict ("dao_id" :: baseFields) = true ∨ Json.keysEq e.toDict baseFields = true
  wire : ∃ b, canonicalJson (.obj e.toDict) = some b

theorem validateEnvelope_facts {e : TransportEnvelope} {nowMs : Option ℤ} {b : Bool}
    (h : validateEnvelope H e nowMs b = .ok ()) :
    ∃ id created expires, EnvelopeFacts e id created expires := by
  simp only [validateEnvelope, checkHead, checkPeriod, checkSafeInt, bind_eq_ok, require_eq_ok,
    expect_eq_ok, pure_eq_ok, Json.asInt_eq_some, Bool.and_eq_true, decide_eq_true_eq,
    Json.eqStr_iff, Bool.or_eq_true] at h
  obtain ⟨_, ⟨_, -, _, -, _, hk, -⟩, p, ⟨c, ⟨_, hc, _, hcr, rfl⟩, _, hpos, x,
    ⟨_, hx, _, hxr, rfl⟩, _, hlt, -⟩, _, -, _, -, _, -, i, hi, _, hid, w, hw, -⟩ := h
  refine ⟨i, _, _, ⟨hid, ?_, hc, hx, hpos, hcr.2, hlt, hxr.2, hk, w, hw⟩⟩
  rw [contentAddress, Option.map_eq_some_iff] at hi
  obtain ⟨body, -, rfl⟩ := hi
  exact isDigest_digest H body

/-- What is known of a record with an envelope. -/
theorem recordEnvelope_facts {r : OutboxRecord} {e : TransportEnvelope}
    (h : recordEnvelope H r = .ok e) :
    EnvelopeFacts e r.messageId r.createdAtMs r.expiresAtMs ∧ isDigest r.envelopeSha256 = true ∧
      r.envelopeJson ≠ "" := by
  simp only [recordEnvelope, mapError_eq_ok, bind_eq_ok, require_eq_ok, expect_eq_ok,
    pure_eq_ok, Json.eqStr_iff, Bool.and_eq_true, beq_iff_eq] at h
  obtain ⟨p, hp, e', -, text, -, _, -, _, hv, _, hid, _, hsha, _, ht, rfl⟩ := h
  obtain ⟨id, c, x, hf⟩ := validateEnvelope_facts hv
  have h₁ : id = r.messageId := by
    have := hf.id_eq.symm.trans hid
    simpa using this
  have h₂ : c = r.createdAtMs := by
    have := ht.1
    rw [hf.created_eq] at this
    simpa [Json.eqInt] using this
  have h₃ : x = r.expiresAtMs := by
    have := ht.2
    rw [hf.expires_eq] at this
    simpa [Json.eqInt] using this
  subst h₁ h₂ h₃
  refine ⟨hf, ?_, ?_⟩
  · rw [envelopeDigest, Option.map_eq_some_iff] at hsha
    obtain ⟨b, -, hb⟩ := hsha
    rw [← hb]
    exact isDigest_digest H b
  · rintro he
    rw [he, show loads (chars "") = none by decide] at hp
    cases hp

/-- **A record of a valid envelope** carries it. -/
theorem recordEnvelope_newRecord {e : TransportEnvelope} (hw : e.wf = true) {nowMs : Option ℤ}
    (h : validateEnvelope H e nowMs true = .ok ()) {r : OutboxRecord}
    (hr : Outbox.newRecord H e = some r) : recordEnvelope H r = .ok e.norm := by
  obtain ⟨id, c, x, hf⟩ := validateEnvelope_facts h
  simp only [Outbox.newRecord, Option.bind_eq_bind, Option.bind_eq_some_iff, Option.pure_def,
    Option.some.injEq, hf.id_eq, hf.created_eq, hf.expires_eq, Json.asStr_eq_some,
    Json.asInt_eq_some, Json.str.injEq, Json.int.injEq] at hr
  obtain ⟨json, hj, sha, hs, _, rfl, _, rfl, _, rfl, rfl⟩ := hr
  have hload := loads_canonicalText (e.wf_toDict hw) hj
  have hdict := e.fromDict_toDict hf.keys
  have htext : canonicalText e.norm.toDict = some json := by
    rw [canonicalText_congr e.norm_toDict, hj]
  have hvalid := validateEnvelope_norm H hw (validateEnvelope_none H h)
  have hsha : envelopeDigest H e.norm.toDict = some sha := by
    rw [envelopeDigest, canonicalJson_congr rfl rfl e.norm_toDict]; exact hs
  have hid : e.norm.messageId = .str id := by rw [TransportEnvelope.norm, hf.id_eq]; rfl
  have hc : e.norm.createdAtMs = .int c := by rw [TransportEnvelope.norm, hf.created_eq]; rfl
  have hx : e.norm.expiresAtMs = .int x := by rw [TransportEnvelope.norm, hf.expires_eq]; rfl
  simp only [recordEnvelope, mapError_eq_ok, bind_eq_ok, require_eq_ok, expect_eq_ok,
    pure_eq_ok, Json.eqStr_iff, Bool.and_eq_true, beq_iff_eq]
  refine ⟨_, hload, e.norm, hdict, json, htext, (), rfl, (), hvalid, (), hid, (), hsha, (), ?_, rfl⟩
  rw [hc, hx]
  simp [Json.eqInt]

/-! ## The events of the outbox -/

theorem digestOf_str {s : String} (h : isDigest s = true) : digestOf (.str s) = some s := by
  simp [digestOf, Json.asStr, Option.filter, h]

/-- The record of an envelope before anything happens to it. -/
def OutboxRecord.fresh (r : OutboxRecord) : OutboxRecord :=
  { messageId := r.messageId, envelopeJson := r.envelopeJson, envelopeSha256 := r.envelopeSha256,
    createdAtMs := r.createdAtMs, expiresAtMs := r.expiresAtMs }

theorem foldEvent_enqueued {r : OutboxRecord} {e : TransportEnvelope}
    (he : recordEnvelope H r = .ok e) {atMs : ℤ} (hat : 0 ≤ atMs) {rs : Records}
    (hrs : rs.get r.messageId = none) :
    foldEvent H (enqueuedEvent r atMs) rs = .ok (rs ++ [r.fresh]) := by
  obtain ⟨hf, hsha, hjson⟩ := recordEnvelope_facts he
  simp only [foldEvent, bind_eq_ok, expect_eq_ok, require_eq_ok]
  refine ⟨.enqueued, rfl, (), ?_, r.messageId, digestOf_str hf.id_isDigest, ?_⟩
  · simp [OutboxEvent.fieldsOk, OutboxEvent.fields, Json.keysEq, enqueuedEvent]
  · rw [if_pos rfl]
    simp only [foldEnqueued, foldAtMs, bind_eq_ok, expect_eq_ok, require_eq_ok, pure_eq_ok, hrs]
    exact ⟨(), rfl, r.envelopeJson, rfl, (), by simpa using hjson, r.envelopeSha256,
      digestOf_str hsha, r.createdAtMs, rfl, r.expiresAtMs, rfl, atMs, ⟨atMs, rfl, (),
      by simpa using hat, rfl⟩, e, he, rfl⟩

/-- The fold of an event about the record `r`. -/
theorem foldEvent_record (kind : OutboxEvent) (hk : kind ≠ .enqueued) {event : Fields}
    (hkind : (Json.get event "event").asStr.bind OutboxEvent.ofText = some kind)
    (hfields : kind.fieldsOk event = true) {r : OutboxRecord}
    (hid : Json.get event "message_id" = .str r.messageId) (hd : isDigest r.messageId = true)
    {rs : Records} (hrs : rs.get r.messageId = some r) {r' : OutboxRecord}
    (h : foldRecord H kind event r = .ok r') : foldEvent H event rs = .ok (rs.set r') := by
  simp only [foldEvent, bind_eq_ok, expect_eq_ok, require_eq_ok]
  refine ⟨kind, hkind, (), hfields, r.messageId, ?_, ?_⟩
  · rw [hid]; exact digestOf_str hd
  · rw [if_neg hk]
    simp only [bind_eq_ok, expect_eq_ok, pure_eq_ok]
    exact ⟨r, hrs, r', h, rfl⟩

/-- What the outbox and the fold both check of an attempt. -/
structure AttemptOk (a : OutboxAttempt) : Prop where
  transport : isTransportName a.transport = true
  atMs : 0 ≤ a.atMs
  errorCode : len a.errorCode ≤ maxErrorCodeLength

theorem ofText_text (o : AttemptOutcome) : AttemptOutcome.ofText o.text = some o := by
  cases o <;> rfl

theorem foldAttempt_attemptEvent {r : OutboxRecord} {a : OutboxAttempt} (ha : AttemptOk a)
    (hq : r.state = .queued) (hl : r.attempts.length < maxAttemptsPerRecord) (id : String) :
    foldAttempt (attemptEvent id a) r = .ok (r.attempted a) := by
  have hcode : Json.getD (attemptEvent id a) "error_code" (.str "") = .str a.errorCode := by
    by_cases hc : a.errorCode = ""
    · simp [attemptEvent, hc, Json.getD, Json.lookup]
    · simp [attemptEvent, hc, Json.getD, Json.lookup]
  simp only [foldAttempt, foldTransport, foldAtMs, validateErrorCode, hcode, bind_eq_ok, expect_eq_ok, require_eq_ok, pure_eq_ok]
  exact ⟨(), by simpa using hq, (), by simpa using hl, a.transport, ⟨a.transport, rfl, (),
    ha.transport, rfl⟩, a.outcome, ofText_text a.outcome, a.atMs, ⟨a.atMs, rfl, (),
    by simpa using ha.atMs, rfl⟩, a.errorCode, ⟨a.errorCode, rfl, (), by simpa using ha.errorCode,
    rfl⟩, rfl⟩

theorem foldEvent_attempt {r : OutboxRecord} (hd : isDigest r.messageId = true) {a : OutboxAttempt}
    (ha : AttemptOk a) (hq : r.state = .queued) (hl : r.attempts.length < maxAttemptsPerRecord)
    {rs : Records} (hrs : rs.get r.messageId = some r) :
    foldEvent H (attemptEvent r.messageId a) rs = .ok (rs.set (r.attempted a)) := by
  refine foldEvent_record .attempt (by decide) ?_ ?_ ?_ hd hrs
    (foldAttempt_attemptEvent ha hq hl _)
  · rfl
  · by_cases hc : a.errorCode = "" <;>
      simp [OutboxEvent.fieldsOk, OutboxEvent.fields, Json.keysEq, attemptEvent, hc]
  · rfl

theorem foldEvent_expired {r : OutboxRecord} (hd : isDigest r.messageId = true)
    (hq : r.state = .queued) {atMs : ℤ} (hat : 0 ≤ atMs) {rs : Records}
    (hrs : rs.get r.messageId = some r) :
    foldEvent H (expiredEvent r.messageId atMs) rs = .ok (rs.set { r with state := .expired }) := by
  refine foldEvent_record .expired (by decide) rfl ?_ rfl hd hrs ?_
  · simp [OutboxEvent.fieldsOk, OutboxEvent.fields, Json.keysEq, expiredEvent]
  · simp only [foldRecord, foldExpired, foldAtMs, bind_eq_ok, expect_eq_ok, require_eq_ok, pure_eq_ok]
    exact ⟨(), by rw [hq]; rfl, atMs, ⟨atMs, rfl, (), by simpa using hat, rfl⟩, trivial⟩

/-- **A delivery is folded** when the acknowledgement is valid at the time that
    the event carries. -/
theorem foldEvent_delivered {r : OutboxRecord} (hd : isDigest r.messageId = true)
    (hq : r.state = .queued) {e : TransportEnvelope} (he : recordEnvelope H r = .ok e)
    {ack : DeliveryAck} {sha receiver signature : String} {received atMs : ℤ}
    (hack : ack.Reads r.messageId sha receiver signature received) (hat : 0 ≤ atMs)
    (hvalid : validateAck H ack (some atMs) true = .ok ())
    (hmatch : ackDigestMatchesEnvelope H sha e = true) {recipient : String}
    (hrec : e.recipient = .str recipient)
    (hto : startsWith "did:key:" recipient = true → ack.receiverDid = e.recipient)
    {text : String} (ht : canonicalText ack.toDict = some text) {rs : Records}
    (hrs : rs.get r.messageId = some r) :
    foldEvent H (deliveredEvent r.messageId atMs text) rs =
      .ok (rs.set { r with state := .delivered, deliveredBy := receiver, deliveredAtMs := received }) := by
  obtain ⟨hload, hdict⟩ := fromDict_ack hack ht
  refine foldEvent_record .delivered (by decide) rfl ?_ rfl hd hrs ?_
  · simp [OutboxEvent.fieldsOk, OutboxEvent.fields, Json.keysEq, deliveredEvent]
  · simp only [foldRecord, foldDelivered, foldAtMs, bind_eq_ok, expect_eq_ok, require_eq_ok,
      pure_eq_ok, mapError_eq_ok]
    refine ⟨(), by rw [hq]; rfl, atMs, ⟨atMs, rfl, (), by simpa using hat, rfl⟩, text, rfl, _, hload,
      ack, hdict, text, ht, (), by simp, (), hvalid, e, he, sha, by rw [hack.eq]; rfl, (), ?_,
      recipient, by rw [hrec]; rfl, (), ?_, receiver, by rw [hack.eq]; rfl, received,
      by rw [hack.eq]; rfl, rfl⟩
    · rw [hmatch, hack.eq]; simp [Json.eqStr]
    · by_cases hs : startsWith "did:key:" recipient = true
      · rw [hto hs]; simp
      · simp [hs]

/-! ## Records up to their last error -/

/-- The record without its last error code. -/
def OutboxRecord.strip (r : OutboxRecord) : OutboxRecord := { r with lastErrorCode := "" }

theorem strip_eq_iff {r s : OutboxRecord} :
    r.strip = s.strip ↔ s = { r with lastErrorCode := s.lastErrorCode } := by
  obtain ⟨⟩ := r; obtain ⟨⟩ := s
  simp [OutboxRecord.strip]
  tauto

/-- Records that agree but for their last error codes. -/
def Records.Agree (rs ss : Records) : Prop :=
  rs.map OutboxRecord.strip = ss.map OutboxRecord.strip

namespace Records.Agree

theorem refl (rs : Records) : rs.Agree rs := rfl

theorem symm {rs ss : Records} (h : rs.Agree ss) : ss.Agree rs := Eq.symm h

theorem trans {rs ss ts : Records} (h : rs.Agree ss) (h' : ss.Agree ts) : rs.Agree ts :=
  Eq.trans h h'

theorem append {rs ss rs' ss' : Records} (h : rs.Agree ss) (h' : rs'.Agree ss') :
    Records.Agree (rs ++ rs') (ss ++ ss') := by
  unfold Agree at *
  rw [List.map_append, List.map_append, h, h']

/-- What only reads stripped records reads the same of both. -/
theorem map_eq {β : Type} {rs ss : Records} (h : rs.Agree ss) (g : OutboxRecord → β)
    (hg : ∀ r, g r.strip = g r) : rs.map g = ss.map g := by
  have : ∀ ts : Records, ts.map g = (ts.map OutboxRecord.strip).map g := by
    intro ts
    rw [List.map_map]
    exact List.map_congr_left fun r _ => (hg r).symm
  rw [this rs, this ss, h]

theorem ids_eq {rs ss : Records} (h : rs.Agree ss) :
    rs.map OutboxRecord.messageId = ss.map OutboxRecord.messageId := h.map_eq _ fun _ => rfl

theorem get {rs ss : Records} (h : rs.Agree ss) (id : String) :
    (rs.get id).map OutboxRecord.strip = (ss.get id).map OutboxRecord.strip := by
  have hfind : ∀ ts : Records, (ts.get id).map OutboxRecord.strip =
      (ts.map OutboxRecord.strip).find? fun r => r.messageId == id := by
    intro ts
    rw [List.find?_map]
    rfl
  rw [hfind, hfind, h]

theorem get_eq_none {rs ss : Records} (h : rs.Agree ss) (id : String) :
    rs.get id = none ↔ ss.get id = none := by
  rw [Records.get_eq_none, Records.get_eq_none, h.ids_eq]

theorem set {rs ss : Records} (h : rs.Agree ss) {r s : OutboxRecord} (hrs : r.strip = s.strip) :
    Records.Agree (rs.set r) (ss.set s) := by
  have hset : ∀ (ts : Records) (q : OutboxRecord), (ts.set q).map OutboxRecord.strip =
      (ts.map OutboxRecord.strip).map fun p =>
        if p.messageId == q.strip.messageId then q.strip else p := by
    intro ts q
    rw [Records.set, List.map_map, List.map_map]
    refine List.map_congr_left fun p _ => ?_
    by_cases hp : p.messageId = q.messageId
    · simp [hp, OutboxRecord.strip]
    · simp [hp, OutboxRecord.strip]
  rw [Agree, hset, hset, h, hrs]

theorem filter {rs ss : Records} (h : rs.Agree ss) (q : OutboxRecord → Bool)
    (hq : ∀ r, q r.strip = q r) : Records.Agree (rs.filter q) (ss.filter q) := by
  have hfil : ∀ ts : Records, (ts.filter q).map OutboxRecord.strip =
      (ts.map OutboxRecord.strip).filter q := by
    intro ts
    rw [List.filter_map]
    congr 1
    exact List.filter_congr fun r _ => (hq r).symm
  rw [Agree, hfil, hfil, h]

end Records.Agree

/-- The last error code decides nothing in the fold. -/
theorem foldRecord_strip {kind : OutboxEvent} {event : Fields} {r r' : OutboxRecord} (c : String)
    (h : foldRecord H kind event r = .ok r') :
    ∃ s, foldRecord H kind event { r with lastErrorCode := c } = .ok s ∧ r'.strip = s.strip := by
  have henv : recordEnvelope H { r with lastErrorCode := c } = recordEnvelope H r := rfl
  cases kind with
  | enqueued => cases h
  | attempt =>
    simp only [foldRecord, foldAttempt, bind_eq_ok, require_eq_ok, expect_eq_ok, pure_eq_ok] at h ⊢
    obtain ⟨_, h₁, _, h₂, t, h₃, o, h₄, a, h₅, e, h₆, rfl⟩ := h
    exact ⟨_, ⟨(), h₁, (), h₂, t, h₃, o, h₄, a, h₅, e, h₆, rfl⟩, rfl⟩
  | delivered =>
    simp only [foldRecord, foldDelivered, henv, bind_eq_ok, require_eq_ok, expect_eq_ok,
      pure_eq_ok] at h ⊢
    obtain ⟨_, h₁, a, h₂, j, h₃, p, h₄, k, h₅, t, h₆, _, h₇, _, h₈, e, h₉, s, h₁₀, _, h₁₁, q, h₁₂,
      _, h₁₃, m, h₁₄, n, h₁₅, rfl⟩ := h
    exact ⟨_, ⟨(), h₁, a, h₂, j, h₃, p, h₄, k, h₅, t, h₆, (), h₇, (), h₈, e, h₉, s, h₁₀, (), h₁₁, q,
      h₁₂, (), h₁₃, m, h₁₄, n, h₁₅, rfl⟩, rfl⟩
  | rejected =>
    simp only [foldRecord, foldRejected, bind_eq_ok, require_eq_ok, pure_eq_ok] at h ⊢
    obtain ⟨_, h₁, a, h₂, t, h₃, e, h₄, rfl⟩ := h
    exact ⟨_, ⟨(), h₁, a, h₂, t, h₃, e, h₄, rfl⟩, rfl⟩
  | expired =>
    simp only [foldRecord, foldExpired, bind_eq_ok, require_eq_ok, pure_eq_ok] at h ⊢
    obtain ⟨_, h₁, a, h₂, rfl⟩ := h
    exact ⟨_, ⟨(), h₁, a, h₂, rfl⟩, rfl⟩

/-- **The fold sees no last error code.** -/
theorem foldEvent_agree {event : Fields} {rs rs' ss : Records} (h : foldEvent H event rs = .ok rs')
    (ha : rs.Agree ss) : ∃ ss', foldEvent H event ss = .ok ss' ∧ rs'.Agree ss' := by
  simp only [foldEvent, bind_eq_ok, expect_eq_ok, require_eq_ok] at h ⊢
  obtain ⟨kind, h₁, _, h₂, id, h₃, h⟩ := h
  by_cases hk : kind = .enqueued
  · rw [if_pos hk] at h
    simp only [foldEnqueued, bind_eq_ok, expect_eq_ok, require_eq_ok, pure_eq_ok] at h
    obtain ⟨_, h₄, j, h₅, _, h₆, s, h₇, c, h₈, x, h₉, t, h₁₀, e, h₁₁, rfl⟩ := h
    have hn : (ss.get id).isNone = true := by
      have := ha.get id
      rw [Option.isNone_iff_eq_none.1 h₄, Option.map_none] at this
      rw [Option.isNone_iff_eq_none, ← Option.map_eq_none_iff, ← this]
    refine ⟨_, ⟨kind, h₁, (), h₂, id, h₃, ?_⟩, ha.append (.refl _)⟩
    rw [if_pos hk]
    simp only [foldEnqueued, bind_eq_ok, expect_eq_ok, require_eq_ok, pure_eq_ok]
    exact ⟨(), hn, j, h₅, (), h₆, s, h₇, c, h₈, x, h₉, t, h₁₀, e, h₁₁, rfl⟩
  · rw [if_neg hk] at h
    simp only [bind_eq_ok, expect_eq_ok, pure_eq_ok] at h
    obtain ⟨r, hr, r', hr', rfl⟩ := h
    have hget := ha.get id
    rw [hr, Option.map_some, eq_comm, Option.map_eq_some_iff] at hget
    obtain ⟨s, hs, hstrip⟩ := hget
    obtain ⟨s', hs', hstrip'⟩ := foldRecord_strip s.lastErrorCode hr'
    rw [← strip_eq_iff.1 hstrip.symm] at hs'
    refine ⟨_, ⟨kind, h₁, (), h₂, id, h₃, ?_⟩, ha.set hstrip'⟩
    rw [if_neg hk]
    simp only [bind_eq_ok, expect_eq_ok, pure_eq_ok]
    exact ⟨s, hs, s', hs', rfl⟩

/-! ## Compaction -/

/-- What holds of the records of an outbox. -/
structure Sound (H : Host) (r : OutboxRecord) : Prop where
  envelope : ∃ e, recordEnvelope H r = .ok e
  attempts_ok : ∀ a ∈ r.attempts, AttemptOk a
  attempts_le : r.attempts.length ≤ maxAttemptsPerRecord
  queued : r.state = .queued → (∀ a ∈ r.attempts, a.outcome ≠ .rejected) ∧ r.deliveredBy = "" ∧
    r.deliveredAtMs = 0

theorem Sound.id_isDigest {r : OutboxRecord} (h : Sound H r) : isDigest r.messageId = true := by
  obtain ⟨e, he⟩ := h.envelope
  exact (recordEnvelope_facts he).1.id_isDigest

theorem Sound.of_strip {r s : OutboxRecord} (h : Sound H r) (hs : r.strip = s.strip) :
    Sound H s := by
  rw [strip_eq_iff.1 hs]
  exact ⟨h.envelope, h.attempts_ok, h.attempts_le, h.queued⟩

/-- The last error code among attempts, after `c`. -/
def lastError (c : String) (as : List OutboxAttempt) : String :=
  as.foldl (fun c a => if a.errorCode = "" then c else a.errorCode) c

theorem lastError_append (c : String) (as bs : List OutboxAttempt) :
    lastError c (as ++ bs) = lastError (lastError c as) bs := List.foldl_append

/-- The fold of attempts that do not end the record. -/
theorem foldl_attempted (r : OutboxRecord) {as : List OutboxAttempt}
    (h : ∀ a ∈ as, a.outcome ≠ .rejected) : as.foldl OutboxRecord.attempted r =
      { r with attempts := r.attempts ++ as, lastErrorCode := lastError r.lastErrorCode as } := by
  induction as generalizing r with
  | nil => simp [lastError]
  | cons a as ih =>
    rw [List.forall_mem_cons] at h
    rw [List.foldl_cons, ih _ h.2]
    simp [OutboxRecord.attempted, h.1, lastError]

/-- Events folded in turn. -/
def foldEvents (H : Host) (events : List Fields) (rs : Records) : Except String Records :=
  events.foldlM (fun rs e => foldEvent H e rs) rs

theorem foldEvents_append (es fs : List Fields) (rs : Records) :
    foldEvents H (es ++ fs) rs = (foldEvents H es rs >>= foldEvents H fs) := by
  rw [foldEvents, List.foldlM_append]; rfl

theorem foldEvents_cons {e : Fields} {es : List Fields} {rs rs' : Records}
    (h : foldEvent H e rs = .ok rs') : foldEvents H (e :: es) rs = foldEvents H es rs' := by
  rw [foldEvents, List.foldlM_cons, h, ok_bind]; rfl

theorem get_concat {pre : Records} {r : OutboxRecord}
    (h : r.messageId ∉ pre.map OutboxRecord.messageId) :
    Records.get (pre ++ [r]) r.messageId = some r := by
  rw [Records.get_append pre [r] _ h]
  simp [Records.get]

theorem set_concat {pre : Records} {r r' : OutboxRecord}
    (h : r.messageId ∉ pre.map OutboxRecord.messageId) (hr : r'.messageId = r.messageId) :
    Records.set (pre ++ [r]) r' = pre ++ [r'] := by
  rw [Records.set_append, Records.set_of_not_mem (hr ▸ h)]
  simp [Records.set, hr]

theorem foldEvents_attempts {pre : Records} {r : OutboxRecord} {as : List OutboxAttempt}
    (hd : isDigest r.messageId = true) (hpre : r.messageId ∉ pre.map OutboxRecord.messageId)
    (hq : r.state = .queued) (ha : ∀ a ∈ as, AttemptOk a ∧ a.outcome ≠ .rejected)
    (hl : r.attempts.length + as.length ≤ maxAttemptsPerRecord) :
    foldEvents H (as.map (attemptEvent r.messageId)) (pre ++ [r]) =
      .ok (pre ++ [as.foldl OutboxRecord.attempted r]) := by
  induction as generalizing r with
  | nil => rfl
  | cons a as ih =>
    rw [List.forall_mem_cons] at ha
    rw [List.length_cons] at hl
    have hstep := foldEvent_attempt (H := H) hd ha.1.1 hq (by omega) (get_concat hpre)
    have hid : (r.attempted a).messageId = r.messageId := rfl
    rw [set_concat hpre hid] at hstep
    rw [List.map_cons, foldEvents_cons hstep, List.foldl_cons]
    refine ih hd hpre ?_ ha.2 ?_
    · simp [OutboxRecord.attempted, ha.1.2, hq]
    · simp only [OutboxRecord.attempted, List.length_append, List.length_singleton]; omega

/-- The record that the events of `compact` fold to. -/
def OutboxRecord.refolded (r : OutboxRecord) : OutboxRecord :=
  { r with lastErrorCode := lastError "" r.attempts }

theorem foldEvents_compactEvents {pre : Records} {r : OutboxRecord} (h : Sound H r)
    (hq : r.state = .queued) (hpre : r.messageId ∉ pre.map OutboxRecord.messageId) :
    foldEvents H (Outbox.compactEvents r) pre = .ok (pre ++ [r.refolded]) := by
  obtain ⟨e, he⟩ := h.envelope
  obtain ⟨hrej, hby, hatms⟩ := h.queued hq
  have hf := (recordEnvelope_facts he).1
  have henq := foldEvent_enqueued he (le_of_lt hf.created_pos) (Records.get_eq_none.2 hpre)
  have hatt := foldEvents_attempts (r := r.fresh) (H := H) hf.id_isDigest hpre rfl
    (fun a ha => ⟨h.attempts_ok a ha, hrej a ha⟩) (by simpa [OutboxRecord.fresh] using h.attempts_le)
  have hfold : r.attempts.foldl OutboxRecord.attempted r.fresh = r.refolded := by
    rw [foldl_attempted r.fresh hrej]
    simp only [OutboxRecord.fresh, OutboxRecord.refolded, List.nil_append]
    obtain ⟨⟩ := r
    simp_all
  rw [Outbox.compactEvents, foldEvents_cons henq]
  exact hatt.trans (by rw [hfold])

/-- **The events of `compact`** fold to the records it keeps. -/
theorem fold_compact {pre keep : Records} (hs : ∀ r ∈ keep, Sound H r ∧ r.state = .queued)
    (hn : ((pre ++ keep).map OutboxRecord.messageId).Nodup) :
    foldEvents H (keep.flatMap Outbox.compactEvents) pre =
      .ok (pre ++ keep.map OutboxRecord.refolded) := by
  induction keep generalizing pre with
  | nil => simp [foldEvents]
  | cons r keep ih =>
    rw [List.forall_mem_cons] at hs
    have hpre : r.messageId ∉ pre.map OutboxRecord.messageId := by
      rw [List.map_append, List.map_cons, List.nodup_append] at hn
      intro hm
      exact hn.2.2 _ hm _ (by simp) rfl
    rw [List.flatMap_cons, foldEvents_append, foldEvents_compactEvents hs.1.1 hs.1.2 hpre, ok_bind,
      ih hs.2, List.append_assoc]
    · rfl
    · have : (pre ++ [r.refolded] ++ keep).map OutboxRecord.messageId =
          (pre ++ r :: keep).map OutboxRecord.messageId := by simp [OutboxRecord.refolded]
      rw [this]; exact hn

theorem agree_refolded (rs : Records) : Records.Agree (rs.map OutboxRecord.refolded) rs := by
  unfold Records.Agree
  rw [List.map_map]
  exact List.map_congr_left fun r _ => rfl

/-- The fold of flat events. -/
theorem load_flat_events {raw : Bytes} (ht : Jsonl.tail raw = []) (events : List Fields)
    (hf : ∀ e ∈ events, Json.flat e = true) (he : ∀ e ∈ events, (Json.obj e).encodable = true) :
    (outboxReader H).load (raw ++ Jsonl.eventsText events) [] =
      ((outboxReader H).load raw [] >>= foldEvents H events) ∧
    Jsonl.tail (raw ++ Jsonl.eventsText events) = [] :=
  (outboxReader H).load_append_flat (f := foldEvent H) (fun _ _ _ => rfl)
    (fun rs h => foldEvent_congr h rs) ht hf he []

end Delivery

end NthDao
