/-
  Signed events of the spine (`nth_dao/spine/event.py`).

  * `SpineEvent.fromDict` and `toDict` are the wire form, `signEvent` and
    `verifyEvent` the two ends of a signature over the content hash;
  * `fromDict_norm`: an event reads back from its dict with sorted keys;
  * `verifyEvent_of_signEvent`: a signed event verifies.
-/
import NthDao.CanonicalJson
import NthDao.Identity
import NthDao.Py.Check
import NthDao.Py.Str

namespace NthDao

open Py

variable (H : Host)

/-! ## Events -/

/-- `GENESIS_PREV`. -/
def genesisPrev : String := String.ofList (List.replicate 64 '0')

/-- `MAX_SPINE_PAYLOAD_BYTES`. -/
def maxSpinePayloadBytes : ℕ := 1024 * 1024

/-- `_HASH`. -/
def isSpineHash (s : String) : Bool := isHex 64 (chars s)

/-- `[a-z0-9]`. -/
def isLowerAlnum (c : Char) : Bool := ('a' ≤ c && c ≤ 'z') || ('0' ≤ c && c ≤ '9')

/-- `_EVENT_TYPE`. -/
def isEventType (s : String) : Bool :=
  match chars s with
  | [] => false
  | c :: cs => isLowerAlnum c && cs.length ≤ 127 &&
    cs.all fun c => isLowerAlnum c || c == '.' || c == '_' || c == '-'

/-- `_EVENT_FIELDS`. -/
def spineEventFields : List String :=
  ["seq", "prev_hash", "type", "payload", "author_did", "ts_ms", "content_hash", "sig"]

/-- `SpineEvent`. -/
structure SpineEvent where
  seq : ℕ
  prevHash : String
  type : String
  payload : Fields
  authorDid : String
  tsMs : ℤ
  contentHash : String := ""
  sig : String := ""
  deriving DecidableEq

/-- `SpineEvent.core`. -/
def SpineEvent.core (e : SpineEvent) : Fields :=
  [("seq", .int e.seq), ("prev_hash", .str e.prevHash), ("type", .str e.type),
    ("payload", .obj e.payload), ("author_did", .str e.authorDid), ("ts_ms", .int e.tsMs)]

/-- `SpineEvent.to_dict`. -/
def SpineEvent.toDict (e : SpineEvent) : Json :=
  .obj (e.core ++ [("content_hash", .str e.contentHash), ("sig", .str e.sig)])

/-- `==` of two events: the payloads compare as dicts. -/
def SpineEvent.eqv (e f : SpineEvent) : Bool :=
  Py.eqv (.obj e.payload) (.obj f.payload) && { e with payload := [] } == { f with payload := [] }

/-- A `str` that the check accepts. -/
def strWith (ok : String → Bool) (v : Json) : Option String := v.asStr.filter ok

/-- A non-negative `int`. -/
def nonNegative (v : Json) : Option ℕ :=
  match v.asInt with
  | some n => if 0 ≤ n then some n.toNat else none
  | none => none

/-- The payload is canonical JSON within the limit. -/
def checkPayload (payload : Fields) : Except String Unit := do
  let b ← expect (canonicalJson (.obj payload)) "spine event payload is not canonical JSON"
  require (b.length ≤ maxSpinePayloadBytes) "spine event payload exceeds byte limit"

/-- `SpineEvent.from_dict`. -/
def SpineEvent.fromDict (d : Json) : Except String SpineEvent := do
  let kvs := d.fields
  require (d.isObj && Json.keysEq kvs spineEventFields) "spine event has missing or unknown fields"
  let seq ← expect (nonNegative (Json.get kvs "seq"))
    "spine event seq must be a non-negative integer"
  let tsMs ← expect ((Json.get kvs "ts_ms").asInt.filter (0 < ·))
    "spine event ts_ms must be a positive integer"
  let prevHash ← expect (strWith isSpineHash (Json.get kvs "prev_hash"))
    "spine event prev_hash is invalid"
  let contentHash ← expect (strWith isSpineHash (Json.get kvs "content_hash"))
    "spine event content_hash is invalid"
  let type ← expect (strWith isEventType (Json.get kvs "type")) "spine event type is invalid"
  require (Json.get kvs "payload").isObj "spine event payload must be an object"
  let authorDid ← expect (strWith (· != "") (Json.get kvs "author_did"))
    "spine event author_did is invalid"
  let sig ← expect (strWith (· != "") (Json.get kvs "sig")) "spine event sig is invalid"
  let payload := (Json.get kvs "payload").fields
  checkPayload payload
  return { seq, prevHash, type, payload, authorDid, tsMs, contentHash, sig }

/-- `event_content_hash`, `none` where it raises. -/
def eventContentHash (core : Fields) : Option String := (canonicalJson (.obj core)).map H.sha256

/-- `sign_event`. -/
def signEvent (seq : ℕ) (prevHash eventType : String) (payload : Fields) (identity : H.SecretKey)
    (tsMs : ℤ) : Except String SpineEvent := do
  require (0 < tsMs) "spine event ts_ms must be a positive integer"
  require (isSpineHash prevHash) "spine event prev_hash is invalid"
  require (isEventType eventType) "spine event type is invalid"
  checkPayload payload
  let e : SpineEvent :=
    { seq, prevHash, type := eventType, payload, authorDid := asDid H identity, tsMs }
  let contentHash ← expect (eventContentHash H e.core)
    "Exceeds the limit (4300 digits) for integer string conversion"
  let sig := signText H identity (fromHex (chars contentHash))
  SpineEvent.fromDict { e with contentHash, sig }.toDict

/-- `verify_event`, with the reason on failure. -/
def verifyEvent (e : SpineEvent) : Except String Unit := do
  let validated ← (SpineEvent.fromDict e.toDict).mapError ("invalid event structure: " ++ ·)
  let recomputed ← expect (eventContentHash H validated.core) "invalid event structure"
  require (recomputed == e.contentHash) "content_hash mismatch (tampered core)"
  let key ← expect (decodeDidKey e.authorDid) "bad author_did/sig encoding"
  let sig ← expect (b64uDecode e.sig) "bad author_did/sig encoding"
  require (sig.length == 64 && b64uEncode sig == e.sig) "signature encoding is not canonical"
  require (H.verify key (fromHex (chars e.contentHash)) sig) "signature invalid"

/-! ## Reading back -/

/-- What `from_dict` checks of an event. -/
structure SpineEvent.Valid (e : SpineEvent) : Prop where
  ts : 0 < e.tsMs
  prev : isSpineHash e.prevHash = true
  hash : isSpineHash e.contentHash = true
  type : isEventType e.type = true
  author : e.authorDid ≠ ""
  sig : e.sig ≠ ""
  payload : checkPayload e.payload = .ok ()

theorem strWith_eq_some {ok : String → Bool} {v : Json} {s : String} :
    strWith ok v = some s ↔ v = .str s ∧ ok s = true := by
  rw [strWith, Option.filter_eq_some_iff, Json.asStr_eq_some]

/-- A dict whose fields are those of a valid event is read as that event. -/
theorem SpineEvent.fromDict_of_get {kvs : Fields} {e : SpineEvent} (h : e.Valid)
    (hk : Json.keysEq kvs spineEventFields = true) (hseq : Json.get kvs "seq" = .int e.seq)
    (hts : Json.get kvs "ts_ms" = .int e.tsMs) (hprev : Json.get kvs "prev_hash" = .str e.prevHash)
    (hhash : Json.get kvs "content_hash" = .str e.contentHash)
    (htype : Json.get kvs "type" = .str e.type) (hpay : Json.get kvs "payload" = .obj e.payload)
    (hdid : Json.get kvs "author_did" = .str e.authorDid) (hsig : Json.get kvs "sig" = .str e.sig) :
    SpineEvent.fromDict (.obj kvs) = .ok e := by
  have hstr : ∀ {ok : String → Bool} {s : String}, ok s = true → strWith ok (.str s) = some s :=
    fun hs => strWith_eq_some.2 ⟨rfl, hs⟩
  have hnum : nonNegative (.int (e.seq : ℤ)) = some e.seq := by simp [nonNegative, Json.asInt]
  have hpos : (Json.int e.tsMs).asInt.filter (0 < ·) = some e.tsMs := by
    simp [Json.asInt, h.ts]
  have hauthor : strWith (· != "") (.str e.authorDid) = some e.authorDid :=
    hstr (bne_iff_ne.2 h.author)
  have hsign : strWith (· != "") (.str e.sig) = some e.sig := hstr (bne_iff_ne.2 h.sig)
  simp only [SpineEvent.fromDict, Json.fields_obj, hseq, hts, hprev, hhash, htype, hpay, hdid, hsig,
    hk, Json.isObj, hnum, hpos, hstr h.prev, hstr h.hash, hstr h.type, hauthor, hsign, h.payload]
  rfl

/-- **An event reads back from its dict** exactly if it is valid. -/
theorem SpineEvent.fromDict_toDict {e e' : SpineEvent} :
    SpineEvent.fromDict e.toDict = .ok e' ↔ e' = e ∧ e.Valid := by
  have hk : Json.keysEq e.toDict.fields spineEventFields = true := by
    simp [SpineEvent.toDict, SpineEvent.core, Json.keysEq, spineEventFields]
  have hseq : Json.get e.toDict.fields "seq" = .int e.seq := rfl
  have hprev : Json.get e.toDict.fields "prev_hash" = .str e.prevHash := rfl
  have htype : Json.get e.toDict.fields "type" = .str e.type := rfl
  have hpay : Json.get e.toDict.fields "payload" = .obj e.payload := rfl
  have hdid : Json.get e.toDict.fields "author_did" = .str e.authorDid := rfl
  have hts : Json.get e.toDict.fields "ts_ms" = .int e.tsMs := rfl
  have hhash : Json.get e.toDict.fields "content_hash" = .str e.contentHash := rfl
  have hsig : Json.get e.toDict.fields "sig" = .str e.sig := rfl
  constructor
  · intro h
    simp only [SpineEvent.fromDict, hseq, hprev, htype, hpay, hdid, hts, hhash, hsig, bind_eq_ok,
      require_eq_ok, expect_eq_ok, strWith_eq_some, pure_eq_ok, Json.str.injEq, bne_iff_ne] at h
    obtain ⟨_, -, seq, hn, ts, ht, _, ⟨rfl, h₁⟩, _, ⟨rfl, h₂⟩, _, ⟨rfl, h₃⟩, _, -, _, ⟨rfl, h₄⟩, _,
      ⟨rfl, h₅⟩, ⟨⟩, h₆, rfl⟩ := h
    simp only [Json.asInt, Option.filter_some] at ht
    split_ifs at ht with hpos
    cases ht
    have hs : seq = e.seq := by simpa [nonNegative, Json.asInt, eq_comm] using hn
    exact ⟨by rw [hs]; rfl, of_decide_eq_true hpos, h₁, h₂, h₃, h₄, h₅, h₆⟩
  · rintro ⟨rfl, h⟩
    exact fromDict_of_get h hk hseq hts hprev hhash htype hpay hdid hsig

/-- The dict with sorted keys. -/
theorem SpineEvent.norm_toDict (e : SpineEvent) : e.toDict.norm =
    .obj [("author_did", .str e.authorDid), ("content_hash", .str e.contentHash),
      ("payload", (Json.obj e.payload).norm), ("prev_hash", .str e.prevHash), ("seq", .int e.seq),
      ("sig", .str e.sig), ("ts_ms", .int e.tsMs), ("type", .str e.type)] := by
  rw [SpineEvent.toDict, Json.norm_obj]
  simp +decide [SpineEvent.core, List.insertionSort, List.orderedInsert, Json.keyLe, Json.norm]

/-- The order of the keys does not matter, if the payload is sorted. -/
theorem SpineEvent.fromDict_norm {e : SpineEvent} (h : e.Valid)
    (hp : (Json.obj e.payload).norm = .obj e.payload) :
    SpineEvent.fromDict e.toDict.norm = .ok e := by
  rw [norm_toDict, hp]
  refine fromDict_of_get h ?_ ?_ ?_ ?_ ?_ ?_ ?_ ?_ ?_
  all_goals simp [Json.keysEq, spineEventFields, Json.get, Json.lookup_cons]

/-! ## Signed events -/

/-- What `sign_event` returns. -/
theorem signEvent_eq_ok {seq : ℕ} {prevHash eventType : String} {payload : Fields}
    {identity : H.SecretKey} {tsMs : ℤ} {e : SpineEvent}
    (h : signEvent H seq prevHash eventType payload identity tsMs = .ok e) :
    e.Valid ∧ e.seq = seq ∧ e.prevHash = prevHash ∧ e.payload = payload ∧
      e.authorDid = asDid H identity ∧ eventContentHash H e.core = some e.contentHash ∧
      e.sig = signText H identity (fromHex (chars e.contentHash)) := by
  simp only [signEvent, bind_eq_ok, require_eq_ok, expect_eq_ok, SpineEvent.fromDict_toDict] at h
  obtain ⟨_, -, _, -, _, -, _, -, hash, hh, rfl, hv⟩ := h
  exact ⟨hv, rfl, rfl, rfl, rfl, hh, rfl⟩

/-- **A signed event verifies.** -/
theorem verifyEvent_of_signEvent {seq : ℕ} {prevHash eventType : String} {payload : Fields}
    {identity : H.SecretKey} {tsMs : ℤ} {e : SpineEvent}
    (h : signEvent H seq prevHash eventType payload identity tsMs = .ok e) :
    verifyEvent H e = .ok () := by
  obtain ⟨hv, -, -, -, hdid, hhash, hsig⟩ := signEvent_eq_ok H h
  have hd : SpineEvent.fromDict e.toDict = .ok e := SpineEvent.fromDict_toDict.2 ⟨rfl, hv⟩
  simp only [verifyEvent, hd, mapError_ok, ok_bind, hhash, expect, beq_self_eq_true,
    require_bind_eq_ok, true_and, hdid, decodeDidKey_asDid, hsig, signText, b64uDecode_b64uEncode,
    H.sign_length, Bool.and_self, require_eq_ok, H.verify_sign]

end NthDao
