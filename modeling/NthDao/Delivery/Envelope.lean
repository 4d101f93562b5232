/-
  Transport envelopes (`nth_dao/delivery/envelope.py`).

  A message travels as one signed envelope.  The fields of an envelope are
  arbitrary values until `validateEnvelope` has passed; `None` is `null`.

  * `toDict`, `signingBody`, `contentBody`: the wire object, what the author
    signs and what the message id hashes; the hop counter is in neither;
  * `validateEnvelope` is `validate_envelope`, with the text of its rejection;
  * `envelopeDigest` is `envelope_digest`;
  * `fromDict_toDict`, `validateEnvelope_norm`: an envelope read back from its
    canonical JSON is the envelope with sorted keys, and as valid.
-/
import NthDao.CanonicalText
import NthDao.Identity
import NthDao.Py.Check
import NthDao.Py.Str

namespace NthDao

namespace Delivery

open Py

variable (H : Host)

/-! ## Constants -/

def envelopeProtocol : String := "nth-transport-envelope"
def envelopeVersion : ℤ := 1
def maxSafeInteger : ℤ := 9007199254740991
def maxPayloadBytes : ℕ := 256 * 1024
def maxEnvelopeBytes : ℕ := 512 * 1024
def maxPayloadDepth : ℕ := 16
def maxTtlMs : ℤ := 7 * 24 * 60 * 60 * 1000
def maxClockSkewMs : ℤ := 5 * 60 * 1000
def maxHopLimit : ℤ := 16

/-- `_BASE_FIELDS`. -/
def baseFields : List String :=
  ["protocol", "version", "message_id", "kind", "sender_did", "recipient", "created_at_ms",
    "expires_at_ms", "nonce", "payload_hash", "payload", "routing", "signature"]

/-! ## Texts -/

/-- `[a-z0-9]`. -/
def isLowerAlnum (c : Char) : Bool := ('a' ≤ c && c ≤ 'z') || ('0' ≤ c && c ≤ '9')

/-- `[A-Za-z0-9]`. -/
def isAsciiAlnum (c : Char) : Bool := isLowerAlnum c || ('A' ≤ c && c ≤ 'Z')

/-- `[._-]`. -/
def isPunct (c : Char) : Bool := c == '.' || c == '_' || c == '-'

/-- `^a(?:[a._-]{0,126}a)?$` for the class `a`. -/
def isLabel (a : Char → Bool) (cs : List Char) : Bool :=
  1 ≤ cs.length && cs.length ≤ 128 && cs.all (fun c => a c || isPunct c) && cs.head?.any a &&
    cs.getLast?.any a

/-- `".." in s`. -/
def hasDots : List Char → Bool
  | [] => false
  | c :: cs => (c == '.' && cs.head? == some '.') || hasDots cs

/-- `^sha256:[0-9a-f]{64}$`. -/
def isDigest (s : String) : Bool :=
  startsWith "sha256:" s && isHex 64 ((chars s).drop 7)

/-- `"sha256:" + hashlib.sha256(b).hexdigest()`. -/
def digest (b : Bytes) : String := "sha256:" ++ H.sha256 b

/-! ## Envelopes -/

/-- `TransportEnvelope`. -/
structure TransportEnvelope where
  messageId : Json
  kind : Json
  senderDid : Json
  recipient : Json
  createdAtMs : Json
  expiresAtMs : Json
  nonce : Json
  payloadHash : Json
  payload : Json
  routing : Json
  signature : Json := .str ""
  protocol : Json := .str envelopeProtocol
  version : Json := .int envelopeVersion
  daoId : Json := .null
  deriving DecidableEq

namespace TransportEnvelope

variable (e : TransportEnvelope)

/-- `asdict`. -/
def asdict : Fields :=
  [("message_id", e.messageId), ("kind", e.kind), ("sender_did", e.senderDid),
    ("recipient", e.recipient), ("created_at_ms", e.createdAtMs),
    ("expires_at_ms", e.expiresAtMs), ("nonce", e.nonce), ("payload_hash", e.payloadHash),
    ("payload", e.payload), ("routing", e.routing), ("signature", e.signature),
    ("protocol", e.protocol), ("version", e.version), ("dao_id", e.daoId)]

/-- `to_dict`: without the fields that are `None`. -/
def toDict : Fields := e.asdict.filter fun p => p.2 != .null

/-- A routing object without its hop counter. -/
def authorRouting (routing : Json) : Json := .obj (routing.fields.filter fun p => p.1 != "hop_count")

/-- `signing_body`, of an envelope whose routing is an object. -/
def signingBody : Fields :=
  let body := e.toDict.filter fun p => p.1 != "signature"
  Json.insert body "routing" (authorRouting (Json.get body "routing"))

/-- `content_body`. -/
def contentBody : Fields := e.signingBody.filter fun p => p.1 != "message_id"

/-- `from_dict`. -/
def fromDict (value : Json) : Except String TransportEnvelope := do
  require value.isObj "envelope must be a JSON object"
  let d := value.fields
  require (Json.keysEq d ("dao_id" :: baseFields) || Json.keysEq d baseFields)
    "envelope has missing or unknown fields"
  return { messageId := Json.get d "message_id", kind := Json.get d "kind",
           senderDid := Json.get d "sender_did", recipient := Json.get d "recipient",
           createdAtMs := Json.get d "created_at_ms", expiresAtMs := Json.get d "expires_at_ms",
           nonce := Json.get d "nonce", payloadHash := Json.get d "payload_hash",
           payload := Json.get d "payload", routing := Json.get d "routing",
           signature := Json.get d "signature", protocol := Json.get d "protocol",
           version := Json.get d "version", daoId := Json.get d "dao_id" }

/-- The fields of an envelope are values of the interpreter. -/
def wf : Bool := (Json.obj e.asdict).wf

end TransportEnvelope

/-! ## Validation -/

/-- `_check_safe_int`. -/
def checkSafeInt (value : Json) (path : String) : Except String ℤ := do
  let n ← expect value.asInt (path ++ " must be an integer")
  require (-maxSafeInteger ≤ n && n ≤ maxSafeInteger) (path ++ " exceeds the safe integer range")
  return n

mutual
/-- `_check_payload_shape`.  A text with a lone surrogate passes in the source
    and is refused by the encoder next. -/
def checkPayloadShape : Json → ℕ → Except String Unit
  | .arr xs, depth => do
    require (depth ≤ maxPayloadDepth) "payload nesting exceeds the depth limit"
    checkPayloadList xs (depth + 1)
  | .obj kvs, depth => do
    require (depth ≤ maxPayloadDepth) "payload nesting exceeds the depth limit"
    checkPayloadFields kvs (depth + 1)
  | .int n, depth => do
    require (depth ≤ maxPayloadDepth) "payload nesting exceeds the depth limit"
    require (-maxSafeInteger ≤ n && n ≤ maxSafeInteger) "payload integer exceeds safe range"
  | .other _, depth => do
    require (depth ≤ maxPayloadDepth) "payload nesting exceeds the depth limit"
    .error ("unsupported payload value at depth " ++ toString depth)
  | _, depth => require (depth ≤ maxPayloadDepth) "payload nesting exceeds the depth limit"
def checkPayloadList : List Json → ℕ → Except String Unit
  | [], _ => .ok ()
  | x :: xs, depth => checkPayloadShape x depth >>= fun _ => checkPayloadList xs depth
def checkPayloadFields : Fields → ℕ → Except String Unit
  | [], _ => .ok ()
  | (k, x) :: kvs, depth => do
    require (k != "") "payload object keys must be strings"
    checkPayloadShape x depth
    checkPayloadFields kvs depth
end

/-- `_local_id`. -/
def localId (value : Json) (what : String) (maximum : ℕ) : Except String Unit := do
  let s ← expect value.asStr (what ++ " is invalid")
  let cs := chars s
  require (!cs.isEmpty && cs.length ≤ maximum && isLabel isAsciiAlnum cs && !hasDots cs)
    (what ++ " is invalid")

/-- The part of `s` after the scheme `p`. -/
def afterScheme (p s : String) : Json := .str (String.ofList ((chars s).drop (len p)))

/-- `_validate_recipient`. -/
def validateRecipient (recipient : Json) : Except String Unit := do
  let s ← expect recipient.asStr "recipient is invalid"
  require (1 ≤ len s && len s ≤ 256) "recipient is invalid"
  if startsWith "did:key:" s then require (decodeDidKey s).isSome "recipient DID is invalid"
  else if startsWith "dao:" s then localId (afterScheme "dao:" s) "dao recipient" 200
  else if startsWith "channel:" s then localId (afterScheme "channel:" s) "channel recipient" 200
  else .error "recipient must be did:key:, dao:<id>, or channel:<id>"

/-- The check of `reply_to`, when it is there. -/
def validateReplyTo : Option Json → Except String Unit
  | none => .ok ()
  | some replyTo => do
    let s ← expect replyTo.asStr "routing.reply_to must be a non-empty string"
    require (s != "") "routing.reply_to must be a non-empty string"
    (validateRecipient replyTo).mapError ("routing.reply_to is invalid: " ++ ·)

/-- `_validate_routing`. -/
def validateRouting (routing : Json) : Except String Unit := do
  require routing.isObj "routing must be an object"
  let d := routing.fields
  require (d.all fun p => ["hop_limit", "hop_count", "reply_to"].contains p.1)
    "routing has unknown fields"
  let limit ← expect (Json.lookup d "hop_limit") "routing requires hop_limit and hop_count"
  let count ← expect (Json.lookup d "hop_count") "routing requires hop_limit and hop_count"
  let limit ← checkSafeInt limit "routing.hop_limit"
  let count ← checkSafeInt count "routing.hop_count"
  require (0 ≤ limit && limit ≤ maxHopLimit) "routing.hop_limit must be 0..16"
  require (0 ≤ count && count ≤ limit) "routing.hop_count must be 0..hop_limit"
  validateReplyTo (Json.lookup d "reply_to")

/-- The checks of freshness at `now_ms`. -/
def checkFresh (created expires : ℤ) : Option ℤ → Except String Unit
  | none => .ok ()
  | some now => do
    require (-maxSafeInteger ≤ now && now ≤ maxSafeInteger) "now_ms exceeds the safe integer range"
    require (created ≤ now + maxClockSkewMs) "envelope created in the future beyond clock skew"
    require (now < expires) "envelope expired"

/-- The checks of the validity period; its bounds. -/
def checkPeriod (e : TransportEnvelope) (nowMs : Option ℤ) : Except String (ℤ × ℤ) := do
  let created ← checkSafeInt e.createdAtMs "created_at_ms"
  require (0 < created) "created_at_ms must be positive"
  let expires ← checkSafeInt e.expiresAtMs "expires_at_ms"
  require (created < expires) "expires_at_ms must be after created_at_ms"
  require (expires - created ≤ maxTtlMs) "envelope TTL exceeds the maximum"
  checkFresh created expires nowMs
  return (created, expires)

/-- The checks of the payload. -/
def checkPayload (e : TransportEnvelope) : Except String Unit := do
  require e.payload.isObj "payload must be an object"
  checkPayloadShape e.payload 0
  let encoded ← expect (canonicalJson e.payload) "payload is not canonical JSON"
  require (encoded.length ≤ maxPayloadBytes) "envelope payload too large"
  require (e.payloadHash.eqStr (digest H encoded)) "payload hash does not match payload"

/-- The checks of the signature. -/
def checkSignature (e : TransportEnvelope) : Except String Unit := do
  let signature ← expect e.signature.asStr "envelope signature missing"
  require (signature != "") "envelope signature missing"
  let sender ← expect e.senderDid.asStr "envelope signature verification failed"
  let body ← expect (canonicalJson (.obj e.signingBody)) "envelope signature verification failed"
  require (verifySig H sender body signature) "envelope signature verification failed"

/-- The checks of the head of an envelope: everything before its period. -/
def checkHead (e : TransportEnvelope) : Except String Unit := do
  require (e.protocol.eqStr envelopeProtocol) "wrong envelope protocol"
  require (e.version.asInt == some envelopeVersion) "unsupported envelope version"
  require (Json.keysEq e.toDict ("dao_id" :: baseFields) || Json.keysEq e.toDict baseFields)
    "envelope has missing or unknown fields"
  let kind ← expect e.kind.asStr "envelope kind is invalid"
  require (isLabel isLowerAlnum (chars kind) && !hasDots (chars kind)) "envelope kind is invalid"
  let sender ← expect e.senderDid.asStr "invalid sender DID"
  require (isDidKey sender) "invalid sender DID"
  validateRecipient e.recipient
  if e.daoId = .null then .ok () else localId e.daoId "dao_id" 128

/-- The check of the nonce. -/
def checkNonce (e : TransportEnvelope) : Except String Unit := do
  let nonce ← expect e.nonce.asStr "nonce must be 16..128 alphanumeric characters"
  require (16 ≤ len nonce && len nonce ≤ 128 && (chars nonce).all isAsciiAlnum)
    "nonce must be 16..128 alphanumeric characters"

/-- `_content_address`. -/
def contentAddress (e : TransportEnvelope) : Option String :=
  (canonicalJson (.obj e.contentBody)).map (digest H)

/-- `validate_envelope`. -/
def validateEnvelope (e : TransportEnvelope) (nowMs : Option ℤ) (requireSignature : Bool) :
    Except String Unit := do
  checkHead e
  let _ ← checkPeriod e nowMs
  checkNonce e
  checkPayload H e
  validateRouting e.routing
  let expectedId ← expect (contentAddress H e) "content body is not canonical JSON"
  require (e.messageId.eqStr expectedId) "message id does not match envelope content"
  let wire ← expect (canonicalJson (.obj e.toDict)) "envelope is not canonical JSON"
  require (wire.length ≤ maxEnvelopeBytes) "envelope exceeds the wire byte limit"
  if requireSignature then checkSignature H e else .ok ()

/-- `envelope_digest` of a wire object. -/
def envelopeDigest (wire : Fields) : Option String := (canonicalJson (.obj wire)).map (digest H)

/-- What an author chooses of an envelope. -/
structure Draft where
  kind : String
  recipient : String
  payload : Json
  createdAtMs : ℤ
  expiresAtMs : ℤ
  daoId : Json := .null
  replyTo : String := ""
  hopLimit : ℤ := 0
  nonce : String

/-- The envelope of a draft before it has an id and a signature. -/
def Draft.envelope (d : Draft) (sender payloadHash : String) : TransportEnvelope :=
  { messageId := .str "", kind := .str d.kind, senderDid := .str sender, recipient := .str d.recipient,
    daoId := d.daoId, createdAtMs := .int d.createdAtMs, expiresAtMs := .int d.expiresAtMs,
    nonce := .str d.nonce, payloadHash := .str payloadHash, payload := d.payload,
    routing := .obj ([("hop_limit", .int d.hopLimit), ("hop_count", .int 0)] ++
      if d.replyTo = "" then [] else [("reply_to", .str d.replyTo)]) }

/-- `sign_envelope`, with the nonce that `new_nonce` returned. -/
def signEnvelope (k : H.SecretKey) (d : Draft) : Except String TransportEnvelope := do
  require d.payload.isObj "payload must be an object"
  let encoded ← expect (canonicalJson d.payload) "payload is not canonical JSON"
  let e := d.envelope (asDid H k) (digest H encoded)
  let id ← expect (contentAddress H e) "content body is not canonical JSON"
  let e := { e with messageId := .str id }
  validateEnvelope H e none false
  let body ← expect (canonicalJson (.obj e.signingBody)) "envelope is not canonical JSON"
  let e := { e with signature := .str (signText H k body) }
  validateEnvelope H e none true
  return e

/-! ## Envelopes with sorted keys -/

namespace TransportEnvelope

variable (e : TransportEnvelope)

/-- The envelope with the keys of its fields sorted. -/
def norm : TransportEnvelope :=
  { messageId := e.messageId.norm, kind := e.kind.norm, senderDid := e.senderDid.norm,
    recipient := e.recipient.norm, createdAtMs := e.createdAtMs.norm,
    expiresAtMs := e.expiresAtMs.norm, nonce := e.nonce.norm, payloadHash := e.payloadHash.norm,
    payload := e.payload.norm, routing := e.routing.norm, signature := e.signature.norm,
    protocol := e.protocol.norm, version := e.version.norm, daoId := e.daoId.norm }

theorem asdict_norm : e.norm.asdict = e.asdict.map Json.normItem := rfl

theorem nodup_asdict : (e.asdict.map Prod.fst).Nodup := by
  change (["message_id", "kind", "sender_did", "recipient", "created_at_ms", "expires_at_ms",
    "nonce", "payload_hash", "payload", "routing", "signature", "protocol", "version",
    "dao_id"] : List String).Nodup
  decide

theorem nodup_toDict : (e.toDict.map Prod.fst).Nodup := Json.nodup_filter e.nodup_asdict _

theorem wf_toDict (h : e.wf = true) : (Json.obj e.toDict).wf = true := by
  rw [wf, Json.wf_obj] at h
  rw [Json.wf_obj]
  exact ⟨e.nodup_toDict, fun p hp => h.2 p (List.mem_of_mem_filter hp)⟩

theorem get_toDict (k : String) : Json.get e.toDict k = Json.get e.asdict k :=
  Json.get_filter_null e.nodup_asdict k

theorem wf_routing (h : e.wf = true) : e.routing.wf = true := by
  rw [wf, Json.wf_obj] at h
  exact h.2 ("routing", e.routing) (by simp [asdict])

theorem toDict_norm : e.norm.toDict = e.toDict.map Json.normItem := by
  rw [toDict, asdict_norm, List.filter_map, toDict]
  congr 1
  refine List.filter_congr fun p _ => ?_
  rw [Function.comp_apply, Json.normItem, Bool.eq_iff_iff, bne_iff_ne, bne_iff_ne, ne_eq, ne_eq,
    Json.norm_eq_null]

/-- The wire object of the sorted envelope is the same object. -/
theorem norm_toDict : (Json.obj e.norm.toDict).norm = (Json.obj e.toDict).norm := by
  rw [toDict_norm]
  exact Json.norm_obj_of_map (Json.map_normItem_idem _)

theorem authorRouting_norm {routing : Json} (h : routing.wf = true) :
    (authorRouting routing.norm).norm = (authorRouting routing).norm := by
  cases routing with
  | obj kvs =>
    rw [Json.wf_obj] at h
    rw [authorRouting, authorRouting, Json.fields_obj]
    have hp := Json.norm_fields_perm kvs
    refine (Json.norm_obj_of_perm (Json.nodup_filter h.1 _) ?_).symm
    rw [Json.map_normItem_filter_key kvs fun k => k != "hop_count",
      Json.map_normItem_filter_key _ fun k => k != "hop_count"]
    refine List.Perm.filter _ ?_
    have := hp.map Json.normItem
    rw [Json.map_normItem_idem] at this
    exact this.symm
  | _ => rfl

theorem get_routing :
    Json.get (e.toDict.filter fun p => p.1 != "signature") "routing" = e.routing := by
  rw [Json.get, Json.lookup_filter_key e.toDict (fun k => k != "signature"), if_pos (by decide),
    ← Json.get, get_toDict]
  rfl

theorem map_signingBody (h : e.wf = true) :
    e.norm.signingBody.map Json.normItem = e.signingBody.map Json.normItem := by
  have hb : e.norm.toDict.filter (fun p => p.1 != "signature") =
      (e.toDict.filter fun p => p.1 != "signature").map Json.normItem := by
    rw [toDict_norm, Json.map_normItem_filter_key _ fun k => k != "signature"]
  rw [signingBody, signingBody, hb, Json.get_map_normItem, get_routing, Json.map_normItem_insert,
    Json.map_normItem_insert, Json.map_normItem_idem, authorRouting_norm (e.wf_routing h)]

/-- The signed body of the sorted envelope is the same object. -/
theorem norm_signingBody (h : e.wf = true) :
    (Json.obj e.norm.signingBody).norm = (Json.obj e.signingBody).norm :=
  Json.norm_obj_of_map (e.map_signingBody h)

theorem norm_contentBody (h : e.wf = true) :
    (Json.obj e.norm.contentBody).norm = (Json.obj e.contentBody).norm := by
  refine Json.norm_obj_of_map ?_
  rw [contentBody, contentBody, Json.map_normItem_filter_key _ fun k => k != "message_id",
    Json.map_normItem_filter_key _ fun k => k != "message_id", e.map_signingBody h]

/-- **An envelope is read back** from its wire object. -/
theorem fromDict_toDict (h : Json.keysEq e.toDict ("dao_id" :: baseFields) = true ∨
    Json.keysEq e.toDict baseFields = true) :
    fromDict (Json.obj e.toDict).norm = .ok e.norm := by
  have hget : ∀ k, Json.get (Json.obj e.toDict).norm.fields k = (Json.get e.asdict k).norm := by
    intro k
    rw [Json.get_norm e.nodup_toDict, get_toDict]
  have hk : (Json.keysEq e.toDict ("dao_id" :: baseFields) || Json.keysEq e.toDict baseFields) =
      true := by rwa [Bool.or_eq_true]
  simp only [fromDict, hget, Json.isObj_norm, Json.keysEq_norm, hk]
  rfl

end TransportEnvelope

/-! ## Validity of sorted envelopes -/

theorem checkPayloadList_eq_ok {xs : List Json} {d : ℕ} :
    checkPayloadList xs d = .ok () ↔ ∀ x ∈ xs, checkPayloadShape x d = .ok () := by
  induction xs with
  | nil => simp [checkPayloadList]
  | cons x xs ih => rw [checkPayloadList, unit_bind_eq_ok, ih, List.forall_mem_cons]

theorem checkPayloadFields_eq_ok {kvs : Fields} {d : ℕ} : checkPayloadFields kvs d = .ok () ↔
    ∀ p ∈ kvs, p.1 ≠ "" ∧ checkPayloadShape p.2 d = .ok () := by
  induction kvs with
  | nil => simp [checkPayloadFields]
  | cons p kvs ih =>
    obtain ⟨k, x⟩ := p
    rw [checkPayloadFields, require_bind_eq_ok, unit_bind_eq_ok, ih, List.forall_mem_cons, bne_iff_ne,
      and_assoc]

theorem checkPayloadShape_norm (j : Json) (d : ℕ) (h : checkPayloadShape j d = .ok ()) :
    checkPayloadShape j.norm d = .ok () := by
  induction j using Json.ind generalizing d with
  | arr xs ih =>
    rw [checkPayloadShape, require_bind_eq_ok, checkPayloadList_eq_ok] at h
    rw [Json.norm_arr, checkPayloadShape, require_bind_eq_ok, checkPayloadList_eq_ok]
    refine ⟨h.1, fun x hx => ?_⟩
    obtain ⟨y, hy, rfl⟩ := List.mem_map.1 hx
    exact ih y hy _ (h.2 y hy)
  | obj kvs ih =>
    rw [checkPayloadShape, require_bind_eq_ok, checkPayloadFields_eq_ok] at h
    rw [Json.norm_obj_eq, checkPayloadShape, require_bind_eq_ok, checkPayloadFields_eq_ok]
    refine ⟨h.1, fun p hp => ?_⟩
    rw [(List.perm_insertionSort Json.keyLe _).mem_iff] at hp
    obtain ⟨q, hq, rfl⟩ := List.mem_map.1 hp
    exact ⟨(h.2 q hq).1, ih q hq _ (h.2 q hq).2⟩
  | _ => exact h

theorem checkSafeInt_norm (j : Json) (path : String) :
    checkSafeInt j.norm path = checkSafeInt j path := by
  rw [checkSafeInt, Json.asInt_norm, checkSafeInt]

theorem localId_norm (j : Json) (what : String) (maximum : ℕ) :
    localId j.norm what maximum = localId j what maximum := by
  rw [localId, Json.asStr_norm, localId]

theorem validateRecipient_norm (j : Json) : validateRecipient j.norm = validateRecipient j := by
  rw [validateRecipient, Json.asStr_norm, validateRecipient]

theorem validateReplyTo_norm (o : Option Json) :
    validateReplyTo (o.map Json.norm) = validateReplyTo o := by
  cases o with
  | none => rfl
  | some j => rw [Option.map_some, validateReplyTo, Json.asStr_norm, validateRecipient_norm,
      validateReplyTo]

theorem validateRouting_norm {routing : Json} (hw : routing.wf = true)
    (h : validateRouting routing = .ok ()) : validateRouting routing.norm = .ok () := by
  simp only [validateRouting, bind_eq_ok, require_eq_ok, expect_eq_ok] at h ⊢
  obtain ⟨_, hobj, _, hall, l, hl, c, hc, limit, hlimit, count, hcount, _, h₁, _, h₂, h₃⟩ := h
  obtain ⟨kvs, rfl⟩ : ∃ kvs, routing = .obj kvs := ⟨_, Json.eq_obj_of_isObj hobj⟩
  rw [Json.wf_obj] at hw
  rw [Json.fields_obj] at hall hl hc h₃
  refine ⟨(), by rwa [Json.isObj_norm], (), ?_, l.norm, ?_, c.norm, ?_, limit, ?_, count, ?_, (), h₁,
    (), h₂, ?_⟩
  · rw [List.all_eq_true] at hall ⊢
    intro p hp
    obtain ⟨q, hq, rfl⟩ := List.mem_map.1 ((Json.norm_fields_perm kvs).mem_iff.1 hp)
    exact hall q hq
  · rw [Json.lookup_norm hw.1, hl]; rfl
  · rw [Json.lookup_norm hw.1, hc]; rfl
  · rwa [checkSafeInt_norm]
  · rwa [checkSafeInt_norm]
  · rwa [Json.lookup_norm hw.1, validateReplyTo_norm]

theorem checkHead_norm {e : TransportEnvelope} (h : checkHead e = .ok ()) :
    checkHead e.norm = .ok () := by
  have hk : ∀ fs, Json.keysEq e.norm.toDict fs = Json.keysEq e.toDict fs := fun fs =>
    Json.keysEq_of_perm (by rw [e.toDict_norm, Json.map_fst_normItem]) fs
  simp only [checkHead, bind_eq_ok, require_eq_ok, expect_eq_ok] at h ⊢
  obtain ⟨_, h₁, _, h₂, _, h₃, kind, h₄, _, h₅, sender, h₆, _, h₇, _, h₈, h₉⟩ := h
  refine ⟨(), ?_, (), ?_, (), ?_, kind, ?_, (), h₅, sender, ?_, (), h₇, (), ?_, ?_⟩
  · rw [TransportEnvelope.norm, Json.eqStr_norm]; exact h₁
  · rw [TransportEnvelope.norm, Json.asInt_norm]; exact h₂
  · rw [hk, hk]; exact h₃
  · rw [TransportEnvelope.norm, Json.asStr_norm]; exact h₄
  · rw [TransportEnvelope.norm, Json.asStr_norm]; exact h₆
  · rw [TransportEnvelope.norm, validateRecipient_norm]; exact h₈
  · rw [TransportEnvelope.norm, localId_norm]; simpa using h₉

theorem checkPeriod_norm (e : TransportEnvelope) (nowMs : Option ℤ) :
    checkPeriod e.norm nowMs = checkPeriod e nowMs := by
  rw [checkPeriod, TransportEnvelope.norm, checkSafeInt_norm, checkSafeInt_norm, checkPeriod]

theorem checkNonce_norm (e : TransportEnvelope) : checkNonce e.norm = checkNonce e := by
  rw [checkNonce, TransportEnvelope.norm, Json.asStr_norm, checkNonce]

theorem checkPayload_norm {e : TransportEnvelope} (h : checkPayload H e = .ok ()) :
    checkPayload H e.norm = .ok () := by
  simp only [checkPayload, bind_eq_ok, require_eq_ok, expect_eq_ok] at h ⊢
  obtain ⟨_, h₁, _, h₂, b, h₃, _, h₄, h₅⟩ := h
  refine ⟨(), ?_, (), checkPayloadShape_norm _ _ h₂, b, ?_, (), h₄, ?_⟩
  · rw [TransportEnvelope.norm, Json.isObj_norm]; exact h₁
  · rw [TransportEnvelope.norm, canonicalJson_norm]; exact h₃
  · rw [TransportEnvelope.norm, Json.eqStr_norm]; exact h₅

theorem checkSignature_norm {e : TransportEnvelope} (hw : e.wf = true) :
    checkSignature H e.norm = checkSignature H e := by
  rw [checkSignature, canonicalJson_congr rfl rfl (e.norm_signingBody hw), TransportEnvelope.norm,
    Json.asStr_norm, Json.asStr_norm, checkSignature]

theorem contentAddress_norm {e : TransportEnvelope} (hw : e.wf = true) :
    contentAddress H e.norm = contentAddress H e := by
  rw [contentAddress, canonicalJson_congr rfl rfl (e.norm_contentBody hw), contentAddress]

/-- **The envelope read back is as valid** as the one written. -/
theorem validateEnvelope_norm {e : TransportEnvelope} (hw : e.wf = true) {nowMs : Option ℤ} {b : Bool}
    (h : validateEnvelope H e nowMs b = .ok ()) : validateEnvelope H e.norm nowMs b = .ok () := by
  simp only [validateEnvelope, bind_eq_ok, require_eq_ok, expect_eq_ok] at h ⊢
  obtain ⟨_, h₁, p, h₂, _, h₃, _, h₄, _, h₅, i, h₆, _, h₇, w, h₈, _, h₉, h₁₀⟩ := h
  refine ⟨(), checkHead_norm h₁, p, ?_, (), ?_, (), checkPayload_norm H h₄, (),
    validateRouting_norm (e.wf_routing hw) h₅, i, ?_, (), ?_, w, ?_, (), h₉, ?_⟩
  · rwa [checkPeriod_norm]
  · rwa [checkNonce_norm]
  · rwa [contentAddress_norm H hw]
  · rw [TransportEnvelope.norm, Json.eqStr_norm]; exact h₇
  · rwa [canonicalJson_congr rfl rfl e.norm_toDict]
  · rwa [checkSignature_norm H hw]

/-- A fresh envelope is valid without a clock. -/
theorem validateEnvelope_none {e : TransportEnvelope} {nowMs : Option ℤ} {b : Bool}
    (h : validateEnvelope H e nowMs b = .ok ()) : validateEnvelope H e none b = .ok () := by
  simp only [validateEnvelope, checkPeriod, bind_eq_ok, require_eq_ok, expect_eq_ok] at h ⊢
  obtain ⟨_, h₁, p, ⟨c, hc, _, hc₀, x, hx, _, hx₀, _, httl, _, -, hp⟩, h⟩ := h
  exact ⟨(), h₁, p, ⟨c, hc, (), hc₀, x, hx, (), hx₀, (), httl, (), rfl, hp⟩, h⟩

/-- A valid envelope is valid while it is fresh. -/
theorem validateEnvelope_some {e : TransportEnvelope} {b : Bool}
    (h : validateEnvelope H e none b = .ok ()) {created expires now : ℤ}
    (hc : e.createdAtMs = .int created) (hx : e.expiresAtMs = .int expires)
    (hfresh : checkFresh created expires (some now) = .ok ()) :
    validateEnvelope H e (some now) b = .ok () := by
  simp only [validateEnvelope, checkPeriod, checkSafeInt, hc, hx, Json.asInt, bind_eq_ok,
    require_eq_ok, expect_eq_ok, pure_eq_ok, Option.some.injEq] at h ⊢
  obtain ⟨_, h₁, p, ⟨c, ⟨_, rfl, _, hcr, rfl⟩, _, hc₀, x, ⟨_, rfl, _, hxr, rfl⟩, _, hx₀, _, httl, _, -,
    hp⟩, h⟩ := h
  exact ⟨(), h₁, p, ⟨_, ⟨_, rfl, (), hcr, rfl⟩, (), hc₀, _, ⟨_, rfl, (), hxr, rfl⟩, (), hx₀, (), httl,
    (), hfresh, hp⟩, h⟩

end Delivery

end NthDao
