/-
  Signed acceptances of reviewed drafts (`nth_dao/plugins/intent_envelope.py`).

  * `snapshot`: a copy of a document that is checked against a closed schema;
  * `verifiedDocument`: the checks on an envelope that need nothing but the envelope;
  * `Context`: what the host expects of it;
  * `verifyIntentEnvelope`: whether an envelope is the one that is expected, at a time;
  * `verifiedDocument_idem`: the copy that is made passes as it is.

  The checks on the draft (`canonical_intent_draft`, `intent_resolver_request_digest`) and
  on curve points are parameters.
-/
import NthDao.CanonicalText
import NthDao.CapToken
import NthDao.Plugins.MarketEntry
import NthDao.Py.Hex
import NthDao.Py.Parsed

namespace NthDao

namespace Plugins

open Py MarketIndex

/-- What an envelope is checked with. -/
structure IntentHost extends Host where
  /-- `is_prime_order_ed25519_point` -/
  isPrimeOrder : Bytes → Bool
  /-- the document of `canonical_intent_draft`, `none` where it raises -/
  canonicalIntentDraft : String → Option Fields
  /-- `intent_resolver_request_digest`, `none` where it raises -/
  requestDigest : Fields → Option String

variable (V : IntentHost)

/-! ## Schemas -/

def intentMaxDraftBytes : ℕ := 131072
def intentMaxTtlMs : ℤ := 86400000
def intentMaxDocumentBytes : ℕ := 262144

def safeInteger (minimum : ℤ) : Schema := .integer minimum maxSafeInteger

/-- `_BODY_PROPERTIES`; that the two flags are false is in `flagsFalse`. -/
def bodyProperties : List (String × Schema) :=
  [("format", .choice ["org.nth-dao.intent-envelope"]),
    ("version", .choice ["1"]),
    ("purpose", .choice ["draft-acceptance"]),
    ("authority", .choice ["none"]),
    ("commit_authority", .boolean),
    ("executable", .boolean),
    ("draft_json", .string 0 intentMaxDraftBytes),
    ("draft_digest", .string 71 71),
    ("signer_did", .string 1 128),
    ("audience_did", .string 1 128),
    ("scope_id", .string 1 256),
    ("solver_classes", .array 1 16 (.string 1 256)),
    ("automation_ceiling", .choice ["A0", "A1"]),
    ("issued_at_ms", safeInteger 0),
    ("expires_at_ms", safeInteger 0),
    ("nonce", .string 32 32),
    ("revision", safeInteger 1),
    ("previous_digest", .string 0 71)]

/-- `INTENT_ENVELOPE_SCHEMA`. -/
def envelopeProperties : List (String × Schema) := bodyProperties ++ [("signature", .string 128 128)]

def flagsFalse (d : Fields) : Bool :=
  Json.get d "commit_authority" == .bool false && Json.get d "executable" == .bool false

/-- `_check_envelope_shape`. -/
def checkShape (properties : List (String × Schema)) (v : Json) : Except String Unit := do
  require (v.isObj && v.fields.length == properties.length)
    "envelope must contain exactly the required fields"
  require (v.fields.all fun p => (properties.map Prod.fst).contains p.1)
    "envelope contains an unknown field"

def invalidEnvelope : String := "invalid intent envelope structure or JSON encoding"

def checkInstance (properties : List (String × Schema)) (v : Json) : Except String Unit :=
  require (validateInstance (.object properties (properties.map Prod.fst)) v && flagsFalse v.fields)
    invalidEnvelope

/-- `_snapshot`. -/
def snapshot (properties : List (String × Schema)) (v : Json) : Except String Fields := do
  checkShape properties v
  checkInstance properties v
  let encoded ← expect (canonicalText v.fields) invalidEnvelope
  require ((utf8 (chars encoded)).length ≤ intentMaxDocumentBytes)
    "envelope exceeds the UTF-8 byte limit"
  let document ← expect (loads (chars encoded)) invalidEnvelope
  checkShape properties document
  checkInstance properties document
  return document.fields

/-! ## Values -/

def textOf (d : Fields) (k : String) : String := (Json.get d k).asStr.getD ""
def numberOf (d : Fields) (k : String) : ℤ := (Json.get d k).asInt.getD 0

/-- The texts of a list. -/
def textsOf (d : Fields) (k : String) : List String :=
  match Json.get d k with
  | .arr xs => xs.filterMap Json.asStr
  | _ => []

/-- `_did`. -/
def isBoundedDid (s : String) : Bool :=
  decide (1 ≤ len s) && decide (len s ≤ 128) && (decodeDidKey s).any fun pk => encodeDidKey pk == s

/-- `_ID_RE`. -/
def isExactId (s : String) : Bool :=
  decide ((chars s).length ≤ 256) &&
    (chars s).head?.any (fun c => isUpper c || isLower c || isDigit c) &&
    (chars s).all fun c => isUpper c || isLower c || isDigit c || ['.', '_', ':', '/', '-'].contains c

/-- `_solver_classes`. -/
def areSolverClasses (xs : List String) : Bool :=
  decide (1 ≤ xs.length) && decide (xs.length ≤ 16) && xs.all isExactId &&
    xs == CapToken.sortedSet xs

/-- `_lineage`. -/
def isLineage (revision : ℤ) (previousDigest : String) : Bool :=
  decide (1 ≤ revision) && decide (revision ≤ maxSafeInteger) &&
    if revision = 1 then previousDigest == "" else isSha256 previousDigest

/-- `_LEVELS.index`. -/
def level (s : String) : ℕ := ["A0", "A1", "A2", "A3", "A4"].idxOf s

/-- `"sha256:" + hashlib.sha256(b).hexdigest()`. -/
def contentHash (H : Host) (b : Bytes) : String := "sha256:" ++ H.sha256 b

/-! ## Envelopes -/

/-- `_REQUEST_FIELDS`. -/
def requestFields : List String :=
  ["attachments", "automation_ceiling", "locale", "request_id", "source_kind", "source_text"]

/-- The checks of a body on its draft. -/
def checkDraft (body : Fields) : Except String Unit := do
  let draft ← expect (V.canonicalIntentDraft (textOf body "draft_json"))
    "invalid accepted draft JSON, schema or canonical encoding"
  let request := (requestFields.map fun k => (k, Json.get draft k)) ++ [("operation", .str "resolve")]
  let requestDigest ← expect (V.requestDigest request) "invalid request"
  require ((Json.get draft "request_digest").eqStr requestDigest)
    "draft does not bind its exact source request"
  require (textOf body "draft_digest" == contentHash V.toHost (utf8 (chars (textOf body "draft_json"))))
    "draft_digest does not bind the accepted draft"
  require (!truthy (Json.get draft "clarifications") && truthy (Json.get draft "outcomes"))
    "acceptance requires outcomes and no open clarifications"
  require (level (textOf body "automation_ceiling") ≤ level (textOf draft "automation_ceiling"))
    "acceptance cannot raise the draft automation ceiling"

/-- `_validated_body`. -/
def validatedBody (v : Json) : Except String Fields := do
  let body ← snapshot bodyProperties v
  require (isBoundedDid (textOf body "signer_did")) "signer_did must be an Ed25519 did:key"
  require (isBoundedDid (textOf body "audience_did")) "audience_did must be an Ed25519 did:key"
  require (isExactId (textOf body "scope_id")) "scope_id must be a bounded, exact identifier"
  require (areSolverClasses (textsOf body "solver_classes")) "solver_classes must be sorted and unique"
  require (isLineage (numberOf body "revision") (textOf body "previous_digest"))
    "revision must bind a predecessor except at genesis"
  require (isHex 32 (chars (textOf body "nonce"))) "nonce must be 16 bytes in lowercase hex"
  let ttl := numberOf body "expires_at_ms" - numberOf body "issued_at_ms"
  require (0 < ttl && ttl ≤ intentMaxTtlMs) "envelope TTL must be positive and at most 24 hours"
  checkDraft V body
  return body

/-- `INTENT_ENVELOPE_SIGNING_DOMAIN`. -/
def signingDomain : Bytes := utf8 "NTH-DAO:IntentEnvelope:v1\x00".toList

/-- `int.from_bytes(b, "little")`. -/
def littleEndian (b : Bytes) : ℕ := Nat.ofDigits 256 (b.map UInt8.toNat)

/-- `_ED25519_ORDER`. -/
def ed25519Order : ℕ := 2 ^ 252 + 27742317777372353535851937790883648493

/-- The signature of a body under the strict profile. -/
def signatureOk (body : Fields) (signature : String) : Bool :=
  match decodeDidKey (textOf body "signer_did"), bytesFromHex (chars signature),
    canonicalJson (.obj body) with
  | some pk, some sig, some payload =>
    V.isPrimeOrder pk && V.isPrimeOrder (sig.take 32) && decide (littleEndian (sig.drop 32) < ed25519Order) &&
      V.verify pk (signingDomain ++ payload) sig
  | _, _, _ => false

/-- `_verified_document`. -/
def verifiedDocument (v : Json) : Except String Fields := do
  let document ← snapshot envelopeProperties v
  require (isHex 128 (chars (textOf document "signature"))) "signature must be 64 bytes in lowercase hex"
  let body ← validatedBody V (.obj (document.filter fun p => p.1 != "signature"))
  require (signatureOk V body (textOf document "signature")) "intent envelope signature is invalid"
  return document

/-- `_hash`. -/
def hashDocument (d : Fields) : String := contentHash V.toHost ((canonicalJson (.obj d)).getD [])

/-! ## Contexts -/

/-- What is given to `IntentAcceptanceContext`. -/
structure Expected where
  signerDid : String
  audienceDid : String
  scopeId : String
  draftDigest : String
  revision : ℤ
  previousDigest : String
  allowedSolverClasses : List String
  automationCeiling : String
  authorizationDigest : String := ""
  deriving DecidableEq

/-- `IntentAcceptanceContext.__post_init__`. -/
def Expected.ok (e : Expected) : Bool :=
  isBoundedDid e.signerDid && isBoundedDid e.audienceDid && isExactId e.scopeId &&
    isSha256 e.draftDigest && isLineage e.revision e.previousDigest &&
    areSolverClasses e.allowedSolverClasses && ["A0", "A1"].contains e.automationCeiling &&
    (e.authorizationDigest == "" || isSha256 e.authorizationDigest)

/-- `IntentAcceptanceContext`. -/
structure Context extends Expected where
  valid : toExpected.ok = true

def Expected.context (e : Expected) : Option Context :=
  if h : e.ok = true then some ⟨e, h⟩ else none

/-- The document is the expected one. -/
def matchesContext (d : Fields) (c : Context) : Bool :=
  textOf d "signer_did" == c.signerDid && textOf d "audience_did" == c.audienceDid &&
    textOf d "scope_id" == c.scopeId && textOf d "draft_digest" == c.draftDigest &&
    numberOf d "revision" == c.revision && textOf d "previous_digest" == c.previousDigest

/-- `verify_intent_envelope`. -/
def verifyIntentEnvelope (v : Json) (expected : Context) (nowMs : ℤ) : Except String Fields := do
  require (0 ≤ nowMs && nowMs ≤ maxSafeInteger) "now_ms must be a safe integer >= 0"
  let document ← verifiedDocument V v
  require (matchesContext document expected) "envelope does not match expected"
  require (numberOf document "issued_at_ms" ≤ nowMs && nowMs < numberOf document "expires_at_ms")
    "envelope is not currently valid"
  require ((textsOf document "solver_classes").all expected.allowedSolverClasses.contains)
    "solver classes exceed Host policy"
  require (level (textOf document "automation_ceiling") ≤ level expected.automationCeiling)
    "automation ceiling exceeds Host policy"
  return document

/-! ## The copy -/

variable {V} {properties : List (String × Schema)} {v : Json} {d : Fields}

/-- The copy has sorted keys, and is the same when it is copied. -/
theorem snapshot_spec (hw : v.wf = true) (h : snapshot properties v = .ok d) :
    .obj d = v.norm ∧ snapshot properties (.obj d) = .ok d := by
  simp only [snapshot, bind_eq_ok, expect_eq_ok, require_eq_ok, pure_eq_ok] at h
  obtain ⟨_, hshape, _, hinst, encoded, henc, _, hlen, document, hdoc, _, hshape', _, hinst', rfl⟩ := h
  have hv : v = .obj v.fields := by
    simp only [checkShape, bind_eq_ok, require_eq_ok, Bool.and_eq_true] at hshape
    exact Json.eq_obj_of_isObj hshape.choose_spec.1.1
  have hload : loads (chars encoded) = some v.norm := by
    conv_rhs => rw [hv]
    exact loads_canonicalText (hv ▸ hw) henc
  obtain rfl : v.norm = document := Option.some.inj (hload.symm.trans hdoc)
  have hobj : v.norm.isObj = true := by
    simp only [checkShape, bind_eq_ok, require_eq_ok, Bool.and_eq_true] at hshape'
    exact hshape'.choose_spec.1.1
  have heq : Json.obj v.norm.fields = v.norm := (Json.eq_obj_of_isObj hobj).symm
  refine ⟨heq, ?_⟩
  rw [heq]
  simp only [snapshot, bind_eq_ok, expect_eq_ok, require_eq_ok, pure_eq_ok]
  have hagain : canonicalText v.norm.fields = some encoded := by
    rw [← henc]
    exact canonicalText_congr (by rw [heq, Json.norm_norm, ← hv])
  exact ⟨(), hshape', (), hinst', encoded, hagain, (), hlen, v.norm, hload, (), hshape', (), hinst', rfl⟩

/-- A document in canonical order that meets its schema is its own copy. -/
theorem snapshot_of_valid (hw : (Json.obj d).wf = true) (hnorm : (Json.obj d).norm = .obj d)
    (he : (Json.obj d).encodable = true) (hshape : checkShape properties (.obj d) = .ok ())
    (hinst : checkInstance properties (.obj d) = .ok ())
    (hlen : weight false (.obj d) ≤ intentMaxDocumentBytes) : snapshot properties (.obj d) = .ok d := by
  have htext : canonicalText d = some (String.ofList (dumps false (Json.obj d).norm)) := if_pos he
  have hload := loads_canonicalText hw htext
  rw [hnorm] at htext hload
  simp only [snapshot, bind_eq_ok, expect_eq_ok, require_eq_ok, pure_eq_ok]
  refine ⟨(), hshape, (), hinst, _, htext, (), ?_, .obj d, hload, (), hshape, (), hinst, rfl⟩
  rw [decide_eq_true_eq, chars_eq, String.toList_ofList]
  exact hlen

/-- **The copy of a verified envelope passes as it is.** -/
theorem verifiedDocument_idem (hw : v.wf = true) (h : verifiedDocument V v = .ok d) :
    .obj d = v.norm ∧ verifiedDocument V (.obj d) = .ok d := by
  simp only [verifiedDocument, bind_eq_ok, require_eq_ok, pure_eq_ok] at h
  obtain ⟨document, hsnap, hrest⟩ := h
  obtain ⟨_, hhex, body, hbody, _, hsig, rfl⟩ := hrest
  obtain ⟨hnorm, hagain⟩ := snapshot_spec hw hsnap
  refine ⟨hnorm, ?_⟩
  simp only [verifiedDocument, bind_eq_ok, require_eq_ok, pure_eq_ok]
  exact ⟨document, hagain, (), hhex, body, hbody, (), hsig, rfl⟩

end Plugins

end NthDao
