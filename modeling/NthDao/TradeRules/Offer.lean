/-
  Signed Trade Offers v2 (`nth_dao/trade_rules/offer.py`).

  * `validateLeg`, `validateLegs`, `validateRuleRefs`, `validateCommon` and
    `validateComplete`: the checks on the fields, with their texts;
  * `TradeOffer`: an offer verified against its publisher;
  * `verifyOfferSuccessor`: one edge between two revisions.

  * `revision_eq`: the revision of an offer is a positive number;
  * `verifyOfferSuccessor_eq_ok`: what holds on an edge.
-/
import NthDao.TradeRules.Fields
import NthDao.TradeRules.Signing

namespace NthDao.TradeRules

open Py

/-! ## Constants -/

def offerKind : String := "org.nthdao.trade.offer"
def offerProtocolVersion : String := "2.0"
def offerProofType : String := "NthEd25519SignatureV1"
def offerProofPurpose : String := "assertionMethod"
def offerSigningDomain : Bytes := utf8 (chars "NTH-TRADE-OFFER-V2")
def offerTopLevelFields : List String :=
  ["kind", "protocol_version", "offer_id", "revision", "previous_offer_digest", "state",
    "publisher_did", "title", "summary", "provides", "requests", "rule_refs", "published_at",
    "not_after", "extensions", "proof"]
def proofFields : List String :=
  ["type", "created", "verification_method", "proof_purpose", "proof_value"]
def legFields : List String :=
  ["leg_id", "resource_type", "resource_id", "quantity", "unit", "descriptor_digest"]
def ruleRefFields : List String := ["rule_id", "digest"]
def unsafeResourceSchemes : List String := ["data", "file", "javascript", "vbscript"]
def offerStates : List String := ["active", "withdrawn"]

/-! ## Patterns -/

/-- The characters behind the scheme of a resource. -/
def isResourceChar (c : Char) : Bool :=
  c.isAlphanum || "._~!$&'()*+,;=:@%/?#[]-".toList.contains c

/-- The scheme of a resource identifier, `none` if `_RESOURCE_ID` does not match. -/
def resourceScheme (s : String) : Option String :=
  let scheme := (chars s).takeWhile (· != ':')
  let rest := (chars s).drop (scheme.length + 1)
  match scheme with
  | [] => none
  | c :: r =>
    if ('a' ≤ c && c ≤ 'z') && r.length ≤ 31 &&
        r.all (fun d => isLowerAlnum d || d == '+' || d == '.' || d == '-') && !rest.isEmpty &&
        rest.all isResourceChar then
      some (String.ofList scheme)
    else none

/-- `[0-9]*[1-9]`. -/
def isFraction (cs : List Char) : Bool := cs.all Char.isDigit && cs.getLast?.any (· != '0')

/-- `_QUANTITY.fullmatch`. -/
def isQuantity (s : String) : Bool :=
  let whole := (chars s).takeWhile (· != '.')
  match whole, (chars s).dropWhile (· != '.') with
  | ['0'], _ :: frac => isFraction frac
  | c :: r, [] => c != '0' && (c :: r).all Char.isDigit
  | c :: r, _ :: frac => c != '0' && (c :: r).all Char.isDigit && isFraction frac
  | [], _ => false

/-- The nanoseconds of `(?:\.([0-9]{1,9}))?Z`. -/
def nanosOf : List Char → Option ℕ
  | ['Z'] => some 0
  | '.' :: r =>
    let ds := r.dropLast
    if r.getLast? = some 'Z' && 1 ≤ ds.length && ds.length ≤ 9 && ds.all Char.isDigit then
      some (digitsVal (ds ++ List.replicate (9 - ds.length) '0'))
    else none
  | _ => none

/-- `_timestamp_value`: the time and its nanoseconds, as one number of nanoseconds. -/
def timestampValue (value : Json) (label : String) : Except String ℕ := do
  let text ← boundedString value label 1 35
  let ((y, mo, d, h, mi, s), r) ← expect (splitTime Char.isDigit (chars text))
    (label ++ " must be a UTC RFC3339 timestamp")
  let nanos ← expect (nanosOf r) (label ++ " must be a UTC RFC3339 timestamp")
  let base ← expect
    (realTime (digitsVal y) (digitsVal mo) (digitsVal d) (digitsVal h) (digitsVal mi) (digitsVal s))
    (label ++ " is not a real timestamp")
  return base * 1000000000 + nanos

/-! ## Checks -/

variable (H : Host)

/-- `_validate_leg`: the id of the leg. -/
def validateLeg (raw : Json) (label : String) : Except String String := do
  let leg ← exactFields H raw legFields label
  let legId ← token (Json.get leg "leg_id") (label ++ ".leg_id") 64
  let _ ← token (Json.get leg "resource_type") (label ++ ".resource_type") 160
  let resourceId ← boundedString (Json.get leg "resource_id") (label ++ ".resource_id") 1 512
  let scheme ← expect (resourceScheme resourceId)
    (label ++ ".resource_id must be a canonical namespaced identifier")
  require (!unsafeResourceSchemes.contains scheme) (label ++ ".resource_id uses a forbidden scheme")
  let quantity ← boundedString (Json.get leg "quantity") (label ++ ".quantity") 1 80
  require (isQuantity quantity) (label ++ ".quantity must be a canonical positive decimal string")
  require (((chars quantity).filter (· != '.')).length ≤ 78)
    (label ++ ".quantity exceeds the precision limit")
  require (((chars quantity).dropWhile (· != '.')).length ≤ 31)
    (label ++ ".quantity exceeds the scale limit")
  let _ ← token (Json.get leg "unit") (label ++ ".unit") 80
  let _ ← digestField (Json.get leg "descriptor_digest") (label ++ ".descriptor_digest")
  return legId

/-- The ids of legs, from the given index on. -/
def legIds (label : String) (index : ℕ) : List Json → Except String (List String)
  | [] => return []
  | raw :: raws => do
    let legId ← validateLeg H raw (label ++ "[" ++ toString index ++ "]")
    let ids ← legIds label (index + 1) raws
    return legId :: ids

/-- `_validate_legs`. -/
def validateLegs (value : Json) (label : String) (minimum : ℕ) : Except String (List String) := do
  let raws ← expect (match value with
      | .arr xs => if minimum ≤ xs.length && xs.length ≤ 32 then some xs else none
      | _ => none)
    (label ++ " must contain " ++ toString minimum ++ "..32 entries")
  let ids ← legIds H label 0 raws
  require ids.Nodup (label ++ " contains duplicate leg_id values")
  require (ids.Pairwise (· ≤ ·)) (label ++ " must be sorted by leg_id")
  return ids

/-- The entries of `rule_refs`, from the given index on. -/
def ruleRefs (index : ℕ) : List Json → Except String (List (String × String))
  | [] => return []
  | raw :: raws => do
    let label := "rule_refs[" ++ toString index ++ "]"
    let item ← exactFields H raw ruleRefFields label
    let ruleId ← boundedString (Json.get item "rule_id") (label ++ ".rule_id") 1 160
    require (isNamespaced 30 false (chars ruleId)) (label ++ ".rule_id is invalid")
    let digest ← digestField (Json.get item "digest") (label ++ ".digest")
    let refs ← ruleRefs (index + 1) raws
    return (ruleId, digest) :: refs

/-- `_validate_rule_refs`. -/
def validateRuleRefs (value : Json) : Except String Unit := do
  let raws ← expect (match value with
      | .arr xs => if xs.length ≤ 32 then some xs else none
      | _ => none)
    "rule_refs must be a list with at most 32 entries"
  let order ← ruleRefs H 0 raws
  require order.Nodup "rule_refs contains duplicate entries"
  require (order.Pairwise fun p q => p.1 < q.1 || p.1 == q.1 && p.2 ≤ q.2)
    "rule_refs must be sorted by rule_id and digest"

/-- The predecessor of a revision. -/
def checkPreviousDigest (revision : ℤ) (previous : Json) : Except String Unit :=
  if revision = 1 then
    require (previous == .null) "revision 1 must not declare previous_offer_digest"
  else (digestField previous "previous_offer_digest").map fun _ => ()

/-- The end of an offer, which lies behind `moment`. -/
def checkNotAfter (notAfter : Json) (moment : ℕ) (name : String) : Except String Unit :=
  if notAfter = .null then .ok ()
  else do
    let t ← timestampValue notAfter "not_after"
    require (moment < t) ("not_after must be later than " ++ name)

/-- The entries of `extensions`. -/
def checkExtensions : Fields → Except String Unit
  | [] => .ok ()
  | (k, x) :: kvs => do
    require (isNamespaced 30 true (chars k))
      ("invalid extension id: " ++ String.ofList (reprStr H.isprintable k))
    require x.isObj ("extension " ++ String.ofList (reprStr H.isprintable k) ++ " must be an object")
    checkExtensions kvs

/-- `_validate_common`. -/
def validateCommon (document : Fields) : Except String Unit := do
  require ((Json.get document "kind").eqStr offerKind) "wrong offer kind"
  require ((Json.get document "protocol_version").eqStr offerProtocolVersion)
    "unsupported offer protocol_version"
  let offerId ← boundedString (Json.get document "offer_id") "offer_id" 3 256
  require (isNamespaced 126 false (chars offerId)) "offer_id is invalid"
  let revision ← expect
    ((Json.get document "revision").asInt.filter fun n => 1 ≤ n && n ≤ 2147483647)
    "revision must be an integer in the range 1..2147483647"
  checkPreviousDigest revision (Json.get document "previous_offer_digest")
  let known ← memberOf (Json.get document "state") offerStates
  require known "state must be active or withdrawn"
  require (!((Json.get document "state").eqStr "withdrawn" && revision == 1))
    "an initial offer cannot be withdrawn"
  let publisherDid ← boundedString (Json.get document "publisher_did") "publisher_did" 1 256
  require (isDidKey publisherDid) "publisher_did must be an Ed25519 did:key"
  let _ ← boundedString (Json.get document "title") "title" 1 160
  let summary ← boundedString (Json.get document "summary") "summary" 0 2000
  require ((utf8 (chars summary)).length ≤ 8000) "summary exceeds UTF-8 byte limit"
  let providesIds ← validateLegs H (Json.get document "provides") "provides" 1
  let requestsIds ← validateLegs H (Json.get document "requests") "requests" 0
  require (!providesIds.any requestsIds.contains)
    "leg_id values must be unique across provides and requests"
  validateRuleRefs H (Json.get document "rule_refs")
  let published ← timestampValue (Json.get document "published_at") "published_at"
  checkNotAfter (Json.get document "not_after") published "published_at"
  let extensions := Json.get document "extensions"
  require (extensions.isObj && extensions.fields.length ≤ 32)
    "extensions must be an object with at most 32 entries"
  checkExtensions H extensions.fields

/-- `_validate_complete`. -/
def validateComplete (document : Json) : Except String Unit := do
  let value ← exactFields H document offerTopLevelFields "offer"
  validateCommon H value
  let proof ← exactFields H (Json.get value "proof") proofFields "proof"
  require ((Json.get proof "type").eqStr offerProofType) "unsupported proof.type"
  require ((Json.get proof "proof_purpose").eqStr offerProofPurpose) "unsupported proof.proof_purpose"
  let proofCreated ← timestampValue (Json.get proof "created") "proof.created"
  let published ← timestampValue (Json.get value "published_at") "published_at"
  require (published ≤ proofCreated) "proof.created must not be before published_at"
  checkNotAfter (Json.get value "not_after") proofCreated "proof.created"
  let publisherDid ← expect (Json.get value "publisher_did").asStr "publisher DID is not a did:key"
  let expectedMethod ← verificationMethodForDid publisherDid
  require ((Json.get proof "verification_method").eqStr expectedMethod)
    "proof.verification_method does not match publisher_did"
  let _ ← boundedString (Json.get proof "proof_value") "proof.proof_value" 86 86
  let _ ← decodeCanonicalEd25519Signature (Json.get proof "proof_value")
  let _ ← tradeCanonicalJson document
  return ()

/-! ## Offers -/

/-- Offers as signed documents. -/
def offerFormat : Format where
  validate := validateComplete H
  signer := "publisher_did"
  domain := offerSigningDomain
  refusal _ := "offer signature invalid"

/-- An offer verified against its publisher. -/
abbrev TradeOffer := SignedDocument H (offerFormat H)

variable {H}

namespace TradeOffer

/-- A field of `to_dict()`. -/
def field (offer : TradeOffer H) (name : String) : Json := Json.get offer.document.fields name

end TradeOffer

theorem isDigest_digest {F : Format} (d : SignedDocument H F) : isDigest d.digest = true :=
  isDigest_sha256 d.canonicalBytes

/-- `offer_digest` of a verified offer. -/
def offerDigest (offer : TradeOffer H) : String := offer.digest

/-- `verify_offer_successor` of verified offers; the error is the reason. -/
def verifyOfferSuccessor (previous successor : TradeOffer H) : Except String Unit := do
  require (previous.field "publisher_did" == successor.field "publisher_did") "publisher_changed"
  require (previous.field "offer_id" == successor.field "offer_id") "offer_id_changed"
  require (!(previous.field "state").eqStr "withdrawn") "withdrawal_is_terminal"
  require ((successor.field "revision").asInt == (previous.field "revision").asInt.map (· + 1))
    "revision_not_sequential"
  require ((successor.field "previous_offer_digest").eqStr (offerDigest previous))
    "previous_digest_mismatch"
  let previousPublished ← timestampValue (previous.field "published_at") "previous.published_at"
  let successorPublished ← timestampValue (successor.field "published_at") "successor.published_at"
  require (previousPublished < successorPublished) "published_at_not_increasing"

/-- The revision of an offer. -/
theorem revision_eq (offer : TradeOffer H) : ∃ n : ℤ, offer.field "revision" = .int n ∧ 1 ≤ n := by
  have h := offer.valid
  change validateComplete H offer.document = _ at h
  simp only [validateComplete, bind_eq_ok] at h
  obtain ⟨value, hvalue, _, h, -⟩ := h
  simp only [validateCommon, bind_eq_ok, expect_eq_ok, Option.filter_eq_some_iff,
    Json.asInt_eq_some, Bool.and_eq_true, decide_eq_true_eq] at h
  obtain ⟨-, -, -, -, -, -, -, -, n, ⟨hn, h1, -⟩, -⟩ := h
  refine ⟨n, ?_, h1⟩
  rw [TradeOffer.field, exactFields_eq_ok hvalue]
  exact hn

/-- What holds on an edge. -/
theorem verifyOfferSuccessor_eq_ok {previous successor : TradeOffer H} {u : Unit}
    (h : verifyOfferSuccessor previous successor = .ok u) :
    (successor.field "revision").asInt = (previous.field "revision").asInt.map (· + 1) ∧
      successor.field "previous_offer_digest" = .str (offerDigest previous) := by
  simp only [verifyOfferSuccessor, require_bind_eq_ok, beq_iff_eq, Json.eqStr_iff] at h
  exact ⟨h.2.2.2.1, h.2.2.2.2.1⟩

/-! ## An offer to run the model on -/

/-- The key of the publisher. -/
def sampleKey : checksumHost.SecretKey := (1 : UInt8)

def sampleDid : String := asDid checksumHost sampleKey

/-- The items of an offer of tea. -/
def sampleOfferBody (revision : ℤ) (previous : Json) (published : String) : Fields :=
  [("kind", .str offerKind), ("protocol_version", .str offerProtocolVersion),
    ("offer_id", .str "org.example/tea"), ("revision", .int revision),
    ("previous_offer_digest", previous), ("state", .str "active"),
    ("publisher_did", .str (sampleDid)), ("title", .str "Tea"), ("summary", .str ""),
    ("provides", .arr [.obj [("leg_id", .str "tea"), ("resource_type", .str "goods"),
      ("resource_id", .str "urn:tea"), ("quantity", .str "1"), ("unit", .str "kg"),
      ("descriptor_digest", .str ("sha256:" ++ checksumHost.sha256 []))]]),
    ("requests", .arr []), ("rule_refs", .arr []), ("published_at", .str published),
    ("not_after", .null), ("extensions", .obj []),
    ("proof", .obj [("type", .str offerProofType), ("created", .str published),
      ("verification_method", .str (sampleDid ++ "#" ++
        String.ofList ((chars (sampleDid)).drop 8))),
      ("proof_purpose", .str offerProofPurpose), ("proof_value", .str "")])]

/-- The draft of an offer of tea, and the signed offer. -/
def sampleDraft : Json := .obj (sampleOfferBody 1 .null "2026-01-01T00:00:00Z")

def sampleOffer : Json := sealDocument (offerFormat checksumHost) sampleKey sampleDraft

theorem sampleDraft_signer : Json.get sampleDraft.fields "publisher_did" = .str sampleDid := by
  simp [sampleDraft, Json.get, sampleOfferBody, Json.lookup_cons]

theorem sampleDraft_checked :
    sealChecks (offerFormat checksumHost) sampleKey sampleDraft = true := by decide +kernel

/-- The sample passes the checks. -/
def sampleDraftSealable :
    Sealable (offerFormat checksumHost) sampleKey sampleDraft :=
  .ofChecks sampleDraft_signer sampleDraft_checked

theorem exists_sampleOffer : ∃ o : TradeOffer checksumHost,
    SignedDocument.fromDict checksumHost (offerFormat checksumHost) sampleOffer = .ok o ∧
      o.document = sampleOffer.norm :=
  sampleDraftSealable.exists_document (by decide)

end NthDao.TradeRules
