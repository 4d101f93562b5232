/-
  The signed requests and responses of a dispute statement fetch
  (`nth_dao/trade_rules/dispute_statement_retrieval.py` and `transport_common.py`).

  * `timestampNs`: an RFC 3339 timestamp in nanoseconds since 1970, within 64 bits;
  * `validateTransportProof`: the checks on a proof;
  * `FetchContext`: what a request is compared with of the verified order, receipt and
    review, and how a statement is verified against them;
  * `FetchRequest`, `FetchResponse`: a request verified in its context, and a response
    verified against its request.

  * `request_fields`: what the journal reads of a request;
  * `exists_sampleRequests`: requests to run the model on.
-/
import NthDao.TradeRules.Offer
import NthDao.TradeRules.Timestamp

namespace NthDao.TradeRules

open Py

/-! ## Constants -/

def fetchRequestKind : String := "nth.dao.trade.dispute-statement-fetch-request"
def fetchResponseKind : String := "nth.dao.trade.dispute-statement-fetch-response"
def fetchProtocolVersion : String := "1"
def fetchRequestProofPurpose : String := "tradeDisputeStatementFetchRequest"
def fetchResponseProofPurpose : String := "tradeDisputeStatementFetchResponse"
def fetchProofType : String := "Ed25519Signature2020"
def fetchRequestSigningDomain : Bytes :=
  utf8 (chars "nth-dao/trade-dispute-statement-fetch-request/v1")
def fetchResponseSigningDomain : Bytes :=
  utf8 (chars "nth-dao/trade-dispute-statement-fetch-response/v1")
def maxFetchRequestBytes : ℕ := 16 * 1024
def maxFetchResponseBytes : ℕ := maxTradeJsonBytes
def requestIdPrefix : String := "nth:trade:dispute-statement-fetch-request:sha256:"
def responseIdPrefix : String := "nth:trade:dispute-statement-fetch-response:sha256:"
def fetchRequestFields : List String :=
  ["kind", "protocol_version", "request_id", "nonce", "order_digest", "execution_id",
    "receipt_digest", "review_id", "review_digest", "dispute_id", "statement_digest",
    "requester_did", "responder_did", "created_at", "not_after", "proof"]
def fetchResponseFields : List String :=
  ["kind", "protocol_version", "response_id", "request_id", "request_digest", "order_digest",
    "receipt_digest", "review_digest", "statement_digest", "requester_did", "responder_did",
    "served_at", "statement", "proof"]
def minTransportTimestampNs : ℤ := -9223372036854775808
def maxTransportTimestampNs : ℤ := 9223372036854775807

/-- The seconds of year 1 before 1970. -/
def epochSeconds : ℤ := 62135596800

/-! ## Patterns -/

/-- A prefix and 64 lowercase hexadecimal digits. -/
def isHashId (pre s : String) : Bool := startsWith pre s && isHex 64 ((chars s).drop (len pre))

/-- `_NONCE.fullmatch`. -/
def isNonce (s : String) : Bool :=
  let n := len s
  32 ≤ n && n ≤ 128 && n % 2 == 0 && (chars s).all isHexChar

/-! ## Transport -/

/-- `strptime`, in seconds of year 1. -/
def strptimeSeconds (y mo d h mi s : List Char) : Option ℕ := do
  let year ← yearField y
  let month ← clockField [] mo
  let day ← clockField [1, 2] d
  let hour ← clockField [0, 1] h
  let minute ← clockField [0, 1, 2, 3, 4, 5] mi
  let second ← clockField [0, 1, 2, 3, 4, 5] s
  realTime year month day hour minute second

/-- The nanoseconds of `(?:\.(\d{1,9}))?Z`. -/
def transportNanos : List Char → Option ℕ
  | ['Z'] => some 0
  | '.' :: r =>
    let ds := r.dropLast
    if r.getLast? = some 'Z' && 1 ≤ ds.length && ds.length ≤ 9 then
      yearField (ds ++ List.replicate (9 - ds.length) '0')
    else none
  | _ => none

/-- `timestamp_ns`. -/
def timestampNs (value : Json) (label : String) : Except String ℤ := do
  let text ← expect (value.asStr.filter fun s => len s ≤ 35)
    (label ++ " must be a UTC RFC3339 timestamp")
  let ((y, mo, d, h, mi, s), r) ← expect (splitTime isDecimal (chars text))
    (label ++ " must be a UTC RFC3339 timestamp")
  let nanos ← expect (transportNanos r) (label ++ " must be a UTC RFC3339 timestamp")
  let base ← expect (strptimeSeconds y mo d h mi s) (label ++ " is not a real timestamp")
  let result : ℤ := ((base : ℤ) - epochSeconds) * 1000000000 + nanos
  require (minTransportTimestampNs ≤ result && result ≤ maxTransportTimestampNs)
    (label ++ " is outside the signed 64-bit nanosecond range")
  return result

/-- `validate_transport_proof`. -/
def validateTransportProof (proof : Json) (signerDid purpose : String) (createdAt : Json)
    (proofType : String) : Except String Unit := do
  require (proof.isObj && Json.keysEq proof.fields proofFields) "proof has missing or unknown fields"
  let proof := proof.fields
  require ((Json.get proof "type").eqStr proofType) "proof type is invalid"
  let method ← verificationMethodForDid signerDid
  require ((Json.get proof "verification_method").eqStr method)
    "proof verification_method does not match signer"
  require ((Json.get proof "proof_purpose").eqStr purpose) "proof purpose is invalid"
  require (Json.get proof "proof_value").asStr.isSome "proof value is invalid"
  let proofNs ← timestampNs (Json.get proof "created") "proof.created"
  let createdNs ← timestampNs createdAt "created_at"
  require (proofNs == createdNs) "proof.created must equal created_at"

variable (H : Host)

/-- `_content_id`. -/
def contentId (document : Fields) (identifierField pre : String) : Except String String := do
  let canonical ← tradeCanonicalJson
    (.obj (document.filter fun p => p.1 != identifierField && p.1 != "proof"))
  return pre ++ H.sha256 canonical

/-- The check of an id that is the hash of the other fields. -/
def checkContentId (document : Fields) (identifierField pre text : String) : Except String Unit := do
  let id ← expect ((Json.get document identifierField).asStr.filter (isHashId pre)) text
  let expected ← contentId H document identifierField pre
  require (id == expected) text

/-- A text field that a pattern accepts. -/
def patternField (document : Fields) (name : String) (pattern : String → Bool) (text : String) :
    Except String String :=
  expect ((Json.get document name).asStr.filter pattern) text

/-- Digest fields, one after the other. -/
def digestFields (document : Fields) (text : String → String) : List String → Except String Unit
  | [] => .ok ()
  | name :: names => do
    let _ ← patternField document name isDigest (text name)
    digestFields document text names

/-! ## Requests -/

/-- What the documents of a trade say to its fetch requests: the digests and the identifiers
    of the order, the receipt and the review, the parties, and the digest of a statement
    that verifies against them. -/
structure FetchContext where
  orderDigest : String
  executionId : String
  receiptDigest : String
  reviewId : String
  reviewDigest : String
  disputeId : String
  decision : String
  makerDid : String
  takerDid : String
  statementDigest : Json → Except String String

/-- `opposite_party`. -/
def FetchContext.oppositeParty (context : FetchContext) (senderDid : String) : Except String String :=
  if senderDid = context.makerDid then .ok context.takerDid
  else if senderDid = context.takerDid then .ok context.makerDid
  else .error "sender_did is not a party to the signed Order"

/-- `_validate_request_envelope`. -/
def validateRequestEnvelope (value : Json) : Except String Unit := do
  require (value.isObj && Json.keysEq value.fields fetchRequestFields)
    "fetch request has missing or unknown fields"
  let document := value.fields
  require ((Json.get document "kind").eqStr fetchRequestKind)
    "wrong Dispute Statement fetch request kind"
  require ((Json.get document "protocol_version").eqStr fetchProtocolVersion)
    "unsupported fetch request protocol_version"
  checkContentId H document "request_id" requestIdPrefix
    "request_id does not match fetch request content"
  let _ ← patternField document "nonce" isNonce "nonce must be 16 to 64 bytes of lowercase hex"
  digestFields document (· ++ " must be a lowercase sha256 digest")
    ["order_digest", "receipt_digest", "review_digest", "statement_digest"]
  let _ ← patternField document "execution_id" (isHashId "nth-trade-execution-sha256:")
    "execution_id is invalid"
  let _ ← patternField document "review_id" (isHashId "nth-trade-review-sha256:")
    "review_id is invalid"
  let _ ← patternField document "dispute_id" (isHashId "nth-trade-dispute-sha256:")
    "dispute_id is invalid"
  let requesterDid ← patternField document "requester_did" isDidKey
    "requester_did must be an Ed25519 did:key"
  let responderDid ← patternField document "responder_did" isDidKey
    "responder_did must be an Ed25519 did:key"
  require (requesterDid != responderDid) "fetch request parties must be different principals"
  let createdNs ← timestampNs (Json.get document "created_at") "created_at"
  let expiryNs ← timestampNs (Json.get document "not_after") "not_after"
  require (createdNs < expiryNs) "not_after must be later than created_at"
  validateTransportProof (Json.get document "proof") requesterDid fetchRequestProofPurpose
    (Json.get document "created_at") fetchProofType

/-- `_validate_request_static`, behind the limit of `from_dict`. -/
def validateRequest (context : FetchContext) (value : Json) : Except String Unit := do
  let canonical ← tradeCanonicalJson value
  require (canonical.length ≤ maxFetchRequestBytes) "fetch request exceeds byte limit"
  validateRequestEnvelope H value
  let document := value.fields
  require ((Json.get document "order_digest").eqStr context.orderDigest)
    "order_digest does not match signed Order"
  require ((Json.get document "execution_id").eqStr context.executionId)
    "execution_id does not match signed Receipt"
  require ((Json.get document "receipt_digest").eqStr context.receiptDigest)
    "receipt_digest does not match signed Receipt"
  require ((Json.get document "review_id").eqStr context.reviewId)
    "review_id does not match signed Review"
  require ((Json.get document "review_digest").eqStr context.reviewDigest)
    "review_digest does not match signed Review"
  require ((Json.get document "dispute_id").eqStr context.disputeId)
    "dispute_id does not match signed Review"
  require (context.decision == "disputed") "fetch request requires a disputed Receipt Review"
  let requesterDid ← expect (((Json.get document "requester_did").asStr).filter fun d =>
      d == context.makerDid || d == context.takerDid)
    "requester_did is not a party to the signed Order"
  let expectedResponder ← context.oppositeParty requesterDid
  require ((Json.get document "responder_did").eqStr expectedResponder)
    "responder_did is not the opposing Order party"

/-- Requests as signed documents. -/
def requestFormat (context : FetchContext) : Format where
  validate := validateRequest H context
  signer := "requester_did"
  domain := fetchRequestSigningDomain
  refusal reason := reason

/-- `TradeDisputeStatementFetchRequest`. -/
structure FetchRequest where
  context : FetchContext
  signed : SignedDocument H (requestFormat H context)

variable {H}

namespace FetchRequest

def canonicalBytes (request : FetchRequest H) : Bytes := request.signed.canonicalBytes

/-- A field of `to_dict()`. -/
def field (request : FetchRequest H) (name : String) : Json :=
  Json.get request.signed.document.fields name

/-- A text field. -/
def text (request : FetchRequest H) (name : String) : String := (request.field name).asStr.getD ""

/-- `_request_digest`. -/
def digest (request : FetchRequest H) : String := request.signed.digest

end FetchRequest

/-! ## Responses -/

/-- Fields that repeat those of the request. -/
def matchFields (document : Fields) : List (String × Json) → Except String Unit
  | [] => .ok ()
  | (name, value) :: expected => do
    require (Json.get document name == value) ("fetch response " ++ name ++ " does not match request")
    matchFields document expected

/-- `_validate_response_static`, behind the limit of `from_dict`. -/
def validateResponse (request : FetchRequest H) (value : Json) : Except String Unit := do
  let canonical ← tradeCanonicalJson value
  require (canonical.length ≤ maxFetchResponseBytes) "fetch response exceeds byte limit"
  require (value.isObj && Json.keysEq value.fields fetchResponseFields)
    "fetch response has missing or unknown fields"
  let document := value.fields
  require ((Json.get document "kind").eqStr fetchResponseKind)
    "wrong Dispute Statement fetch response kind"
  require ((Json.get document "protocol_version").eqStr fetchProtocolVersion)
    "unsupported fetch response protocol_version"
  checkContentId H document "response_id" responseIdPrefix
    "response_id does not match fetch response content"
  digestFields document ("fetch response " ++ · ++ " is invalid")
    ["request_digest", "order_digest", "receipt_digest", "review_digest", "statement_digest"]
  let _ ← patternField document "request_id" (isHashId requestIdPrefix)
    "fetch response request_id is invalid"
  let _ ← patternField document "requester_did" isDidKey "fetch response requester_did is invalid"
  let responderDid ← patternField document "responder_did" isDidKey
    "fetch response responder_did is invalid"
  matchFields document
    [("request_id", request.field "request_id"), ("request_digest", .str request.digest),
      ("order_digest", request.field "order_digest"),
      ("receipt_digest", request.field "receipt_digest"),
      ("review_digest", request.field "review_digest"),
      ("statement_digest", request.field "statement_digest"),
      ("requester_did", request.field "requester_did"),
      ("responder_did", request.field "responder_did")]
  require ((Json.get document "order_digest").eqStr request.context.orderDigest)
    "fetch response order_digest does not match signed Order"
  require ((Json.get document "receipt_digest").eqStr request.context.receiptDigest)
    "fetch response receipt_digest does not match signed Receipt"
  require ((Json.get document "review_digest").eqStr request.context.reviewDigest)
    "fetch response review_digest does not match signed Review"
  let statementDigest ← request.context.statementDigest (Json.get document "statement")
  require ((Json.get document "statement_digest").eqStr statementDigest)
    "statement_digest does not match fetched Statement"
  let _ ← timestampNs (Json.get document "served_at") "served_at"
  validateTransportProof (Json.get document "proof") responderDid fetchResponseProofPurpose
    (Json.get document "served_at") fetchProofType

/-- Responses as signed documents. -/
def responseFormat (request : FetchRequest H) : Format where
  validate := validateResponse request
  signer := "responder_did"
  domain := fetchResponseSigningDomain
  refusal reason := reason

variable (H) in
/-- `TradeDisputeStatementFetchResponse`, with the request it was verified against. -/
structure FetchResponse where
  request : FetchRequest H
  signed : SignedDocument H (responseFormat request)

namespace FetchResponse

def canonicalBytes (response : FetchResponse H) : Bytes := response.signed.canonicalBytes

/-- A field of `to_dict()`. -/
def field (response : FetchResponse H) (name : String) : Json :=
  Json.get response.signed.document.fields name

end FetchResponse

/-! ## What the journal reads -/

/-- The bytes of a request determine its fields. -/
theorem field_eq_of_canonicalBytes {request request' : FetchRequest H}
    (h : request.canonicalBytes = request'.canonicalBytes) (name : String) :
    request.field name = request'.field name := by
  have hparse := request.signed.parses
  change parseTradeJson request.canonicalBytes = _ at hparse
  rw [h, FetchRequest.canonicalBytes, request'.signed.parses] at hparse
  rw [FetchRequest.field, FetchRequest.field, Option.some.inj hparse]

/-- **The fields of a request** that the journal indexes it by. -/
theorem request_fields (request : FetchRequest H) : ∃ (id nonce did : String) (expiry : ℤ),
    request.field "request_id" = .str id ∧ (request.field "nonce" = .str nonce ∧ isNonce nonce = true) ∧
      (request.field "requester_did" = .str did ∧ isDidKey did = true) ∧
        timestampNs (request.field "not_after") "not_after" = .ok expiry ∧
          request.canonicalBytes.length ≤ maxFetchRequestBytes := by
  have h := request.signed.valid
  change validateRequest H request.context request.signed.document = _ at h
  simp only [validateRequest, bind_eq_ok] at h
  obtain ⟨canonical, hc, _, hlen, _, henv, -⟩ := h
  rw [request.signed.encodes] at hc
  cases hc
  simp only [validateRequestEnvelope, patternField, bind_eq_ok, expect_eq_ok,
    Option.filter_eq_some_iff, Json.asStr_eq_some] at henv
  obtain ⟨_, -, _, -, _, -, _, hid, nonce, hnonce, _, -, _, -, _, -, _, -, did, hdid, _, -, _, -, _, -,
    expiry, hexpiry, -⟩ := henv
  simp only [checkContentId, bind_eq_ok, expect_eq_ok, Option.filter_eq_some_iff,
    Json.asStr_eq_some] at hid
  obtain ⟨id, ⟨hid, -⟩, -⟩ := hid
  rw [require_eq_ok, decide_eq_true_eq] at hlen
  exact ⟨id, nonce, did, expiry, hid, hnonce, hdid, hexpiry, hlen⟩

/-! ## Requests to run the model on -/

def sampleResponder : String := asDid checksumHost (2 : UInt8)

def sampleHash : String := checksumHost.sha256 []

/-- A disputed trade between the keys 1 and 2. -/
def sampleContext : FetchContext where
  orderDigest := "sha256:" ++ sampleHash
  executionId := "nth-trade-execution-sha256:" ++ sampleHash
  receiptDigest := "sha256:" ++ sampleHash
  reviewId := "nth-trade-review-sha256:" ++ sampleHash
  reviewDigest := "sha256:" ++ sampleHash
  disputeId := "nth-trade-dispute-sha256:" ++ sampleHash
  decision := "disputed"
  makerDid := sampleDid
  takerDid := sampleResponder
  statementDigest _ := .ok ("sha256:" ++ sampleHash)

def sampleRequestBody (requestId created notAfter : String) : Fields :=
  [("kind", .str fetchRequestKind), ("protocol_version", .str fetchProtocolVersion),
    ("request_id", .str requestId), ("nonce", .str "00112233445566778899aabbccddeeff"),
    ("order_digest", .str sampleContext.orderDigest),
    ("execution_id", .str sampleContext.executionId),
    ("receipt_digest", .str sampleContext.receiptDigest),
    ("review_id", .str sampleContext.reviewId), ("review_digest", .str sampleContext.reviewDigest),
    ("dispute_id", .str sampleContext.disputeId),
    ("statement_digest", .str ("sha256:" ++ sampleHash)),
    ("requester_did", .str sampleDid), ("responder_did", .str sampleResponder),
    ("created_at", .str created), ("not_after", .str notAfter),
    ("proof", .obj [("type", .str fetchProofType), ("created", .str created),
      ("verification_method", .str (sampleDid ++ "#" ++ String.ofList ((chars sampleDid).drop 8))),
      ("proof_purpose", .str fetchRequestProofPurpose), ("proof_value", .str "")])]

/-- The draft of a request, and the signed request. -/
def sampleRequestDraft (created notAfter : String) : Json :=
  .obj (sampleRequestBody ((contentId checksumHost (sampleRequestBody "" created notAfter)
    "request_id" requestIdPrefix).toOption.getD "") created notAfter)

def sampleRequest (created notAfter : String) : Json :=
  sealDocument (requestFormat checksumHost sampleContext) sampleKey (sampleRequestDraft created notAfter)

theorem signer_sampleRequestDraft (created notAfter : String) :
    Json.get (sampleRequestDraft created notAfter).fields "requester_did" = .str sampleDid := by
  have draft : Json.get (sampleRequestDraft created notAfter).fields "requester_did" =
      (Json.lookup (sampleRequestBody _ created notAfter) "requester_did").getD .null := rfl
  simp [draft, sampleRequestBody, Json.lookup_cons]

/-- A sample that passes the checks is a request, with the fields of its draft. -/
theorem exists_sampleRequest {created notAfter : String}
    (hs : Sealable (requestFormat checksumHost sampleContext) sampleKey
      (sampleRequestDraft created notAfter)) :
    ∃ request : FetchRequest checksumHost, request.field "requester_did" = .str sampleDid ∧
      request.field "nonce" = .str "00112233445566778899aabbccddeeff" ∧
      request.field "not_after" = .str notAfter := by
  have draft : ∀ name, Json.get (sampleRequestDraft created notAfter).fields name =
      (Json.lookup (sampleRequestBody _ created notAfter) name).getD .null := fun _ => rfl
  have hd := signer_sampleRequestDraft created notAfter
  obtain ⟨d, -, hdoc⟩ := hs.exists_document (by decide)
  have field : ∀ name, name ≠ "proof" → Json.get d.document.fields name =
      (Json.get (sampleRequestDraft created notAfter).fields name).norm := by
    intro name hname
    rw [hdoc, hs.get_norm hname]
  refine ⟨⟨sampleContext, d⟩, ?_, ?_, ?_⟩
  · rw [FetchRequest.field, field _ (by decide), hd]
    rfl
  · rw [FetchRequest.field, field _ (by decide), draft]
    simp [sampleRequestBody, Json.lookup_cons, Json.norm]
  · rw [FetchRequest.field, field _ (by decide), draft]
    simp [sampleRequestBody, Json.lookup_cons, Json.norm]

/-- A sample of five minutes, and one of an hour later. -/
theorem sampleRequests_checked : (sealChecks (requestFormat checksumHost sampleContext) sampleKey
      (sampleRequestDraft "2026-01-01T00:00:00Z" "2026-01-01T00:05:00Z") &&
    sealChecks (requestFormat checksumHost sampleContext) sampleKey
      (sampleRequestDraft "2026-01-01T01:00:00Z" "2026-01-01T01:05:00Z")) = true := by decide +kernel

def firstSealable : Sealable (requestFormat checksumHost sampleContext) sampleKey
    (sampleRequestDraft "2026-01-01T00:00:00Z" "2026-01-01T00:05:00Z") :=
  .ofChecks (signer_sampleRequestDraft _ _) (Bool.and_eq_true_iff.1 sampleRequests_checked).1

def secondSealable : Sealable (requestFormat checksumHost sampleContext) sampleKey
    (sampleRequestDraft "2026-01-01T01:00:00Z" "2026-01-01T01:05:00Z") :=
  .ofChecks (signer_sampleRequestDraft _ _) (Bool.and_eq_true_iff.1 sampleRequests_checked).2

/-- Two requests with one nonce. -/
theorem exists_sampleRequests : ∃ request request' : FetchRequest checksumHost,
    request.field "requester_did" = request'.field "requester_did" ∧
      request.field "nonce" = request'.field "nonce" ∧
      request.field "not_after" = .str "2026-01-01T00:05:00Z" ∧
      request'.field "not_after" = .str "2026-01-01T01:05:00Z" := by
  obtain ⟨request, hdid, hnonce, hend⟩ := exists_sampleRequest firstSealable
  obtain ⟨request', hdid', hnonce', hend'⟩ := exists_sampleRequest secondSealable
  exact ⟨request, request', hdid.trans hdid'.symm, hnonce.trans hnonce'.symm, hend, hend'⟩

end NthDao.TradeRules
