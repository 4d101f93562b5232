/-
  Recognition policies (`nth_dao/trade_rules/recognition_policy.py`).

  * `recognitionTrustPolicy`: the checks of `RuleRecognitionTrustPolicy`, and
    `validatePolicy`: those of a policy statement;
  * `RecognitionPolicy`: a policy verified against its signer;
  * `verifyPolicySuccessor`: one edge between two revisions.

  * `sequence_eq`: the sequence of a policy is a positive number;
  * `verifyPolicySuccessor_eq_ok`: what holds on an edge.
-/
import NthDao.TradeRules.Signing
import NthDao.TradeRules.Timestamp

namespace NthDao.TradeRules

open Py

/-! ## Constants -/

def policyKind : String := "nth.dao.trade.rule-recognition-policy"
def policyProtocolVersion : String := "1"
def policyProofType : String := "NthEd25519SignatureV1"
def policyProofPurpose : String := "tradeRuleRecognitionPolicy"
def policySigningDomain : Bytes := utf8 (chars "nth-dao/trade-rule-recognition-policy/v1")
def policyIdPrefix : String := "nth-trade-recognition-policy-sha256:"
def maxPolicyControllers : ℕ := 64
def maxRecognitionIssuers : ℕ := 4096
def maxRecognitionSequence : ℤ := 2147483647
def maxRecognitionScopesPerIssuer : ℕ := 64
def maxRecognitionTtlSeconds : ℤ := 366 * 24 * 60 * 60
def policyFields : List String :=
  ["kind", "protocol_version", "policy_id", "node_did", "signer_did", "controllers", "sequence",
    "previous_policy_digest", "issued_at", "trusted_issuers", "threshold",
    "max_statement_ttl_seconds", "proof"]
def issuerFields : List String := ["issuer_did", "rule_scopes"]
def policyProofFields : List String :=
  ["type", "created", "verification_method", "proof_purpose", "proof_value"]

/-! ## Checks -/

variable (H : Host)

/-- `_timestamp`. -/
def policyTimestamp (value : Json) (label : String) : Except String ℕ :=
  canonicalTimestamp value label " must be a UTC RFC3339 timestamp"

/-- `recognition_policy_id`. -/
def recognitionPolicyId (nodeDid : String) : Except String String := do
  require (isDidKey nodeDid) "node_did must be an Ed25519 did:key"
  let binding ← tradeCanonicalJson (.obj [("node_did", .str nodeDid)])
  return policyIdPrefix ++ H.sha256 binding

/-- The strings of a list, `none` if one of its elements is none. -/
def strings (xs : List Json) : Option (List String) := xs.mapM Json.asStr

/-- The checks of `RuleRecognitionTrustPolicy` on the scopes of an issuer, from the given
    index on. -/
def checkScopes (index : ℕ) : List Json → Except String (List String)
  | [] => return []
  | scope :: scopes => do
    require (index < maxRecognitionScopesPerIssuer) ("issuer rule scopes exceed the " ++
      toString maxRecognitionScopesPerIssuer ++ "-entry limit")
    let text ← expect (scope.asStr.filter fun s =>
        s == "*" || len s ≤ 160 && isNamespaced 30 false (chars s))
      "issuer_rule_scopes contains an invalid rule prefix"
    let texts ← checkScopes (index + 1) scopes
    return text :: texts

/-- The scopes of all issuers. -/
def checkIssuerScopes : List (String × List Json) → Except String (List (List String))
  | [] => return []
  | (_, scopes) :: issuers => do
    let texts ← checkScopes 0 scopes
    require (!texts.isEmpty && texts.Nodup) "issuer rule scopes must be non-empty and unique"
    let rest ← checkIssuerScopes issuers
    return texts :: rest

/-- `RuleRecognitionTrustPolicy.__post_init__` of distinct issuers: the scopes as given. -/
def recognitionTrustPolicy (issuers : List (String × List Json)) (threshold ttl : Json) :
    Except String (List (List String)) := do
  require (issuers.length ≤ maxRecognitionIssuers) ("trusted_issuers exceeds the " ++
    toString maxRecognitionIssuers ++ "-entry limit")
  require (!issuers.isEmpty) ("trusted_issuers must contain 1.." ++ toString maxRecognitionIssuers ++
    " DIDs")
  require (issuers.all fun p => isDidKey p.1) "trusted_issuers contains an invalid DID"
  let _ ← expect (threshold.asInt.filter fun n : ℤ => 1 ≤ n && n ≤ (issuers.length : ℤ))
    "threshold must be an integer within the trusted issuer set"
  let _ ← expect (ttl.asInt.filter fun n => 1 ≤ n && n ≤ maxRecognitionTtlSeconds)
    ("max_statement_ttl_seconds must be an integer in 1.." ++ toString maxRecognitionTtlSeconds)
  checkIssuerScopes issuers

/-- The entries of `trusted_issuers`. -/
def trustedIssuers : List Json → Except String (List (String × List Json))
  | [] => return []
  | entry :: entries => do
    let item ← sameFields entry issuerFields "trusted issuer"
    let issuer ← expect (Json.get item "issuer_did").asStr "trusted issuer DID is invalid"
    let scopes ← expect (match Json.get item "rule_scopes" with
        | .arr xs => some xs
        | _ => none)
      "trusted issuer rule_scopes must be an array"
    let rest ← trustedIssuers entries
    return (issuer, scopes) :: rest

/-- `controllers`: a list of distinct DIDs in order.  Elements of several types cannot be sorted,
    which the source reports as it comes. -/
def policyControllers (value : Json) : Except String (List String) :=
  expect ((match value with
      | .arr xs => strings xs
      | _ => none).filter fun ds =>
      1 ≤ ds.length && ds.length ≤ maxPolicyControllers && ds.Pairwise (· < ·) && ds.all isDidKey)
    "controllers must be a bounded sorted unique DID list"

/-- The predecessor of a revision. -/
def checkPreviousPolicy (sequence : ℤ) (previous : Json) : Except String Unit :=
  if sequence = 1 then
    require (previous == .null) "sequence 1 must not declare previous_policy_digest"
  else require (previous.asStr.any isDigest) "successor policy requires previous_policy_digest"

/-- `_validate`. -/
def validatePolicy (document : Json) : Except String Unit := do
  let value ← sameFields document policyFields "Recognition policy"
  require ((Json.get value "kind").eqStr policyKind) "wrong Recognition policy kind"
  require ((Json.get value "protocol_version").eqStr policyProtocolVersion)
    "unsupported Recognition policy protocol_version"
  let nodeDid ← expect ((Json.get value "node_did").asStr.filter isDidKey)
    "node_did must be an Ed25519 did:key"
  let signerDid ← expect ((Json.get value "signer_did").asStr.filter isDidKey)
    "signer_did must be an Ed25519 did:key"
  let _ ← policyControllers (Json.get value "controllers")
  let policyId ← recognitionPolicyId H nodeDid
  require ((Json.get value "policy_id").eqStr policyId) "policy_id does not bind node_did"
  let sequence ← expect
    ((Json.get value "sequence").asInt.filter fun n => 1 ≤ n && n ≤ maxRecognitionSequence)
    "sequence is invalid"
  checkPreviousPolicy sequence (Json.get value "previous_policy_digest")
  let issuedAt := Json.get value "issued_at"
  let _ ← policyTimestamp issuedAt "issued_at"
  let entries ← expect (match Json.get value "trusted_issuers" with
      | .arr xs => some xs
      | _ => none)
    "trusted_issuers must be an array"
  let issuers ← trustedIssuers entries
  require ((issuers.map Prod.fst).Pairwise (· < ·)) "trusted_issuers must be sorted and unique"
  let scopes ← recognitionTrustPolicy issuers (Json.get value "threshold")
    (Json.get value "max_statement_ttl_seconds")
  require (scopes.all fun texts => texts.Pairwise (· < ·))
    "trusted issuer rule_scopes must be sorted and unique"
  let proof ← sameFields (Json.get value "proof") policyProofFields "proof"
  require ((Json.get proof "type").eqStr policyProofType) "proof.type is invalid"
  require (Json.get proof "created" == issuedAt) "proof.created must equal issued_at"
  let expectedMethod ← verificationMethodForDid signerDid
  require ((Json.get proof "verification_method").eqStr expectedMethod)
    "proof.verification_method does not match signer_did"
  require ((Json.get proof "proof_purpose").eqStr policyProofPurpose) "proof.proof_purpose is invalid"

/-! ## Policies -/

/-- Policies as signed documents. -/
def policyFormat : Format where
  validate := validatePolicy H
  signer := "signer_did"
  domain := policySigningDomain
  refusal reason := reason

/-- `TradeRuleRecognitionPolicy`: a policy verified against its signer. -/
abbrev RecognitionPolicy := SignedDocument H (policyFormat H)

variable {H}

namespace RecognitionPolicy

/-- A field of `to_dict()`. -/
def field (policy : RecognitionPolicy H) (name : String) : Json :=
  Json.get policy.document.fields name

/-- `to_dict()["sequence"]`. -/
def sequence (policy : RecognitionPolicy H) : ℤ := ((policy.field "sequence").asInt).getD 0

/-- `to_dict()["controllers"]`. -/
def controllers (policy : RecognitionPolicy H) : List Json :=
  match policy.field "controllers" with
  | .arr xs => xs
  | _ => []

end RecognitionPolicy

/-- `verify_rule_recognition_policy_successor` of verified policies. -/
def verifyPolicySuccessor (previous successor : RecognitionPolicy H) : Except String Unit := do
  require (successor.field "node_did" == previous.field "node_did") "successor policy changes node_did"
  require (successor.field "policy_id" == previous.field "policy_id")
    "successor policy changes policy_id"
  require (successor.sequence == previous.sequence + 1) "successor policy sequence is not contiguous"
  require ((successor.field "previous_policy_digest").eqStr previous.digest)
    "successor policy predecessor digest mismatch"
  require (previous.controllers.contains (successor.field "signer_did"))
    "successor policy signer is not an authorized controller"
  let successorIssued ← policyTimestamp (successor.field "issued_at") "successor issued_at"
  let previousIssued ← policyTimestamp (previous.field "issued_at") "previous issued_at"
  require (previousIssued ≤ successorIssued) "successor policy predates previous policy"

/-- The sequence of a policy. -/
theorem sequence_eq (policy : RecognitionPolicy H) :
    policy.field "sequence" = .int policy.sequence ∧ 1 ≤ policy.sequence ∧
      policy.sequence ≤ maxRecognitionSequence := by
  have h := policy.valid
  change validatePolicy H policy.document = _ at h
  simp only [validatePolicy, bind_eq_ok, expect_eq_ok, Option.filter_eq_some_iff, Json.asInt_eq_some,
    Bool.and_eq_true, decide_eq_true_eq] at h
  obtain ⟨value, hvalue, -, -, -, -, -, -, -, -, -, -, -, -, -, -, n, ⟨hn, hlo, hhi⟩, -⟩ := h
  have hfield : policy.field "sequence" = .int n := by
    rw [RecognitionPolicy.field, sameFields_eq_ok hvalue]
    exact hn
  have hs : policy.sequence = n := by
    rw [RecognitionPolicy.sequence, hfield]
    rfl
  rw [hs]
  exact ⟨hfield, hlo, hhi⟩

/-- What holds on an edge. -/
theorem verifyPolicySuccessor_eq_ok {previous successor : RecognitionPolicy H} {u : Unit}
    (h : verifyPolicySuccessor previous successor = .ok u) :
    successor.sequence = previous.sequence + 1 ∧
      successor.field "previous_policy_digest" = .str previous.digest ∧
        successor.field "signer_did" ∈ previous.controllers := by
  simp only [verifyPolicySuccessor, require_bind_eq_ok, beq_iff_eq, Json.eqStr_iff] at h
  exact ⟨h.2.2.1, h.2.2.2.1, by simpa using h.2.2.2.2.1⟩

end NthDao.TradeRules
