/-
  Recognitions of Trade Rule Packages (`nth_dao/trade_rules/recognition.py`).

  * `validateRecognition` and `RuleRecognition`: the checks of a statement, and a statement
    verified against its issuer;
  * `TrustPolicy`: a `RuleRecognitionTrustPolicy` whose checks have passed;
  * `recognitionChain` and `issuerState`: the statements of one issuer in order, and what they say
    at a time (`_issuer_state`);
  * `gather` and `evaluate`: the loop over the items, and `evaluate_rule_recognition`.

  Times are microseconds, in place of their texts.  `copies` says of which values
  `copy.deepcopy` returns; on the others, nested too deeply, it raises `RecursionError`.
-/
import NthDao.Py.Group
import NthDao.TradeRules.Package
import NthDao.TradeRules.Policy

namespace NthDao.TradeRules

open Py

/-! ## Constants -/

def recognitionKind : String := "nth.dao.trade.rule-recognition"
def recognitionProtocolVersion : String := "1"
def recognitionProofType : String := "NthEd25519SignatureV1"
def recognitionProofPurpose : String := "tradeRuleRecognition"
def recognitionSigningDomain : Bytes := utf8 (chars "nth-dao/trade-rule-recognition/v1")
def recognitionIdPrefix : String := "nth-trade-recognition-sha256:"
def recognitionDecisions : List String := ["recognized", "deprecated", "revoked"]
def maxRecognitionReasons : ℕ := 32
def maxRecognitionStatements : ℕ := 16384
def recognitionFields : List String :=
  ["kind", "protocol_version", "recognition_id", "rule_id", "package_digest", "issuer_did",
    "sequence", "previous_statement_digest", "decision", "reason_codes", "issued_at", "not_after",
    "proof"]

/-! ## Checks -/

/-- `_timestamp`. -/
def recognitionTimestamp (value : Json) (label : String) : Except String ℕ :=
  canonicalTimestamp value label " must be a canonical UTC RFC3339 timestamp"

/-- `_REASON.fullmatch`. -/
def isReason (s : String) : Bool :=
  match chars s with
  | [] => false
  | c :: r => ('a' ≤ c && c ≤ 'z') && r.length ≤ 127 &&
    r.all fun d => isLowerAlnum d || d == '.' || d == '_' || d == ':' || d == '-'

/-- `_RECOGNITION_ID.fullmatch`. -/
def isRecognitionId (s : String) : Bool :=
  startsWith recognitionIdPrefix s && isHex 64 ((chars s).drop recognitionIdPrefix.length)

/-- `_digest`. -/
def recognitionDigest (value : Json) (label : String) : Except String String :=
  expect (value.asStr.filter isDigest) (label ++ " must be a lowercase sha256 digest")

variable (H : Host)

/-- `_recognition_id`. -/
def recognitionId (ruleId packageDigest issuerDid : String) : Except String String := do
  let binding ← tradeCanonicalJson (.obj [("issuer_did", .str issuerDid),
    ("package_digest", .str packageDigest), ("rule_id", .str ruleId)])
  return recognitionIdPrefix ++ H.sha256 binding

/-- The predecessor of a statement. -/
def checkPreviousStatement (sequence : ℤ) (previous : Json) : Except String Unit :=
  if sequence = 1 then
    require (previous == .null) "the first recognition statement cannot have a predecessor"
  else (recognitionDigest previous "previous_statement_digest").map fun _ => ()

/-- `reason_codes`: tokens in order, each once.  Elements of several types cannot be sorted,
    which the source reports as it comes. -/
def recognitionReasons (value : Json) : Except String (List String) :=
  expect ((match value with
      | .arr xs => strings xs
      | _ => none).filter fun rs =>
      rs.length ≤ maxRecognitionReasons && rs.Pairwise (· < ·) && rs.all isReason)
    "reason_codes must be a bounded sorted unique token list"

/-- `_validate`. -/
def validateRecognition (document : Json) : Except String Unit := do
  let value ← sameFields document recognitionFields "rule recognition"
  require ((Json.get value "kind").eqStr recognitionKind) "wrong rule recognition kind"
  require ((Json.get value "protocol_version").eqStr recognitionProtocolVersion)
    "unsupported rule recognition protocol_version"
  let id ← expect ((Json.get value "recognition_id").asStr.filter isRecognitionId)
    "recognition_id is invalid"
  let ruleId ← expect ((Json.get value "rule_id").asStr.filter fun s =>
      len s ≤ 160 && isNamespaced 30 false (chars s))
    "rule_id is invalid"
  let packageDigest ← recognitionDigest (Json.get value "package_digest") "package_digest"
  let issuerDid ← expect ((Json.get value "issuer_did").asStr.filter isDidKey)
    "issuer_did must be an Ed25519 did:key"
  let sequence ← expect
    ((Json.get value "sequence").asInt.filter fun n => 1 ≤ n && n ≤ maxRecognitionSequence)
    "sequence is invalid"
  checkPreviousStatement sequence (Json.get value "previous_statement_digest")
  let decision := Json.get value "decision"
  let known ← memberOf decision recognitionDecisions
  require known "decision is invalid"
  let reasons ← recognitionReasons (Json.get value "reason_codes")
  require (decision.eqStr "recognized" || !reasons.isEmpty)
    "deprecated and revoked statements require a reason code"
  let issuedAt ← recognitionTimestamp (Json.get value "issued_at") "issued_at"
  let notAfter ← recognitionTimestamp (Json.get value "not_after") "not_after"
  require (issuedAt < notAfter) "not_after must be later than issued_at"
  let expectedId ← recognitionId H ruleId packageDigest issuerDid
  require (id == expectedId) "recognition_id binding mismatch"
  let proof ← sameFields (Json.get value "proof") policyProofFields "proof"
  require ((Json.get proof "type").eqStr recognitionProofType) "proof.type is invalid"
  require (Json.get proof "created" == Json.get value "issued_at")
    "proof.created must equal issued_at"
  let expectedMethod ← verificationMethodForDid issuerDid
  require ((Json.get proof "verification_method").eqStr expectedMethod)
    "proof.verification_method does not match issuer_did"
  require ((Json.get proof "proof_purpose").eqStr recognitionProofPurpose)
    "proof.proof_purpose is invalid"

/-! ## Statements -/

/-- Recognitions as signed documents. -/
def recognitionFormat : Format where
  validate := validateRecognition H
  signer := "issuer_did"
  domain := recognitionSigningDomain
  refusal reason := reason

/-- `TradeRuleRecognition`: a statement verified against its issuer. -/
abbrev RuleRecognition := SignedDocument H (recognitionFormat H)

variable {H}

namespace RuleRecognition

/-- A field of `to_dict()`. -/
def field (s : RuleRecognition H) (name : String) : Json := Json.get s.document.fields name

def issuerDid (s : RuleRecognition H) : String := ((s.field "issuer_did").asStr).getD ""

def sequence (s : RuleRecognition H) : ℤ := ((s.field "sequence").asInt).getD 0

/-- The time of `issued_at`, which a verified statement has (`issuedAt_eq`). -/
def issuedAt (s : RuleRecognition H) : ℕ :=
  ((recognitionTimestamp (s.field "issued_at") "issued_at").toOption).getD 0

/-- The time of `not_after`. -/
def notAfter (s : RuleRecognition H) : ℕ :=
  ((recognitionTimestamp (s.field "not_after") "not_after").toOption).getD 0

/-- What `_validate` says of a statement. -/
theorem valid_fields (s : RuleRecognition H) :
    s.field "issuer_did" = .str s.issuerDid ∧ s.field "sequence" = .int s.sequence ∧
      recognitionTimestamp (s.field "issued_at") "issued_at" = .ok s.issuedAt ∧
        recognitionTimestamp (s.field "not_after") "not_after" = .ok s.notAfter ∧
          s.issuedAt < s.notAfter := by
  have h := s.valid
  change validateRecognition H s.document = _ at h
  simp only [validateRecognition, bind_eq_ok, expect_eq_ok, Option.filter_eq_some_iff,
    Json.asInt_eq_some, Json.asStr_eq_some, require_eq_ok, decide_eq_true_eq] at h
  obtain ⟨value, hvalue, -, -, -, -, -, -, -, -, -, -, issuer, ⟨hissuer, -⟩, n, ⟨hn, -⟩, -, -, -, -, -,
    -, -, -, -, -, issued, hissued, notAfter, hafter, -, hlt, -⟩ := h
  have hfields : s.document.fields = value := by rw [sameFields_eq_ok hvalue, Json.fields_obj]
  have hi : s.issuedAt = issued := by rw [issuedAt, field, hfields, hissued]; rfl
  have ha : s.notAfter = notAfter := by rw [RuleRecognition.notAfter, field, hfields, hafter]; rfl
  refine ⟨?_, ?_, ?_, ?_, ?_⟩
  · rw [issuerDid, field, hfields, hissuer]
    rfl
  · rw [sequence, field, hfields, hn]
    rfl
  · rw [hi, field, hfields, hissued]
  · rw [ha, field, hfields, hafter]
  · rw [hi, ha]
    exact hlt

end RuleRecognition

/-- The digests of a manifest and of its rule. -/
def TradeRuleManifest.ruleId (manifest : TradeRuleManifest H) : String :=
  ((Json.get manifest.document.fields "rule_id").asStr).getD ""

/-- `_assert_recognition_binding`. -/
def assertRecognitionBinding (s : RuleRecognition H) (package : RulePackage H) :
    Except String Unit := do
  require ((s.field "package_digest").eqStr package.digest)
    "recognition package_digest does not match Rule Package"
  require ((s.field "rule_id").eqStr package.manifest.ruleId)
    "recognition rule_id does not match Rule Package"

/-! ## Policies -/

/-- `RuleRecognitionTrustPolicy`: the scopes of the trusted issuers, in order. -/
structure TrustPolicy where
  issuerRuleScopes : List (String × List String)
  threshold : ℕ
  maxStatementTtlSeconds : ℕ
  sorted : (issuerRuleScopes.map Prod.fst).Pairwise (· < ·)
  isDid : ∀ p ∈ issuerRuleScopes, isDidKey p.1 = true
  length_le : issuerRuleScopes.length ≤ maxRecognitionIssuers
  scopes : ∀ p ∈ issuerRuleScopes, p.2 ≠ [] ∧ p.2.Pairwise (· < ·) ∧
    p.2.length ≤ maxRecognitionScopesPerIssuer ∧
      ∀ s ∈ p.2, s = "*" ∨ len s ≤ 160 ∧ isNamespaced 30 false (chars s) = true
  threshold_pos : 1 ≤ threshold
  threshold_le : threshold ≤ issuerRuleScopes.length
  ttl_pos : 1 ≤ maxStatementTtlSeconds
  ttl_le : (maxStatementTtlSeconds : ℤ) ≤ maxRecognitionTtlSeconds

namespace TrustPolicy

/-- `sorted(policy.trusted_issuers)`. -/
def trustedIssuers (policy : TrustPolicy) : List String := policy.issuerRuleScopes.map Prod.fst

/-- `allows`. -/
def allows (policy : TrustPolicy) (issuer ruleId : String) : Bool :=
  (((policy.issuerRuleScopes.find? fun p => p.1 == issuer).map Prod.snd).getD []).any fun scope =>
    scope == "*" || ruleId == scope || startsWith (scope ++ ".") ruleId ||
      startsWith (scope ++ "/") ruleId

end TrustPolicy

/-! ## The state of an issuer -/

/-- `RuleRecognitionIssuerState`. -/
structure IssuerState where
  issuerDid : String
  status : String
  decision : Option Json := none
  sequence : Option ℤ := none
  headDigest : Option String := none
  expiresAt : Option ℕ := none
  deriving DecidableEq

/-- The statements by their digests. -/
def uniqueStatements (statements : List (RuleRecognition H)) : Py.Dict String (RuleRecognition H) :=
  Dict.keyed (fun s => s.digest) statements

/-- `by_sequence`. -/
def bySequence (statements : List (RuleRecognition H)) : Py.Dict ℤ (List (RuleRecognition H)) :=
  Dict.group RuleRecognition.sequence ((uniqueStatements statements).map Prod.snd) []

/-- A statement joins the one before it. -/
def joins (previous : Option (RuleRecognition H)) (current : RuleRecognition H) : Bool :=
  match previous with
  | none => current.field "previous_statement_digest" == .null
  | some previous => (current.field "previous_statement_digest").eqStr previous.digest &&
    previous.issuedAt ≤ current.issuedAt

/-- The loop over the sequence numbers, from the expected one on; the error is the status. -/
def followChain (candidates : ℤ → List (RuleRecognition H)) (expected : ℤ)
    (previous : Option (RuleRecognition H)) : List ℤ → Except String (List (RuleRecognition H))
  | [] => .ok []
  | sequence :: sequences => do
    require (sequence == expected) "incomplete"
    match candidates sequence with
    | [current] => do
      require (joins previous current) "conflicted"
      let ordered ← followChain candidates (expected + 1) (some current) sequences
      return current :: ordered
    | _ => .error "conflicted"

/-- The statements of an issuer in order. -/
def recognitionChain (statements : List (RuleRecognition H)) : Except String (List (RuleRecognition H)) :=
  let d := bySequence statements
  if !d.has 1 then .error "incomplete"
  else followChain d.members 1 none ((d.map Prod.fst).insertionSort (· ≤ ·))

/-- The last statement that is issued by a time. -/
def effectiveAt (ordered : List (RuleRecognition H)) (moment : ℕ) : Option (RuleRecognition H) :=
  ordered.reverse.find? fun s => s.issuedAt ≤ moment

/-- The status of the effective statement. -/
def statusOf (maxTtl moment : ℕ) (s : RuleRecognition H) : String :=
  if maxTtl * 1000000 < s.notAfter - s.issuedAt then "policy_rejected"
  else if s.notAfter ≤ moment then "expired"
  else "current"

/-- The state that a statement gives. -/
def stateOf (issuer status : String) (s : RuleRecognition H) : IssuerState where
  issuerDid := issuer
  status := status
  decision := some (s.field "decision")
  sequence := some s.sequence
  headDigest := some s.digest
  expiresAt := some s.notAfter

/-- `_issuer_state`. -/
def issuerState (issuer : String) (statements : List (RuleRecognition H)) (moment maxTtl : ℕ) :
    IssuerState :=
  match recognitionChain statements with
  | .error status => { issuerDid := issuer, status := status }
  | .ok ordered =>
    match effectiveAt ordered moment with
    | some s => stateOf issuer (statusOf maxTtl moment s) s
    | none =>
      match ordered.getLast? with
      | some latest => stateOf issuer "not_yet_active" latest
      | none => { issuerDid := issuer, status := "incomplete" }

/-! ## The evaluation -/

variable (H) in
/-- What is evaluated: statements, and values that come from anywhere. -/
inductive RecognitionItem where
  | statement (s : RuleRecognition H)
  | value (v : Json)

/-- The exceptions of the evaluation. -/
inductive RecognitionError where
  | rejected (text : String)
  | type (text : String)
  | recursion

variable (H) in
/-- What becomes of an item. -/
inductive Verdict where
  | ignored
  | quarantined
  | kept (s : RuleRecognition H)

/-- `raw.to_dict()` of a statement, and an object as it is. -/
def RecognitionItem.inspected : RecognitionItem H → Option Fields
  | .statement s => some s.document.fields
  | .value (.obj kvs) => some kvs
  | .value _ => none

/-- `_verified_statement` with `_assert_recognition_binding`. -/
def RecognitionItem.verified (copies : Json → Bool) (package : RulePackage H) :
    RecognitionItem H → Except RecognitionError (RuleRecognition H)
  | .statement s => (do
      let s ← SignedDocument.fromJson H (recognitionFormat H) s.canonicalBytes
      assertRecognitionBinding s package
      return s).mapError .rejected
  | .value v => do
    require (copies v) .recursion
    (do
      let s ← SignedDocument.fromDict H (recognitionFormat H) v
      assertRecognitionBinding s package
      return s).mapError .rejected

/-- The items that get as far as the verification: by a trusted issuer in scope, for this
    package. -/
def concerns (package : RulePackage H) (policy : TrustPolicy) (inspected : Fields) :
    Except RecognitionError Bool := do
  let issuer := Json.get inspected "issuer_did"
  let trusted ← (memberOf issuer policy.trustedIssuers).mapError .type
  return trusted && (Json.get inspected "package_digest").eqStr package.digest &&
    policy.allows (issuer.asStr.getD "") package.manifest.ruleId

/-- The body of the loop over the items. -/
def examine (copies : Json → Bool) (package : RulePackage H) (policy : TrustPolicy) (strict : Bool)
    (raw : RecognitionItem H) : Except RecognitionError (Verdict H) :=
  match raw.inspected with
  | none =>
    if strict then .error (.rejected "recognition statement must be an object")
    else .ok .quarantined
  | some inspected => do
    if ← concerns package policy inspected then
      match raw.verified copies package with
      | .ok s => return .kept s
      | .error (.rejected text) =>
        if strict then .error (.rejected text) else return .quarantined
      | .error e => .error e
    else return .ignored

variable (H) in
/-- What the loop collects. -/
structure Gathered where
  grouped : Py.Dict String (List (RuleRecognition H)) := []
  quarantined : List ℕ := []

/-- One item more. -/
def Gathered.add (g : Gathered H) (index : ℕ) : Verdict H → Gathered H
  | .ignored => g
  | .quarantined => { g with quarantined := g.quarantined ++ [index] }
  | .kept s => { g with grouped := g.grouped.set s.issuerDid (g.grouped.members s.issuerDid ++ [s]) }

/-- The loop over the items, from the given index on. -/
def gather (copies : Json → Bool) (package : RulePackage H) (policy : TrustPolicy) (strict : Bool)
    (index : ℕ) (g : Gathered H) : List (RecognitionItem H) → Except RecognitionError (Gathered H)
  | [] => .ok g
  | raw :: items => do
    require (index < maxRecognitionStatements)
      (.rejected "recognition statement set exceeds its limit")
    let verdict ← examine copies package policy strict raw
    gather copies package policy strict (index + 1) (g.add index verdict) items

/-- `RuleRecognitionSnapshot`. -/
structure RecognitionSnapshot where
  packageDigest : String
  ruleId : String
  evaluatedAt : ℕ
  threshold : ℕ
  observedQuorumMet : Bool
  quorumValidUntil : Option ℕ
  recognizedBy : List String
  deprecatedBy : List String
  revokedBy : List String
  expiredIssuers : List String
  incompleteIssuers : List String
  conflictedIssuers : List String
  scopeExcludedIssuers : List String
  quarantinedStatementIndexes : List ℕ
  issuerStates : List IssuerState
  deriving DecidableEq

/-- The state of each issuer that is trusted. -/
def stateAt (package : RulePackage H) (policy : TrustPolicy)
    (grouped : Py.Dict String (List (RuleRecognition H))) (moment : ℕ) (issuer : String) :
    IssuerState :=
  match grouped.members issuer with
  | [] =>
    if !policy.allows issuer package.manifest.ruleId then
      { issuerDid := issuer, status := "out_of_scope" }
    else { issuerDid := issuer, status := "missing" }
  | statements => issuerState issuer statements moment policy.maxStatementTtlSeconds

/-- `issuers_for` of a status. -/
def issuersFor (states : List IssuerState) (status : String) : List String :=
  (states.filter fun s => s.status == status).map IssuerState.issuerDid

/-- The state is current, with this decision. -/
def IssuerState.currently (decision : String) (s : IssuerState) : Bool :=
  s.status == "current" && s.decision == some (.str decision)

/-- `issuers_for` of current statements with a decision. -/
def issuersDeciding (states : List IssuerState) (decision : String) : List String :=
  (states.filter (IssuerState.currently decision)).map IssuerState.issuerDid

/-- `recognized_expiries`: the latest first. -/
def recognizedExpiries (states : List IssuerState) : List ℕ :=
  ((states.filter (IssuerState.currently "recognized")).filterMap
    IssuerState.expiresAt).insertionSort (· ≥ ·)

/-- The snapshot of the states. -/
def snapshotOf (package : RulePackage H) (policy : TrustPolicy) (g : Gathered H) (moment : ℕ) :
    RecognitionSnapshot :=
  let states := policy.trustedIssuers.map (stateAt package policy g.grouped moment)
  let recognized := issuersDeciding states "recognized"
  let quorumMet := decide (policy.threshold ≤ recognized.length)
  { packageDigest := package.digest
    ruleId := package.manifest.ruleId
    evaluatedAt := moment
    threshold := policy.threshold
    observedQuorumMet := quorumMet
    quorumValidUntil := if quorumMet then (recognizedExpiries states)[policy.threshold - 1]? else none
    recognizedBy := recognized
    deprecatedBy := issuersDeciding states "deprecated"
    revokedBy := issuersDeciding states "revoked"
    expiredIssuers := issuersFor states "expired"
    incompleteIssuers := (states.filter fun s =>
      ["incomplete", "not_yet_active", "policy_rejected"].contains s.status).map IssuerState.issuerDid
    conflictedIssuers := issuersFor states "conflicted"
    scopeExcludedIssuers := issuersFor states "out_of_scope"
    quarantinedStatementIndexes := g.quarantined
    issuerStates := states }

/-- `evaluate_rule_recognition` of a verified package. -/
def evaluate (copies : Json → Bool) (package : RulePackage H) (policy : TrustPolicy) (strict : Bool)
    (moment : ℕ) (items : List (RecognitionItem H)) : Except RecognitionError RecognitionSnapshot := do
  let g ← gather copies package policy strict 0 {} items
  return snapshotOf package policy g moment

/-! ## Recognitions to run the model on -/

/-- The digest of a document that is signed. -/
def sealedDigest (document : Json) : String :=
  "sha256:" ++ checksumHost.sha256 ((tradeCanonicalJson document).toOption.getD [])

theorem digest_of_fromDict {F : Format} {v : Json} {d : SignedDocument checksumHost F}
    (h : SignedDocument.fromDict checksumHost F v = .ok d) : d.digest = sealedDigest v := by
  rw [SignedDocument.digest, sealedDigest, (SignedDocument.fromDict_eq_ok.1 h).2]
  rfl

/-- What the samples are made of, with the values that the host computes. -/
def teaIssuer : String := "did:key:z6MkeXBLjYiSvqnhFb6D7sHm8yKm4jV45wwBFRaatf1cfZ76"
def teaDigest : String := "sha256:0000000000000000000000000000000000000000000000003eb40c5ff05e3e42"
def teaRecognitionId : String :=
  "nth-trade-recognition-sha256:000000000000000000000000000000000000000000000000bab96e0d776a49c8"
def firstDigest : String := "sha256:0000000000000000000000000000000000000000000000002718b58708d01edf"

theorem teaIssuer_eq : teaIssuer = sampleDid := by decide +kernel

theorem teaDigest_eq : sealedDigest sampleManifest = teaDigest := by decide +kernel

/-- The draft of a statement about the package of tea. -/
def recognitionDraft (sequence : ℤ) (previous : Json) (decision : String) (reasons : List Json)
    (issuedAt notAfter : String) : Json := .obj
  [("kind", .str recognitionKind), ("protocol_version", .str recognitionProtocolVersion),
    ("recognition_id", .str teaRecognitionId), ("rule_id", .str "org.example/tea"),
    ("package_digest", .str teaDigest), ("issuer_did", .str teaIssuer), ("sequence", .int sequence),
    ("previous_statement_digest", previous), ("decision", .str decision),
    ("reason_codes", .arr reasons), ("issued_at", .str issuedAt), ("not_after", .str notAfter),
    ("proof", .obj [("type", .str recognitionProofType), ("created", .str issuedAt),
      ("verification_method", .str (teaIssuer ++ "#" ++ String.ofList ((chars teaIssuer).drop 8))),
      ("proof_purpose", .str recognitionProofPurpose), ("proof_value", .str "")])]

/-- A recognition, and its revocation a day later. -/
def firstDraft : Json :=
  recognitionDraft 1 .null "recognized" [] "2026-08-01T00:00:00Z" "2026-08-20T00:00:00Z"

def firstRecognition : Json := sealDocument (recognitionFormat checksumHost) sampleKey firstDraft

def secondDraft : Json :=
  recognitionDraft 2 (.str firstDigest) "revoked" [.str "policy.withdrawn"] "2026-08-02T00:00:00Z"
    "2026-08-20T00:00:00Z"

def secondRecognition : Json := sealDocument (recognitionFormat checksumHost) sampleKey secondDraft

/-- What the two statements compute. -/
theorem teaStatements_checked :
    ((sealChecks (recognitionFormat checksumHost) sampleKey firstDraft &&
        sealChecks (recognitionFormat checksumHost) sampleKey secondDraft) = true) ∧
      sealedDigest firstRecognition = firstDigest ∧ sealedDigest secondRecognition ≠ firstDigest := by
  decide +kernel

theorem signer_recognitionDraft (sequence : ℤ) (previous : Json) (decision : String)
    (reasons : List Json) (issuedAt notAfter : String) :
    Json.get (recognitionDraft sequence previous decision reasons issuedAt notAfter).fields
      "issuer_did" = .str sampleDid := by
  rw [← teaIssuer_eq]
  rfl

def firstDraftSealable : Sealable (recognitionFormat checksumHost) sampleKey firstDraft :=
  .ofChecks (signer_recognitionDraft _ _ _ _ _ _) (Bool.and_eq_true_iff.1 teaStatements_checked.1).1

def secondDraftSealable : Sealable (recognitionFormat checksumHost) sampleKey secondDraft :=
  .ofChecks (signer_recognitionDraft _ _ _ _ _ _) (Bool.and_eq_true_iff.1 teaStatements_checked.1).2

/-- A package of tea. -/
theorem exists_teaPackage : ∃ package : RulePackage checksumHost,
    package.digest = teaDigest ∧ package.manifest.ruleId = "org.example/tea" := by
  obtain ⟨m, hm, hdoc⟩ := exists_sampleManifest
  have hresources : m.resources = [(sampleResourceDigest, 3)] := by
    rw [TradeRuleManifest.resources, hdoc, sampleManifest, sampleManifestSealable.get_norm (by decide)]
    rfl
  have hprovides : Provides checksumHost (sampleResourceDigest, 3) sampleResource := ⟨rfl, rfl⟩
  refine ⟨⟨m, [(sampleResourceDigest, sampleResource)], checkPackage_of_provides ?_ ?_ ?_⟩, ?_, ?_⟩
  · exact List.nodup_singleton _
  · intro r hr
    rw [hresources, List.mem_singleton] at hr
    subst hr
    exact ⟨sampleResource, by rw [Dict.get, List.find?_cons_of_pos (by simp)]; rfl, hprovides⟩
  · intro d hd
    rw [hresources]
    exact hd
  · exact (digest_of_fromDict hm).trans teaDigest_eq
  · rw [TradeRuleManifest.ruleId, hdoc, sampleManifest, sampleManifestSealable.get_norm (by decide)]
    rfl

/-- What the sample statements say. -/
theorem exists_teaStatements : ∃ first second : RuleRecognition checksumHost,
    (∀ name, name ≠ "proof" → first.field name = (Json.get firstDraft.fields name).norm) ∧
      (∀ name, name ≠ "proof" → second.field name = (Json.get secondDraft.fields name).norm) ∧
        first.digest = firstDigest ∧ second.digest ≠ firstDigest := by
  obtain ⟨first, hf, hfirst⟩ := firstDraftSealable.exists_document (by decide)
  obtain ⟨second, hs, hsecond⟩ := secondDraftSealable.exists_document (by decide)
  refine ⟨first, second, fun name hname => ?_, fun name hname => ?_, ?_, ?_⟩
  · rw [RuleRecognition.field, hfirst, firstDraftSealable.get_norm hname]
  · rw [RuleRecognition.field, hsecond, secondDraftSealable.get_norm hname]
  · exact (digest_of_fromDict hf).trans teaStatements_checked.2.1
  · rw [digest_of_fromDict hs]
    exact teaStatements_checked.2.2

/-- A policy that trusts the issuer of the samples. -/
def teaPolicy : TrustPolicy where
  issuerRuleScopes := [(teaIssuer, ["*"])]
  threshold := 1
  maxStatementTtlSeconds := 2592000
  sorted := List.pairwise_singleton _ _
  isDid := by decide +kernel
  length_le := by decide
  scopes := by decide +kernel
  threshold_pos := by decide
  threshold_le := by decide
  ttl_pos := by decide
  ttl_le := by decide

end NthDao.TradeRules
