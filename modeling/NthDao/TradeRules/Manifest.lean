/-
  Signed Trade Rule Manifests v1 (`nth_dao/trade_rules/manifest.py`).

  * `uniqueStrings`, `manifestRuleRefs`, `manifestResources`, `manifestHooks`,
    `manifestCommon` and `manifestComplete`: the checks on the fields, with their texts;
  * `TradeRuleManifest`: a manifest verified against its publisher, and
    `TradeRuleManifest.resources` the digests and sizes that it declares.

  * `resources_valid`: a manifest declares at most 128 resources, each with a digest and
    a size within the limit;
  * `exists_sampleManifest`: a manifest to run the model on.
-/
import NthDao.TradeRules.Offer

namespace NthDao.TradeRules

open Py

/-! ## Constants -/

def manifestKind : String := "org.nthdao.trade.rule-manifest"
def manifestProtocolVersion : String := "1.0"
def manifestProofType : String := "NthEd25519SignatureV1"
def manifestProofPurpose : String := "assertionMethod"
def manifestSigningDomain : Bytes := utf8 (chars "NTH-TRADE-RULE-MANIFEST-V1")
def maxResourceBytes : ℕ := 1048576
def maxPackageResourceBytes : ℕ := 16777216
def manifestTopLevelFields : List String :=
  ["kind", "protocol_version", "rule_id", "version", "publisher_did", "summary", "applies_to",
    "families", "resources", "dependencies", "conflicts", "required_capabilities",
    "hook_contracts", "execution", "published_at", "not_after", "extensions", "proof"]
def resourceFields : List String := ["purpose", "media_type", "digest", "size"]
def hookFields : List String :=
  ["name", "version", "input_schema_digest", "output_schema_digest", "side_effect", "permissions"]
def executionFields : List String := ["mode", "permissions"]
def manifestExecutionModes : List String :=
  ["declarative", "adapter", "sandboxed_wasm", "external_service"]
def sideEffects : List String := ["none", "local", "external", "funds"]

/-! ## Patterns -/

/-- `0|[1-9][0-9]*`. -/
def isPlainNumber (cs : List Char) : Bool :=
  match cs with
  | [] => false
  | c :: r => (c :: r).all Char.isDigit && (c != '0' || r.isEmpty)

/-- `[0-9A-Za-z-]+`. -/
def isVersionWord (cs : List Char) : Bool := !cs.isEmpty && cs.all fun c => c.isAlphanum || c == '-'

/-- A part of a pre-release: a word, and no number with a zero in front. -/
def isPreRelease (cs : List Char) : Bool :=
  isVersionWord cs && (!cs.all Char.isDigit || isPlainNumber cs)

/-- `_VERSION.fullmatch`. -/
def isVersion (s : String) : Bool :=
  let front := (chars s).takeWhile (· != '+')
  let numbers := (front.takeWhile (· != '-')).splitOn '.'
  numbers.length == 3 && numbers.all isPlainNumber &&
    (match front.dropWhile (· != '-') with
      | [] => true
      | _ :: pre => (pre.splitOn '.').all isPreRelease) &&
    match (chars s).dropWhile (· != '+') with
    | [] => true
    | _ :: build => (build.splitOn '.').all isVersionWord

/-- `[a-z0-9!#$&^_.+-]`. -/
def isMediaChar (c : Char) : Bool := isLowerAlnum c || "!#$&^_.+-".toList.contains c

/-- `_MEDIA_TYPE.fullmatch`. -/
def isMediaType (s : String) : Bool :=
  match (chars s).splitOn '/' with
  | [type, subtype] => !type.isEmpty && type.all isMediaChar && !subtype.isEmpty && subtype.all isMediaChar
  | _ => false

/-! ## Checks -/

variable (H : Host)

/-- The elements of a list within the bounds. -/
def boundedList (value : Json) (minimum maximum : ℕ) (text : String) : Except String (List Json) :=
  expect (match value with
      | .arr xs => if minimum ≤ xs.length && xs.length ≤ maximum then some xs else none
      | _ => none)
    text

/-- The tokens of a list, from the given index on. -/
def tokens (label : String) (index : ℕ) : List Json → Except String (List String)
  | [] => return []
  | item :: items => do
    let text ← token item (label ++ "[" ++ toString index ++ "]") 160
    let texts ← tokens label (index + 1) items
    return text :: texts

/-- `_unique_strings`. -/
def uniqueStrings (value : Json) (label : String) (minimum maximum : ℕ) :
    Except String (List String) := do
  let items ← boundedList value minimum maximum
    (label ++ " must contain " ++ toString minimum ++ ".." ++ toString maximum ++ " entries")
  let output ← tokens label 0 items
  require output.Nodup (label ++ " contains duplicate entries")
  require (output.Pairwise (· ≤ ·)) (label ++ " must be sorted")
  return output

/-- `_rule_id`. -/
def ruleIdField (value : Json) (label : String) : Except String String := do
  let text ← boundedString value label 3 160
  require (isNamespaced 30 false (chars text)) (label ++ " is invalid")
  return text

/-- Pairs in order. -/
def PairsSorted (order : List (String × String)) : Prop :=
  order.Pairwise fun p q => p.1 < q.1 ∨ p.1 = q.1 ∧ p.2 ≤ q.2

instance (order : List (String × String)) : Decidable (PairsSorted order) :=
  inferInstanceAs (Decidable (List.Pairwise _ _))

/-- The loop over rule references, from the given index on, with those seen. -/
def ruleRefEntries (label : String) (index : ℕ) (seen : List (String × String)) :
    List Json → Except String (List (String × String))
  | [] => return seen
  | raw :: raws => do
    let label' := label ++ "[" ++ toString index ++ "]"
    let item ← exactFields H raw ruleRefFields label'
    let ruleId ← ruleIdField (Json.get item "rule_id") (label' ++ ".rule_id")
    let digest ← digestField (Json.get item "digest") (label' ++ ".digest")
    require (!seen.contains (ruleId, digest)) (label ++ " contains duplicate entries")
    ruleRefEntries label (index + 1) (seen ++ [(ruleId, digest)]) raws

/-- `_validate_rule_refs` of a manifest. -/
def manifestRuleRefs (value : Json) (label : String) : Except String (List (String × String)) := do
  let raws ← boundedList value 0 64 (label ++ " must be a list with at most 64 entries")
  let order ← ruleRefEntries H label 0 [] raws
  require (PairsSorted order) (label ++ " must be sorted by rule_id and digest")
  return order

/-- A size within the limit. -/
def sizeField (value : Json) (text : String) : Except String ℕ :=
  (expect (value.asInt.filter fun n : ℤ => 0 ≤ n && n ≤ maxResourceBytes) text).map Int.toNat

/-- The loop over resources, from the given index on, with the keys seen and their sizes. -/
def resourceEntries (index : ℕ) (seen : List (String × String)) (total : ℕ) :
    List Json → Except String (List (String × String))
  | [] => return seen
  | raw :: raws => do
    let label := "resources[" ++ toString index ++ "]"
    let item ← exactFields H raw resourceFields label
    let purpose ← token (Json.get item "purpose") (label ++ ".purpose") 160
    let mediaType ← boundedString (Json.get item "media_type") (label ++ ".media_type") 1 128
    require (isMediaType mediaType) (label ++ ".media_type is invalid")
    let digest ← digestField (Json.get item "digest") (label ++ ".digest")
    let size ← sizeField (Json.get item "size") (label ++ ".size is invalid")
    require (total + size ≤ maxPackageResourceBytes) "declared package resources exceed byte limit"
    require (!seen.contains (purpose, digest)) "resources contains duplicate purpose/digest entries"
    resourceEntries (index + 1) (seen ++ [(purpose, digest)]) (total + size) raws

/-- `_validate_resources`. -/
def manifestResources (value : Json) : Except String Unit := do
  let raws ← boundedList value 1 128 "resources must contain 1..128 entries"
  let order ← resourceEntries H 0 [] 0 raws
  require (PairsSorted order) "resources must be sorted by purpose and digest"

/-- The loop over hooks, from the given index on, with the keys seen and the permissions. -/
def hookEntries (index : ℕ) (seen : List (String × String)) (permissions : List String) :
    List Json → Except String (List (String × String) × List String)
  | [] => return (seen, permissions)
  | raw :: raws => do
    let label := "hook_contracts[" ++ toString index ++ "]"
    let item ← exactFields H raw hookFields label
    let name ← token (Json.get item "name") (label ++ ".name") 160
    let version ← token (Json.get item "version") (label ++ ".version") 32
    let _ ← digestField (Json.get item "input_schema_digest") (label ++ ".input_schema_digest")
    let _ ← digestField (Json.get item "output_schema_digest") (label ++ ".output_schema_digest")
    require ((Json.get item "side_effect").asStr.any sideEffects.contains)
      (label ++ ".side_effect is invalid")
    let hookPermissions ← uniqueStrings (Json.get item "permissions") (label ++ ".permissions") 0 64
    require (!seen.contains (name, version)) "hook_contracts contains duplicate name/version entries"
    hookEntries (index + 1) (seen ++ [(name, version)]) (permissions ++ hookPermissions) raws

/-- `_validate_hooks`: the permissions that the hooks require. -/
def manifestHooks (value : Json) : Except String (List String) := do
  let raws ← boundedList value 0 32 "hook_contracts must be a list with at most 32 entries"
  let (order, permissions) ← hookEntries H 0 [] [] raws
  require (PairsSorted order) "hook_contracts must be sorted by name and version"
  return permissions

/-- The checks on `execution`. -/
def manifestExecution (value : Json) (hookPermissions : List String) : Except String Unit := do
  let execution ← exactFields H value executionFields "execution"
  let mode ← expect ((Json.get execution "mode").asStr.filter manifestExecutionModes.contains)
    "execution.mode is invalid"
  let permissions ← uniqueStrings (Json.get execution "permissions") "execution.permissions" 0 64
  require (!(mode == "declarative" && !permissions.isEmpty))
    "declarative manifests cannot request permissions"
  require (hookPermissions.all permissions.contains)
    "hook_contracts permissions must be declared by execution.permissions"

/-- `_validate_common` of a manifest. -/
def manifestCommon (document : Fields) : Except String Unit := do
  require ((Json.get document "kind").eqStr manifestKind) "wrong manifest kind"
  require ((Json.get document "protocol_version").eqStr manifestProtocolVersion)
    "unsupported manifest protocol_version"
  let _ ← ruleIdField (Json.get document "rule_id") "rule_id"
  let version ← boundedString (Json.get document "version") "version" 1 64
  require (isVersion version) "version is not valid SemVer"
  let publisherDid ← boundedString (Json.get document "publisher_did") "publisher_did" 1 256
  require (isDidKey publisherDid) "publisher_did must be an Ed25519 did:key"
  let summary ← boundedString (Json.get document "summary") "summary" 1 500
  require ((utf8 (chars summary)).length ≤ 2000) "summary exceeds UTF-8 byte limit"
  let _ ← uniqueStrings (Json.get document "applies_to") "applies_to" 1 32
  let _ ← uniqueStrings (Json.get document "families") "families" 1 32
  manifestResources H (Json.get document "resources")
  let dependencies ← manifestRuleRefs H (Json.get document "dependencies") "dependencies"
  let conflicts ← manifestRuleRefs H (Json.get document "conflicts") "conflicts"
  require (!dependencies.any conflicts.contains)
    "the same rule reference cannot be both a dependency and a conflict"
  let _ ← uniqueStrings (Json.get document "required_capabilities") "required_capabilities" 0 64
  let hookPermissions ← manifestHooks H (Json.get document "hook_contracts")
  manifestExecution H (Json.get document "execution") hookPermissions
  let published ← timestampValue (Json.get document "published_at") "published_at"
  checkNotAfter (Json.get document "not_after") published "published_at"
  let extensions := Json.get document "extensions"
  require (extensions.isObj && extensions.fields.length ≤ 32)
    "extensions must be an object with at most 32 entries"
  checkExtensions H extensions.fields

/-- `_validate_complete` of a manifest. -/
def manifestComplete (document : Json) : Except String Unit := do
  let value ← exactFields H document manifestTopLevelFields "manifest"
  manifestCommon H value
  let proof ← exactFields H (Json.get value "proof") proofFields "proof"
  require ((Json.get proof "type").eqStr manifestProofType) "unsupported proof.type"
  require ((Json.get proof "proof_purpose").eqStr manifestProofPurpose)
    "unsupported proof.proof_purpose"
  let proofCreated ← timestampValue (Json.get proof "created") "proof.created"
  let published ← timestampValue (Json.get value "published_at") "published_at"
  require (published ≤ proofCreated) "proof.created must not be before published_at"
  checkNotAfter (Json.get value "not_after") proofCreated "proof.created"
  let publisherDid ← expect (Json.get value "publisher_did").asStr "publisher DID is not a did:key"
  let expectedMethod ← verificationMethodForDid publisherDid
  require ((Json.get proof "verification_method").eqStr expectedMethod)
    "proof.verification_method does not match publisher_did"
  let _ ← boundedString (Json.get proof "proof_value") "proof.proof_value" 86 86
  let _ ← decodeCanonicalEd25519Signature (Json.get proof "proof_value")
  let _ ← tradeCanonicalJson document
  return ()

/-! ## Manifests -/

/-- Manifests as signed documents. -/
def manifestFormat : Format where
  validate := manifestComplete H
  signer := "publisher_did"
  domain := manifestSigningDomain
  refusal _ := "manifest signature invalid"

/-- `TradeRuleManifest`: a manifest verified against its publisher. -/
abbrev TradeRuleManifest := SignedDocument H (manifestFormat H)

variable {H}

/-- The digest and the size of an entry of `resources`. -/
def resourceEntry (item : Json) : String × ℕ :=
  ((Json.get item.fields "digest").asStr.getD "", ((Json.get item.fields "size").asInt.getD 0).toNat)

/-- `to_dict()["resources"]`, the digests and the sizes. -/
def TradeRuleManifest.resources (manifest : TradeRuleManifest H) : List (String × ℕ) :=
  match Json.get manifest.document.fields "resources" with
  | .arr xs => xs.map resourceEntry
  | _ => []

theorem boundedList_eq_ok {value : Json} {lo hi : ℕ} {text : String} {xs : List Json} :
    boundedList value lo hi text = .ok xs ↔ value = .arr xs ∧ lo ≤ xs.length ∧ xs.length ≤ hi := by
  unfold boundedList
  rw [expect_eq_ok]
  cases value with
  | arr ys =>
    simp only [Option.ite_none_right_eq_some, Bool.and_eq_true, decide_eq_true_eq,
      Option.some.injEq, Json.arr.injEq]
    constructor
    · rintro ⟨h, rfl⟩
      exact ⟨rfl, h⟩
    · rintro ⟨rfl, h⟩
      exact ⟨h, rfl⟩
  | _ =>
    constructor
    · rintro ⟨⟩
    · rintro ⟨⟨⟩, -⟩

/-- The entries that the loop accepts. -/
theorem resourceEntries_valid {raws : List Json} {index total : ℕ}
    {seen order : List (String × String)} (h : resourceEntries H index seen total raws = .ok order) :
    ∀ r ∈ raws.map resourceEntry, isDigest r.1 = true ∧ r.2 ≤ maxResourceBytes := by
  induction raws generalizing index seen total with
  | nil => simp
  | cons raw raws ih =>
    simp only [resourceEntries, bind_eq_ok] at h
    obtain ⟨item, hitem, _, -, _, -, _, -, digest, hdigest, size, hsize, _, -, _, -, hrest⟩ := h
    rw [List.map_cons, List.forall_mem_cons]
    refine ⟨?_, ih hrest⟩
    have hraw := exactFields_eq_ok hitem
    simp only [digestField, bind_eq_ok, boundedString_eq_ok, pure_eq_ok, require_eq_ok] at hdigest
    obtain ⟨d, ⟨hd, -⟩, -, hpat, rfl⟩ := hdigest
    rw [sizeField, map_eq_ok] at hsize
    obtain ⟨n, hn, rfl⟩ := hsize
    simp only [expect_eq_ok, Option.filter_eq_some_iff, Bool.and_eq_true, decide_eq_true_eq] at hn
    obtain ⟨hn, hlo, hhi⟩ := hn
    rw [resourceEntry, hraw, Json.fields_obj, hd, hn]
    exact ⟨hpat, Int.toNat_le.2 hhi⟩

/-- **What a manifest declares**: at most 128 resources, each with a digest and a size. -/
theorem resources_valid (manifest : TradeRuleManifest H) : manifest.resources.length ≤ 128 ∧
    ∀ r ∈ manifest.resources, isDigest r.1 = true ∧ r.2 ≤ maxResourceBytes := by
  have h := manifest.valid
  change manifestComplete H manifest.document = _ at h
  simp only [manifestComplete, bind_eq_ok] at h
  obtain ⟨value, hvalue, _, h, -⟩ := h
  simp only [manifestCommon, bind_eq_ok] at h
  obtain ⟨_, -, _, -, _, -, _, -, _, -, _, -, _, -, _, -, _, -, _, -, _, -, _, hres, -⟩ := h
  simp only [manifestResources, bind_eq_ok, boundedList_eq_ok] at hres
  obtain ⟨raws, ⟨hraws, -, hlen⟩, order, horder, -⟩ := hres
  have hfields := exactFields_eq_ok hvalue
  rw [TradeRuleManifest.resources, hfields, Json.fields_obj, hraws]
  exact ⟨by rwa [List.length_map], resourceEntries_valid horder⟩

/-! ## A manifest to run the model on -/

def sampleResource : Bytes := utf8 "tea".toList

def sampleResourceDigest : String := "sha256:" ++ checksumHost.sha256 sampleResource

/-- The manifest of a package with one resource. -/
def sampleManifestDraft : Json := .obj
  [("kind", .str manifestKind), ("protocol_version", .str manifestProtocolVersion),
    ("rule_id", .str "org.example/tea"), ("version", .str "1.0.0-rc.1"),
    ("publisher_did", .str sampleDid), ("summary", .str "Tea"),
    ("applies_to", .arr [.str "goods"]), ("families", .arr [.str "exchange"]),
    ("resources", .arr [.obj [("purpose", .str "text"), ("media_type", .str "text/plain"),
      ("digest", .str sampleResourceDigest), ("size", .int 3)]]),
    ("dependencies", .arr []), ("conflicts", .arr []), ("required_capabilities", .arr []),
    ("hook_contracts", .arr []),
    ("execution", .obj [("mode", .str "declarative"), ("permissions", .arr [])]),
    ("published_at", .str "2026-01-01T00:00:00Z"), ("not_after", .null), ("extensions", .obj []),
    ("proof", .obj [("type", .str manifestProofType), ("created", .str "2026-01-01T00:00:00Z"),
      ("verification_method", .str (sampleDid ++ "#" ++ String.ofList ((chars sampleDid).drop 8))),
      ("proof_purpose", .str manifestProofPurpose), ("proof_value", .str "")])]

def sampleManifest : Json :=
  sealDocument (manifestFormat checksumHost) sampleKey sampleManifestDraft

theorem sampleManifestDraft_signer : Json.get sampleManifestDraft.fields "publisher_did" = .str sampleDid := by
  simp [sampleManifestDraft, Json.get, Json.lookup_cons]

theorem sampleManifestDraft_checked :
    sealChecks (manifestFormat checksumHost) sampleKey sampleManifestDraft = true := by decide +kernel

/-- The sample passes the checks. -/
def sampleManifestSealable :
    Sealable (manifestFormat checksumHost) sampleKey sampleManifestDraft :=
  .ofChecks sampleManifestDraft_signer sampleManifestDraft_checked

theorem exists_sampleManifest : ∃ m : TradeRuleManifest checksumHost,
    SignedDocument.fromDict checksumHost (manifestFormat checksumHost) sampleManifest = .ok m ∧
      m.document = sampleManifest.norm :=
  sampleManifestSealable.exists_document (by decide)

end NthDao.TradeRules
