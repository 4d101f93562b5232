/-
  Trade Rule Packages (`build_rule_package` in `nth_dao/trade_rules/package_store.py`): a
  verified manifest with the exact bytes of the resources it declares.

  * `checkPackage`: the checks on the supplied resources against a manifest, with their
    texts;
  * `RulePackage`: a manifest with resources that passed, and `buildRulePackage`;
  * `Provides`: what the bytes behind every declared digest have to be.

  * `provides_of_checkPackage`: the resources of a package are those of its manifest;
  * `checkPackage_of_provides`: resources that provide what a manifest declares, and
    nothing else, pass.
-/
import NthDao.Py.Dict
import NthDao.TradeRules.Manifest

namespace NthDao.TradeRules

open Py

variable (H : Host)

/-- The exceptions of packages and of their store: `value` is a `ValueError` or a `TypeError`,
    `storage` a `RulePackageError`. -/
inductive PackageError where
  | value (text : String)
  | validation (text : String)
  | corruption (text : String)
  | capacity (text : String)
  | storage (text : String)

/-- What a caller hands over: a manifest, or an object. -/
inductive ManifestValue where
  | manifest (manifest : TradeRuleManifest H)
  | object (items : Fields)

variable {H}

/-- `_verified_manifest`. -/
def ManifestValue.verified (value : ManifestValue H) : Except PackageError (TradeRuleManifest H) :=
  (match value with
    | .manifest m => SignedDocument.fromJson H (manifestFormat H) m.canonicalBytes
    | .object items => SignedDocument.fromDict H (manifestFormat H) (.obj items)).mapError fun e =>
      .validation ("manifest rejected: " ++ e)

/-! ## Checks -/

/-- The loop over the supplied resources, from the given index on. -/
def checkSupplied (index : ℕ) : Py.Dict String Bytes → Except PackageError Unit
  | [] => .ok ()
  | (digest, payload) :: supplied => do
    require (index < 128) (.validation "package resources exceed the 128-entry limit")
    require (isDigest digest) (.validation "resource keys must be lowercase sha256 digests")
    require (payload.length ≤ maxResourceBytes)
      (.validation ("resource " ++ digest ++ " exceeds the per-resource byte limit"))
    checkSupplied (index + 1) supplied

/-- The loop over the declared resources: their digests with their sizes. -/
def declaredSizes (declared : Py.Dict String ℕ) :
    List (String × ℕ) → Except PackageError (Py.Dict String ℕ)
  | [] => .ok declared
  | (digest, size) :: resources =>
    match declared.get digest with
    | none => declaredSizes (declared.set digest size) resources
    | some existing => do
      require (existing == size)
        (.validation ("manifest declares conflicting sizes for resource " ++ digest))
      declaredSizes declared resources

variable (H) in
/-- The loop over the declared digests: the bytes behind each. -/
def checkContents (supplied : Py.Dict String Bytes) : Py.Dict String ℕ → Except PackageError Unit
  | [] => .ok ()
  | (digest, expected) :: declared => do
    let payload ← expect (supplied.get digest) (.value digest)
    require (payload.length == expected)
      (.validation ("resource " ++ digest ++ " size does not match its manifest"))
    require ("sha256:" ++ H.sha256 payload == digest)
      (.validation ("resource " ++ digest ++ " content digest mismatch"))
    checkContents supplied declared

/-- The checks of `build_rule_package` behind the one of the manifest. -/
def checkPackage (manifest : TradeRuleManifest H) (supplied : Py.Dict String Bytes) :
    Except PackageError Unit := do
  checkSupplied 0 supplied
  let declared ← declaredSizes [] manifest.resources
  let missing := ((declared.map Prod.fst).filter fun d => !supplied.has d).insertionSort (· ≤ ·)
  let extra := ((supplied.map Prod.fst).filter fun d => !declared.has d).insertionSort (· ≤ ·)
  require (missing.isEmpty && extra.isEmpty)
    (.validation ("package resources mismatch; missing=" ++ showNames H missing ++ ", extra=" ++
      showNames H extra))
  checkContents H supplied declared

variable (H) in
/-- `RulePackage`: a manifest with its resources. -/
structure RulePackage where
  manifest : TradeRuleManifest H
  resources : Py.Dict String Bytes
  checked : checkPackage manifest resources = .ok ()

namespace RulePackage

def digest (package : RulePackage H) : String := package.manifest.digest

theorem ext {p q : RulePackage H} (hm : p.manifest = q.manifest) (hr : p.resources = q.resources) :
    p = q := by
  cases p
  cases q
  cases hm
  cases hr
  rfl

end RulePackage

/-- `build_rule_package` of a verified manifest. -/
def packageOf (manifest : TradeRuleManifest H) (supplied : Py.Dict String Bytes) :
    Except PackageError (RulePackage H) :=
  match h : checkPackage manifest supplied with
  | .error e => .error e
  | .ok () => .ok ⟨manifest, supplied, h⟩

/-- `build_rule_package`. -/
def buildRulePackage (value : ManifestValue H) (supplied : Py.Dict String Bytes) :
    Except PackageError (RulePackage H) := do
  let verified ← value.verified
  packageOf verified supplied

/-! ## What a package holds -/

/-- The bytes that a manifest declares behind a digest. -/
structure Provides (H : Host) (r : String × ℕ) (payload : Bytes) : Prop where
  size : payload.length = r.2
  digest : "sha256:" ++ H.sha256 payload = r.1

theorem packageOf_eq_ok {manifest : TradeRuleManifest H} {supplied : Py.Dict String Bytes}
    {package : RulePackage H} : packageOf manifest supplied = .ok package ↔
      package.manifest = manifest ∧ package.resources = supplied := by
  constructor
  · intro h
    rw [packageOf] at h
    split at h
    · cases h
    · cases h
      exact ⟨rfl, rfl⟩
  · rintro ⟨rfl, rfl⟩
    rw [packageOf]
    split
    · rename_i e he
      rw [package.checked] at he
      cases he
    · rfl

theorem checkSupplied_eq_ok {supplied : Py.Dict String Bytes} {index : ℕ} (hi : index ≤ 128) :
    checkSupplied index supplied = .ok () ↔ index + supplied.length ≤ 128 ∧
      ∀ p ∈ supplied, isDigest p.1 = true ∧ p.2.length ≤ maxResourceBytes := by
  induction supplied generalizing index with
  | nil => simpa [checkSupplied] using hi
  | cons p supplied ih =>
    obtain ⟨digest, payload⟩ := p
    simp only [checkSupplied, require_bind_eq_ok, decide_eq_true_eq, List.length_cons,
      List.forall_mem_cons]
    constructor
    · rintro ⟨hlt, hd, hl, h⟩
      obtain ⟨hle, hall⟩ := (ih hlt).1 h
      exact ⟨by omega, ⟨hd, hl⟩, hall⟩
    · rintro ⟨hle, ⟨hd, hl⟩, hall⟩
      exact ⟨by omega, hd, hl, (ih (by omega)).2 ⟨by omega, hall⟩⟩

/-- The declared sizes are those of the entries. -/
theorem get_declaredSizes {resources : List (String × ℕ)} {acc declared : Py.Dict String ℕ}
    (h : declaredSizes acc resources = .ok declared) (digest : String) (size : ℕ) :
    declared.get digest = some size ↔ acc.get digest = some size ∨ (digest, size) ∈ resources := by
  induction resources generalizing acc with
  | nil =>
    cases h
    simp
  | cons r resources ih =>
    obtain ⟨d, n⟩ := r
    rw [List.mem_cons, Prod.mk.injEq]
    rw [declaredSizes] at h
    split at h
    · rename_i hnone
      rw [ih h, Dict.get_set]
      by_cases hd : digest = d
      · subst hd
        rw [if_pos rfl, hnone, Option.some.injEq]
        simp [eq_comm]
      · simp [hd]
    · rename_i existing hsome
      rw [require_bind_eq_ok, beq_iff_eq] at h
      obtain ⟨rfl, h⟩ := h
      rw [ih h]
      constructor
      · rintro (hget | hmem)
        · exact .inl hget
        · exact .inr (.inr hmem)
      · rintro (hget | ⟨rfl, rfl⟩ | hmem)
        · exact .inl hget
        · exact .inl hsome
        · exact .inr hmem

theorem nodup_declaredSizes {resources : List (String × ℕ)} {acc declared : Py.Dict String ℕ}
    (h : declaredSizes acc resources = .ok declared) (hn : (acc.map Prod.fst).Nodup) :
    (declared.map Prod.fst).Nodup := by
  induction resources generalizing acc with
  | nil =>
    cases h
    exact hn
  | cons r resources ih =>
    rw [declaredSizes] at h
    split at h
    · exact ih h (Dict.nodup_set hn _ _)
    · rw [require_bind_eq_ok] at h
      exact ih h.2 hn

/-- Entries that agree wherever digests do are declared. -/
theorem exists_declaredSizes {resources : List (String × ℕ)} {acc : Py.Dict String ℕ}
    (f : String → ℕ) (hacc : ∀ d n, acc.get d = some n → n = f d) (hf : ∀ r ∈ resources, r.2 = f r.1) :
    ∃ declared, declaredSizes acc resources = .ok declared := by
  induction resources generalizing acc with
  | nil => exact ⟨acc, rfl⟩
  | cons r resources ih =>
    obtain ⟨d, n⟩ := r
    rw [List.forall_mem_cons] at hf
    rw [declaredSizes]
    split
    · refine ih (fun d' n' h => ?_) hf.2
      rw [Dict.get_set] at h
      split_ifs at h with hd
      · cases h
        rw [hd]
        exact hf.1
      · exact hacc d' n' h
    · rename_i existing hsome
      obtain ⟨declared, h⟩ := ih hacc hf.2
      refine ⟨declared, ?_⟩
      rw [require_bind_eq_ok, beq_iff_eq]
      exact ⟨(hacc d existing hsome).trans hf.1.symm, h⟩

theorem checkContents_eq_ok {supplied : Py.Dict String Bytes} {declared : Py.Dict String ℕ} :
    checkContents H supplied declared = .ok () ↔
      ∀ r ∈ declared, ∃ payload, supplied.get r.1 = some payload ∧ Provides H r payload := by
  induction declared with
  | nil => simp [checkContents]
  | cons r declared ih =>
    obtain ⟨d, n⟩ := r
    simp only [checkContents, expect_bind_eq_ok, require_bind_eq_ok, beq_iff_eq, ih,
      List.forall_mem_cons]
    constructor
    · rintro ⟨payload, hget, hsize, hdigest, h⟩
      exact ⟨⟨payload, hget, hsize, hdigest⟩, h⟩
    · rintro ⟨⟨payload, hget, hsize, hdigest⟩, h⟩
      exact ⟨payload, hget, hsize, hdigest, h⟩

/-- Nothing is left of a list that is sorted. -/
theorem isEmpty_sort_filter {xs : List String} {q : String → Bool} :
    ((xs.filter q).insertionSort (· ≤ ·)).isEmpty = true ↔ ∀ x ∈ xs, q x = false := by
  rw [List.isEmpty_iff, ← List.length_eq_zero_iff, List.length_insertionSort,
    List.length_eq_zero_iff, List.filter_eq_nil_iff]
  simp

/-- **The resources of a package** are those of its manifest. -/
theorem provides_of_checkPackage {manifest : TradeRuleManifest H} {supplied : Py.Dict String Bytes}
    (h : checkPackage manifest supplied = .ok ()) :
    (∀ r ∈ manifest.resources, ∃ payload, supplied.get r.1 = some payload ∧ Provides H r payload) ∧
      ∀ d ∈ supplied.map Prod.fst, d ∈ manifest.resources.map Prod.fst := by
  simp only [checkPackage, bind_eq_ok] at h
  obtain ⟨_, -, declared, hdeclared, _, hkeys, hcontents⟩ := h
  rw [require_eq_ok, Bool.and_eq_true, isEmpty_sort_filter, isEmpty_sort_filter] at hkeys
  rw [checkContents_eq_ok] at hcontents
  have hget := get_declaredSizes hdeclared
  constructor
  · rintro ⟨d, n⟩ hr
    exact hcontents (d, n) (Dict.mem_of_get ((hget d n).2 (.inr hr)))
  · intro d hd
    have hhas := hkeys.2 d hd
    rw [Bool.not_eq_false', ← Dict.get_isSome, Option.isSome_iff_exists] at hhas
    obtain ⟨n, hn⟩ := hhas
    rcases (hget d n).1 hn with hnil | hmem
    · cases hnil
    · exact List.mem_map.2 ⟨(d, n), hmem, rfl⟩

/-- **Resources that provide what a manifest declares**, and nothing else, pass. -/
theorem checkPackage_of_provides {manifest : TradeRuleManifest H} {supplied : Py.Dict String Bytes}
    (hn : (supplied.map Prod.fst).Nodup)
    (hp : ∀ r ∈ manifest.resources, ∃ payload, supplied.get r.1 = some payload ∧ Provides H r payload)
    (hk : ∀ d ∈ supplied.map Prod.fst, d ∈ manifest.resources.map Prod.fst) :
    checkPackage manifest supplied = .ok () := by
  obtain ⟨hlen, hvalid⟩ := resources_valid manifest
  have hsupplied : checkSupplied 0 supplied = .ok () := by
    rw [checkSupplied_eq_ok (Nat.zero_le _)]
    constructor
    · have := (hn.subperm hk).length_le
      rw [List.length_map, List.length_map] at this
      omega
    · rintro ⟨d, payload⟩ hmem
      obtain ⟨r, hr, hrd⟩ := List.mem_map.1 (hk d (List.mem_map.2 ⟨_, hmem, rfl⟩))
      obtain ⟨payload', hget, hprov⟩ := hp r hr
      rw [hrd, Dict.get_of_mem hn hmem] at hget
      cases hget
      refine ⟨?_, ?_⟩
      · change isDigest d = true
        rw [← hrd]
        exact (hvalid r hr).1
      · change payload.length ≤ _
        rw [hprov.size]
        exact (hvalid r hr).2
  have hsizes : ∃ declared, declaredSizes [] manifest.resources = .ok declared := by
    refine exists_declaredSizes (fun d => ((supplied.get d).getD []).length)
      (fun d n h => by cases h) fun r hr => ?_
    obtain ⟨payload, hget, hprov⟩ := hp r hr
    rw [hget]
    exact hprov.size.symm
  obtain ⟨declared, hdeclared⟩ := hsizes
  have hget := get_declaredSizes hdeclared
  have hnodup := nodup_declaredSizes hdeclared List.nodup_nil
  have hmem : ∀ r ∈ declared, r ∈ manifest.resources := by
    rintro ⟨d, n⟩ hr
    rcases (hget d n).1 (Dict.get_of_mem hnodup hr) with hnil | hmem
    · cases hnil
    · exact hmem
  simp only [checkPackage, bind_eq_ok]
  refine ⟨(), hsupplied, declared, hdeclared, (), ?_, ?_⟩
  · rw [require_eq_ok, Bool.and_eq_true, isEmpty_sort_filter, isEmpty_sort_filter]
    constructor
    · intro d hd
      obtain ⟨r, hr, rfl⟩ := List.mem_map.1 hd
      obtain ⟨payload, hgot, -⟩ := hp r (hmem r hr)
      rw [Bool.not_eq_false', ← Dict.get_isSome, hgot]
      rfl
    · intro d hd
      obtain ⟨r, hr, rfl⟩ := List.mem_map.1 (hk d hd)
      rw [Bool.not_eq_false', ← Dict.get_isSome, (hget r.1 r.2).2 (.inr hr)]
      rfl
  · rw [checkContents_eq_ok]
    exact fun r hr => hp r (hmem r hr)

end NthDao.TradeRules
