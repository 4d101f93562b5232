/-
  What the package store keeps.

  * `FileOk`: what a file of the store is, and `Intact`: every file is so.  A manifest is
    the canonical bytes of a verified manifest whose resources are there (`Holds`), a
    provenance file belongs to a manifest;
  * `readSources_provenanceBytes`: provenance reads back;
  * `loadLocked_eq`: an intact store loads every manifest it has;
  * `usage_error`, `inspect_eq_ok`: it is over its limits or passes, and the inspection
    finds orphans and temporary files only;
  * `Pruned`: a store without files that nothing needs, which stays intact
    (`Intact.pruned`) and loads the same packages (`loadLocked_pruned`).
-/
import NthDao.Py.Ascii
import NthDao.TradeRules.PackageStore

namespace NthDao.TradeRules.Packages

open Py Directory Crash

variable {H : Host}

/-! ## Names -/

/-- A name with 64 hexadecimal digits in front of a suffix. -/
def Stem (suffix name : String) : Prop :=
  ∃ hex : List Char, isHex 64 hex = true ∧ name.toList = hex ++ suffix.toList

theorem stem_iff {suffix name : String} : Stem suffix name ↔
    isHex 64 ((chars name).take 64) = true ∧ (chars name).drop 64 = suffix.toList := by
  rw [chars_eq]
  constructor
  · rintro ⟨hex, hx, hn⟩
    have hl : hex.length = 64 := by
      rw [isHex, Bool.and_eq_true, beq_iff_eq] at hx
      exact hx.1
    rw [hn, List.take_left' hl, List.drop_left' hl]
    exact ⟨hx, rfl⟩
  · rintro ⟨hx, hd⟩
    exact ⟨_, hx, by rw [← hd, List.take_append_drop]⟩

theorem isObjectName_iff {name : String} : isObjectName name = true ↔ Stem ".json" name := by
  rw [stem_iff, isObjectName, Bool.and_eq_true, beq_iff_eq]

theorem isBlobName_iff {name : String} : isBlobName name = true ↔ Stem ".blob" name := by
  rw [stem_iff, isBlobName, Bool.and_eq_true, beq_iff_eq]

theorem isTemporary_iff {name : String} : isTemporary name = true ↔ ".tmp".toList <:+ name.toList := by
  rw [isTemporary, chars_eq, List.isSuffixOf_iff_suffix]

theorem isTemporary_temporary (pre : String) : isTemporary (pre ++ ".tmp") = true := by
  rw [isTemporary_iff, String.toList_append]
  exact List.suffix_append _ _

theorem not_isTemporary {suffix name : String} (h : Stem suffix name) (hs : suffix.length = 5)
    (hl : suffix.toList.getLast? ≠ some 'p') : isTemporary name = false := by
  obtain ⟨hex, -, hn⟩ := h
  rw [Bool.eq_false_iff]
  intro ht
  rw [isTemporary_iff, hn] at ht
  rcases List.suffix_or_suffix_of_suffix ht (List.suffix_append hex suffix.toList) with h | h
  · obtain ⟨t, ht⟩ := h
    rw [← ht, List.getLast?_append] at hl
    exact hl rfl
  · have := h.length_le
    rw [String.length_toList, hs] at this
    exact absurd this (by decide)

theorem not_isTemporary_object {name : String} (h : isObjectName name = true) :
    isTemporary name = false :=
  not_isTemporary (isObjectName_iff.1 h) rfl (by decide)

theorem not_isTemporary_blob {name : String} (h : isBlobName name = true) :
    isTemporary name = false :=
  not_isTemporary (isBlobName_iff.1 h) rfl (by decide)

/-- The file of a digest, and the digest of a file. -/
theorem digestOf_append {digest suffix : String} (h : isDigest digest = true) :
    digestOf (String.ofList ((chars digest).drop 7) ++ suffix) = digest := by
  obtain ⟨hd, hx⟩ := toList_of_isDigest h
  have hl : (digest.toList.drop 7).length = 64 := by
    rw [isHex, Bool.and_eq_true, beq_iff_eq] at hx
    exact hx.1
  rw [← String.toList_inj, digestOf, chars_eq, chars_eq, String.toList_append, String.toList_append,
    String.toList_ofList, String.toList_ofList, String.toList_ofList, List.take_left' hl]
  exact hd.symm

theorem digestOf_objectName {digest : String} (h : isDigest digest = true) :
    digestOf (objectName digest) = digest := digestOf_append h

theorem digestOf_blobName {digest : String} (h : isDigest digest = true) :
    digestOf (blobName digest) = digest := digestOf_append h

theorem isBlobName_blobName {digest : String} (h : isDigest digest = true) :
    isBlobName (blobName digest) = true := by
  rw [isBlobName_iff]
  refine ⟨_, (toList_of_isDigest h).2, ?_⟩
  rw [blobName, String.toList_append, String.toList_ofList, chars_eq]

theorem isObjectName_digest {digest : String} (h : isDigest digest = true) :
    isObjectName (objectName digest) = true := by
  refine isObjectName_objectName ?_
  rw [chars_eq]
  exact (toList_of_isDigest h).2

theorem drop_digestOf (name : String) : (chars (digestOf name)).drop 7 = (chars name).take 64 := by
  rw [chars_eq, digestOf, String.toList_append, String.toList_ofList, String.toList_ofList]
  rfl

theorem isDigest_digestOf {suffix name : String} (h : Stem suffix name) :
    isDigest (digestOf name) = true := by
  obtain ⟨hx, -⟩ := stem_iff.1 h
  rw [isDigest, Bool.and_eq_true, drop_digestOf]
  refine ⟨?_, hx⟩
  rw [startsWith, digestOf, chars_eq, chars_eq, String.toList_append, List.isPrefixOf_iff_prefix]
  exact List.prefix_append _ _

theorem append_digestOf {suffix name : String} (h : Stem suffix name) :
    String.ofList ((chars (digestOf name)).drop 7) ++ suffix = name := by
  obtain ⟨-, hd⟩ := stem_iff.1 h
  rw [← String.toList_inj, String.toList_append, String.toList_ofList, drop_digestOf, ← hd,
    List.take_append_drop, chars_eq]

theorem objectName_digestOf {name : String} (h : isObjectName name = true) :
    objectName (digestOf name) = name := append_digestOf (isObjectName_iff.1 h)

theorem blobName_digestOf {name : String} (h : isBlobName name = true) :
    blobName (digestOf name) = name := append_digestOf (isBlobName_iff.1 h)

/-! ## Provenance -/

theorem plain_of_isDigest {digest : String} (h : isDigest digest = true) :
    ∀ c ∈ digest.toList, plain c = true := by
  obtain ⟨hd, hx⟩ := toList_of_isDigest h
  rw [isHex, Bool.and_eq_true, List.all_eq_true] at hx
  intro c hc
  rw [hd, List.mem_append] at hc
  rcases hc with hc | hc
  · exact List.all_eq_true.1 (by decide : "sha256:".toList.all plain = true) c hc
  · exact plain_of_isHexChar (hx.2 c hc)

/-- The lists of sources that are stored. -/
def storedSources : List (List String) := [["federated"], ["local"], ["federated", "local"]]

variable {digest : String} {sources : List String}

theorem norm_provenanceDocument (digest : String) (sources : List String) :
    (Json.obj (provenanceDocument digest sources)).norm = .obj (provenanceDocument digest sources) := by
  have hs : (provenanceDocument digest sources).map (fun p => (p.1, p.2.norm)) =
      provenanceDocument digest sources := by
    simp only [provenanceDocument, List.map_cons, List.map_nil, Json.norm_arr, List.map_map]
    rfl
  have hsorted : (provenanceDocument digest sources).Pairwise Json.keyLe := by
    simp only [provenanceDocument, List.pairwise_cons, List.forall_mem_cons, Json.keyLe]
    exact ⟨⟨by decide, by decide, by simp⟩, ⟨by decide, by simp⟩, by simp, .nil⟩
  rw [Json.norm_obj, hs, hsorted.insertionSort_eq]

theorem wf_provenanceDocument (digest : String) (sources : List String) :
    (Json.obj (provenanceDocument digest sources)).wf = true := by
  rw [Json.wf_obj]
  refine ⟨show ["package_digest", "sources", "version"].Nodup by decide, ?_⟩
  simp only [provenanceDocument, List.forall_mem_cons, Json.wf_arr, List.forall_mem_map]
  exact ⟨rfl, fun _ _ => rfl, rfl, by simp⟩

theorem encodable_provenanceDocument (digest : String) (sources : List String) :
    (Json.obj (provenanceDocument digest sources)).encodable = true := by
  rw [Json.encodable_obj]
  simp only [provenanceDocument, List.forall_mem_cons, Json.encodable_arr, List.forall_mem_map]
  exact ⟨rfl, fun _ _ => rfl, Json.encodable_int (by decide), by simp⟩

theorem provenanceBytes_eq (digest : String) (sources : List String) :
    provenanceBytes digest sources = utf8 (dumps false (.obj (provenanceDocument digest sources))) := by
  rw [provenanceBytes, canonicalJson, if_pos (encodable_provenanceDocument ..),
    norm_provenanceDocument]
  rfl

theorem dumps_provenanceDocument (hd : isDigest digest = true) (hs : sources ∈ storedSources) :
    dumps false (.obj (provenanceDocument digest sources)) =
      dumps true (.obj (provenanceDocument digest sources)) := by
  have hplain := plain_of_isDigest hd
  simp only [storedSources, List.mem_cons, List.not_mem_nil, or_false] at hs
  rcases hs with rfl | rfl | rfl
  all_goals
    simp only [provenanceDocument, dumps, dumpsFields, dumpsStr_plain _ hplain]
    rfl

theorem printable_provenanceBytes (hd : isDigest digest = true) (hs : sources ∈ storedSources) :
    Printable (dumps false (.obj (provenanceDocument digest sources))) := by
  rw [dumps_provenanceDocument hd hs]
  exact printable_dumps _ (encodable_provenanceDocument ..)

theorem length_provenanceBytes (hd : isDigest digest = true) (hs : sources ∈ storedSources) :
    (provenanceBytes digest sources).length ≤ maxProvenanceBytes := by
  have hplain := plain_of_isDigest hd
  have hl := length_of_isDigest hd
  rw [provenanceBytes_eq, utf8_length_printable (printable_provenanceBytes hd hs)]
  simp only [storedSources, List.mem_cons, List.not_mem_nil, or_false] at hs
  rcases hs with rfl | rfl | rfl
  all_goals
    simp only [provenanceDocument, dumps, dumpsFields, dumpsStr_plain _ hplain, List.length_cons,
      List.length_append, String.length_toList, hl]
    decide

theorem knownSources_map (text : String) (hs : ∀ s ∈ sources, s ∈ provenanceSourceNames) :
    knownSources text (sources.map .str) = .ok sources := by
  induction sources with
  | nil => rfl
  | cons s sources ih =>
    rw [List.forall_mem_cons] at hs
    have hany : provenanceSourceNames.any (Json.str s).eqStr = true :=
      List.any_eq_true.2 ⟨s, hs.1, Json.eqStr_iff.2 rfl⟩
    rw [List.map_cons, knownSources, memberOf]
    simp only [hany, mapError_ok, ok_bind, require, if_true, ih hs.2]
    rfl
    all_goals simp

/-- **Provenance reads back.** -/
theorem readSources_provenanceBytes (hd : isDigest digest = true) (hs : sources ∈ storedSources) :
    readSources digest (provenanceBytes digest sources) = .ok sources := by
  have hparse : (asciiChars (provenanceBytes digest sources)).bind loads =
      some (.obj (provenanceDocument digest sources)) := by
    rw [provenanceBytes_eq, asciiChars_utf8 (printable_provenanceBytes hd hs), Option.bind_some]
    exact loads_dumps false (wf_provenanceDocument ..) (encodable_provenanceDocument ..)
  have hsorted : sources.Pairwise (· < ·) ∧ sources ≠ [] ∧ ∀ s ∈ sources, s ∈ provenanceSourceNames := by
    simp only [storedSources, List.mem_cons, List.not_mem_nil, or_false] at hs
    rcases hs with rfl | rfl | rfl
    all_goals decide
  obtain ⟨hlt, hne, hknown⟩ := hsorted
  simp only [readSources, bind_eq_ok, expect_eq_ok, pure_eq_ok]
  refine ⟨_, hparse, (), ?_, sources.map .str, ?_, sources, knownSources_map _ hknown, (), ?_, rfl⟩
  · rw [require_eq_ok]
    simp [provenanceDocument, Json.keysEq, Json.isObj, Json.get, Json.lookup_cons, Json.eqInt]
  · simp [provenanceDocument, Json.get, Json.lookup_cons, hne]
  · rw [require_eq_ok, Bool.and_eq_true, decide_eq_true_eq, beq_iff_eq]
    exact ⟨hlt, rfl⟩

theorem desiredSources_mem (existing : List String) (source : Option String) :
    desiredSources existing source = [] ∨ desiredSources existing source ∈ storedSources := by
  simp only [desiredSources, provenanceSourceNames, List.filter_cons, List.filter_nil]
  split_ifs
  all_goals decide

/-! ## Files -/

variable (H) in
/-- The resources of a manifest are there. -/
def Holds (disk : PackageDisk) (manifest : TradeRuleManifest H) : Prop :=
  ∀ r ∈ manifest.resources,
    ∃ payload, (disk .resources).get (blobName r.1) = some payload ∧ Provides H r payload

variable (H) in
/-- What a file of the store is. -/
def FileOk (disk : PackageDisk) : PackageDir → String → Bytes → Prop
  | .root, name, _ => name ∈ ["manifests", "resources", "provenance"]
  | .manifests, name, raw => isTemporary name = true ∨
      ∃ manifest : TradeRuleManifest H, name = objectName manifest.digest ∧
        raw = manifest.canonicalBytes ∧ Holds H disk manifest
  | .resources, name, _ => isTemporary name = true ∨ isBlobName name = true
  | .provenance, name, raw => isTemporary name = true ∨
      ∃ digest, isDigest digest = true ∧ name = objectName digest ∧
        ((disk .manifests).get name).isSome = true ∧ raw.length ≤ maxProvenanceBytes ∧
          ∃ sources, readSources digest raw = .ok sources

variable (H) in
/-- Every file of the store is what it has to be. -/
def Intact (disk : PackageDisk) : Prop :=
  ∀ dir name raw, (disk dir).get name = some raw → FileOk H disk dir name raw

variable {disk disk' : PackageDisk}

theorem intact_empty : Intact H fun _ => Dir.empty := fun _ _ _ h => by cases h

/-- Files that other files need are still there. -/
structure Keeps (disk disk' : PackageDisk) : Prop where
  manifests : ∀ name, isTemporary name = false → ((disk .manifests).get name).isSome = true →
    ((disk' .manifests).get name).isSome = true
  resources : ∀ name raw, isTemporary name = false → (disk .resources).get name = some raw →
    (disk' .resources).get name = some raw

theorem FileOk.keeps {dir : PackageDir} {name : String} {raw : Bytes} (hk : Keeps disk disk')
    (h : FileOk H disk dir name raw) : FileOk H disk' dir name raw := by
  cases dir with
  | root => exact h
  | resources => exact h
  | manifests =>
    rcases h with h | ⟨m, hname, hraw, hholds⟩
    · exact .inl h
    · refine .inr ⟨m, hname, hraw, fun r hr => ?_⟩
      obtain ⟨payload, hget, hprov⟩ := hholds r hr
      have hblob := isBlobName_blobName ((resources_valid m).2 r hr).1
      exact ⟨payload, hk.resources _ _ (not_isTemporary_blob hblob) hget, hprov⟩
  | provenance =>
    rcases h with h | ⟨digest, hd, hname, hm, hrest⟩
    · exact .inl h
    · refine .inr ⟨digest, hd, hname, hk.manifests name ?_ hm, hrest⟩
      rw [hname]
      exact not_isTemporary_object (isObjectName_digest hd)

/-! ## Loading -/

/-- A manifest that the store has. -/
def Stored (disk : PackageDisk) (manifest : TradeRuleManifest H) : Prop :=
  (disk .manifests).get (objectName manifest.digest) = some manifest.canonicalBytes

/-- The manifest behind a name. -/
theorem Intact.manifest (h : Intact H disk) {digest : String} {raw : Bytes}
    (hd : isDigest digest = true) (hget : (disk .manifests).get (objectName digest) = some raw) :
    ∃ m : TradeRuleManifest H, m.digest = digest ∧ raw = m.canonicalBytes ∧ Holds H disk m := by
  rcases h .manifests _ raw hget with ht | ⟨m, hname, hraw, hholds⟩
  · rw [not_isTemporary_object (isObjectName_digest hd)] at ht
    cases ht
  · refine ⟨m, ?_, hraw, hholds⟩
    rw [← digestOf_objectName hd, hname, digestOf_objectName (isDigest_digest m)]

theorem loadManifest_eq {m : TradeRuleManifest H} (h : Stored disk m) :
    loadManifest H disk m.digest = .ok m := by
  have hlen : m.canonicalBytes.length ≤ maxTradeJsonBytes :=
    (tradeCanonicalJson_eq_ok.1 m.encodes).2.2.2.2
  simp only [loadManifest, readExact, bind_eq_ok, expect_eq_ok, mapError_eq_ok, pure_eq_ok]
  refine ⟨_, ⟨_, h, (), ?_, rfl⟩, m, m.fromJson_canonical, (), ?_, rfl⟩
  · rwa [require_eq_ok, decide_eq_true_eq]
  · rw [require_eq_ok, beq_self_eq_true]

/-- What the loop over the resources collects. -/
structure Collected (dir : Dir Bytes) (resources : Py.Dict String Bytes) : Prop where
  nodup : (resources.map Prod.fst).Nodup
  files : ∀ d payload, resources.get d = some payload → dir.get (blobName d) = some payload

theorem exists_loadResources {dir : Dir Bytes} {items : List (String × ℕ)}
    {acc : Py.Dict String Bytes} (hacc : Collected dir acc) (hp : ∀ r ∈ items,
      ∃ payload, dir.get (blobName r.1) = some payload ∧ Provides H r payload) :
    ∃ resources, loadResources dir acc items = .ok resources ∧ Collected dir resources ∧
      ∀ d, d ∈ resources.map Prod.fst ↔ d ∈ acc.map Prod.fst ∨ d ∈ items.map Prod.fst := by
  induction items generalizing acc with
  | nil => exact ⟨acc, rfl, hacc, by simp⟩
  | cons r items ih =>
    obtain ⟨digest, size⟩ := r
    rw [List.forall_mem_cons] at hp
    obtain ⟨⟨payload, hget, hprov⟩, hp⟩ := hp
    rw [loadResources]
    by_cases hhas : acc.has digest = true
    · obtain ⟨resources, hload, hcol, hkeys⟩ := ih hacc hp
      refine ⟨resources, by rw [if_pos hhas, hload], hcol, fun d => ?_⟩
      rw [hkeys, List.map_cons, List.mem_cons]
      constructor
      · rintro (h | h)
        · exact .inl h
        · exact .inr (.inr h)
      · rintro (h | rfl | h)
        · exact .inl h
        · exact .inl (Dict.has_iff.1 hhas)
        · exact .inr h
    · have hacc' : Collected dir (acc.set digest payload) := by
        refine ⟨Dict.nodup_set hacc.nodup _ _, fun d p hdp => ?_⟩
        rw [Dict.get_set] at hdp
        split_ifs at hdp with hd
        · cases hdp
          rw [hd]
          exact hget
        · exact hacc.files d p hdp
      obtain ⟨resources, hload, hcol, hkeys⟩ := ih hacc' hp
      refine ⟨resources, ?_, hcol, fun d => ?_⟩
      · have hread : readExact dir (blobName digest) size ("resource " ++ digest) = .ok payload := by
          simp only [readExact, expect_bind_eq_ok, require_bind_eq_ok, pure_eq_ok, decide_eq_true_eq]
          exact ⟨payload, hget, hprov.size.le, rfl⟩
        rw [if_neg hhas, hread, ok_bind, hload]
      · have hset : d ∈ (acc.set digest payload).map Prod.fst ↔ d = digest ∨ d ∈ acc.map Prod.fst := by
          rw [← Dict.has_iff, ← Dict.has_iff, ← Dict.get_isSome, ← Dict.get_isSome, Dict.get_set]
          by_cases hd : d = digest
          · simp [hd]
          · simp [hd]
        rw [hkeys, hset, List.map_cons, List.mem_cons, or_comm (a := d = digest), or_assoc]

/-- **An intact store loads every manifest it has**, with the bytes it declares. -/
theorem loadLocked_eq {m : TradeRuleManifest H} (hs : Stored disk m) (hh : Holds H disk m) :
    ∃ p, loadLocked H disk m.digest = .ok p ∧ p.manifest = m := by
  have hnil : Collected (disk .resources) [] := ⟨List.nodup_nil, fun d p h => by cases h⟩
  obtain ⟨resources, hload, hcol, hkeys⟩ := exists_loadResources hnil hh
  have hcheck : checkPackage m resources = .ok () := by
    refine checkPackage_of_provides hcol.nodup (fun r hr => ?_) fun d hd => ?_
    · obtain ⟨payload, hget, hprov⟩ := hh r hr
      have hmem := (hkeys r.1).2 (.inr (List.mem_map_of_mem hr))
      rw [← Dict.has_iff, ← Dict.get_isSome, Option.isSome_iff_exists] at hmem
      obtain ⟨payload', hget'⟩ := hmem
      have := hcol.files _ _ hget'
      rw [hget] at this
      cases this
      exact ⟨payload, hget', hprov⟩
    · rcases (hkeys d).1 hd with h | h
      · cases h
      · exact h
  refine ⟨⟨m, resources, hcheck⟩, ?_, rfl⟩
  have hverified : (ManifestValue.manifest m).verified = .ok m := by
    rw [ManifestValue.verified, mapError_eq_ok]
    exact m.fromJson_canonical
  simp only [loadLocked, bind_eq_ok, mapError_eq_ok, buildRulePackage]
  exact ⟨m, loadManifest_eq hs, resources, hload, m, hverified, packageOf_eq_ok.2 ⟨rfl, rfl⟩⟩

/-! ## The shape of the store -/

theorem Intact.manifest_of_name (h : Intact H disk) {name : String} (hname : isTemporary name = false)
    (hmem : name ∈ (disk .manifests).names) :
    ∃ m : TradeRuleManifest H, name = objectName m.digest ∧ Stored disk m ∧ Holds H disk m := by
  rw [← Dir.get_isSome, Option.isSome_iff_exists] at hmem
  obtain ⟨raw, hget⟩ := hmem
  rcases h .manifests name raw hget with ht | ⟨m, hn, hraw, hholds⟩
  · rw [hname] at ht
    cases ht
  · refine ⟨m, hn, ?_, hholds⟩
    rw [Stored, ← hn, hget, hraw]

theorem provenanceSources_eq {digest : String} (h : Intact H disk) (hd : isDigest digest = true) :
    ∃ sources, provenanceSources disk digest = .ok sources := by
  rw [provenanceSources]
  cases hget : (disk .provenance).get (objectName digest) with
  | none => exact ⟨[], rfl⟩
  | some raw =>
    rcases h .provenance _ raw hget with ht | ⟨digest', hd', hname, -, hlen, sources, hs⟩
    · rw [not_isTemporary_object (isObjectName_digest hd)] at ht
      cases ht
    · have he : digest' = digest := by
        rw [← digestOf_objectName hd', ← hname, digestOf_objectName hd]
      subst he
      refine ⟨sources, ?_⟩
      simp only [Option.isSome_some, if_true, readExact, hget, bind_eq_ok, expect_eq_ok, pure_eq_ok]
      refine ⟨raw, ⟨raw, rfl, (), ?_, rfl⟩, hs⟩
      rwa [require_eq_ok, decide_eq_true_eq]

theorem checkEntry_eq_ok (h : Intact H disk) {dir : PackageDir} (hdir : dir ≠ .root) {name : String}
    {raw : Bytes} (hget : (disk dir).get name = some raw) : checkEntry H disk dir name = .ok () := by
  unfold checkEntry
  by_cases ht : isTemporary name = true
  · rw [if_pos ht]
  rw [if_neg ht]
  cases dir with
  | root => exact absurd rfl hdir
  | manifests =>
    obtain ⟨m, hname, -⟩ := (h .manifests name raw hget).resolve_left ht
    rw [hname, isObjectName_digest (isDigest_digest m)]
    rfl
  | resources =>
    rw [(h .resources name raw hget).resolve_left ht]
    rfl
  | provenance =>
    obtain ⟨digest, hd, hname, hm, -⟩ := (h .provenance name raw hget).resolve_left ht
    obtain ⟨sources, hs⟩ := provenanceSources_eq h hd
    simp only [bind_eq_ok, require_eq_ok]
    refine ⟨(), ?_, (), hm, sources, ?_, rfl⟩
    · rw [hname, isObjectName_digest hd]
    · rw [hname, digestOf_objectName hd, hs]

/-- The store is over one of its limits. -/
def OverLimit (enforce : Bool) (e : PackageError) : Prop :=
  enforce = true ∧ ∃ text, e = .capacity text

theorem overLimit_of_require {enforce c : Bool} {text : String} {e : PackageError}
    (h : require (!enforce || c) (PackageError.capacity text) = .error e) : OverLimit enforce e := by
  rw [require_eq_error] at h
  obtain ⟨hc, rfl⟩ := h
  cases enforce with
  | false => cases hc
  | true => exact ⟨rfl, text, rfl⟩

variable {store : PackageStore} {enforce : Bool}

theorem usageLoop_error {dir : PackageDir} {files : List (String × Bytes)} {used : Usage}
    {e : PackageError} (hf : ∀ p ∈ files, checkEntry H disk dir p.1 = .ok ())
    (he : usageLoop H store enforce disk dir used files = .error e) : OverLimit enforce e := by
  induction files generalizing used with
  | nil => cases he
  | cons p files ih =>
    obtain ⟨name, raw⟩ := p
    rw [List.forall_mem_cons] at hf
    simp only [usageLoop, bind_eq_error, hf.1] at he
    rcases he with he | ⟨_, -, he | ⟨_, -, he | ⟨_, -, he⟩⟩⟩
    · exact overLimit_of_require he
    · exact overLimit_of_require he
    · cases he
    · exact ih hf.2 he

theorem checkDirectories_eq_ok {names : List String}
    (h : ∀ name ∈ names, name ∈ ["manifests", "resources", "provenance"]) :
    checkDirectories H names = .ok () := by
  induction names with
  | nil => rfl
  | cons name names ih =>
    rw [List.forall_mem_cons] at h
    rw [checkDirectories, require_bind_eq_ok, List.contains_iff_mem]
    exact ⟨h.1, ih h.2⟩

/-- **An intact store passes its inspection**, or is over one of its limits. -/
theorem usage_error (h : Intact H disk) {e : PackageError}
    (he : usage H store enforce disk = .error e) : OverLimit enforce e := by
  have hroot : checkDirectories H (disk .root).names = .ok () := by
    refine checkDirectories_eq_ok fun name hname => ?_
    rw [← Dir.get_isSome, Option.isSome_iff_exists] at hname
    obtain ⟨raw, hget⟩ := hname
    exact h .root name raw hget
  have hentries : ∀ dir, dir ≠ .root → ∀ p ∈ (disk dir).entries, checkEntry H disk dir p.1 = .ok () :=
    fun dir hdir p hp => checkEntry_eq_ok h hdir (Dir.mem_entries.1 hp)
  simp only [usage, bind_eq_error, hroot] at he
  rcases he with he | ⟨_, -, he | ⟨_, -, he | ⟨_, -, he | ⟨_, -, he | ⟨_, -, he⟩⟩⟩⟩⟩
  · cases he
  · exact usageLoop_error (hentries .manifests (by decide)) he
  · exact usageLoop_error (hentries .resources (by decide)) he
  · exact usageLoop_error (hentries .provenance (by decide)) he
  · exact overLimit_of_require he
  · cases he

/-! ## Listing -/

/-- The digests of the manifests, in the order of their names. -/
theorem manifestDigests_eq {names : List String}
    (h : ∀ name ∈ names, isTemporary name = true ∨ isObjectName name = true) :
    manifestDigests H names = .ok ((names.filter fun n => !isTemporary n).map digestOf) := by
  induction names with
  | nil => rfl
  | cons name names ih =>
    rw [List.forall_mem_cons] at h
    rw [manifestDigests]
    rcases h.1 with ht | ho
    · rw [if_pos ht, ih h.2, List.filter_cons, ht]
      rfl
    · have ht := not_isTemporary_object ho
      rw [if_neg (by simp [ht]), List.filter_cons, ht]
      simp only [require, ho, if_true, ok_bind, ih h.2]
      rfl

/-- The digests of the manifests that the store has. -/
theorem Intact.digests (h : Intact H disk) : ∃ digests,
    manifestDigests H (disk .manifests).names = .ok digests ∧
      (∀ d ∈ digests, ∃ m : TradeRuleManifest H, m.digest = d ∧ Stored disk m ∧ Holds H disk m) ∧
        ∀ m : TradeRuleManifest H, Stored disk m → m.digest ∈ digests := by
  have hnames : ∀ name ∈ (disk .manifests).names,
      isTemporary name = true ∨ isObjectName name = true := by
    intro name hmem
    by_cases ht : isTemporary name = true
    · exact .inl ht
    · obtain ⟨m, rfl, -⟩ := h.manifest_of_name (Bool.eq_false_iff.2 ht) hmem
      exact .inr (isObjectName_digest (isDigest_digest m))
  refine ⟨_, manifestDigests_eq hnames, fun d hd => ?_, fun m hm => ?_⟩
  · obtain ⟨name, hmem, rfl⟩ := List.mem_map.1 hd
    rw [List.mem_filter, Bool.not_eq_true'] at hmem
    obtain ⟨m, rfl, hm⟩ := h.manifest_of_name hmem.2 hmem.1
    exact ⟨m, (digestOf_objectName (isDigest_digest m)).symm, hm⟩
  · refine List.mem_map.2 ⟨_, List.mem_filter.2 ⟨?_, ?_⟩, digestOf_objectName (isDigest_digest m)⟩
    · rw [← Dir.get_isSome, hm]
      rfl
    · rw [not_isTemporary_object (isObjectName_digest (isDigest_digest m))]
      rfl

theorem exists_loadAll (digests : List String)
    (h : ∀ d ∈ digests, ∃ m : TradeRuleManifest H, m.digest = d ∧ Stored disk m ∧ Holds H disk m) :
    ∃ packages, loadAll H disk digests = .ok packages ∧
      ∀ p ∈ packages, p.digest ∈ digests ∧ loadLocked H disk p.digest = .ok p := by
  induction digests with
  | nil => exact ⟨[], rfl, by simp⟩
  | cons d digests ih =>
    rw [List.forall_mem_cons] at h
    obtain ⟨⟨m, rfl, hs, hh⟩, h⟩ := h
    obtain ⟨p, hp, hm⟩ := loadLocked_eq hs hh
    obtain ⟨packages, hload, hall⟩ := ih h
    have hpd : p.digest = m.digest := by rw [RulePackage.digest, hm]
    refine ⟨p :: packages, ?_, ?_⟩
    · simp only [loadAll, bind_eq_ok, pure_eq_ok]
      exact ⟨p, hp, packages, hload, rfl⟩
    · rw [List.forall_mem_cons]
      refine ⟨⟨hpd ▸ List.mem_cons_self, hpd ▸ hp⟩, fun q hq => ?_⟩
      exact ⟨List.mem_cons_of_mem _ (hall q hq).1, (hall q hq).2⟩

/-- **A page of an intact store** is loaded. -/
theorem page_eq_ok (h : Intact H disk) (after : Option String) (limit : ℕ) :
    ∃ r, page H disk after limit = .ok r ∧ ∀ p ∈ r.1, loadLocked H disk p.digest = .ok p := by
  obtain ⟨digests, hdigests, hall, -⟩ := h.digests
  obtain ⟨packages, hload, hp⟩ := exists_loadAll
    ((((digests.filter fun d => after.all (· < d)).insertionSort (· ≤ ·)).take (limit + 1)).take limit)
    fun d hd => hall d (List.mem_of_mem_filter ((List.perm_insertionSort _ _).mem_iff.1
      (List.mem_of_mem_take (List.mem_of_mem_take hd))))
  simp only [page, hdigests, ok_bind, hload]
  exact ⟨_, rfl, fun p hmem => (hp p hmem).2⟩

/-! ## What nothing needs -/

variable (H) in
/-- A temporary file, or a resource that no manifest of the store declares. -/
def Disposable (disk : PackageDisk) (dir : PackageDir) (name : String) : Prop :=
  (dir ≠ .root ∧ isTemporary name = true) ∨
    (dir = .resources ∧ ∃ digest, isDigest digest = true ∧ name = blobName digest ∧
      ∀ m : TradeRuleManifest H, Stored disk m → digest ∉ m.resources.map Prod.fst)

theorem Stored.eq {m m' : TradeRuleManifest H} (h : Stored disk m) (h' : Stored disk m')
    (hd : m.digest = m'.digest) : m = m' := by
  rw [Stored, hd, h'] at h
  exact (SignedDocument.ext_canonical (Option.some.inj h)).symm

theorem exists_referenced {digests : List String}
    (h : ∀ d ∈ digests, ∃ m : TradeRuleManifest H, m.digest = d ∧ Stored disk m ∧ Holds H disk m) :
    ∃ referenced, referencedDigests H disk digests = .ok referenced ∧
      (∀ m : TradeRuleManifest H, Stored disk m → m.digest ∈ digests →
        ∀ r ∈ m.resources, r.1 ∈ referenced) ∧
      ∀ d ∈ referenced, ∃ m : TradeRuleManifest H, Holds H disk m ∧ d ∈ m.resources.map Prod.fst := by
  induction digests with
  | nil => exact ⟨[], rfl, by simp, by simp⟩
  | cons d digests ih =>
    rw [List.forall_mem_cons] at h
    obtain ⟨⟨m, rfl, hs, hh⟩, h⟩ := h
    obtain ⟨referenced, hr, hall, hfrom⟩ := ih h
    refine ⟨m.resources.map Prod.fst ++ referenced, ?_, fun m' hs' hmem r hmr => ?_, fun d hd => ?_⟩
    · simp only [referencedDigests, bind_eq_ok, pure_eq_ok]
      exact ⟨m, loadManifest_eq hs, referenced, hr, rfl⟩
    · rw [List.mem_append]
      rcases List.mem_cons.1 hmem with heq | hmem
      · rw [Stored.eq hs' hs heq] at hmr
        exact .inl (List.mem_map_of_mem hmr)
      · exact .inr (hall m' hs' hmem r hmr)
    · rcases List.mem_append.1 hd with hd | hd
      · exact ⟨m, hh, hd⟩
      · exact hfrom d hd

theorem mem_sortedSet {xs : List String} {x : String} : x ∈ sortedSet xs ↔ x ∈ xs := by
  rw [sortedSet, (List.perm_insertionSort _ _).mem_iff, List.mem_dedup]

theorem isTemporary_of_mem {dir : PackageDir} {file : PackageFile}
    (h : file ∈ temporaryFiles disk dir) : file.1 = dir ∧ isTemporary file.2 = true := by
  obtain ⟨name, hname, rfl⟩ := List.mem_map.1 h
  exact ⟨rfl, (List.mem_filter.1 hname).2⟩

/-- **The inspection of an intact store** passes its limits by, and finds only what nothing
    needs; no resource is missing. -/
theorem inspect_eq_ok (h : Intact H disk) (store : PackageStore) : ∃ found, inspect H store disk = .ok found ∧
    found.missing = [] ∧ (∀ d ∈ found.orphaned, Disposable H disk .resources (blobName d)) ∧
      ∀ f ∈ found.temporary, Disposable H disk f.1 f.2 := by
  obtain ⟨used, hused⟩ : ∃ used, usage H store false disk = .ok used := by
    cases hu : usage H store false disk with
    | ok used => exact ⟨used, rfl⟩
    | error e => exact absurd (usage_error h hu).1 (by decide)
  obtain ⟨digests, hdigests, hall, hevery⟩ := h.digests
  obtain ⟨referenced, hr, hrefs, hfrom⟩ := exists_referenced hall
  simp only [inspect, hused, ok_bind, hdigests, hr]
  refine ⟨_, rfl, ?_, fun d hd => ?_, fun f hf => ?_⟩
  · rw [List.eq_nil_iff_forall_not_mem]
    intro d hd
    rw [mem_sortedSet, List.mem_filter, Bool.not_eq_true', ← Bool.not_eq_true,
      List.contains_iff_mem] at hd
    obtain ⟨m, hh, hmem⟩ := hfrom d hd.1
    obtain ⟨r, hmr, rfl⟩ := List.mem_map.1 hmem
    obtain ⟨payload, hget, -⟩ := hh r hmr
    have hdr := ((resources_valid m).2 r hmr).1
    refine hd.2 (List.mem_map.2 ⟨blobName r.1, List.mem_filter.2 ⟨?_, isBlobName_blobName hdr⟩,
      digestOf_blobName hdr⟩)
    rw [← Dir.get_isSome, hget]
    rfl
  · rw [mem_sortedSet, List.mem_filter, Bool.not_eq_true', ← Bool.not_eq_true,
      List.contains_iff_mem] at hd
    obtain ⟨name, hname, rfl⟩ := List.mem_map.1 hd.1
    have hblob := isBlobName_iff.1 (List.mem_filter.1 hname).2
    refine .inr ⟨rfl, _, isDigest_digestOf hblob, rfl, fun m hm hmem => ?_⟩
    obtain ⟨r, hmr, hrd⟩ := List.mem_map.1 hmem
    exact hd.2 (hrd ▸ hrefs m hm (hevery m hm) r hmr)
  · have hf := (List.perm_insertionSort _ _).mem_iff.1 hf
    rw [List.mem_append, List.mem_append] at hf
    rcases hf with (hf | hf) | hf
    all_goals
      obtain ⟨hdir, ht⟩ := isTemporary_of_mem hf
      exact .inl ⟨by rw [hdir]; decide, ht⟩

variable (H) in
/-- A store without files that nothing needs. -/
structure Pruned (disk disk' : PackageDisk) : Prop where
  old : ∀ dir name raw, (disk' dir).get name = some raw → (disk dir).get name = some raw
  kept : ∀ dir name raw, (disk dir).get name = some raw →
    (disk' dir).get name = some raw ∨ Disposable H disk dir name

theorem Pruned.refl (disk : PackageDisk) : Pruned H disk disk :=
  ⟨fun _ _ _ h => h, fun _ _ _ h => .inl h⟩

theorem Pruned.remove (h : Pruned H disk disk') {dir : PackageDir} {name : String}
    (hd : Disposable H disk dir name) :
    Pruned H disk (onDir dir (fun d => d.remove name) disk') := by
  have hget : ∀ dir' name', (onDir dir (fun d => d.remove name) disk' dir').get name' =
      if dir' = dir ∧ name' = name then none else (disk' dir').get name' := by
    intro dir' name'
    by_cases hdir : dir' = dir
    · subst hdir
      simp only [onDir, Function.update_self, Dir.get_remove, true_and]
    · simp only [onDir, Function.update_of_ne hdir, hdir, false_and, if_false]
  constructor
  · intro dir' name' raw hraw
    rw [hget] at hraw
    split_ifs at hraw
    exact h.old _ _ _ hraw
  · intro dir' name' raw hraw
    rw [hget]
    by_cases he : dir' = dir ∧ name' = name
    · obtain ⟨rfl, rfl⟩ := he
      exact .inr hd
    · rw [if_neg he]
      exact h.kept _ _ _ hraw

theorem Disposable.ne_objectName {digest : String} (hd : isDigest digest = true) :
    ¬ Disposable H disk .manifests (objectName digest) := by
  rintro (⟨-, ht⟩ | ⟨hdir, -⟩)
  · rw [not_isTemporary_object (isObjectName_digest hd)] at ht
    cases ht
  · cases hdir

theorem Disposable.ne_blobName {m : TradeRuleManifest H} (hm : Stored disk m) {r : String × ℕ}
    (hr : r ∈ m.resources) : ¬ Disposable H disk .resources (blobName r.1) := by
  have hd := ((resources_valid m).2 r hr).1
  rintro (⟨-, ht⟩ | ⟨-, digest, hdigest, hname, hno⟩)
  · rw [not_isTemporary_blob (isBlobName_blobName hd)] at ht
    cases ht
  · refine hno m hm (List.mem_map.2 ⟨r, hr, ?_⟩)
    rw [← digestOf_blobName hd, hname, digestOf_blobName hdigest]

/-- A file that something needs is the same in both. -/
theorem Pruned.get_eq (h : Pruned H disk disk') {dir : PackageDir} {name : String}
    (hd : ¬ Disposable H disk dir name) : (disk' dir).get name = (disk dir).get name := by
  cases hget : (disk dir).get name with
  | some raw => exact (h.kept dir name raw hget).resolve_right hd
  | none =>
    cases hget' : (disk' dir).get name with
    | none => rfl
    | some raw =>
      rw [h.old dir name raw hget'] at hget
      cases hget

theorem Pruned.stored (h : Pruned H disk disk') {m : TradeRuleManifest H} :
    Stored disk' m ↔ Stored disk m := by
  rw [Stored, Stored, h.get_eq (Disposable.ne_objectName (isDigest_digest m))]

/-- **Without what nothing needs** a store is intact as before. -/
theorem Intact.pruned (hi : Intact H disk) (h : Pruned H disk disk') : Intact H disk' := by
  intro dir name raw hget
  have hok := hi dir name raw (h.old dir name raw hget)
  cases dir with
  | root => exact hok
  | resources => exact hok
  | manifests =>
    rcases hok with ht | ⟨m, hname, hraw, hholds⟩
    · exact .inl ht
    · refine .inr ⟨m, hname, hraw, fun r hr => ?_⟩
      have hstored : Stored disk m := by
        rw [Stored, ← hname, h.old _ _ _ hget, hraw]
      rw [h.get_eq (Disposable.ne_blobName hstored hr)]
      exact hholds r hr
  | provenance =>
    rcases hok with ht | ⟨digest, hd, hname, hm, hrest⟩
    · exact .inl ht
    · refine .inr ⟨digest, hd, hname, ?_, hrest⟩
      rw [hname, h.get_eq (Disposable.ne_objectName hd), ← hname]
      exact hm

theorem loadResources_congr {dir dir' : Dir Bytes} {items : List (String × ℕ)}
    (h : ∀ r ∈ items, dir'.get (blobName r.1) = dir.get (blobName r.1)) (acc : Py.Dict String Bytes) :
    loadResources dir' acc items = loadResources dir acc items := by
  induction items generalizing acc with
  | nil => rfl
  | cons r items ih =>
    obtain ⟨digest, size⟩ := r
    rw [List.forall_mem_cons] at h
    have hread : readExact dir' (blobName digest) size ("resource " ++ digest) =
        readExact dir (blobName digest) size ("resource " ++ digest) := by
      rw [readExact, readExact, h.1]
    simp only [loadResources, hread, ih h.2]

/-- What is loaded is a manifest of the store. -/
theorem stored_of_loadManifest (hi : Intact H disk) {digest : String} (hd : isDigest digest = true)
    {m : TradeRuleManifest H} (hm : loadManifest H disk digest = .ok m) :
    Stored disk m ∧ m.digest = digest := by
  have hfile : ∃ raw, (disk .manifests).get (objectName digest) = some raw := by
    simp only [loadManifest, readExact, bind_eq_ok, expect_eq_ok] at hm
    obtain ⟨-, ⟨raw, hraw, -⟩, -⟩ := hm
    exact ⟨raw, hraw⟩
  obtain ⟨raw, hraw⟩ := hfile
  obtain ⟨m', rfl, rfl, -⟩ := hi.manifest hd hraw
  rw [loadManifest_eq hraw] at hm
  cases hm
  exact ⟨hraw, rfl⟩

/-- **Every package is loaded as before.** -/
theorem loadLocked_pruned (hi : Intact H disk) (h : Pruned H disk disk') {digest : String}
    (hd : isDigest digest = true) : loadLocked H disk' digest = loadLocked H disk digest := by
  have hget : (disk' .manifests).get (objectName digest) = (disk .manifests).get (objectName digest) :=
    h.get_eq (Disposable.ne_objectName hd)
  have hmanifest : loadManifest H disk' digest = loadManifest H disk digest := by
    simp only [loadManifest, readExact, hget]
  rw [loadLocked, loadLocked, hmanifest]
  cases hm : loadManifest H disk digest with
  | error e => rfl
  | ok m =>
    have hstored := (stored_of_loadManifest hi hd hm).1
    rw [ok_bind, ok_bind, loadResources_congr fun r hr => h.get_eq (Disposable.ne_blobName hstored hr)]

end NthDao.TradeRules.Packages
