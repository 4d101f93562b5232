/-
  Runs of the package store: any calls of any processes, each cut by a crash anywhere.

  * `triple_put`, `triple_putResources`, `triple_putManifest`: the resources are there
    before the manifest, and the manifest before the provenance;
  * `triple_install`, `triple_reconcile`: an installation keeps the store intact, and pruning
    takes what nothing needs;
  * `package_store_intact`: what holds of the store after any run.
-/
import NthDao.Reach
import NthDao.TradeRules.PackageIntact

namespace NthDao.TradeRules.Packages

open Py Directory Crash

variable {H : Host} {disk : PackageDisk}

/-! ## Writing a file -/

/-- A file of the store with new bytes. -/
def withFile (dir : PackageDir) (name : String) (raw : Bytes) (disk : PackageDisk) : PackageDisk :=
  onDir dir (fun d => d.set name raw) disk

theorem get_withFile (dir dir' : PackageDir) (name name' : String) (raw : Bytes) :
    (withFile dir name raw disk dir').get name' =
      if dir' = dir ∧ name' = name then some raw else (disk dir').get name' := by
  by_cases hdir : dir' = dir
  · subst hdir
    simp only [withFile, onDir, Function.update_self, Dir.get_set, true_and]
  · simp only [withFile, onDir, Function.update_of_ne hdir, hdir, false_and, if_false]

/-- A file that is new, where it is one that others need. -/
theorem keeps_withFile {dir : PackageDir} {name : String} (raw : Bytes)
    (h : dir = .resources → isTemporary name = false → (disk .resources).get name = none) :
    Keeps disk (withFile dir name raw disk) := by
  constructor
  · intro name' _ hsome
    rw [get_withFile]
    split_ifs
    · rfl
    · exact hsome
  · intro name' raw' ht hget
    rw [get_withFile]
    by_cases he : PackageDir.resources = dir ∧ name' = name
    · obtain ⟨rfl, rfl⟩ := he
      rw [h rfl ht] at hget
      cases hget
    · rw [if_neg he]
      exact hget

/-- **A file that is what it has to be** leaves the store intact. -/
theorem Intact.withFile (hi : Intact H disk) {dir : PackageDir} {name : String} {raw : Bytes}
    (hk : Keeps disk (withFile dir name raw disk)) (hok : FileOk H disk dir name raw) :
    Intact H (withFile dir name raw disk) := by
  intro dir' name' raw' hget
  rw [get_withFile] at hget
  split_ifs at hget with he
  · obtain ⟨rfl, rfl⟩ := he
    cases hget
    exact hok.keeps hk
  · exact (hi dir' name' raw' hget).keeps hk

theorem PackageDir.name_mem {dir : PackageDir} (h : dir ≠ .root) :
    dir.name ∈ ["manifests", "resources", "provenance"] := by
  cases dir with
  | root => exact absurd rfl h
  | _ => decide

/-- The store with the directory of a file. -/
def withDir (dir : PackageDir) (disk : PackageDisk) : PackageDisk := withFile .root dir.name [] disk

theorem Intact.withDir (hi : Intact H disk) {dir : PackageDir} (h : dir ≠ .root) :
    Intact H (withDir dir disk) :=
  hi.withFile (keeps_withFile _ fun hr => by cases hr) (PackageDir.name_mem h)

theorem get_withDir {dir dir' : PackageDir} (h : dir' ≠ .root) (name : String) :
    (withDir dir disk dir').get name = (disk dir').get name := by
  rw [withDir, get_withFile, if_neg fun he => h he.1]

theorem fileOk_temporary {dir : PackageDir} (h : dir ≠ .root) {name : String}
    (ht : isTemporary name = true) (raw : Bytes) : FileOk H disk dir name raw := by
  cases dir with
  | root => exact absurd rfl h
  | _ => exact .inl ht

/-- **A write** is done, or leaves the store intact. -/
theorem triple_put {T : TempNames} {dir : PackageDir} {name : String} {raw : Bytes}
    (h : dir ≠ .root) (hi : Intact H disk) : Triple (· = disk) (put T dir name raw)
      (fun _ s => s = withFile dir name raw (withDir dir disk)) (fun _ _ => False)
      (fun _ => Intact H) := by
  have hdir : Intact H (withDir dir disk) := hi.withDir h
  refine Triple.bind (Q := fun _ s => s = withDir dir disk) (Triple.write ?_ ?_) fun _ => ?_
  · rintro s rfl
    rfl
  · rintro s rfl
    exact hi
  · refine triple_atomicWrite.weaken (fun _ h => h) (fun _ _ h => h) (fun _ _ h => h) ?_
    rintro _ s (⟨-, rfl⟩ | ⟨-, token, raw', hfresh, rfl⟩)
    · exact hdir
    · refine hdir.withFile (keeps_withFile _ fun hd _ => ?_)
        (fileOk_temporary h (isTemporary_temporary _) _)
      subst hd
      exact Dir.get_eq_none.2 hfresh

/-! ## Installing -/

/-- The resources are there. -/
def Has (resources : Py.Dict String Bytes) (disk : PackageDisk) : Prop :=
  ∀ p ∈ resources, (disk .resources).get (blobName p.1) = some p.2

theorem verifyExisting_eq_true {dir : Dir Bytes} {name label : String} {expected : Bytes}
    (h : verifyExisting dir name expected label = .ok true) : dir.get name = some expected := by
  rw [verifyExisting] at h
  split_ifs at h
  swap
  · cases h
  simp only [readExact, bind_eq_ok, expect_eq_ok, pure_eq_ok, require_eq_ok, beq_iff_eq] at h
  obtain ⟨actual, ⟨raw, hraw, -, -, rfl⟩, -, rfl, -⟩ := h
  exact hraw

theorem verifyExisting_eq_false {dir : Dir Bytes} {name label : String} {expected : Bytes}
    (h : verifyExisting dir name expected label = .ok false) : dir.get name = none := by
  rw [verifyExisting] at h
  split_ifs at h with hs
  · simp only [bind_eq_ok, pure_eq_ok] at h
    obtain ⟨-, -, -, -, h⟩ := h
    cases h
  · simpa using hs

/-- **The resources** are written, none of them over another. -/
theorem triple_putResources {T : ℕ → TempNames} {resources : Py.Dict String Bytes}
    (done : Py.Dict String Bytes)
    (hr : ∀ p ∈ resources, isDigest p.1 = true) :
    Triple (fun s => Intact H s ∧ Has done s) (putResources T resources)
      (fun _ s => Intact H s ∧ Has (done ++ resources) s) (fun _ => Intact H)
      (fun _ => Intact H) := by
  induction resources generalizing done with
  | nil =>
    rw [List.append_nil]
    exact Triple.pure (Q := fun _ s => Intact H s ∧ Has done s) ()
  | cons p resources ih =>
    obtain ⟨digest, payload⟩ := p
    rw [List.forall_mem_cons] at hr
    have hnext : Triple (fun s => Intact H s ∧ Has (done ++ [(digest, payload)]) s)
        (putResources T resources)
        (fun _ s => Intact H s ∧ Has (done ++ (digest, payload) :: resources) s)
        (fun _ => Intact H) (fun _ => Intact H) := by
      have := ih (done ++ [(digest, payload)]) hr.2
      rwa [List.append_assoc] at this
    refine Triple.of_forall fun s ⟨hi, hdone⟩ => ?_
    refine Triple.get.bind fun d => ?_
    refine Triple.bind (Q := fun present t => t = s ∧
      verifyExisting (s .resources) (blobName digest) payload ("resource " ++ digest) = .ok present)
      (Triple.lift ?_ ?_) fun present => ?_
    · rintro present hv t ⟨rfl, rfl⟩
      exact ⟨rfl, hv⟩
    · rintro e - t ⟨rfl, rfl⟩
      exact hi
    · cases present with
      | true =>
        refine hnext.pre ?_
        rintro t ⟨rfl, hv⟩
        refine ⟨hi, fun q hq => ?_⟩
        rcases List.mem_append.1 hq with hq | hq
        · exact hdone q hq
        · rw [List.mem_singleton.1 hq]
          exact verifyExisting_eq_true hv
      | false =>
        refine Triple.of_forall fun t ht => ?_
        obtain ⟨rfl, hv⟩ := ht
        have hnone := verifyExisting_eq_false hv
        refine Triple.bind ((triple_put (by decide) hi).weaken (fun _ h => h) (fun _ _ h => h)
          (fun _ _ h => h.elim) (fun _ _ h => h)) fun _ => hnext.pre ?_
        rintro _ rfl
        have hget : ∀ name, (withDir .resources t .resources).get name = (t .resources).get name :=
          get_withDir (by decide)
        refine ⟨(hi.withDir (by decide)).withFile (keeps_withFile _ fun _ _ => ?_)
          (.inr (isBlobName_blobName hr.1)), fun q hq => ?_⟩
        · rw [hget, hnone]
        · rw [get_withFile]
          rcases List.mem_append.1 hq with hq | hq
          · have hold := hdone q hq
            rw [if_neg, hget, hold]
            rintro ⟨-, he⟩
            rw [he, hnone] at hold
            cases hold
          · rw [List.mem_singleton.1 hq, if_pos ⟨rfl, rfl⟩]

theorem Has.holds {package : RulePackage H} (h : Has package.resources disk) :
    Holds H disk package.manifest := by
  intro r hr
  obtain ⟨payload, hget, hprov⟩ := (provides_of_checkPackage package.checked).1 r hr
  exact ⟨payload, h (r.1, payload) (Dict.mem_of_get hget), hprov⟩

/-- Bytes for the provenance of a package, or none. -/
def Written (digest : String) (existing desired : Bytes) : Prop :=
  (desired = [] ∧ existing = []) ∨ ∃ sources ∈ storedSources, desired = provenanceBytes digest sources

theorem fileOk_provenance {digest : String} {sources : List String} (hd : isDigest digest = true)
    (hs : sources ∈ storedSources)
    (hm : ((disk .manifests).get (objectName digest)).isSome = true) :
    FileOk H disk .provenance (objectName digest) (provenanceBytes digest sources) :=
  .inr ⟨digest, hd, rfl, hm, length_provenanceBytes hd hs, sources, readSources_provenanceBytes hd hs⟩

/-- The provenance of a manifest that is there. -/
theorem triple_putProvenance {T : TempNames} {package : RulePackage H} {existing desired : Bytes}
    (hw : Written package.digest existing desired) (hne : desired ≠ [] ∨ desired ≠ existing) :
    Triple (fun s => Intact H s ∧ ((s .manifests).get (objectName package.digest)).isSome = true)
      (put T .provenance (objectName package.digest) desired) (fun _ => Intact H)
      (fun _ => Intact H) (fun _ => Intact H) := by
  rcases hw with ⟨hd, he⟩ | ⟨sources, hs, rfl⟩
  · rw [hd, he] at hne
    simp at hne
  · refine Triple.of_forall fun s ⟨hi, hm⟩ => (triple_put (by decide) hi).weaken (fun _ h => h)
      (fun _ t ht => ?_) (fun _ _ h => h.elim) (fun _ _ h => h)
    subst ht
    refine (hi.withDir (by decide)).withFile (keeps_withFile _ fun hr => by cases hr)
      (fileOk_provenance (isDigest_digest package.manifest) hs ?_)
    rw [get_withDir (by decide)]
    exact hm

/-- **The manifest** is written when its resources are there, and the provenance when the
    manifest is. -/
theorem triple_putManifest {T T' : TempNames} {package : RulePackage H} {existing desired : Bytes}
    (hw : Written package.digest existing desired) :
    Triple (fun s => Intact H s ∧ Has package.resources s) (putManifest T T' package existing desired)
      (fun _ => Intact H) (fun _ => Intact H) (fun _ => Intact H) := by
  refine Triple.of_forall fun s ⟨hi, hhas⟩ => ?_
  refine Triple.get.bind fun d => ?_
  refine Triple.bind (Q := fun present t => t = s ∧ d = s ∧ verifyExisting (s .manifests)
      (objectName package.digest) package.manifest.canonicalBytes ("manifest " ++ package.digest) =
        .ok present) (Triple.lift ?_ ?_) fun present => ?_
  · rintro present hv t ⟨rfl, rfl⟩
    exact ⟨rfl, rfl, hv⟩
  · rintro e - t ⟨rfl, rfl⟩
    exact hi
  · cases present with
    | true =>
      refine Triple.bind (Q := fun _ t => Intact H t ∧
        ((t .manifests).get (objectName package.digest)).isSome = true) (Triple.lift ?_ ?_)
        fun loaded => Triple.ite (fun hne => ?_) fun _ => ?_
      · rintro loaded - t ⟨rfl, -, hv⟩
        exact ⟨hi, by rw [verifyExisting_eq_true hv]; rfl⟩
      · rintro e - t ⟨rfl, -⟩
        exact hi
      · refine (triple_putProvenance hw (.inr ?_)).bind fun _ => Triple.pure (Q := fun _ => Intact H) _
        simpa using hne
      · exact (Triple.pure (Q := fun _ => Intact H) _).pre fun _ h => h.1
    | false =>
      refine Triple.bind (Q := fun _ t => Intact H t ∧
        ((t .manifests).get (objectName package.digest)).isSome = true) ?_ fun _ =>
          Triple.ite (fun _ => ?_) fun hne => ?_
      · refine Triple.of_forall fun t ht => ?_
        obtain ⟨rfl, -, hv⟩ := ht
        refine (triple_put (by decide) hi).weaken (fun _ h => h) (fun _ u hu => ?_)
          (fun _ _ h => h.elim) (fun _ _ h => h)
        subst hu
        constructor
        · refine (hi.withDir (by decide)).withFile (keeps_withFile _ fun hr => by cases hr)
            (.inr ⟨package.manifest, rfl, rfl, ?_⟩)
          exact Has.holds fun p hp => by rw [get_withDir (by decide)]; exact hhas p hp
        · rw [get_withFile, if_pos ⟨rfl, rfl⟩]
          rfl
      · exact (Triple.pure (Q := fun _ => Intact H) _).pre fun _ h => h.1
      · refine (triple_putProvenance hw (.inl ?_)).bind fun _ => Triple.pure (Q := fun _ => Intact H) _
        simpa using hne

theorem knownSources_eq_ok {text : String} {items : List Json} {sources : List String}
    (h : knownSources text items = .ok sources) : ∀ s ∈ sources, s ∈ provenanceSourceNames := by
  induction items generalizing sources with
  | nil =>
    cases h
    simp
  | cons x xs ih =>
    simp only [knownSources, bind_eq_ok, mapError_eq_ok, require_eq_ok, pure_eq_ok] at h
    obtain ⟨known, hk, -, rfl, rest, hrest, rfl⟩ := h
    intro s hs
    rcases List.mem_append.1 hs with hs | hs
    · rw [Option.mem_toList, Json.asStr_eq_some] at hs
      subst hs
      have hany : provenanceSourceNames.any (Json.str s).eqStr = true := Except.ok.inj hk
      obtain ⟨s', hs', heq⟩ := List.any_eq_true.1 hany
      rw [Json.eqStr_iff] at heq
      cases heq
      exact hs'
    · exact ih hrest s hs

theorem provenanceSources_known {digest : String} {sources : List String}
    (h : provenanceSources disk digest = .ok sources) : ∀ s ∈ sources, s ∈ provenanceSourceNames := by
  rw [provenanceSources] at h
  split_ifs at h
  · simp only [readSources, bind_eq_ok, pure_eq_ok] at h
    obtain ⟨_, -, _, -, _, -, _, -, sources', hs, -, -, rfl⟩ := h
    exact knownSources_eq_ok hs
  · cases h
    simp

theorem written_sourceBytes {digest : String} {existing : List String} {source : Option String}
    (h : ∀ s ∈ existing, s ∈ provenanceSourceNames) : Written digest (sourceBytes digest existing)
      (sourceBytes digest (desiredSources existing source)) := by
  rcases desiredSources_mem existing source with hd | hd
  · have hnil : existing = [] := by
      refine List.eq_nil_iff_forall_not_mem.2 fun s hs => ?_
      have : s ∈ desiredSources existing source :=
        List.mem_filter.2 ⟨h s hs, by rw [List.contains_iff_mem.2 hs, Bool.true_or]⟩
      rw [hd] at this
      cases this
    rw [hd, hnil]
    exact .inl ⟨rfl, rfl⟩
  · refine .inr ⟨_, hd, ?_⟩
    have hne : desiredSources existing source ≠ [] := by
      intro hnil
      rw [hnil] at hd
      exact absurd hd (by decide)
    rw [sourceBytes, if_neg (by simpa using hne)]

/-- **An installation** keeps the store intact, wherever it is cut. -/
theorem triple_install (T : ℕ → TempNames) (store : PackageStore) (manifest : ManifestValue H)
    (resources : Py.Dict String Bytes) (source : Option String) :
    Triple (Intact H) (install T store manifest resources source) (fun _ => Intact H)
      (fun _ => Intact H) (fun _ => Intact H) := by
  have quiet : ∀ {α : Type} {P : PackageDisk → Prop} (x : Except PackageError α),
      Triple P (Op.lift x : PackageOp α) (fun a s => P s ∧ x = .ok a) (fun _ => P) fun _ => P :=
    fun x => Triple.lift (fun a ha s hs => ⟨hs, ha⟩) fun e _ s hs => hs
  refine (quiet _).bind fun _ => Triple.pre ?_ fun _ h => h.1
  refine (quiet _).bind fun package => Triple.pre ?_ fun _ h => h.1
  refine Triple.of_forall fun s hi => Triple.get.bind fun d => ?_
  refine Triple.pre (P := Intact H) ?_ (by rintro t ⟨-, rfl⟩; exact hi)
  refine (quiet _).bind fun used => Triple.pre ?_ fun _ h => h.1
  refine (quiet _).bind fun existing => Triple.of_forall fun t ⟨ht, hexisting⟩ => ?_
  refine Triple.pre (P := Intact H) ?_ (by rintro u rfl; exact ht)
  refine (quiet _).bind fun _ => Triple.pre ?_ fun _ h => h.1
  have hdigests : ∀ p ∈ package.resources, isDigest p.1 = true := by
    intro p hp
    obtain ⟨r, hr, hrp⟩ := List.mem_map.1
      ((provides_of_checkPackage package.checked).2 p.1 (List.mem_map_of_mem hp))
    rw [← hrp]
    exact ((resources_valid package.manifest).2 r hr).1
  refine Triple.bind (Q := fun _ s => Intact H s ∧ Has package.resources s) ?_ fun _ =>
    triple_putManifest (written_sourceBytes (provenanceSources_known hexisting))
  exact (triple_putResources [] hdigests).pre fun _ h => ⟨h, by simp [Has]⟩

/-! ## Reading -/

variable (H) in
/-- How `load` ends. -/
def loadEnding (disk : PackageDisk) (digest : String) :
    Ending (Site PackageDir) PackageError (Option (RulePackage H)) :=
  if ((disk .manifests).get (objectName digest)).isSome then
    match loadLocked H disk digest with
    | .ok package => .returned (some package)
    | .error e => .raised e
  else .returned none

/-- `load` reads, and does no more. -/
theorem load_run {digest : String} (hd : isDigest digest = true) (n : ℕ) :
    load H digest n disk = ⟨loadEnding H disk digest, n, disk⟩ := by
  have hsuffix : digestSuffix digest = .ok () := require_eq_ok.2 hd
  change Op.andThen (Op.lift (digestSuffix digest)) _ n disk = _
  rw [hsuffix]
  change (if ((disk .manifests).get (objectName digest)).isSome = true then
    (do return some (← Op.lift (loadLocked H disk digest)) : PackageOp _) else return none) n disk = _
  rw [loadEnding]
  split_ifs
  · cases hl : loadLocked H disk digest with
    | ok p => rfl
    | error e => rfl
  · rfl

theorem loadEnding_of_loadLocked {digest : String} {p : RulePackage H}
    (h : loadLocked H disk digest = .ok p) : loadEnding H disk digest = .returned (some p) := by
  have hsome : ((disk .manifests).get (objectName digest)).isSome = true := by
    simp only [loadLocked, loadManifest, readExact, bind_eq_ok, expect_eq_ok] at h
    obtain ⟨-, ⟨-, ⟨raw, hraw, -⟩, -⟩, -⟩ := h
    rw [hraw]
    rfl
  rw [loadEnding, if_pos hsome, h]

/-- **A digest loads** if and only if its manifest is there. -/
theorem Intact.loadEnding (hi : Intact H disk) {digest : String} (hd : isDigest digest = true) :
    ∃ package : Option (RulePackage H), loadEnding H disk digest = .returned package ∧
      (package.isSome = true ↔ objectName digest ∈ (disk .manifests).names) ∧
        ∀ p ∈ package, p.digest = digest := by
  rw [← Dir.get_isSome]
  cases hget : (disk .manifests).get (objectName digest) with
  | none =>
    refine ⟨none, ?_, by simp, by simp⟩
    rw [Packages.loadEnding, hget]
    rfl
  | some raw =>
    obtain ⟨m, rfl, rfl, hholds⟩ := hi.manifest hd hget
    obtain ⟨p, hp, hm⟩ := loadLocked_eq hget hholds
    refine ⟨some p, loadEnding_of_loadLocked hp, by simp, ?_⟩
    rintro q hq
    cases hq
    rw [RulePackage.digest, hm]

theorem loadEnding_pruned (hi : Intact H disk) {disk' : PackageDisk} (h : Pruned H disk disk')
    {digest : String} (hd : isDigest digest = true) :
    loadEnding H disk' digest = loadEnding H disk digest := by
  rw [loadEnding, loadEnding, h.get_eq (Disposable.ne_objectName hd), loadLocked_pruned hi h hd]

/-- **A page** of an intact store is loaded, or refused for the arguments or the limits. -/
theorem triple_listPage (hi : Intact H disk) (store : PackageStore) (after : Option String)
    (limit : ℕ) : Triple (· = disk) (listPage H store after limit)
      (fun r s => s = disk ∧ ∀ p ∈ r.1, loadLocked H disk p.digest = .ok p)
      (fun e s => s = disk ∧ ∀ text, e ≠ .corruption text) (fun _ _ => False) := by
  have hvalue : ∀ {c : Bool} {text : String} {Q : Unit → PackageDisk → Prop},
      (∀ u, Q u disk) → Triple (· = disk) (Op.lift (require c (PackageError.value text)))
        Q (fun e s => s = disk ∧ ∀ text, e ≠ .corruption text)
        (fun (_ : Site PackageDir) _ => False) := by
    intro c text Q hQ
    refine Triple.lift (fun u _ s hs => hs ▸ hQ u) fun e he s hs => ⟨hs, ?_⟩
    rw [require_eq_error] at he
    rintro text' rfl
    cases he.2
  refine Triple.bind (hvalue (Q := fun _ s => s = disk) fun _ => rfl) fun _ => ?_
  refine Triple.bind (hvalue (Q := fun _ s => s = disk) fun _ => rfl) fun _ => ?_
  refine Triple.get.bind fun d => Triple.of_forall fun s ⟨hd, hs⟩ => ?_
  subst hd hs
  refine Triple.ite (fun _ => ?_) fun _ => ?_
  · rintro n t rfl
    exact ⟨rfl, by simp⟩
  · refine Triple.bind (Q := fun _ t => t = d) (Triple.lift (fun _ _ t ht => ht) ?_) fun _ =>
      Triple.lift ?_ ?_
    · rintro e he t rfl
      obtain ⟨-, text, rfl⟩ := usage_error hi he
      exact ⟨rfl, fun text' h => by cases h⟩
    · rintro r hr t rfl
      obtain ⟨r', hr', hall⟩ := page_eq_ok hi after limit
      rw [hr] at hr'
      cases hr'
      exact ⟨rfl, hall⟩
    · rintro e he t rfl
      obtain ⟨r', hr', -⟩ := page_eq_ok hi after limit
      rw [he] at hr'
      cases hr'

/-! ## Reconciling -/

theorem triple_pruneFiles {files : List PackageFile}
    (hf : ∀ f ∈ files, Disposable H disk f.1 f.2) : Triple (Pruned H disk) (pruneFiles files)
      (fun _ => Pruned H disk) (fun _ => Pruned H disk) (fun _ => Pruned H disk) := by
  induction files with
  | nil => exact Triple.pure (Q := fun _ => Pruned H disk) _
  | cons f files ih =>
    obtain ⟨dir, name⟩ := f
    rw [List.forall_mem_cons] at hf
    refine Triple.get.bind fun d => Triple.pre (P := Pruned H disk) ?_ fun _ h => h.2
    refine Triple.bind (Q := fun _ => Pruned H disk) (Triple.lift (fun _ _ _ h => h) fun _ _ _ h => h)
      fun raw => ?_
    refine Triple.bind (Q := fun _ => Pruned H disk)
      (Triple.write (fun s hs => hs.remove hf.1) fun _ h => h) fun _ => ?_
    exact (ih hf.2).bind fun _ => Triple.pure (Q := fun _ => Pruned H disk) _

/-- **Reconciling** takes what nothing needs, wherever it is cut. -/
theorem triple_reconcile (hi : Intact H disk) (store : PackageStore) (prune : Bool) :
    Triple (· = disk) (reconcile H store prune) (fun _ => Pruned H disk) (fun _ => Pruned H disk)
      (fun _ => Pruned H disk) := by
  obtain ⟨found, hfound, -, horphans, htemporary⟩ := inspect_eq_ok hi store
  refine Triple.get.bind fun d => Triple.of_forall fun s ⟨hd, hs⟩ => ?_
  subst hd hs
  rw [hfound]
  refine Triple.bind (Q := fun a t => a = found ∧ t = d) (Triple.lift ?_ ?_) fun a =>
    Triple.of_forall fun t ht => ?_
  · rintro a ha t rfl
    cases ha
    exact ⟨rfl, rfl⟩
  · rintro e ⟨⟩
  obtain ⟨rfl, rfl⟩ := ht
  refine Triple.pre (P := Pruned H t) ?_ (by rintro u rfl; exact Pruned.refl _)
  refine Triple.ite (fun _ => ?_) fun _ => Triple.pure (Q := fun _ => Pruned H t) _
  refine Triple.bind (triple_pruneFiles fun f hf => ?_) fun _ =>
    Triple.pure (Q := fun _ => Pruned H t) _
  rcases List.mem_append.1 hf with hf | hf
  · obtain ⟨digest, hdigest, rfl⟩ := List.mem_map.1 hf
    exact horphans digest hdigest
  · exact htemporary f hf

/-! ## Runs -/

/-- A call of some process. -/
inductive PackageCall (H : Host) where
  | install (T : ℕ → TempNames) (store : PackageStore) (manifest : ManifestValue H)
      (resources : Py.Dict String Bytes) (source : Option String)
  | load (digest : String)
  | listPage (store : PackageStore) (after : Option String) (limit : ℕ)
  | reconcile (store : PackageStore) (prune : Bool)

/-- The disk that a call leaves, cut after `n` durable steps. -/
def PackageCall.perform (n : ℕ) (disk : PackageDisk) : PackageCall H → PackageDisk
  | .install T store manifest resources source =>
      (Packages.install T store manifest resources source n disk).disk
  | .load digest => (Packages.load H digest n disk).disk
  | .listPage store after limit => (Packages.listPage H store after limit n disk).disk
  | .reconcile store prune => (Packages.reconcile H store prune n disk).disk

/-- A step of the store: a call, and the durable steps until a crash. -/
def packageStep (disk : PackageDisk) (a : ℕ × PackageCall H) : Option PackageDisk :=
  some (a.2.perform a.1 disk)

theorem triple_load (digest : String) : Triple (· = disk) (load H digest) (fun _ s => s = disk)
    (fun _ s => s = disk) (fun _ s => s = disk) := by
  have quiet : ∀ {α : Type} (x : Except PackageError α), Triple (· = disk) (Op.lift x : PackageOp α)
      (fun _ s => s = disk) (fun _ s => s = disk) fun _ s => s = disk :=
    fun x => Triple.lift (fun _ _ _ h => h) fun _ _ _ h => h
  refine (quiet _).bind fun _ => Triple.get.bind fun d => Triple.pre (P := (· = disk)) ?_
    fun _ h => h.2
  refine Triple.ite (fun _ => (quiet _).bind fun _ => ?_) fun _ => ?_
  all_goals exact Triple.pure (Q := fun _ s => s = disk) _

/-- One call. -/
theorem Intact.step (hi : Intact H disk) (n : ℕ) (call : PackageCall H) :
    Intact H (call.perform n disk) := by
  cases call with
  | install T store manifest resources source =>
    exact (triple_install T store manifest resources source).disk n hi
  | load digest =>
    have h : (Packages.load H digest n disk).disk = disk :=
      (triple_load digest).disk (R := fun s => s = disk) n rfl
    rw [PackageCall.perform, h]
    exact hi
  | listPage store after limit =>
    have h : (Packages.listPage H store after limit n disk).disk = disk :=
      ((triple_listPage hi store after limit).weaken (fun _ h => h) (fun _ _ h => h.1)
        (fun _ _ h => h.1) (fun _ _ h => h.elim)).disk (R := fun s => s = disk) n rfl
    rw [PackageCall.perform, h]
    exact hi
  | reconcile store prune => exact hi.pruned ((triple_reconcile hi store prune).disk n rfl)

/-- The stores that calls lead to. -/
abbrev PackageReach (H : Host) : PackageDisk → Prop :=
  Runs.Reach (packageStep (H := H)) (fun _ _ => True) fun _ => Dir.empty

theorem PackageReach.intact (h : PackageReach H disk) : Intact H disk :=
  Runs.Reach.invariant h intact_empty fun s a s' hi _ hs => by
    cases hs
    exact hi.step a.1 a.2

/-- **The package store under crashes.**  After any calls of any processes, each cut anywhere,
    every manifest has the resources it declares and every provenance file its manifest; a
    stored digest loads and no other does, so that a page lists what loads and reports no
    corruption; and pruning takes only temporary files and resources that no manifest
    declares, and every digest loads as before. -/
theorem package_store_intact (h : PackageReach H disk) :
    (∀ name raw, isObjectName name = true → (disk .manifests).get name = some raw →
      ∃ m : TradeRuleManifest H, name = objectName m.digest ∧ raw = m.canonicalBytes ∧
        Holds H disk m) ∧
    (∀ name ∈ (disk .provenance).names, isObjectName name = true →
      name ∈ (disk .manifests).names) ∧
    (∀ digest n, isDigest digest = true → ∃ package : Option (RulePackage H),
      load H digest n disk = ⟨.returned package, n, disk⟩ ∧
        (package.isSome = true ↔ objectName digest ∈ (disk .manifests).names) ∧
          ∀ p ∈ package, p.digest = digest) ∧
    (∀ store after limit n, (listPage H store after limit n disk).Meets
      (fun r _ => ∀ p ∈ r.1, ∀ m, load H p.digest m disk = ⟨.returned (some p), m, disk⟩)
      (fun e _ => ∀ text, e ≠ .corruption text) (fun _ _ => False)) ∧
    ∀ store n, Pruned H disk (reconcile H store true n disk).disk ∧
      ∀ digest m, isDigest digest = true →
        (load H digest m (reconcile H store true n disk).disk).ending = (load H digest m disk).ending := by
  have hi : Intact H disk := PackageReach.intact h
  refine ⟨fun name raw hname hget => ?_, fun name hmem hname => ?_, fun digest n hd => ?_,
    fun store after limit n => ?_, fun store n => ?_⟩
  · rcases hi .manifests name raw hget with ht | hm
    · rw [not_isTemporary_object hname] at ht
      cases ht
    · exact hm
  · rw [← Dir.get_isSome, Option.isSome_iff_exists] at hmem
    obtain ⟨raw, hget⟩ := hmem
    rcases hi .provenance name raw hget with ht | ⟨-, -, -, hm, -⟩
    · rw [not_isTemporary_object hname] at ht
      cases ht
    · exact Dir.get_isSome.1 hm
  · obtain ⟨package, hload, hrest⟩ := hi.loadEnding hd
    exact ⟨package, by rw [load_run hd, hload], hrest⟩
  · refine (triple_listPage hi store after limit n disk rfl).imp (fun r s hr p hp m => ?_)
      (fun e s he => he.2) (fun _ _ h => h)
    have hd : isDigest p.digest = true := isDigest_digest p.manifest
    rw [load_run hd, loadEnding_of_loadLocked (hr.2 p hp)]
  · have hp : Pruned H disk (reconcile H store true n disk).disk :=
      (triple_reconcile hi store true).disk n rfl
    refine ⟨hp, fun digest m hd => ?_⟩
    rw [load_run hd, load_run hd, loadEnding_pruned hi hp hd]

/-- An installation that is cut behind its resource, pruning, and the installation again. -/
def sampleCalls (manifest : TradeRuleManifest checksumHost) :
    List (ℕ × PackageCall checksumHost) :=
  let store : PackageStore :=
    ⟨1, maxPackageResourceBytes + maxTradeJsonBytes, 3, by decide, by decide, by decide⟩
  let call := PackageCall.install (fun _ => TempNames.long) store (.manifest manifest)
    [(sampleResourceDigest, sampleResource)] (some "local")
  [(5, call), (9, .reconcile store true), (12, call)]

theorem package_store_intact_sample : ∃ (manifest : TradeRuleManifest checksumHost)
    (disk : PackageDisk), manifest.document = sampleManifest.norm ∧
      Runs.run packageStep (fun _ => Dir.empty) (sampleCalls manifest) = some disk ∧
        ∀ name ∈ (disk .provenance).names, isObjectName name = true →
          name ∈ (disk .manifests).names := by
  obtain ⟨manifest, -, hm⟩ := exists_sampleManifest
  have hrun : ∃ disk, Runs.run packageStep (fun _ => Dir.empty) (sampleCalls manifest) = some disk :=
    ⟨_, rfl⟩
  obtain ⟨disk, hrun⟩ := hrun
  have hreach : PackageReach checksumHost disk := Runs.reach_of_run .start hrun fun _ _ _ => trivial
  exact ⟨manifest, disk, hm, hrun, (package_store_intact hreach).2.1⟩

end NthDao.TradeRules.Packages
