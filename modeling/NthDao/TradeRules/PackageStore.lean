/-
  The package store (`RulePackageStore` in `nth_dao/trade_rules/package_store.py`): manifests,
  the resources they share, and where packages came from, as files in three directories.

  Each operation runs under the lock of the store and is cut by a crash at any durable
  step.  A digest stands for its file; the store holds no links.

  * `usage`: the shape and the size of the store;
  * `provenanceSources`, `loadManifest`, `loadLocked`: what is read, with its checks;
  * `install`, `load`, `listPage`, `reconcile`: the operations.
-/
import NthDao.TradeRules.Objects
import NthDao.TradeRules.Package

namespace NthDao.TradeRules.Packages

open Py Directory Crash

variable {H : Host}

/-! ## Names -/

/-- The directory of the store, which holds the three others. -/
inductive PackageDir where
  | root
  | manifests
  | resources
  | provenance
  deriving DecidableEq

def PackageDir.name : PackageDir → String
  | .root => "."
  | .manifests => "manifests"
  | .resources => "resources"
  | .provenance => "provenance"

abbrev PackageDisk := PackageDir → Dir Bytes

/-- An operation of the store. -/
abbrev PackageOp := Op PackageDisk (Site PackageDir) PackageError

def maxProvenanceBytes : ℕ := 512
def provenanceSourceNames : List String := ["federated", "local"]

/-- `f"{digest[7:]}.blob"`. -/
def blobName (digest : String) : String := String.ofList ((chars digest).drop 7) ++ ".blob"

/-- `_RESOURCE_FILE.fullmatch`. -/
def isBlobName (name : String) : Bool :=
  isHex 64 ((chars name).take 64) && (chars name).drop 64 == ".blob".toList

/-- `name.endswith(".tmp")`. -/
def isTemporary (name : String) : Bool := ".tmp".toList.isSuffixOf (chars name)

/-- The digest whose file has a name. -/
def digestOf (name : String) : String := "sha256:" ++ String.ofList ((chars name).take 64)

/-- `_digest_suffix`, as the digest itself. -/
def digestSuffix (digest : String) : Except PackageError Unit :=
  require (isDigest digest) (.value "package digest must be a lowercase sha256 digest")

/-- An instance of `RulePackageStore`. -/
structure PackageStore where
  maxPackages : ℕ
  maxBytes : ℕ
  maxFiles : ℕ
  maxPackages_pos : 0 < maxPackages
  maxBytes_ge : maxPackageResourceBytes + maxTradeJsonBytes ≤ maxBytes
  maxFiles_ge : maxPackages ≤ maxFiles

/-! ## Reading -/

/-- `_read_exact`. -/
def readExact (dir : Dir Bytes) (name : String) (maximum : ℕ) (label : String) :
    Except PackageError Bytes := do
  let payload ← expect (dir.get name) (.corruption (label ++ " is missing"))
  require (payload.length ≤ maximum) (.corruption (label ++ " exceeds its size limit"))
  return payload

/-- `_provenance_bytes`. -/
def provenanceDocument (digest : String) (sources : List String) : Fields :=
  [("package_digest", .str digest), ("sources", .arr (sources.map .str)), ("version", .int 1)]

def provenanceBytes (digest : String) (sources : List String) : Bytes :=
  (canonicalJson (.obj (provenanceDocument digest sources))).getD []

/-- `any(source not in _PROVENANCE_SOURCES for source in sources)`, as the sources. -/
def knownSources (text : String) : List Json → Except PackageError (List String)
  | [] => return []
  | x :: xs => do
    let known ← (memberOf x provenanceSourceNames).mapError .value
    require known (.corruption text)
    let rest ← knownSources text xs
    return x.asStr.toList ++ rest

/-- The checks on the bytes of a provenance file. -/
def readSources (digest : String) (raw : Bytes) : Except PackageError (List String) := do
  let text := "stored provenance " ++ digest ++ " is invalid"
  let document ← expect ((asciiChars raw).bind loads) (.corruption text)
  require (document.isObj && Json.keysEq document.fields ["package_digest", "sources", "version"] &&
      (Json.get document.fields "package_digest").eqStr digest &&
      (Json.get document.fields "version").eqInt 1) (.corruption text)
  let items ← expect (match Json.get document.fields "sources" with
      | .arr xs => if xs.isEmpty then none else some xs
      | _ => none) (.corruption text)
  let sources ← knownSources text items
  require (sources.Pairwise (· < ·) && raw == provenanceBytes digest sources) (.corruption text)
  return sources

/-- `_provenance_sources_locked`. -/
def provenanceSources (disk : PackageDisk) (digest : String) : Except PackageError (List String) :=
  if ((disk .provenance).get (objectName digest)).isSome then do
    let raw ← readExact (disk .provenance) (objectName digest) maxProvenanceBytes
      ("provenance " ++ digest)
    readSources digest raw
  else return []

variable (H) in
/-- `_load_manifest_locked`. -/
def loadManifest (disk : PackageDisk) (digest : String) :
    Except PackageError (TradeRuleManifest H) := do
  let raw ← readExact (disk .manifests) (objectName digest) maxTradeJsonBytes ("manifest " ++ digest)
  let manifest : TradeRuleManifest H ←
    (SignedDocument.fromJson H (manifestFormat H) raw).mapError fun e =>
      .corruption ("stored manifest " ++ digest ++ " is invalid: " ++ e)
  require (manifest.digest == digest)
    (.corruption ("stored manifest digest mismatch for " ++ digest))
  return manifest

/-- The loop of `_load_locked` over the declared resources. -/
def loadResources (dir : Dir Bytes) (resources : Py.Dict String Bytes) :
    List (String × ℕ) → Except PackageError (Py.Dict String Bytes)
  | [] => .ok resources
  | (digest, size) :: items =>
    if resources.has digest then loadResources dir resources items
    else do
      let payload ← readExact dir (blobName digest) size ("resource " ++ digest)
      loadResources dir (resources.set digest payload) items

/-- A package that fails its checks inside the store. -/
def PackageError.stored (digest : String) : PackageError → PackageError
  | .validation text => .corruption ("stored package " ++ digest ++ " is invalid: " ++ text)
  | e => e

variable (H) in
/-- `_load_locked`. -/
def loadLocked (disk : PackageDisk) (digest : String) : Except PackageError (RulePackage H) := do
  let manifest ← loadManifest H disk digest
  let resources ← loadResources (disk .resources) [] manifest.resources
  (buildRulePackage (.manifest manifest) resources).mapError (PackageError.stored digest)

/-! ## The size of the store -/

/-- The packages, the files and the bytes counted so far. -/
structure Usage where
  packages : ℕ
  files : ℕ
  bytes : ℕ

variable (H) in
/-- A name that the store does not expect, as it reports it. -/
def unexpected (what name : String) : PackageError :=
  .corruption ("unexpected " ++ what ++ " " ++ String.ofList (reprStr H.isprintable name))

variable (H) in
/-- The checks on the name of a file. -/
def checkEntry (disk : PackageDisk) (dir : PackageDir) (name : String) : Except PackageError Unit :=
  if isTemporary name then .ok ()
  else match dir with
    | .root => .error (unexpected H "package-store file" name)
    | .manifests => require (isObjectName name) (unexpected H "manifest-store file" name)
    | .resources => require (isBlobName name) (unexpected H "resource-store file" name)
    | .provenance => do
      require (isObjectName name) (unexpected H "provenance-store file" name)
      require ((disk .manifests).get name).isSome
        (.corruption ("provenance " ++ digestOf name ++ " has no stored manifest"))
      let _ ← provenanceSources disk (digestOf name)
      return ()

variable (H) in
/-- The loop of `_usage_locked` over the files of a directory. -/
def usageLoop (store : PackageStore) (enforce : Bool) (disk : PackageDisk) (dir : PackageDir)
    (used : Usage) : List (String × Bytes) → Except PackageError Usage
  | [] => .ok used
  | (name, raw) :: files => do
    require (!enforce || used.files + 1 ≤ store.maxFiles)
      (.capacity "package store exceeds configured max_files")
    require (!enforce || used.bytes + raw.length ≤ store.maxBytes)
      (.capacity "package store exceeds configured max_bytes")
    checkEntry H disk dir name
    let packages := used.packages + if dir = .manifests && !isTemporary name then 1 else 0
    usageLoop store enforce disk dir ⟨packages, used.files + 1, used.bytes + raw.length⟩ files

variable (H) in
/-- The loop of `_usage_locked` over the directories. -/
def checkDirectories : List String → Except PackageError Unit
  | [] => .ok ()
  | name :: names => do
    require (["manifests", "resources", "provenance"].contains name)
      (unexpected H "package-store directory" name)
    checkDirectories names

variable (H) in
/-- `_usage_locked`. -/
def usage (store : PackageStore) (enforce : Bool) (disk : PackageDisk) : Except PackageError Usage := do
  checkDirectories H (disk .root).names
  let used ← usageLoop H store enforce disk .manifests ⟨0, 0, 0⟩ (disk .manifests).entries
  let used ← usageLoop H store enforce disk .resources used (disk .resources).entries
  let used ← usageLoop H store enforce disk .provenance used (disk .provenance).entries
  require (!enforce || used.packages ≤ store.maxPackages)
    (.capacity "package store exceeds configured max_packages")
  return used

/-! ## Installing -/

/-- `_verify_existing_file`. -/
def verifyExisting (dir : Dir Bytes) (name : String) (expected : Bytes) (label : String) :
    Except PackageError Bool :=
  if (dir.get name).isSome then do
    let actual ← readExact dir name expected.length label
    require (actual == expected)
      (.corruption (label ++ " conflicts with its content-addressed path"))
    return true
  else return false

/-- `_atomic_write`, with the directory made where it is missing. -/
def put (T : TempNames) (dir : PackageDir) (name : String) (raw : Bytes) : PackageOp Unit := do
  Op.write .outside (onDir .root fun d => d.set dir.name [])
  atomicWrite T [] dir name raw

/-- `RulePackageInstallResult`. -/
structure InstallResult (H : Host) where
  digest : String
  installed : Bool
  package : RulePackage H

/-- `_validate_source`. -/
def validateSource (source : Option String) : Except PackageError Unit :=
  require (source.all provenanceSourceNames.contains)
    (.value "source must be 'local', 'federated', or None")

/-- `sorted(set(existing) | {source})`. -/
def desiredSources (existing : List String) (source : Option String) : List String :=
  provenanceSourceNames.filter fun s => existing.contains s || source == some s

/-- The bytes of a provenance file; there is none for no sources. -/
def sourceBytes (digest : String) (sources : List String) : Bytes :=
  if sources.isEmpty then [] else provenanceBytes digest sources

/-- The limits of `install`. -/
def checkCapacity (store : PackageStore) (disk : PackageDisk) (used : Usage)
    (package : RulePackage H) (existing desired : Bytes) : Except PackageError Unit := do
  let fresh := package.resources.filter fun p => ((disk .resources).get (blobName p.1)).isNone
  let absent := ((disk .manifests).get (objectName package.digest)).isNone
  require (!absent || used.packages + 1 ≤ store.maxPackages)
    (.capacity "package store has reached configured max_packages")
  let unfiled := ((disk .provenance).get (objectName package.digest)).isNone
  let files := fresh.length + (if absent then 1 else 0) +
    if desired != existing && unfiled then 1 else 0
  let bytes : ℤ := ((fresh.map fun p => p.2.length).sum : ℤ) +
    (if absent then (package.manifest.canonicalBytes.length : ℤ) else 0) +
    if desired != existing then (desired.length : ℤ) - existing.length else 0
  require (used.files + files ≤ store.maxFiles)
    (.capacity "package store has reached configured max_files")
  require ((used.bytes : ℤ) + bytes ≤ store.maxBytes)
    (.capacity "package store has reached configured max_bytes")

/-- The loop of `install` over the resources. -/
def putResources (T : ℕ → TempNames) : Py.Dict String Bytes → PackageOp Unit
  | [] => return ()
  | (digest, payload) :: resources => do
    let disk ← Op.get
    let present ← Op.lift
      (verifyExisting (disk .resources) (blobName digest) payload ("resource " ++ digest))
    if present then putResources T resources
    else do
      put (T resources.length) .resources (blobName digest) payload
      putResources T resources

/-- The manifest and the provenance of a package whose resources are there. -/
def putManifest (T T' : TempNames) (package : RulePackage H) (existing desired : Bytes) :
    PackageOp (InstallResult H) := do
  let disk ← Op.get
  let present ← Op.lift (verifyExisting (disk .manifests) (objectName package.digest)
    package.manifest.canonicalBytes ("manifest " ++ package.digest))
  if present then do
    let loaded ← Op.lift (loadLocked H disk package.digest)
    if desired != existing then do
      put T' .provenance (objectName package.digest) desired
      return ⟨package.digest, false, loaded⟩
    else return ⟨package.digest, false, loaded⟩
  else do
    put T .manifests (objectName package.digest) package.manifest.canonicalBytes
    if desired.isEmpty then return ⟨package.digest, true, package⟩
    else do
      put T' .provenance (objectName package.digest) desired
      return ⟨package.digest, true, package⟩

/-- `install`. -/
def install (T : ℕ → TempNames) (store : PackageStore) (manifest : ManifestValue H)
    (resources : Py.Dict String Bytes) (source : Option String) : PackageOp (InstallResult H) := do
  Op.lift (validateSource source)
  let package ← Op.lift (buildRulePackage manifest resources)
  let disk ← Op.get
  let used ← Op.lift (usage H store true disk)
  let existing ← Op.lift (provenanceSources disk package.digest)
  let existingBytes := sourceBytes package.digest existing
  let desiredBytes := sourceBytes package.digest (desiredSources existing source)
  Op.lift (checkCapacity store disk used package existingBytes desiredBytes)
  putResources (fun n => T (n + 2)) package.resources
  putManifest (T 0) (T 1) package existingBytes desiredBytes

/-! ## Loading -/

variable (H) in
/-- `load`. -/
def load (digest : String) : PackageOp (Option (RulePackage H)) := do
  Op.lift (digestSuffix digest)
  let disk ← Op.get
  if ((disk .manifests).get (objectName digest)).isSome then do
    let package ← Op.lift (loadLocked H disk digest)
    return some package
  else return none

variable (H) in
/-- The packages of a page. -/
def loadAll (disk : PackageDisk) : List String → Except PackageError (List (RulePackage H))
  | [] => return []
  | digest :: digests => do
    let package ← loadLocked H disk digest
    let packages ← loadAll disk digests
    return package :: packages

variable (H) in
/-- The loop over the names of the manifests: their digests. -/
def manifestDigests : List String → Except PackageError (List String)
  | [] => return []
  | name :: names =>
    if isTemporary name then manifestDigests names
    else do
      require (isObjectName name) (unexpected H "manifest-store file" name)
      let digests ← manifestDigests names
      return digestOf name :: digests

variable (H) in
/-- The page behind a digest, and where the next one starts. -/
def page (disk : PackageDisk) (after : Option String) (limit : ℕ) :
    Except PackageError (List (RulePackage H) × Option String) := do
  let digests ← manifestDigests H (disk .manifests).names
  let selected := ((digests.filter fun d => after.all (· < d)).insertionSort (· ≤ ·)).take (limit + 1)
  let packages ← loadAll H disk (selected.take limit)
  return (packages, if limit < selected.length then packages.getLast?.map RulePackage.digest else none)

variable (H) in
/-- `list_page`. -/
def listPage (store : PackageStore) (after : Option String) (limit : ℕ) :
    PackageOp (List (RulePackage H) × Option String) := do
  Op.lift (require (1 ≤ limit && limit ≤ 500) (.value "limit must be in 1..500"))
  Op.lift (require (after.all isDigest) (.value "package digest must be a lowercase sha256 digest"))
  let disk ← Op.get
  if ((disk .root).get "manifests").isNone then return ([], none)
  else do
    let _ ← Op.lift (usage H store true disk)
    Op.lift (page H disk after limit)

/-! ## Reconciling -/

/-- `RulePackageReconciliationReport`. -/
structure ReconciliationReport where
  orphanResourceDigests : List String
  missingResourceDigests : List String
  temporaryPaths : List String
  prunedPaths : List String
  reclaimedBytes : ℕ

/-- A file of the store. -/
abbrev PackageFile := PackageDir × String

def filePath (file : PackageFile) : String := file.1.name ++ "/" ++ file.2

variable (H) in
/-- The digests that the manifests refer to. -/
def referencedDigests (disk : PackageDisk) : List String → Except PackageError (List String)
  | [] => return []
  | digest :: digests => do
    let manifest ← loadManifest H disk digest
    let referenced ← referencedDigests disk digests
    return manifest.resources.map Prod.fst ++ referenced

/-- The temporary files of a directory. -/
def temporaryFiles (disk : PackageDisk) (dir : PackageDir) : List PackageFile :=
  ((disk dir).names.filter isTemporary).map fun name => (dir, name)

/-- `sorted(set)`. -/
def sortedSet (xs : List String) : List String := xs.dedup.insertionSort (· ≤ ·)

/-- The loop over the files to delete: their paths and their bytes. -/
def pruneFiles : List PackageFile → PackageOp (List String × ℕ)
  | [] => return ([], 0)
  | (dir, name) :: files => do
    let disk ← Op.get
    let raw ← Op.lift (expect ((disk dir).get name) (.storage "package store I/O failed"))
    Op.write .outside (onDir dir fun d => d.remove name)
    let (paths, reclaimed) ← pruneFiles files
    return (filePath (dir, name) :: paths, raw.length + reclaimed)

/-- What `reconcile` finds: the orphans, what is missing, the temporary files. -/
structure Findings where
  orphaned : List String
  missing : List String
  temporary : List PackageFile

variable (H) in
/-- The inspection of `reconcile`. -/
def inspect (store : PackageStore) (disk : PackageDisk) : Except PackageError Findings := do
  let _ ← usage H store false disk
  let digests ← manifestDigests H (disk .manifests).names
  let referenced ← referencedDigests H disk digests
  let available := ((disk .resources).names.filter isBlobName).map digestOf
  let temporary := (temporaryFiles disk .manifests ++ temporaryFiles disk .resources ++
    temporaryFiles disk .provenance).insertionSort fun p q => filePath p ≤ filePath q
  return ⟨sortedSet (available.filter fun d => !referenced.contains d),
    sortedSet (referenced.filter fun d => !available.contains d), temporary⟩

variable (H) in
/-- `reconcile`. -/
def reconcile (store : PackageStore) (prune : Bool) : PackageOp ReconciliationReport := do
  let disk ← Op.get
  let found ← Op.lift (inspect H store disk)
  let report : ReconciliationReport :=
    ⟨found.orphaned, found.missing, found.temporary.map filePath, [], 0⟩
  if prune then do
    let (paths, reclaimed) ← pruneFiles
      (found.orphaned.map (fun d => (.resources, blobName d)) ++ found.temporary)
    return { report with prunedPaths := paths.insertionSort (· ≤ ·), reclaimedBytes := reclaimed }
  else return report

end NthDao.TradeRules.Packages
