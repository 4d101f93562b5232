/-
  When trust rests on verified signatures, whatever the files hold.

  `import_endorsement` checks signatures, `_load_all` does not: a record that is
  written to the file by other means is walked over as it is.

  * `TrustFiles`: the files with arbitrary records; `resolvePath`, `isTrusted` are
    those of `TrustGraph` (`resolvePath_files`);
  * `resolveTrail`: the endorsements under the path that is returned;
  * `rests_on_signatures_iff`: all of these verify, for every target, iff the first
    endorsement of each target that the walk meets verifies;
  * `unsigned_vouch_trusted`: an endorsement without a signature is trusted.
-/
import NthDao.Trail
import NthDao.Trust.Paths

namespace NthDao

namespace Trust

open Py Walk

variable (H : Host) (iso : String → Option Stamp)

/-! ## Arbitrary files -/

/-- What the files of a trust directory hold, whoever wrote it. -/
structure TrustFiles where
  roots : Py.Dict String String
  endorsements : List Endorsement
  revocations : List Revocation

/-- The files of a graph that only the operations have written. -/
def TrustGraph.files {H : Host} {iso : String → Option Stamp} (g : TrustGraph H iso) : TrustFiles :=
  ⟨g.roots, g.endorsements, g.revocations⟩

namespace TrustFiles

variable (f : TrustFiles)

/-- `roots.values()`. -/
def rootKeys : List String := f.roots.map Prod.snd

/-- `_load_revocations`. -/
def loadRevocations : List Revocation := f.revocations.filter fun r => r.verifySig H

/-- `_load_all`. -/
def loadAll : List Endorsement :=
  f.endorsements.filter fun e => !(f.loadRevocations H).any fun r => r.cancels e

/-- The endorsements of a walk: unrevoked, unexpired, of a fitting context. -/
def usable (now : ℤ) (context : Option String) : Except String (List Endorsement) :=
  (TrustGraph.unexpired iso now (f.loadAll H)).map (TrustGraph.compatible context)

local instance lawful_roots : LawfulBEq (String × String) := inferInstance

/-- `resolve_path`. -/
def resolvePath (now : ℤ) (agentId pubkey : String) (maxDepth : ℤ) (context : Option String) :
    Except String (Option (List String)) :=
  if pubkey = "" then .ok none
  else if pubkey ∈ f.rootKeys then
    .ok (if (agentId, pubkey) ∈ f.roots then some [pubkey] else none)
  else do
    let boundedDepth := min maxDepth maxPropagationDepth
    let es ← f.usable H iso now context
    return (TrustGraph.net es).search boundedDepth (TrustGraph.names agentId pubkey)
      (f.rootKeys.length + es.length) (f.rootKeys.map (Net.root boundedDepth)) f.rootKeys

/-- `is_trusted`. -/
def isTrusted (now : ℤ) (agentId pubkey : String) (maxDepth : ℤ) (context : Option String) :
    Except String Bool :=
  (f.resolvePath H iso now agentId pubkey maxDepth context).map Option.isSome

/-- The walk of `resolve_path` to a key that is no root, with its endorsements. -/
def resolveTrail (now : ℤ) (agentId pubkey : String) (maxDepth : ℤ) (context : Option String) :
    Except String (Option (Trail String Endorsement)) := do
  let boundedDepth := min maxDepth maxPropagationDepth
  let es ← f.usable H iso now context
  return (TrustGraph.net es).trailSearch boundedDepth (TrustGraph.names agentId pubkey)
    (f.rootKeys.length + es.length) (f.rootKeys.map (Net.startAt boundedDepth)) f.rootKeys

/-- The endorsements that a walk meets: those of the keys it finds with budget
    left, in its order. -/
def walked (now : ℤ) (maxDepth : ℤ) (context : Option String) :
    Except String (List Endorsement) := do
  let boundedDepth := min maxDepth maxPropagationDepth
  let es ← f.usable H iso now context
  return (TrustGraph.net es).order boundedDepth (f.rootKeys.length + es.length)
    (f.rootKeys.map (Net.startAt boundedDepth)) f.rootKeys

/-! ## What is claimed and when it holds -/

/-- Whoever is trusted and no root is so by a path of verified endorsements. -/
def RestsOnSignatures (now maxDepth : ℤ) (context : Option String) : Prop :=
  ∀ agentId pubkey, f.isTrusted H iso now agentId pubkey maxDepth context = .ok true →
    pubkey ∉ f.rootKeys → ∃ t : Trail String Endorsement,
      f.resolveTrail H iso now agentId pubkey maxDepth context = .ok (some t) ∧
      f.resolvePath H iso now agentId pubkey maxDepth context =
        .ok (some (t.start :: t.edges.map Endorsement.subjectPubkey)) ∧
      ∀ e ∈ t.edges, e.verifySig H = true

/-- Both vouch for one key under one name. -/
def SameTarget (e x : Endorsement) : Prop :=
  x.subjectPubkey = e.subjectPubkey ∧ x.subjectAgentId = e.subjectAgentId

/-- Of the endorsements that the walk meets, the first for each target that is no
    root verifies. -/
def FirstVouchesVerify (now maxDepth : ℤ) (context : Option String) : Prop :=
  ∀ met, f.walked H iso now maxDepth context = .ok met → ∀ e, Net.FirstOf SameTarget met e →
    e.subjectPubkey ≠ "" → e.subjectPubkey ∉ f.rootKeys → e.verifySig H = true

end TrustFiles

variable {H iso}

open TrustFiles

/-- The files of a graph are resolved as the graph. -/
theorem resolvePath_files (g : TrustGraph H iso) (now : ℤ) (agentId pubkey : String) (maxDepth : ℤ)
    (context : Option String) : g.files.resolvePath H iso now agentId pubkey maxDepth context =
      g.resolvePath now agentId pubkey maxDepth context := by
  have hload : g.files.loadAll H = g.loadAll := rfl
  rw [resolvePath, TrustGraph.resolvePath, usable, hload]
  cases TrustGraph.unexpired iso now g.loadAll with
  | error msg => rfl
  | ok es => rfl

variable {f : TrustFiles} {now maxDepth : ℤ} {context : Option String} {agentId pubkey : String}

/-- The path is that of the trail. -/
theorem resolvePath_eq_trail (hp : pubkey ≠ "") (hr : pubkey ∉ f.rootKeys) :
    f.resolvePath H iso now agentId pubkey maxDepth context =
      (f.resolveTrail H iso now agentId pubkey maxDepth context).map
        (Option.map fun t => t.start :: t.edges.map Endorsement.subjectPubkey) := by
  rw [resolvePath, if_neg hp, if_neg hr, resolveTrail]
  cases f.usable H iso now context with
  | error msg => rfl
  | ok es =>
    have hkeys := Net.trailSearch_keys (N := TrustGraph.net es) (min maxDepth maxPropagationDepth)
      (TrustGraph.names agentId pubkey) (f.rootKeys.length + es.length)
      (f.rootKeys.map (Net.startAt (min maxDepth maxPropagationDepth))) f.rootKeys
    rw [List.map_map] at hkeys
    show Except.ok _ = Except.ok _
    rw [Except.ok.injEq]
    exact hkeys

/-- A target that is trusted has a trail. -/
theorem exists_trail (h : f.isTrusted H iso now agentId pubkey maxDepth context = .ok true)
    (hr : pubkey ∉ f.rootKeys) : pubkey ≠ "" ∧ ∃ t : Trail String Endorsement,
      f.resolveTrail H iso now agentId pubkey maxDepth context = .ok (some t) ∧
      f.resolvePath H iso now agentId pubkey maxDepth context =
        .ok (some (t.start :: t.edges.map Endorsement.subjectPubkey)) := by
  have hp : pubkey ≠ "" := by
    rintro rfl
    rw [isTrusted, resolvePath, if_pos rfl] at h
    cases h
  rw [isTrusted, resolvePath_eq_trail hp hr] at h
  rw [resolvePath_eq_trail hp hr]
  refine ⟨hp, ?_⟩
  cases ht : f.resolveTrail H iso now agentId pubkey maxDepth context with
  | error msg => rw [ht] at h; cases h
  | ok o =>
    cases o with
    | none => rw [ht] at h; cases h
    | some t => exact ⟨t, rfl, rfl⟩

/-- A target with a trail is trusted. -/
theorem isTrusted_of_trail (hp : pubkey ≠ "") (hr : pubkey ∉ f.rootKeys)
    {t : Trail String Endorsement}
    (ht : f.resolveTrail H iso now agentId pubkey maxDepth context = .ok (some t)) :
    f.isTrusted H iso now agentId pubkey maxDepth context = .ok true := by
  rw [isTrusted, resolvePath_eq_trail hp hr, ht]
  rfl

/-! ## The empty key -/

/-- Nothing verifies under the empty key. -/
theorem verifySig_empty_endorser {e : Endorsement} (h : e.endorserPubkey = "") :
    e.verifySig H = false := by
  simp [Endorsement.verifySig, h]

/-- Verified, or a vouch for the empty key, which nobody can ask for. -/
def VerifiedOrEmpty (H : Host) (e : Endorsement) : Prop :=
  e.verifySig H = true ∨ e.subjectPubkey = ""

theorem key_empty_of_route {es es' : List Endorsement} {k : String}
    (h : (TrustGraph.net es).Route "" es' k) (hg : ∀ e ∈ es', VerifiedOrEmpty H e) : k = "" := by
  induction es' with
  | nil => exact h
  | cons e es' ih =>
    obtain ⟨-, hsrc, hroute⟩ := h
    have hsub : e.subjectPubkey = "" := by
      refine (hg e (by simp)).resolve_left fun hv => ?_
      rw [verifySig_empty_endorser hsrc] at hv
      cases hv
    have hnet : (TrustGraph.net es).dst e = "" := hsub
    rw [hnet] at hroute
    exact ih hroute fun x hx => hg x (by simp [hx])

/-- A route to a proper key does not pass the empty one. -/
theorem verified_of_route {es es' : List Endorsement} {r k : String}
    (h : (TrustGraph.net es).Route r es' k) (hg : ∀ e ∈ es', VerifiedOrEmpty H e) (hk : k ≠ "") :
    ∀ e ∈ es', e.verifySig H = true := by
  induction es' generalizing r with
  | nil => simp
  | cons e es' ih =>
    obtain ⟨-, -, hroute⟩ := h
    have hg' : ∀ x ∈ es', VerifiedOrEmpty H x := fun x hx => hg x (by simp [hx])
    intro x hx
    rcases List.mem_cons.1 hx with rfl | hx
    · refine (hg x (by simp)).resolve_right fun hsub => hk ?_
      have hnet : (TrustGraph.net es).dst x = "" := hsub
      rw [hnet] at hroute
      exact key_empty_of_route hroute hg'
    · exact ih hroute hg' x hx

/-! ## When trust rests on signatures -/

/-- If the first vouches verify, so does all of a trail. -/
theorem verified_of_firstVouches (h : f.FirstVouchesVerify H iso now maxDepth context)
    (hp : pubkey ≠ "") (hr : pubkey ∉ f.rootKeys) {t : Trail String Endorsement}
    (ht : f.resolveTrail H iso now agentId pubkey maxDepth context = .ok (some t)) :
    ∀ e ∈ t.edges, e.verifySig H = true := by
  rw [resolveTrail, bind_eq_ok] at ht
  obtain ⟨es, hes, ht⟩ := ht
  rw [pure_eq_ok] at ht
  have hmet : f.walked H iso now maxDepth context = .ok ((TrustGraph.net es).order
      (min maxDepth maxPropagationDepth) (f.rootKeys.length + es.length)
      (f.rootKeys.map (Net.startAt (min maxDepth maxPropagationDepth))) f.rootKeys) := by
    rw [walked, hes]
    rfl
  have hstart : ∀ t : Trail String Endorsement,
      t ∈ f.rootKeys.map (Net.startAt (min maxDepth maxPropagationDepth)) →
        t.edges = [] ∧ t.key = t.start := by
    intro t ht
    obtain ⟨k, -, rfl⟩ := List.mem_map.1 ht
    exact ⟨rfl, rfl⟩
  have hgood : ∀ e ∈ t.edges, VerifiedOrEmpty H e := by
    refine Net.trailSearch_first (fun e x (hs : SameTarget e x) => hs.1) ?_ ?_
      (fun k (hk : k ∈ f.rootKeys) => hk)
      (show Net.Kept (TrustGraph.net es) _ _ [] _ _ from ⟨by simp, by simp, ?_⟩) ?_ ht
    · intro e x he hs
      obtain ⟨h₁, h₂⟩ := names_iff.1 he
      exact names_iff.2 ⟨hs.1.trans h₁, hs.2.trans h₂⟩
    · intro e he
      show e.subjectPubkey ∉ _
      rw [(names_iff.1 he).1]
      exact hr
    · intro t ht e he
      rw [(hstart t ht).1] at he
      cases he
    · intro e he hopen
      by_cases hsub : e.subjectPubkey = ""
      · exact .inr hsub
      · exact .inl (h _ hmet e he hsub hopen)
  have hroute := Net.trailSearch_route (fun t ht => by
    obtain ⟨he, hk⟩ := hstart t ht
    rw [he, hk]
    rfl) ht
  obtain ⟨e, hhit, hkey, -⟩ := Net.trailSearch_hit ht
  refine verified_of_route hroute hgood ?_
  have hdst : (TrustGraph.net es).dst e = pubkey := (names_iff.1 hhit).1
  rw [hkey, hdst]
  exact hp

/-- **Trust rests on verified signatures** iff of the endorsements that the walk
    meets the first for each target verifies. -/
theorem rests_on_signatures_iff : f.RestsOnSignatures H iso now maxDepth context ↔
    f.FirstVouchesVerify H iso now maxDepth context := by
  constructor
  · intro h met hmet e hfirst hsub hroot
    rw [walked, bind_eq_ok] at hmet
    obtain ⟨es, hes, hmet⟩ := hmet
    rw [pure_eq_ok] at hmet
    have hfind : met.find? (TrustGraph.names e.subjectAgentId e.subjectPubkey) = some e := by
      obtain ⟨before, after, rfl, hb⟩ := hfirst
      refine List.find?_eq_some_iff_append.2 ⟨names_iff.2 ⟨rfl, rfl⟩, before, after, rfl, ?_⟩
      intro x hx
      rw [Bool.not_eq_true', Bool.eq_false_iff]
      exact fun hn => hb x hx (names_iff.1 hn)
    -- a walk to the target of `e` ends with `e`
    have hlast := Net.getLast?_trailSearch (N := TrustGraph.net es)
      (min maxDepth maxPropagationDepth) (TrustGraph.names e.subjectAgentId e.subjectPubkey)
      (f.rootKeys.length + es.length)
      (f.rootKeys.map (Net.startAt (min maxDepth maxPropagationDepth))) f.rootKeys
    rw [hmet, hfind, Option.bind_eq_some_iff] at hlast
    obtain ⟨t, ht, hlast⟩ := hlast
    have htrail : f.resolveTrail H iso now e.subjectAgentId e.subjectPubkey maxDepth context =
        .ok (some t) := by
      rw [resolveTrail, hes]
      show Except.ok _ = _
      rw [ht]
    obtain ⟨t', ht', -, hv⟩ := h _ _ (isTrusted_of_trail hsub hroot htrail) hroot
    obtain rfl := Option.some.inj (Except.ok.inj (htrail.symm.trans ht'))
    exact hv e (List.mem_of_getLast? hlast)
  · intro h agentId pubkey htrusted hr
    obtain ⟨hp, t, ht, hpath⟩ := exists_trail htrusted hr
    exact ⟨t, ht, hpath, verified_of_firstVouches h hp hr ht⟩

/-! ## Samples -/

/-- A root, and an endorsement in its name that nobody has signed. -/
def unsignedFiles : TrustFiles where
  roots := [("r", "00")]
  endorsements := [{ endorserPubkey := "00", subjectPubkey := "11", subjectAgentId := "m" }]
  revocations := []

/-- Its subject is trusted. -/
theorem unsigned_vouch_trusted :
    unsignedFiles.isTrusted checksumHost sampleIso 0 "m" "11" 2 none = .ok true ∧
      ¬ unsignedFiles.RestsOnSignatures checksumHost sampleIso 0 2 none := by
  have hload : unsignedFiles.usable checksumHost sampleIso 0 none =
      .ok unsignedFiles.endorsements := rfl
  have htrail : unsignedFiles.resolveTrail checksumHost sampleIso 0 "m" "11" 2 none =
      .ok (some ⟨"00", unsignedFiles.endorsements, "11", 1, 0⟩) := by
    rw [resolveTrail, hload]
    rfl
  have htrusted : unsignedFiles.isTrusted checksumHost sampleIso 0 "m" "11" 2 none = .ok true :=
    isTrusted_of_trail (by decide) (by decide) htrail
  refine ⟨htrusted, fun h => ?_⟩
  obtain ⟨t, ht, -, hv⟩ := h "m" "11" htrusted (by decide)
  obtain rfl := Option.some.inj (Except.ok.inj (htrail.symm.trans ht))
  have := hv _ (List.mem_singleton_self _)
  simp [Endorsement.verifySig] at this

end Trust

end NthDao
