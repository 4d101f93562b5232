/-
  The endorsement store and the resolution of trust
  (`nth_dao/web_of_trust.py`, `TrustGraph`).

  * `TrustGraph`: the pinned roots and what the two files hold; the fields carry
    what `add_root` and `import_endorsement` have checked;
  * `addRoot`, `removeRoot`, `importEndorsement`, `importRevocation`;
  * `resolvePath`, `isTrusted`, `trustedPubkeyFor`: the two ways to resolve.

  The files are lists of their records.  A record with a line break inside a text
  is split when the file is read back, so that it is lost; a piece of such a line
  is not taken as a record.
-/
import NthDao.Py.Dict
import NthDao.Reach
import NthDao.Trust.Endorsement
import NthDao.Walk

namespace NthDao

namespace Trust

open Py

variable (H : Host) (iso : String → Option Stamp)

/-- What `import_endorsement` has checked of a stored endorsement. -/
structure Endorsement.Admitted (e : Endorsement) : Prop where
  endorser_ne : e.endorserPubkey ≠ ""
  subject_ne : e.subjectPubkey ≠ ""
  comparable : e.expiresAt = "" ∨ iso e.expiresAt ≠ some .aware
  verified : e.verifySig H = true

/-- The roots, the endorsements and the revocations of a workspace. -/
structure TrustGraph where
  roots : Py.Dict String String
  roots_ne : ∀ p ∈ roots, p.1 ≠ "" ∧ p.2 ≠ ""
  endorsements : List Endorsement
  admitted : ∀ e ∈ endorsements, e.Admitted H iso
  revocations : List Revocation

/-- A new workspace. -/
def TrustGraph.empty : TrustGraph H iso where
  roots := []
  roots_ne := by simp
  endorsements := []
  admitted := by simp
  revocations := []

variable {H iso}

namespace TrustGraph

variable (g : TrustGraph H iso)

/-! ## Roots -/

/-- `add_root`. -/
def addRoot (agentId pubkey : String) : Except String (TrustGraph H iso) :=
  if h : pubkey = "" ∨ agentId = "" then .error "agent_id and pubkey_hex required"
  else .ok
    { g with
      roots := g.roots.set agentId pubkey
      roots_ne := by
        rintro p hp
        rcases Dict.mem_set hp with hp | rfl
        · exact g.roots_ne p hp
        · exact ⟨fun he => h (.inr he), fun he => h (.inl he)⟩ }

/-- `remove_root`, and what it returns. -/
def removeRoot (agentId : String) : TrustGraph H iso × Bool :=
  if g.roots.has agentId then
    ({ g with
       roots := g.roots.pop agentId
       roots_ne := fun p hp => g.roots_ne p (List.mem_of_mem_filter hp) }, true)
  else (g, false)

/-- `roots.values()`. -/
def rootKeys : List String := g.roots.map Prod.snd

/-! ## Endorsements and revocations -/

/-- `_load_revocations`. -/
def loadRevocations : List Revocation := g.revocations.filter fun r => r.verifySig H

/-- `_load_all`: revoked endorsements are dropped. -/
def loadAll : List Endorsement :=
  g.endorsements.filter fun e => !g.loadRevocations.any fun r => r.cancels e

/-- `_already_known`. -/
def alreadyKnown (e : Endorsement) : Bool :=
  g.loadAll.any fun x => x.endorserPubkey == e.endorserPubkey &&
    x.subjectPubkey == e.subjectPubkey && x.issuedAt == e.issuedAt

theorem comparable_of_isExpired {now : ℤ} {e : Endorsement} {b : Bool}
    (h : e.isExpired iso now = .ok b) : e.expiresAt = "" ∨ iso e.expiresAt ≠ some .aware := by
  by_cases he : e.expiresAt = ""
  · exact .inl he
  · refine .inr fun ha => ?_
    rw [Endorsement.isExpired, if_neg he, ha] at h
    cases h

/-- `_append`, as the file is read back. -/
def append (e : Endorsement) (h : e.Admitted H iso) : TrustGraph H iso :=
  if e.oneLine then
    { g with
      endorsements := g.endorsements ++ [e]
      admitted := by
        intro x hx
        rcases List.mem_append.1 hx with hx | hx
        · exact g.admitted x hx
        · exact (List.mem_singleton.1 hx) ▸ h }
  else g

/-- `import_endorsement`. -/
def importEndorsement (now : ℤ) (e : Endorsement) : Except String (TrustGraph H iso × Bool) :=
  if hk : e.endorserPubkey = "" ∨ e.subjectPubkey = "" then .ok (g, false)
  else
    match hx : e.isExpired iso now with
    | .error msg => .error msg
    | .ok true => .ok (g, false)
    | .ok false =>
      if hv : e.verifySig H then
        if g.alreadyKnown e then .ok (g, false)
        else .ok (g.append e ⟨fun h => hk (.inl h), fun h => hk (.inr h),
          comparable_of_isExpired hx, hv⟩, true)
      else .ok (g, false)

/-- `import_revocation`: a stored endorsement must be named. -/
def importRevocation (r : Revocation) : TrustGraph H iso × Bool :=
  if !r.verifySig H then (g, false)
  else if !g.endorsements.any fun e => r.cancels e then (g, false)
  else if g.loadRevocations.any fun x => x.endorserPubkey == r.endorserPubkey &&
      x.subjectPubkey == r.subjectPubkey && x.endorsementIssuedAt == r.endorsementIssuedAt then
    (g, false)
  else if r.oneLine then ({ g with revocations := g.revocations ++ [r] }, true)
  else (g, true)

/-! ## Resolution -/

variable (iso) in
/-- `[e for e in es if not e.is_expired]`. -/
def unexpired (now : ℤ) : List Endorsement → Except String (List Endorsement)
  | [] => .ok []
  | e :: es => do
    if ← e.isExpired iso now then unexpired now es
    else return e :: (← unexpired now es)

/-- The endorsements that a context admits; `None` and the empty text admit all. -/
def compatible (context : Option String) (es : List Endorsement) : List Endorsement :=
  match context with
  | none => es
  | some c => if c = "" then es else es.filter fun e => e.context == "general" || e.context == c

/-- The graph of the endorsements, from endorser to subject. -/
def net (es : List Endorsement) : Walk.Net String Endorsement :=
  ⟨es, Endorsement.endorserPubkey, Endorsement.subjectPubkey, Endorsement.depthAllowed⟩

/-- The endorsement names the target. -/
def names (agentId pubkey : String) (e : Endorsement) : Bool :=
  e.subjectPubkey == pubkey && e.subjectAgentId == agentId

local instance lawful_roots : LawfulBEq (String × String) := inferInstance

/-- `resolve_path`. -/
def resolvePath (now : ℤ) (agentId pubkey : String) (maxDepth : ℤ) (context : Option String) :
    Except String (Option (List String)) :=
  if pubkey = "" then .ok none
  else if pubkey ∈ g.rootKeys then
    -- a pinned key resolves under its own name only
    .ok (if (agentId, pubkey) ∈ g.roots then some [pubkey] else none)
  else do
    let boundedDepth := min maxDepth maxPropagationDepth
    let es := compatible context (← unexpired iso now g.loadAll)
    return (net es).search boundedDepth (names agentId pubkey) (g.rootKeys.length + es.length)
      (g.rootKeys.map (Walk.Net.root boundedDepth)) g.rootKeys

/-- `is_trusted`. -/
def isTrusted (now : ℤ) (agentId pubkey : String) (maxDepth : ℤ) (context : Option String) :
    Except String Bool :=
  (g.resolvePath now agentId pubkey maxDepth context).map Option.isSome

variable (iso) in
/-- The loop of `_reverse_lookup_agent_id` over the endorsements. -/
def subjectName (now : ℤ) (pubkey : String) : List Endorsement → Except String (Option String)
  | [] => .ok none
  | e :: es => do
    if ← e.isExpired iso now then subjectName now pubkey es
    else if e.subjectPubkey = pubkey then return some e.subjectAgentId
    else subjectName now pubkey es

/-- `_reverse_lookup_agent_id`. -/
def reverseLookupAgentId (now : ℤ) (pubkey : String) : Except String (Option String) :=
  match g.roots.find? fun p => p.2 == pubkey with
  | some p => .ok (some p.1)
  | none => subjectName iso now pubkey g.loadAll

/-- The loop of `trusted_pubkey_for` over the endorsements. -/
def endorsedKey (now : ℤ) (agentId : String) (maxDepth : ℤ) :
    List Endorsement → Except String (Option String)
  | [] => .ok none
  | e :: es => do
    if (← e.isExpired iso now) || e.subjectAgentId != agentId then
      endorsedKey now agentId maxDepth es
    else
      match ← g.reverseLookupAgentId now e.endorserPubkey with
      | none => endorsedKey now agentId maxDepth es
      | some endorserAid =>
        if ← g.isTrusted now endorserAid e.endorserPubkey (maxDepth - 1) none then
          return some e.subjectPubkey
        else endorsedKey now agentId maxDepth es

/-- `trusted_pubkey_for`. -/
def trustedPubkeyFor (now : ℤ) (agentId : String) (maxDepth : ℤ) :
    Except String (Option String) :=
  match g.roots.get agentId with
  | some pk => .ok (some pk)
  | none => g.endorsedKey now agentId maxDepth g.loadAll

/-! ## Runs -/

/-- The operations that change a graph. -/
inductive Op where
  | addRoot (agentId pubkey : String)
  | removeRoot (agentId : String)
  | importEndorsement (now : ℤ) (e : Endorsement)
  | importRevocation (r : Revocation)

/-- The graph after an operation; one that raises changes nothing. -/
def step (g : TrustGraph H iso) : Op → Option (TrustGraph H iso)
  | .addRoot agentId pubkey => (g.addRoot agentId pubkey).toOption.getD g
  | .removeRoot agentId => (g.removeRoot agentId).1
  | .importEndorsement now e => ((g.importEndorsement now e).toOption.map Prod.fst).getD g
  | .importRevocation r => (g.importRevocation r).1

variable (H iso) in
/-- The graphs that operations lead to. -/
def Reached (g : TrustGraph H iso) : Prop :=
  Runs.Reach (step (H := H)) (fun _ _ => True) (empty H iso) g

theorem Reached.addRoot {g : TrustGraph H iso} (h : Reached H iso g) {agentId pubkey : String}
    (ha : agentId ≠ "") (hp : pubkey ≠ "") : ∃ g', Reached H iso g' ∧
      g'.roots = g.roots.set agentId pubkey ∧ g'.endorsements = g.endorsements ∧
      g'.revocations = g.revocations := by
  have hne : ¬(pubkey = "" ∨ agentId = "") := by tauto
  refine ⟨_, h.step (a := .addRoot agentId pubkey) trivial rfl, ?_⟩
  simp [TrustGraph.addRoot, hne, Except.toOption]

/-- An endorsement that is new and passes the checks is stored. -/
theorem Reached.importEndorsement {g : TrustGraph H iso} (h : Reached H iso g) {now : ℤ}
    {e : Endorsement} (ha : e.Admitted H iso) (hx : e.isExpired iso now = .ok false)
    (hk : g.alreadyKnown e = false) (hl : e.oneLine = true) : ∃ g', Reached H iso g' ∧
      g'.roots = g.roots ∧ g'.endorsements = g.endorsements ++ [e] ∧
      g'.revocations = g.revocations := by
  refine ⟨_, h.step (a := .importEndorsement now e) trivial rfl, ?_⟩
  have hne : ¬(e.endorserPubkey = "" ∨ e.subjectPubkey = "") := by
    have := ha.endorser_ne
    have := ha.subject_ne
    tauto
  have hi : g.importEndorsement now e = .ok (g.append e ha, true) := by
    unfold TrustGraph.importEndorsement
    rw [dif_neg hne]
    split
    · rename_i hx'; rw [hx] at hx'; cases hx'
    · rename_i hx'; rw [hx] at hx'; cases hx'
    · rw [dif_pos ha.verified, hk, if_neg Bool.false_ne_true]
  simp [hi, Except.toOption, TrustGraph.append, hl]

/-- A newly issued endorsement is stored. -/
theorem Reached.issued {g : TrustGraph H iso} (h : Reached H iso g) (k : H.SecretKey)
    {pk aid c t x : String} {d now u : ℤ} (hp : pk ≠ "") (h1 : 1 ≤ d) (h5 : d ≤ maxPropagationDepth)
    (hl : [pk, aid, c, t, x].all Trust.oneLine = true) (hx : iso x = some (.naive u))
    (hu : now ≤ u) (ht : ∀ e ∈ g.endorsements, e.issuedAt ≠ t) :
    ∃ s g', Reached H iso g' ∧ g'.roots = g.roots ∧ g'.revocations = g.revocations ∧
      g'.endorsements = g.endorsements ++ [⟨hex (H.pubkey k), pk, aid, d, c, t, x, hex s⟩] := by
  obtain ⟨s, hs⟩ := issueEndorsement_ok H k aid c t x hp h1 h5
  have hexp : (Endorsement.mk (hex (H.pubkey k)) pk aid d c t x (hex s)).isExpired iso now =
      .ok false := by
    rw [Endorsement.isExpired]
    split_ifs
    · rfl
    · simp only [hx]
      rw [decide_eq_false (by omega)]
  have hadm : (Endorsement.mk (hex (H.pubkey k)) pk aid d c t x (hex s)).Admitted H iso :=
    ⟨hex_ne_empty (pubkey_ne_nil H k), hp, comparable_of_isExpired hexp,
      (verifySig_issueEndorsement H hs).1⟩
  have hknown : g.alreadyKnown (Endorsement.mk (hex (H.pubkey k)) pk aid d c t x (hex s)) =
      false := by
    rw [alreadyKnown, List.any_eq_false]
    intro e he
    have := ht e (List.mem_of_mem_filter he)
    simp [this]
  have hline : (Endorsement.mk (hex (H.pubkey k)) pk aid d c t x (hex s)).oneLine = true := by
    simp only [List.all_cons, List.all_nil, Bool.and_true, Bool.and_eq_true] at hl
    simp [Endorsement.oneLine, oneLine_hex, hl]
  obtain ⟨g', hg', hr, he, hv⟩ := h.importEndorsement hadm hexp hknown hline
  exact ⟨s, g', hg', hr, hv, he⟩

end TrustGraph

end Trust

end NthDao
