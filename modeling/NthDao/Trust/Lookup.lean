/-
  When `trusted_pubkey_for` trusts no more than `is_trusted`.

  The lookup takes the first endorsement of a name whose endorser is trusted one
  hop less deep; what is left of the endorser's budget it does not ask.

  * `trustedPubkeyFor_eq`: the endorsement that decides the lookup;
  * `lookup_trusted_iff`: the key it names is trusted iff it is no pinned key and
    some endorser of it has budget left on its first route;
  * `spent_budget_looked_up`: an endorser with a spent budget introduces a key.
-/
import NthDao.Trust.Paths

namespace NthDao

namespace Trust

open Py TrustGraph

variable {H : Host} {iso : String → Option Stamp} (g : TrustGraph H iso)

/-- The key that the lookup returns is trusted. -/
def LookupTrusted (now : ℤ) (agentId : String) (maxDepth : ℤ) : Prop :=
  ∀ pubkey, g.trustedPubkeyFor now agentId maxDepth = .ok (some pubkey) →
    g.isTrusted now agentId pubkey maxDepth none = .ok true

/-- The endorser is trusted, under the name that is looked up for it. -/
def endorserTrusted (now maxDepth : ℤ) (e : Endorsement) : Bool :=
  match g.reverseLookupAgentId now e.endorserPubkey with
  | .ok (some endorserAid) =>
    g.isTrusted now endorserAid e.endorserPubkey (maxDepth - 1) none = .ok true
  | _ => false

/-- The first endorsement of a name by an endorser who is trusted. -/
def firstEndorsement (now : ℤ) (agentId : String) (maxDepth : ℤ) : Option Endorsement :=
  (active g now none).find? fun e =>
    e.subjectAgentId == agentId && endorserTrusted g now maxDepth e

/-! ## The lookup -/

variable {g} {now maxDepth : ℤ} {agentId pubkey : String}

theorem isTrusted_eq (context : Option String) (hr : pubkey ∉ g.rootKeys) :
    g.isTrusted now agentId pubkey maxDepth context = .ok (((firstRoutes g now maxDepth context).any
      (endorsesTarget g now agentId pubkey maxDepth context))) := by
  by_cases hp : pubkey = ""
  · have hnone : (firstRoutes g now maxDepth context).any
        (endorsesTarget g now agentId pubkey maxDepth context) = false := by
      rw [List.any_eq_false]
      intro it _ h
      obtain ⟨e, he, hn⟩ := exists_names_of_endorsesTarget h
      exact subject_ne_of_names he hn hp
    rw [isTrusted, resolvePath, if_pos hp, hnone]
    rfl
  · rw [isTrusted, resolvePath_eq hp hr, ← List.isSome_find?, Except.map, Option.isSome_map]

/-- A pinned key is trusted under its own name. -/
theorem isTrusted_root (context : Option String) (h : (agentId, pubkey) ∈ g.roots) :
    g.isTrusted now agentId pubkey maxDepth context = .ok true := by
  have hmem : pubkey ∈ g.rootKeys := List.mem_map.2 ⟨_, h, rfl⟩
  rw [isTrusted, resolvePath, if_neg (g.roots_ne _ h).2, if_pos hmem, if_pos h]
  rfl

theorem exists_isTrusted (agentId pubkey : String) (maxDepth : ℤ) (context : Option String) :
    ∃ b, g.isTrusted now agentId pubkey maxDepth context = .ok b := by
  by_cases hr : pubkey ∈ g.rootKeys
  · rw [isTrusted, resolvePath, if_pos hr]
    split_ifs <;> exact ⟨_, rfl⟩
  · exact ⟨_, isTrusted_eq context hr⟩

theorem exists_subjectName (now : ℤ) (pubkey : String) {es : List Endorsement}
    (h : ∀ e ∈ es, e.Admitted H iso) : ∃ name, subjectName iso now pubkey es = .ok name := by
  induction es with
  | nil => exact ⟨_, rfl⟩
  | cons e es ih =>
    obtain ⟨b, hb⟩ := isExpired_of_admitted (h e (by simp)) now
    obtain ⟨name, hname⟩ := ih fun x hx => h x (by simp [hx])
    rw [subjectName, hb, ok_bind]
    split_ifs
    · exact ⟨name, hname⟩
    · exact ⟨_, rfl⟩
    · exact ⟨name, hname⟩

theorem exists_reverseLookupAgentId (now : ℤ) (pubkey : String) :
    ∃ name, g.reverseLookupAgentId now pubkey = .ok name := by
  unfold reverseLookupAgentId
  split
  · exact ⟨_, rfl⟩
  · exact exists_subjectName now pubkey fun e he => admitted_loadAll he

theorem endorsedKey_eq {es : List Endorsement} (h : ∀ e ∈ es, e.Admitted H iso) :
    g.endorsedKey now agentId maxDepth es =
      .ok (((es.filter fun e => e.isExpired iso now = .ok false).find? fun e =>
        e.subjectAgentId == agentId && endorserTrusted g now maxDepth e).map
          Endorsement.subjectPubkey) := by
  induction es with
  | nil => rfl
  | cons e es ih =>
    have ih := ih fun x hx => h x (by simp [hx])
    obtain ⟨b, hb⟩ := isExpired_of_admitted (h e (by simp)) now
    rw [endorsedKey, hb, ok_bind]
    cases b with
    | true =>
      rw [List.filter_cons_of_neg (by simp [hb])]
      exact ih
    | false =>
      rw [List.filter_cons_of_pos (by simp [hb]), List.find?_cons, endorserTrusted]
      by_cases ha : e.subjectAgentId = agentId
      · obtain ⟨name, hname⟩ := exists_reverseLookupAgentId (g := g) now e.endorserPubkey
        rw [hname, ok_bind]
        cases name with
        | none => simpa [ha] using ih
        | some name =>
          obtain ⟨t, ht⟩ : ∃ b, g.isTrusted now name e.endorserPubkey (maxDepth - 1) none = .ok b :=
            exists_isTrusted name e.endorserPubkey (maxDepth - 1) none
          cases t with
          | true => simp [ha, ht, ok_bind]
          | false => simpa [ha, ht, ok_bind] using ih
      · have hb : (e.subjectAgentId == agentId) = false := by simpa using ha
        simp only [bne, hb, Bool.not_false, Bool.or_true, if_true, Bool.false_and]
        exact ih

/-- The lookup of a name that is not pinned is decided by one endorsement. -/
theorem trustedPubkeyFor_eq (h : g.roots.get agentId = none) :
    g.trustedPubkeyFor now agentId maxDepth =
      .ok ((firstEndorsement g now agentId maxDepth).map Endorsement.subjectPubkey) := by
  rw [trustedPubkeyFor, h]
  exact endorsedKey_eq fun e he => admitted_loadAll he

/-! ## What is looked up is trusted -/

/-- **The lookup trusts no more than `is_trusted`** iff the name is pinned, or the
    endorsement that decides it names a key that is not pinned, and that some key
    with budget left on its first route endorses under the name. -/
theorem lookup_trusted_iff : LookupTrusted g now agentId maxDepth ↔
    (g.roots.get agentId).isSome = true ∨
      ∀ e, firstEndorsement g now agentId maxDepth = some e →
        e.subjectPubkey ∉ g.rootKeys ∧ ∃ it ∈ firstRoutes g now maxDepth none,
          endorsesTarget g now agentId e.subjectPubkey maxDepth none it = true := by
  cases hroot : g.roots.get agentId with
  | some pk =>
    refine ⟨fun _ => .inl rfl, fun _ pubkey hl => ?_⟩
    rw [trustedPubkeyFor, hroot] at hl
    cases hl
    exact isTrusted_root none (Dict.mem_of_get hroot)
  | none =>
    have hnot : ∀ pk, (agentId, pk) ∉ g.roots := by
      intro pk hpk
      exact Dict.get_eq_none.1 hroot (List.mem_map.2 ⟨_, hpk, rfl⟩)
    simp only [Option.isSome_none, Bool.false_eq_true, false_or]
    rw [LookupTrusted, trustedPubkeyFor_eq hroot]
    constructor
    · intro h e he
      have ht := h e.subjectPubkey (by rw [he]; rfl)
      have hr : e.subjectPubkey ∉ g.rootKeys := by
        intro hr
        rw [isTrusted, resolvePath, if_pos hr, if_neg (hnot _)] at ht
        split_ifs at ht <;> cases ht
      rw [isTrusted_eq none hr, Except.ok.injEq, List.any_eq_true] at ht
      exact ⟨hr, ht⟩
    · intro h pubkey hl
      obtain ⟨e, he, rfl⟩ := Option.map_eq_some_iff.1 (Except.ok.inj hl)
      obtain ⟨hr, hit⟩ := h e he
      rw [isTrusted_eq none hr, List.any_eq_true.2 hit]

/-- An endorser whose budget is spent introduces a key: the root endorses `b` with
    budget 1, and `b` endorses `c`. -/
theorem spent_budget_looked_up : ∃ g : TrustGraph checksumHost sampleIso,
    Reached checksumHost sampleIso g ∧ ¬ LookupTrusted g 0 "c" 2 := by
  obtain ⟨g₀, h₀, hr₀, hv₀, he₀⟩ := exists_sample_root
  obtain ⟨s₁, g₁, h₁, hr₁, hv₁, he₁⟩ := exists_sample_vouch h₀ 1 2 (d := 1) (t := "1")
    (by decide) (by decide) (show ["b", "1"].all Trust.oneLine = true by decide)
    (by simp [he₀])
  obtain ⟨s₂, g, h, hr, hv, he⟩ := exists_sample_vouch h₁ 2 3 (d := 1) (t := "2")
    (by decide) (by decide) (show ["c", "2"].all Trust.oneLine = true by decide)
    (by simp [he₁, he₀])
  rw [hr₁, hr₀] at hr
  rw [hv₁, hv₀] at hv
  rw [he₁, he₀] at he
  have hkeys : g.rootKeys = [sampleKey 1] := by rw [rootKeys, hr]; rfl
  have hload : g.loadAll = g.endorsements := by
    simp [loadAll, loadRevocations, hv]
  have hactive : active g 0 none = g.endorsements := by
    simp [active, hload, he, compatible, Endorsement.isExpired, sampleIso]
  have hb : g.isTrusted 0 "b" (sampleKey 2) 1 none = .ok true := by
    rw [isTrusted_eq none (by simp [hkeys, sampleKey_inj])]
    simp [firstRoutes, endorsesTarget, hactive, hkeys, he, Walk.Net.found, Walk.Net.later,
      Walk.Net.hits, Walk.Net.root, Walk.Item.live, Walk.Net.out, net, names, sampleKey_inj,
      maxPropagationDepth]
  have hfound : g.trustedPubkeyFor 0 "c" 2 = .ok (some (sampleKey 3)) := by
    simp [trustedPubkeyFor, hr, Dict.get, hload, he, endorsedKey, reverseLookupAgentId,
      subjectName, Endorsement.isExpired, sampleIso, sampleKey_inj, ok_bind, hb]
  have hnot : g.isTrusted 0 "c" (sampleKey 3) 2 none = .ok false := by
    rw [isTrusted_eq none (by simp [hkeys, sampleKey_inj])]
    simp [firstRoutes, endorsesTarget, hactive, hkeys, he, Walk.Net.found, Walk.Net.later,
      Walk.Net.hits, Walk.Net.root, Walk.Item.live, Walk.Net.out, net, names, sampleKey_inj,
      maxPropagationDepth, Walk.Net.finds, Walk.Net.fresh, Walk.Net.next]
  refine ⟨g, h, fun hl => ?_⟩
  have := hl _ hfound
  rw [hnot] at this
  cases this

end Trust

end NthDao
