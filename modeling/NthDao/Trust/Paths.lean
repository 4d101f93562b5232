/-
  When `resolve_path` decides whether there is a chain of endorsements.

  * `BudgetedChain`: the chains of the design, from a root to exactly the target,
    each endorsement covering the rest of the chain;
  * `resolvePath_eq`: the walk returns the path of the first key it finds that
    has budget left and endorses the target;
  * `decides_iff`: this is the existence of a chain iff the routes by which keys
    are found first lose no chain, and the last endorsement has a budget of its own;
  * `cheap_route_first`: a key found first with a small budget is not found again.
-/
import NthDao.Trust.Graph

namespace NthDao

namespace Trust

open Py TrustGraph

variable {H : Host} {iso : String → Option Stamp} (g : TrustGraph H iso)

/-- The endorsements a walk uses: unrevoked, unexpired, of a fitting context. -/
def active (now : ℤ) (context : Option String) : List Endorsement :=
  compatible context (g.loadAll.filter fun e => e.isExpired iso now = .ok false)

/-- A chain `r, e₁, …, eₙ` of active endorsements from a root to the target: `n`
    is within the bounds, and `eᵢ` covers the `n - i` hops after it. -/
structure BudgetedChain (now : ℤ) (agentId pubkey : String) (maxDepth : ℤ)
    (context : Option String) (r : String) (es : List Endorsement) : Prop where
  root : r ∈ g.rootKeys
  route : (net (active g now context)).Route r es pubkey
  names : ∃ e, es.getLast? = some e ∧ e.subjectAgentId = agentId ∧ e.subjectPubkey = pubkey
  bound : es.length ≤ min maxDepth maxPropagationDepth
  budget : ∀ i (h : i < es.length), es.length - i ≤ es[i].depthAllowed

/-- `resolve_path` decides the existence of a chain, and returns the keys of one. -/
def Decides (now : ℤ) (agentId pubkey : String) (maxDepth : ℤ) (context : Option String) : Prop :=
  ∃ result, g.resolvePath now agentId pubkey maxDepth context = .ok result ∧
    (result.isSome = true ↔ ∃ r es, BudgetedChain g now agentId pubkey maxDepth context r es) ∧
    ∀ path, result = some path → ∃ r es,
      BudgetedChain g now agentId pubkey maxDepth context r es ∧
      path = r :: es.map Endorsement.subjectPubkey

/-! ## The walk -/

variable {g}

theorem isExpired_of_admitted {e : Endorsement} (h : e.Admitted H iso) (now : ℤ) :
    ∃ b, e.isExpired iso now = .ok b := by
  rw [Endorsement.isExpired]
  split_ifs with he
  · exact ⟨_, rfl⟩
  · split
    · exact ⟨_, rfl⟩
    · exact ⟨_, rfl⟩
    · exact absurd ‹_› (h.comparable.resolve_left he)

theorem unexpired_eq (now : ℤ) {es : List Endorsement} (h : ∀ e ∈ es, e.Admitted H iso) :
    unexpired iso now es = .ok (es.filter fun e => e.isExpired iso now = .ok false) := by
  induction es with
  | nil => rfl
  | cons e es ih =>
    have ih := ih fun x hx => h x (by simp [hx])
    obtain ⟨b, hb⟩ := isExpired_of_admitted (h e (by simp)) now
    rw [unexpired, hb, ok_bind, ih]
    cases b with
    | true =>
      rw [if_pos rfl, List.filter_cons_of_neg]
      simp [hb]
    | false =>
      rw [if_neg Bool.false_ne_true, List.filter_cons_of_pos]
      · rfl
      · simp [hb]

theorem admitted_loadAll {e : Endorsement} (h : e ∈ g.loadAll) : e.Admitted H iso :=
  g.admitted e (List.mem_of_mem_filter h)

theorem mem_of_mem_active {now : ℤ} {context : Option String} {e : Endorsement}
    (h : e ∈ active g now context) : e ∈ g.loadAll ∧ e.isExpired iso now = .ok false := by
  have hmem : e ∈ g.loadAll.filter fun e => e.isExpired iso now = .ok false := by
    rw [active, compatible.eq_def] at h
    split at h
    · exact h
    · split_ifs at h
      · exact h
      · exact List.mem_of_mem_filter h
  rw [List.mem_filter, decide_eq_true_eq] at hmem
  exact hmem

variable (g)

/-- The first routes by which the keys are found. -/
def firstRoutes (now maxDepth : ℤ) (context : Option String) : List (Walk.Item String) :=
  (net (active g now context)).found (min maxDepth maxPropagationDepth) g.rootKeys

/-- The key has budget left on its first route, and endorses the target. -/
def endorsesTarget (now : ℤ) (agentId pubkey : String) (maxDepth : ℤ) (context : Option String)
    (it : Walk.Item String) : Bool :=
  (net (active g now context)).hits (min maxDepth maxPropagationDepth) (names agentId pubkey) it

variable {g} {now maxDepth : ℤ} {agentId pubkey : String} {context : Option String}

theorem names_iff {e : Endorsement} :
    names agentId pubkey e = true ↔ e.subjectPubkey = pubkey ∧ e.subjectAgentId = agentId := by
  rw [names, Bool.and_eq_true, beq_iff_eq, beq_iff_eq]

/-- The walk returns the path of the first key found that endorses the target. -/
theorem resolvePath_eq (hp : pubkey ≠ "") (hr : pubkey ∉ g.rootKeys) :
    g.resolvePath now agentId pubkey maxDepth context =
      .ok (((firstRoutes g now maxDepth context).find?
        (endorsesTarget g now agentId pubkey maxDepth context)).map fun it =>
          it.path ++ [pubkey]) := by
  rw [resolvePath, if_neg hp, if_neg hr, unexpired_eq now fun e he => admitted_loadAll he, ok_bind]
  show Except.ok _ = Except.ok _
  rw [Except.ok.injEq, ← active]
  have hfuel : g.rootKeys.length + (net (active g now context)).all.length ≤
      g.rootKeys.length + (active g now context).length := le_rfl
  exact (Walk.Net.search_eq _ _ _ hfuel).trans
    (Walk.Net.findSome?_answer (fun e he => (names_iff.1 he).1) _)

/-! ## Chains -/

/-- The chains are the routes with a hop left, and a last endorsement that has a
    budget of its own and names the target. -/
theorem budgetedChain_iff {r : String} {es : List Endorsement} :
    BudgetedChain g now agentId pubkey maxDepth context r es ↔
      r ∈ g.rootKeys ∧ ∃ es' e, es = es' ++ [e] ∧
        (net (active g now context)).Route r es' e.endorserPubkey ∧
        1 ≤ (net (active g now context)).left (min maxDepth maxPropagationDepth) es' ∧
        e ∈ active g now context ∧ names agentId pubkey e = true ∧ 1 ≤ e.depthAllowed := by
  constructor
  · rintro ⟨hr, hroute, ⟨e, he, ha, hp⟩, hb, hd⟩
    obtain ⟨es', rfl⟩ := List.getLast?_eq_some_iff.1 he
    obtain ⟨hroute, hmem, -⟩ := Walk.Net.route_append_singleton.1 hroute
    refine ⟨hr, es', e, rfl, hroute, ?_, hmem, names_iff.2 ⟨hp, ha⟩, ?_⟩
    · rw [Walk.Net.le_left_iff]
      rw [List.length_append, List.length_singleton] at hb
      refine ⟨by exact_mod_cast hb, fun i hi => ?_⟩
      have := hd i (by simp; omega)
      rw [List.getElem_append_left hi, List.length_append, List.length_singleton] at this
      show _ ≤ es'[i].depthAllowed
      omega
    · have := hd es'.length (by simp)
      rw [List.getElem_concat_length rfl, List.length_append, List.length_singleton] at this
      omega
  · rintro ⟨hr, es', e, rfl, hroute, hleft, hmem, hn, hd⟩
    obtain ⟨hb, hc⟩ := (Walk.Net.le_left_iff _ _ _).1 hleft
    obtain ⟨hp, ha⟩ := names_iff.1 hn
    refine ⟨hr, Walk.Net.route_append_singleton.2 ⟨hroute, hmem, hp.symm⟩,
      ⟨e, by simp, ha, hp⟩, ?_, fun i hi => ?_⟩
    · rw [List.length_append, List.length_singleton]
      exact_mod_cast hb
    · rw [List.length_append, List.length_singleton] at hi ⊢
      rcases Nat.lt_or_ge i es'.length with hlt | hge
      · have : (es'.length : ℤ) - i + 1 ≤ es'[i].depthAllowed := hc i hlt
        rw [List.getElem_append_left hlt]
        omega
      · obtain rfl : i = es'.length := by omega
        rw [List.getElem_concat_length rfl]
        omega

/-- A key that endorses the target on its first route, with that route. -/
theorem route_of_endorsesTarget {it : Walk.Item String}
    (hit : it ∈ firstRoutes g now maxDepth context)
    (h : endorsesTarget g now agentId pubkey maxDepth context it = true) :
    ∃ r ∈ g.rootKeys, ∃ es, (net (active g now context)).Route r es it.key ∧
      it.path = r :: es.map Endorsement.subjectPubkey ∧
      1 ≤ (net (active g now context)).left (min maxDepth maxPropagationDepth) es := by
  obtain ⟨r, hr, es, hroute, hpath, hleft, hdepth⟩ := Walk.Net.routed_found hit
  rw [endorsesTarget, Walk.Net.hits, Bool.and_eq_true] at h
  exact ⟨r, hr, es, hroute, hpath, (Walk.Net.live_iff hleft hdepth).1 h.1⟩

/-- The path by which a key is found is that of a chain iff one of its
    endorsements of the target has a budget of its own. -/
theorem path_budgeted_iff {it : Walk.Item String} (hit : it ∈ firstRoutes g now maxDepth context)
    (h : endorsesTarget g now agentId pubkey maxDepth context it = true) :
    (∃ r es, BudgetedChain g now agentId pubkey maxDepth context r es ∧
      it.path ++ [pubkey] = r :: es.map Endorsement.subjectPubkey) ↔
    ∃ e ∈ active g now context, e.endorserPubkey = it.key ∧ names agentId pubkey e = true ∧
      1 ≤ e.depthAllowed := by
  obtain ⟨r, hr, es, hroute, hpath, hleft⟩ := route_of_endorsesTarget hit h
  constructor
  · rintro ⟨r', es', hchain, hkeys⟩
    obtain ⟨-, es'', e, rfl, hroute', -, hmem, hn, hd⟩ := budgetedChain_iff.1 hchain
    refine ⟨e, hmem, ?_, hn, hd⟩
    have hkeys' : it.path = r' :: es''.map Endorsement.subjectPubkey := by
      rw [List.map_append, ← List.cons_append] at hkeys
      exact (List.append_inj' hkeys rfl).1
    have hlast := hroute'.getLast?
    have hlast' := hroute.getLast?
    change (r' :: es''.map Endorsement.subjectPubkey).getLast? = _ at hlast
    change (r :: es.map Endorsement.subjectPubkey).getLast? = _ at hlast'
    rw [← hkeys', hpath, hlast'] at hlast
    exact (Option.some.inj hlast).symm
  · rintro ⟨e, hmem, hk, hn, hd⟩
    refine ⟨r, es ++ [e], budgetedChain_iff.2 ⟨hr, es, e, rfl, hk ▸ hroute, hleft, hmem, hn, hd⟩, ?_⟩
    rw [hpath, List.map_append, List.cons_append, List.map_singleton, (names_iff.1 hn).1]

/-! ## When chains are decided -/

variable (g) in
/-- The first routes lose nothing for the target. -/
structure FirstRoutesSuffice (now : ℤ) (agentId pubkey : String) (maxDepth : ℤ)
    (context : Option String) : Prop where
  /-- if an endorser of the target can be reached with budget left, one has budget
      left on its first route -/
  kept : ∀ r ∈ g.rootKeys, ∀ es, ∀ e ∈ active g now context,
    (net (active g now context)).Route r es e.endorserPubkey →
    1 ≤ (net (active g now context)).left (min maxDepth maxPropagationDepth) es →
    names agentId pubkey e = true → 1 ≤ e.depthAllowed →
    ∃ it ∈ firstRoutes g now maxDepth context,
      endorsesTarget g now agentId pubkey maxDepth context it = true
  /-- the first of these has an endorsement with a budget of its own -/
  paid : ∀ it, (firstRoutes g now maxDepth context).find?
      (endorsesTarget g now agentId pubkey maxDepth context) = some it →
    ∃ e ∈ active g now context, e.endorserPubkey = it.key ∧ names agentId pubkey e = true ∧
      1 ≤ e.depthAllowed

theorem subject_ne_of_names {e : Endorsement} (he : e ∈ active g now context)
    (hn : names agentId pubkey e = true) : pubkey ≠ "" :=
  (names_iff.1 hn).1 ▸ (admitted_loadAll (mem_of_mem_active he).1).subject_ne

theorem exists_names_of_endorsesTarget {it : Walk.Item String}
    (h : endorsesTarget g now agentId pubkey maxDepth context it = true) :
    ∃ e ∈ active g now context, names agentId pubkey e = true := by
  rw [endorsesTarget, Walk.Net.hits, Bool.and_eq_true, List.any_eq_true] at h
  obtain ⟨-, e, he, hn⟩ := h
  exact ⟨e, (Walk.Net.mem_out.1 he).1, hn⟩

/-- The empty key is never resolved, and has no chain. -/
theorem decides_empty_key (hp : pubkey = "") :
    Decides g now agentId pubkey maxDepth context ∧
      FirstRoutesSuffice g now agentId pubkey maxDepth context := by
  have hnone : ∀ e ∈ active g now context, names agentId pubkey e ≠ true :=
    fun e he hn => subject_ne_of_names he hn hp
  refine ⟨⟨none, by rw [resolvePath, if_pos hp], ?_, by simp⟩, ?_, ?_⟩
  · constructor
    · intro h; cases h
    · rintro ⟨r, es, hchain⟩
      obtain ⟨-, -, e, -, -, -, he, hn, -⟩ := budgetedChain_iff.1 hchain
      exact absurd hn (hnone e he)
  · intro r _ es e he _ _ hn
    exact absurd hn (hnone e he)
  · intro it hit
    obtain ⟨e, he, hn⟩ := exists_names_of_endorsesTarget (List.find?_some hit)
    exact absurd hn (hnone e he)

/-- **The walk decides the existence of a chain** for a target that is no pinned
    key, and returns the keys of one, iff the first routes suffice. -/
theorem decides_iff (hr : pubkey ∉ g.rootKeys) :
    Decides g now agentId pubkey maxDepth context ↔
      FirstRoutesSuffice g now agentId pubkey maxDepth context := by
  by_cases hp : pubkey = ""
  · have h : Decides g now agentId pubkey maxDepth context ∧
        FirstRoutesSuffice g now agentId pubkey maxDepth context := decides_empty_key hp
    exact ⟨fun _ => h.2, fun _ => h.1⟩
  have hres : g.resolvePath now agentId pubkey maxDepth context = _ := resolvePath_eq hp hr
  constructor
  · rintro ⟨result, hresult, hsome, hpath⟩
    obtain rfl := Except.ok.inj (hres.symm.trans hresult)
    refine ⟨?_, fun it hit => ?_⟩
    · intro r hroot es e he hroute hleft hn hd
      have := hsome.2 ⟨r, es ++ [e], budgetedChain_iff.2 ⟨hroot, es, e, rfl, hroute, hleft, he, hn, hd⟩⟩
      rw [Option.isSome_map, List.find?_isSome] at this
      exact this
    · rw [hit] at hpath
      exact (path_budgeted_iff (List.mem_of_find?_eq_some hit) (List.find?_some hit)).1
        (hpath _ rfl)
  · rintro ⟨hkept, hpaid⟩
    have hchain : ∀ it, (firstRoutes g now maxDepth context).find?
        (endorsesTarget g now agentId pubkey maxDepth context) = some it → ∃ r es,
        BudgetedChain g now agentId pubkey maxDepth context r es ∧
          it.path ++ [pubkey] = r :: es.map Endorsement.subjectPubkey := fun it hit =>
      (path_budgeted_iff (List.mem_of_find?_eq_some hit) (List.find?_some hit)).2 (hpaid it hit)
    refine ⟨_, hres, ⟨fun h => ?_, ?_⟩, fun path h => ?_⟩
    · rw [Option.isSome_map] at h
      obtain ⟨it, hit⟩ := Option.isSome_iff_exists.1 h
      obtain ⟨r, es, hc, -⟩ := hchain it hit
      exact ⟨r, es, hc⟩
    · rintro ⟨r, es, hc⟩
      obtain ⟨hroot, es', e, -, hroute, hleft, he, hn, hd⟩ := budgetedChain_iff.1 hc
      rw [Option.isSome_map, List.find?_isSome]
      exact hkept r hroot es' e he hroute hleft hn hd
    · obtain ⟨it, hit, rfl⟩ := Option.map_eq_some_iff.1 h
      exact hchain it hit

/-! ## Samples -/

/-- The keys of the samples. -/
def sampleKey (k : UInt8) : String := hex (List.replicate 32 k)

theorem sampleKey_ne_empty (k : UInt8) : sampleKey k ≠ "" :=
  hex_ne_empty (by simp [List.replicate_succ])

theorem sampleKey_inj {k l : UInt8} : sampleKey k = sampleKey l ↔ k = l := by
  constructor
  · intro h
    simpa using List.replicate_right_injective (by decide) (hex_injective h)
  · rintro rfl; rfl

/-- A clock text of the samples is the time 100. -/
def sampleIso : String → Option Stamp := fun _ => some (.naive 100)

/-- One root key, pinned as `r`. -/
theorem exists_sample_root : ∃ g : TrustGraph checksumHost sampleIso,
    Reached checksumHost sampleIso g ∧ g.roots = [("r", sampleKey 1)] ∧ g.revocations = [] ∧
      g.endorsements = [] := by
  have hstart : Reached checksumHost sampleIso (empty checksumHost sampleIso) := .start
  obtain ⟨g, h, hr, he, hv⟩ := hstart.addRoot (show "r" ≠ "" by decide) (sampleKey_ne_empty 1)
  exact ⟨g, h, hr, hv, he⟩

/-- One more endorsement of the samples. -/
theorem exists_sample_vouch {g : TrustGraph checksumHost sampleIso}
    (h : Reached checksumHost sampleIso g) (k l : UInt8) {aid t : String} {d : ℤ} (h1 : 1 ≤ d)
    (h5 : d ≤ maxPropagationDepth) (hl : [aid, t].all Trust.oneLine = true)
    (ht : ∀ e ∈ g.endorsements, e.issuedAt ≠ t) :
    ∃ s g', Reached checksumHost sampleIso g' ∧ g'.roots = g.roots ∧
      g'.revocations = g.revocations ∧ g'.endorsements =
        g.endorsements ++ [⟨sampleKey k, sampleKey l, aid, d, "general", t, "9", hex s⟩] := by
  have hgen : Trust.oneLine "general" = true := rfl
  have hnine : Trust.oneLine "9" = true := rfl
  refine h.issued (k : UInt8) (sampleKey_ne_empty l) h1 h5 ?_ rfl (show (0 : ℤ) ≤ 100 by decide) ht
  simp only [List.all_cons, List.all_nil, Bool.and_true, Bool.and_eq_true] at hl ⊢
  exact ⟨oneLine_hex _, hl.1, hgen, hl.2, hnine⟩

/-- A root that endorses `a` twice, first with budget 1 and then with 3, and `a`
    that endorses `t`. -/
theorem exists_cheap_route_first : ∃ s₁ s₂ s₃ : Bytes, ∃ g : TrustGraph checksumHost sampleIso,
    Reached checksumHost sampleIso g ∧ g.roots = [("r", sampleKey 1)] ∧ g.revocations = [] ∧
      g.endorsements =
        [⟨sampleKey 1, sampleKey 2, "a", 1, "general", "1", "9", hex s₁⟩,
          ⟨sampleKey 1, sampleKey 2, "a", 3, "general", "2", "9", hex s₂⟩,
          ⟨sampleKey 2, sampleKey 3, "t", 1, "general", "3", "9", hex s₃⟩] := by
  obtain ⟨g₀, h₀, hr₀, hv₀, he₀⟩ := exists_sample_root
  obtain ⟨s₁, g₁, h₁, hr₁, hv₁, he₁⟩ := exists_sample_vouch h₀ 1 2 (d := 1) (t := "1")
    (by decide) (by decide) (show ["a", "1"].all Trust.oneLine = true from rfl)
    (by simp [he₀])
  obtain ⟨s₂, g₂, h₂, hr₂, hv₂, he₂⟩ := exists_sample_vouch h₁ 1 2 (d := 3) (t := "2")
    (by decide) (by decide) (show ["a", "2"].all Trust.oneLine = true from rfl)
    (by simp [he₁, he₀])
  obtain ⟨s₃, g₃, h₃, hr₃, hv₃, he₃⟩ := exists_sample_vouch h₂ 2 3 (d := 1) (t := "3")
    (by decide) (by decide) (show ["t", "3"].all Trust.oneLine = true from rfl)
    (by simp [he₂, he₁, he₀])
  refine ⟨s₁, s₂, s₃, g₃, h₃, by rw [hr₃, hr₂, hr₁, hr₀], by rw [hv₃, hv₂, hv₁, hv₀], ?_⟩
  rw [he₃, he₂, he₁, he₀]
  rfl

/-- A key found first with a small budget is not found again with a larger one. -/
theorem cheap_route_first : ∃ g : TrustGraph checksumHost sampleIso,
    Reached checksumHost sampleIso g ∧ sampleKey 3 ∉ g.rootKeys ∧
      ¬ Decides g 0 "t" (sampleKey 3) 2 none := by
  obtain ⟨s₁, s₂, s₃, g, hg, hr, hv, he⟩ := exists_cheap_route_first
  have hkeys : g.rootKeys = [sampleKey 1] := by rw [rootKeys, hr]; rfl
  have hne : sampleKey 3 ∉ g.rootKeys := by simp [hkeys, sampleKey_inj]
  refine ⟨g, hg, hne, ?_⟩
  have hload : g.loadAll = g.endorsements := by
    simp [loadAll, loadRevocations, hv]
  have hnone : g.resolvePath 0 "t" (sampleKey 3) 2 none = .ok none := by
    rw [resolvePath, if_neg (sampleKey_ne_empty 3), if_neg hne,
      unexpired_eq 0 fun e he => admitted_loadAll he, hload, he, hkeys]
    simp [Endorsement.isExpired, sampleIso, compatible, net, Walk.Net.search,
      Walk.Net.scan, Walk.Net.out, Walk.Net.next, Walk.Net.root, Walk.Item.live, names,
      sampleKey_inj, maxPropagationDepth]
  have hactive : active g 0 none = g.endorsements := by
    rw [active, hload, he]
    simp [compatible, Endorsement.isExpired, sampleIso]
  have hchain : BudgetedChain g 0 "t" (sampleKey 3) 2 none (sampleKey 1)
      [⟨sampleKey 1, sampleKey 2, "a", 3, "general", "2", "9", hex s₂⟩,
        ⟨sampleKey 2, sampleKey 3, "t", 1, "general", "3", "9", hex s₃⟩] := by
    refine ⟨by simp [hkeys], ?_, ⟨_, rfl, rfl, rfl⟩, by simp [maxPropagationDepth], ?_⟩
    · rw [hactive, he]
      simp [net, Walk.Net.Route]
    · rintro (_ | _ | i) hi
      · simp
      · simp
      · simp at hi
  rintro ⟨result, hres, hsome, -⟩
  obtain rfl := Except.ok.inj (hnone.symm.trans hres)
  exact absurd (hsome.2 ⟨_, _, hchain⟩) (by simp)

/-- A key that a root endorses is resolved, with the two keys as the path. -/
theorem direct_endorsement_decided : ∃ g : TrustGraph checksumHost sampleIso,
    Reached checksumHost sampleIso g ∧ sampleKey 2 ∉ g.rootKeys ∧
      Decides g 0 "a" (sampleKey 2) 2 none := by
  obtain ⟨g₀, h₀, hr₀, hv₀, he₀⟩ := exists_sample_root
  obtain ⟨s, g, hg, hr, hv, he⟩ := exists_sample_vouch h₀ 1 2 (d := 1) (t := "1")
    (by decide) (by decide) (show ["a", "1"].all Trust.oneLine = true from rfl)
    (by simp [he₀])
  rw [hr₀] at hr
  rw [hv₀] at hv
  rw [he₀, List.nil_append] at he
  have hkeys : g.rootKeys = [sampleKey 1] := by rw [rootKeys, hr]; rfl
  have hactive : active g 0 none = g.endorsements := by
    simp [active, loadAll, loadRevocations, hv, he, compatible, Endorsement.isExpired, sampleIso]
  have hfirst : (firstRoutes g 0 2 none).head? = some (Walk.Net.root 2 (sampleKey 1)) := by
    rw [firstRoutes, Walk.Net.found, hkeys]
    rfl
  have hends : endorsesTarget g 0 "a" (sampleKey 2) 2 none (Walk.Net.root 2 (sampleKey 1)) =
      true := by
    rw [endorsesTarget, hactive, he]
    simp [Walk.Net.hits, Walk.Net.root, Walk.Item.live, Walk.Net.out, net, names,
      maxPropagationDepth]
  have hne : sampleKey 2 ∉ g.rootKeys := by simp [hkeys, sampleKey_inj]
  refine ⟨g, hg, hne, (decides_iff hne).2 ⟨?_, ?_⟩⟩
  · intro r _ es e _ _ _ _ _
    exact ⟨_, List.mem_of_mem_head? (by rw [hfirst]; rfl), hends⟩
  · intro it hit
    obtain ⟨rest, hrest⟩ := List.head?_eq_some_iff.1 hfirst
    rw [hrest, List.find?_cons_of_pos hends] at hit
    obtain rfl := Option.some.inj hit
    rw [hactive, he]
    exact ⟨_, List.mem_singleton_self _, rfl, by simp [names], le_rfl⟩

end Trust

end NthDao
