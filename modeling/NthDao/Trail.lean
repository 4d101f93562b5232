/-
  The breadth-first search of `Walk`, with the edges it goes over.

  * `Net.trailSearch`: the search, returning the edges to the edge that hits;
    `trailSearch_keys`: forgetting them gives `Net.search`;
  * `Net.order`: the edges that a search without a target looks at, in order;
  * `getLast?_trailSearch`: a search ends with the first of these that hits;
  * `trailSearch_first`: every edge it returns is the first of these to its end.
-/
import NthDao.Walk

namespace Walk

variable {κ ε : Type} [DecidableEq κ]

/-- An entry of the queue with the root and the edges that found it. -/
structure Trail (κ ε : Type) where
  start : κ
  edges : List ε
  key : κ
  depth : ℕ
  allowed : ℤ

namespace Net

variable (N : Net κ ε)

/-- The item of a trail. -/
def item (t : Trail κ ε) : Item κ := ⟨t.key, t.depth, t.allowed, t.start :: t.edges.map N.dst⟩

/-- The trail with one more edge. -/
def follow (t : Trail κ ε) (e : ε) : Trail κ ε where
  start := t.start
  edges := t.edges ++ [e]
  key := N.dst e
  depth := t.depth + 1
  allowed := min (t.allowed - 1) (N.cap e - 1)

/-- The trail a search starts at. -/
def startAt (bound : ℤ) (k : κ) : Trail κ ε := ⟨k, [], k, 0, bound⟩

/-- The trails to the keys that the edges of `t` lead to first. -/
def freshTrails (t : Trail κ ε) : List ε → List κ → List (Trail κ ε)
  | [], _ => []
  | e :: es, seen =>
    if N.dst e ∈ seen then freshTrails t es seen
    else N.follow t e :: freshTrails t es (seen ++ [N.dst e])

/-- The search over trails. -/
def trailSearch (bound : ℤ) (hit : ε → Bool) : ℕ → List (Trail κ ε) → List κ → Option (Trail κ ε)
  | 0, _, _ => none
  | _ + 1, [], _ => none
  | fuel + 1, t :: queue, seen =>
    if (N.item t).live bound then
      match (N.out t.key).find? hit with
      | some e => some (N.follow t e)
      | none =>
        let new := N.freshTrails t (N.out t.key) seen
        trailSearch bound hit fuel (queue ++ new) (seen ++ new.map Trail.key)
    else trailSearch bound hit fuel queue seen

/-- The edges that are looked at where nothing hits. -/
def order (bound : ℤ) : ℕ → List (Trail κ ε) → List κ → List ε
  | 0, _, _ => []
  | _ + 1, [], _ => []
  | fuel + 1, t :: queue, seen =>
    if (N.item t).live bound then
      let new := N.freshTrails t (N.out t.key) seen
      N.out t.key ++ order bound fuel (queue ++ new) (seen ++ new.map Trail.key)
    else order bound fuel queue seen

variable {N}

omit [DecidableEq κ] in
@[simp] theorem item_follow (t : Trail κ ε) (e : ε) : N.item (N.follow t e) = N.next (N.item t) e := by
  simp [item, follow, next]

omit [DecidableEq κ] in
@[simp] theorem item_startAt (bound : ℤ) (k : κ) : N.item (startAt bound k) = root bound k := rfl

theorem map_item_freshTrails (t : Trail κ ε) (es : List ε) (seen : List κ) :
    (N.freshTrails t es seen).map N.item = N.fresh (N.item t) es seen := by
  induction es generalizing seen with
  | nil => rfl
  | cons e es ih =>
    rw [freshTrails, fresh]
    split_ifs
    · exact ih seen
    · rw [List.map_cons, item_follow, ih]

omit [DecidableEq κ] in
theorem map_key_item (ts : List (Trail κ ε)) : (ts.map N.item).map Item.key = ts.map Trail.key := by
  rw [List.map_map]; rfl

/-- **The search over trails is the search**, with the edges of its path. -/
theorem trailSearch_keys (bound : ℤ) (hit : ε → Bool) (fuel : ℕ) (queue : List (Trail κ ε))
    (seen : List κ) : N.search bound hit fuel (queue.map N.item) seen =
      (N.trailSearch bound hit fuel queue seen).map fun t => t.start :: t.edges.map N.dst := by
  induction fuel generalizing queue seen with
  | zero => cases queue <;> rfl
  | succ fuel ih =>
    cases queue with
    | nil => rfl
    | cons t queue =>
      rw [List.map_cons, search, trailSearch]
      by_cases hl : (N.item t).live bound = true
      · have hkey : (N.item t).key = t.key := rfl
        rw [if_pos hl, if_pos hl, scan_eq, hkey]
        cases hf : (N.out t.key).find? hit with
        | some e => simp [follow, item]
        | none =>
          have hnew : N.fresh (N.item t) (N.out t.key) seen =
              (N.freshTrails t (N.out t.key) seen).map N.item :=
            (map_item_freshTrails t (N.out t.key) seen).symm
          simp only [hnew, ← List.map_append, map_key_item, ih]
      · rw [if_neg hl, if_neg hl, ih]

/-! ## The last edge -/

/-- **A search ends with the first edge that hits**, in the order of the search. -/
theorem getLast?_trailSearch (bound : ℤ) (hit : ε → Bool) (fuel : ℕ) (queue : List (Trail κ ε))
    (seen : List κ) : (N.trailSearch bound hit fuel queue seen).bind (fun t => t.edges.getLast?) =
      (N.order bound fuel queue seen).find? hit := by
  induction fuel generalizing queue seen with
  | zero => cases queue <;> rfl
  | succ fuel ih =>
    cases queue with
    | nil => rfl
    | cons t queue =>
      rw [trailSearch, order]
      by_cases hl : (N.item t).live bound = true
      · rw [if_pos hl, if_pos hl, List.find?_append]
        cases hf : (N.out t.key).find? hit with
        | some e => simp [follow]
        | none => simpa using ih _ _
      · rw [if_neg hl, if_neg hl, ih]

/-! ## The edges on the way -/

/-- An edge of `es` with no edge before it for which `same` holds. -/
def FirstOf (same : ε → ε → Prop) (es : List ε) (e : ε) : Prop :=
  ∃ before after, es = before ++ e :: after ∧ ∀ x ∈ before, ¬ same e x

omit [DecidableEq κ] in
theorem firstOf_of_find? {same : ε → ε → Prop} {hit : ε → Bool} {es : List ε} {e : ε}
    (hf : es.find? hit = some e) (hs : ∀ x, same e x → hit x = true) : FirstOf same es e := by
  obtain ⟨-, before, after, rfl, hb⟩ := List.find?_eq_some_iff_append.1 hf
  refine ⟨before, after, rfl, fun x hx hsame => ?_⟩
  have := hb x hx
  rw [hs x hsame] at this
  cases this

omit [DecidableEq κ] in
/-- A first edge among the next ones, where none before them is like it. -/
theorem firstOf_append {same : ε → ε → Prop} {past es before after rest : List ε} {e : ε}
    (hes : es = before ++ e :: after) (hp : ∀ x ∈ past, ¬ same e x) (hb : ∀ x ∈ before, ¬ same e x) :
    FirstOf same (past ++ (es ++ rest)) e := by
  refine ⟨past ++ before, after ++ rest, by simp [hes], fun x hx => ?_⟩
  rcases List.mem_append.1 hx with hx | hx
  · exact hp x hx
  · exact hb x hx

theorem mem_freshTrails {t t' : Trail κ ε} {es : List ε} {seen : List κ}
    (h : t' ∈ N.freshTrails t es seen) : ∃ e before after, es = before ++ e :: after ∧
      t' = N.follow t e ∧ N.dst e ∉ seen ∧ ∀ x ∈ before, N.dst x ≠ N.dst e := by
  induction es generalizing seen with
  | nil => cases h
  | cons e es ih =>
    rw [freshTrails] at h
    split_ifs at h with hs
    · obtain ⟨e', before, after, rfl, ht, hn, hb⟩ := ih h
      refine ⟨e', e :: before, after, rfl, ht, hn, ?_⟩
      rintro x hx
      rcases List.mem_cons.1 hx with rfl | hx
      · exact fun he => hn (he ▸ hs)
      · exact hb x hx
    · rcases List.mem_cons.1 h with rfl | h
      · exact ⟨e, [], es, rfl, rfl, hs, by simp⟩
      · obtain ⟨e', before, after, rfl, ht, hn, hb⟩ := ih h
        rw [List.mem_append, not_or, List.mem_singleton] at hn
        refine ⟨e', e :: before, after, rfl, ht, hn.1, ?_⟩
        rintro x hx
        rcases List.mem_cons.1 hx with rfl | hx
        · exact fun he => hn.2 he.symm
        · exact hb x hx

/-- The ends of the edges that were looked at have been seen. -/
theorem mem_seen_freshTrails (t : Trail κ ε) {es : List ε} (seen : List κ) {e : ε} (he : e ∈ es) :
    N.dst e ∈ seen ++ (N.freshTrails t es seen).map Trail.key := by
  induction es generalizing seen with
  | nil => cases he
  | cons e' es ih =>
    rw [freshTrails]
    split_ifs with hs
    · rcases List.mem_cons.1 he with rfl | he
      · exact List.mem_append_left _ hs
      · exact ih seen he
    · rw [List.map_cons, List.append_cons]
      rcases List.mem_cons.1 he with rfl | he
      · simp [follow]
      · exact ih _ he

/-- What a search has kept: `past` was looked at, nothing in it hits, and the edges
    of the queue have `good`. -/
structure Kept (N : Net κ ε) (hit : ε → Bool) (good : ε → Prop) (past : List ε)
    (queue : List (Trail κ ε)) (seen : List κ) : Prop where
  seen : ∀ e ∈ past, N.dst e ∈ seen
  miss : ∀ e ∈ past, hit e = false
  good : ∀ t ∈ queue, ∀ e ∈ t.edges, good e

/-- **Every edge a search returns is a first one**: if the first edges among those
    looked at that leave the `closed` keys have `good`, so has every edge returned. -/
theorem trailSearch_first {bound : ℤ} {hit : ε → Bool} {good : ε → Prop} {same : ε → ε → Prop}
    {closed : List κ} (hsame : ∀ e x, same e x → N.dst x = N.dst e)
    (hhit : ∀ e x, hit e = true → same e x → hit x = true)
    (hopen : ∀ e, hit e = true → N.dst e ∉ closed) {fuel : ℕ} {past : List ε}
    {queue : List (Trail κ ε)} {seen : List κ} (hc : ∀ k ∈ closed, k ∈ seen)
    (hk : Kept N hit good past queue seen)
    (hfirst : ∀ e, FirstOf same (past ++ N.order bound fuel queue seen) e → N.dst e ∉ closed → good e)
    {t : Trail κ ε} (h : N.trailSearch bound hit fuel queue seen = some t) :
    ∀ e ∈ t.edges, good e := by
  induction fuel generalizing past queue seen with
  | zero => cases queue <;> cases h
  | succ fuel ih =>
    cases queue with
    | nil => cases h
    | cons t₀ queue =>
      rw [trailSearch] at h
      rw [order] at hfirst
      by_cases hl : (N.item t₀).live bound = true
      · rw [if_pos hl] at h hfirst
        dsimp only at hfirst
        have hgood₀ := hk.good t₀ (by simp)
        cases hf : (N.out t₀.key).find? hit with
        | some e =>
          rw [hf] at h
          obtain rfl := Option.some.inj h
          obtain ⟨hhe, before, after, hout, hb⟩ := List.find?_eq_some_iff_append.1 hf
          intro x hx
          rcases List.mem_append.1 hx with hx | hx
          · exact hgood₀ x hx
          · obtain rfl := List.mem_singleton.1 hx
            refine hfirst x (firstOf_append hout ?_ ?_) (hopen x hhe)
            · intro y hy hs
              have hmiss := hk.miss y hy
              rw [hhit x y hhe hs] at hmiss
              cases hmiss
            · intro y hy hs
              have hmiss := hb y hy
              rw [hhit x y hhe hs] at hmiss
              cases hmiss
        | none =>
          rw [hf] at h
          refine @ih (past ++ N.out t₀.key) _ _ (fun k hkc => List.mem_append_left _ (hc k hkc))
            ⟨?_, ?_, ?_⟩ (by simpa using hfirst) h
          · intro e he
            rcases List.mem_append.1 he with he | he
            · exact List.mem_append_left _ (hk.seen e he)
            · exact mem_seen_freshTrails t₀ seen he
          · intro e he
            rcases List.mem_append.1 he with he | he
            · exact hk.miss e he
            · exact Bool.eq_false_iff.2 (List.find?_eq_none.1 hf e he)
          · intro t' ht' e he
            rcases List.mem_append.1 ht' with ht' | ht'
            · exact hk.good t' (by simp [ht']) e he
            · obtain ⟨e', before, after, hout, rfl, hnew, hb⟩ := mem_freshTrails ht'
              rcases List.mem_append.1 he with he | he
              · exact hgood₀ e he
              · -- the edge that found a key is the first one to it
                obtain rfl := List.mem_singleton.1 he
                exact hfirst e (firstOf_append hout (fun y hy hs => hnew (hsame e y hs ▸ hk.seen y hy))
                  fun y hy hs => hb y hy (hsame e y hs)) fun hmem => hnew (hc _ hmem)
      · rw [if_neg hl] at h hfirst
        exact ih hc ⟨hk.seen, hk.miss, fun t' ht' => hk.good t' (by simp [ht'])⟩ hfirst h

/-- The edges a search returns are consecutive, and start at a root. -/
theorem trailSearch_route {bound : ℤ} {hit : ε → Bool} {fuel : ℕ} {queue : List (Trail κ ε)}
    {seen : List κ} (hq : ∀ t ∈ queue, N.Route t.start t.edges t.key) {t : Trail κ ε}
    (h : N.trailSearch bound hit fuel queue seen = some t) : N.Route t.start t.edges t.key := by
  have hfollow : ∀ t e, N.Route t.start t.edges t.key → e ∈ N.out t.key →
      N.Route (N.follow t e).start (N.follow t e).edges (N.follow t e).key := by
    intro t e ht he
    obtain ⟨hall, hsrc⟩ := mem_out.1 he
    exact route_append_singleton.2 ⟨hsrc ▸ ht, hall, rfl⟩
  induction fuel generalizing queue seen with
  | zero => cases queue <;> cases h
  | succ fuel ih =>
    cases queue with
    | nil => cases h
    | cons t₀ queue =>
      rw [trailSearch] at h
      have h₀ := hq t₀ (by simp)
      split_ifs at h
      · cases hf : (N.out t₀.key).find? hit with
        | some e =>
          rw [hf] at h
          obtain rfl := Option.some.inj h
          exact hfollow t₀ e h₀ (List.mem_of_find?_eq_some hf)
        | none =>
          rw [hf] at h
          refine ih (fun t' ht' => ?_) h
          rcases List.mem_append.1 ht' with ht' | ht'
          · exact hq t' (by simp [ht'])
          · obtain ⟨e, before, after, hout, rfl, -⟩ := mem_freshTrails ht'
            exact hfollow t₀ e h₀ (by rw [hout]; simp)
      · exact ih (fun t' ht' => hq t' (by simp [ht'])) h

/-- What a search returns ends with an edge that hits. -/
theorem trailSearch_hit {bound : ℤ} {hit : ε → Bool} {fuel : ℕ} {queue : List (Trail κ ε)}
    {seen : List κ} {t : Trail κ ε} (h : N.trailSearch bound hit fuel queue seen = some t) :
    ∃ e, hit e = true ∧ t.key = N.dst e ∧ e ∈ t.edges := by
  induction fuel generalizing queue seen with
  | zero => cases queue <;> cases h
  | succ fuel ih =>
    cases queue with
    | nil => cases h
    | cons t₀ queue =>
      rw [trailSearch] at h
      split_ifs at h
      · cases hf : (N.out t₀.key).find? hit with
        | some e =>
          rw [hf] at h
          obtain rfl := Option.some.inj h
          exact ⟨e, List.find?_some hf, rfl, by simp [follow]⟩
        | none =>
          rw [hf] at h
          exact ih h
      · exact ih h

end Net

end Walk
