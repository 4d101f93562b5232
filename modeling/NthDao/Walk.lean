/-
  Breadth-first search with a budget of further hops.

  A `Net` is a directed multigraph whose edges each cap the hops that may still
  follow.  The search takes an item from a queue, looks at its edges in order,
  returns at the first one that hits, and queues every key not seen before with
  what is left of the budget.

  * `Net.search`: the queue and the set of seen keys, with fuel;
  * `Net.found`: the same finds layer by layer, without a target;
  * `Net.search_eq`: with fuel for every find, the search returns the answer of
    the first find that has one;
  * `Net.routed_found`: every find has a route from a root, and its budget is
    what the route leaves (`Net.le_left_iff`: in terms of the caps).
-/
import Mathlib.Data.List.Induction
import Mathlib.Data.List.Nodup
import Mathlib.Data.List.Perm.Subperm
import Mathlib.Data.Int.Cast.Basic
import Mathlib.Data.Int.Order.Basic

namespace Walk

/-- A directed multigraph, its edges in order. -/
structure Net (κ ε : Type) where
  all : List ε
  src : ε → κ
  dst : ε → κ
  /-- how many hops the edge covers, itself included -/
  cap : ε → ℤ

/-- An entry of the queue: a key, its depth, how many more hops may be taken
    from it, and the path that found it. -/
structure Item (κ : Type) where
  key : κ
  depth : ℕ
  allowed : ℤ
  path : List κ

variable {κ ε : Type} [DecidableEq κ]

/-- An item that is expanded. -/
def Item.live (bound : ℤ) (it : Item κ) : Bool := it.depth < bound && 0 < it.allowed

namespace Net

variable (N : Net κ ε)

/-- The edges that leave a key. -/
def out (k : κ) : List ε := N.all.filter fun e => N.src e == k

/-- The item at the end of an edge. -/
def next (it : Item κ) (e : ε) : Item κ where
  key := N.dst e
  depth := it.depth + 1
  allowed := min (it.allowed - 1) (N.cap e - 1)
  path := it.path ++ [N.dst e]

/-- The item a search starts at. -/
def root (bound : ℤ) (k : κ) : Item κ := ⟨k, 0, bound, [k]⟩

/-! ## The search -/

/-- The edges of one item: `.error` carries the path that is returned. -/
def scan (hit : ε → Bool) (it : Item κ) :
    List ε → List (Item κ) → List κ → Except (List κ) (List (Item κ) × List κ)
  | [], queue, seen => .ok (queue, seen)
  | e :: es, queue, seen =>
    if hit e then .error (it.path ++ [N.dst e])
    else if N.dst e ∈ seen then scan hit it es queue seen
    else scan hit it es (queue ++ [N.next it e]) (seen ++ [N.dst e])

/-- The loop over the queue. -/
def search (bound : ℤ) (hit : ε → Bool) : ℕ → List (Item κ) → List κ → Option (List κ)
  | 0, _, _ => none
  | _ + 1, [], _ => none
  | fuel + 1, it :: queue, seen =>
    if it.live bound then
      match N.scan hit it (N.out it.key) queue seen with
      | .error path => some path
      | .ok (queue, seen) => search bound hit fuel queue seen
    else search bound hit fuel queue seen

/-! ## The finds, layer by layer -/

/-- The keys that the edges of one item lead to first. -/
def fresh (it : Item κ) : List ε → List κ → List (Item κ)
  | [], _ => []
  | e :: es, seen =>
    if N.dst e ∈ seen then fresh it es seen
    else N.next it e :: fresh it es (seen ++ [N.dst e])

/-- The finds of one layer. -/
def finds (bound : ℤ) : List (Item κ) → List κ → List (Item κ)
  | [], _ => []
  | it :: its, seen =>
    let new := if it.live bound then N.fresh it (N.out it.key) seen else []
    new ++ finds bound its (seen ++ new.map Item.key)

/-- The finds of the next `n` layers. -/
def later (bound : ℤ) : ℕ → List (Item κ) → List κ → List (Item κ)
  | 0, _, _ => []
  | n + 1, its, seen =>
    let new := N.finds bound its seen
    new ++ later bound n new (seen ++ new.map Item.key)

/-- Every key that can be found from the roots, in the order of the search: each
    with its first route. -/
def found (bound : ℤ) (roots : List κ) : List (Item κ) :=
  roots.map (root bound) ++ N.later bound bound.toNat (roots.map (root bound)) roots

/-- What the search returns at an item. -/
def answer (bound : ℤ) (hit : ε → Bool) (it : Item κ) : Option (List κ) :=
  if it.live bound then ((N.out it.key).find? hit).map fun e => it.path ++ [N.dst e] else none

/-- The item is expanded and one of its edges hits. -/
def hits (bound : ℤ) (hit : ε → Bool) (it : Item κ) : Bool :=
  it.live bound && (N.out it.key).any hit

variable {N}

theorem scan_eq (hit : ε → Bool) (it : Item κ) (es : List ε) (queue : List (Item κ))
    (seen : List κ) : N.scan hit it es queue seen =
      match es.find? hit with
      | some e => .error (it.path ++ [N.dst e])
      | none => .ok (queue ++ N.fresh it es seen, seen ++ (N.fresh it es seen).map Item.key) := by
  induction es generalizing queue seen with
  | nil => simp [scan, fresh]
  | cons e es ih =>
    rw [scan, fresh]
    by_cases hh : hit e = true
    · simp [hh]
    · rw [if_neg hh, List.find?_cons_of_neg hh]
      by_cases hs : N.dst e ∈ seen
      · rw [if_pos hs, if_pos hs, ih]
      · rw [if_neg hs, if_neg hs, ih]
        simp [next]

/-- The search works through one layer and queues the next. -/
theorem search_layer (bound : ℤ) (hit : ε → Bool) {fuel : ℕ} (its : List (Item κ))
    (queue : List (Item κ)) (seen : List κ) (h : its.length ≤ fuel) :
    N.search bound hit fuel (its ++ queue) seen =
      (its.findSome? (N.answer bound hit)).or
        (N.search bound hit (fuel - its.length) (queue ++ N.finds bound its seen)
          (seen ++ (N.finds bound its seen).map Item.key)) := by
  induction its generalizing fuel queue seen with
  | nil => simp [finds]
  | cons it its ih =>
    obtain ⟨n, rfl⟩ : ∃ n, fuel = n + 1 := ⟨fuel - 1, by simp at h; omega⟩
    have hn : its.length ≤ n := by simpa using h
    rw [List.cons_append, search, finds, List.findSome?_cons, answer]
    by_cases hl : it.live bound = true
    · simp only [hl, if_true, scan_eq]
      cases hf : (N.out it.key).find? hit with
      | some e => rfl
      | none =>
        simp only [Option.map_none]
        rw [List.append_assoc, ih _ _ hn]
        simp
    · simp only [hl]
      rw [if_neg Bool.false_ne_true, ih _ _ hn]
      simp

theorem finds_of_dead {bound : ℤ} {its : List (Item κ)} (seen : List κ)
    (h : ∀ it ∈ its, it.live bound = false) : N.finds bound its seen = [] := by
  induction its with
  | nil => rfl
  | cons it its ih =>
    rw [finds, h it (by simp)]
    simpa using ih fun x hx => h x (by simp [hx])

theorem mem_fresh {it x : Item κ} {es : List ε} {seen : List κ} (h : x ∈ N.fresh it es seen) :
    ∃ e ∈ es, x = N.next it e := by
  induction es generalizing seen with
  | nil => cases h
  | cons e es ih =>
    rw [fresh] at h
    split_ifs at h
    · obtain ⟨e', he', hx⟩ := ih h
      exact ⟨e', by simp [he'], hx⟩
    · rcases List.mem_cons.1 h with rfl | h
      · exact ⟨e, by simp, rfl⟩
      · obtain ⟨e', he', hx⟩ := ih h
        exact ⟨e', by simp [he'], hx⟩

theorem mem_finds {bound : ℤ} {x : Item κ} {its : List (Item κ)} {seen : List κ}
    (h : x ∈ N.finds bound its seen) :
    ∃ it ∈ its, it.live bound = true ∧ ∃ e ∈ N.out it.key, x = N.next it e := by
  induction its generalizing seen with
  | nil => cases h
  | cons it its ih =>
    rw [finds] at h
    rcases List.mem_append.1 h with h | h
    · split_ifs at h with hl
      · exact ⟨it, by simp, hl, mem_fresh h⟩
      · cases h
    · obtain ⟨it', hit', hx⟩ := ih h
      exact ⟨it', by simp [hit'], hx⟩

/-- Layer after layer, the search returns the answer of the first find. -/
theorem search_later (bound : ℤ) (hit : ε → Bool) {fuel n : ℕ} {its : List (Item κ)}
    {seen : List κ} (hd : ∀ it ∈ its, bound ≤ it.depth + n)
    (hf : (its ++ N.later bound n its seen).length ≤ fuel) :
    N.search bound hit fuel its seen =
      (its ++ N.later bound n its seen).findSome? (N.answer bound hit) := by
  induction n generalizing fuel its seen with
  | zero =>
    have hdead : N.finds bound its seen = [] := finds_of_dead seen fun it hi => by
      have := hd it hi
      simp only [Item.live, Bool.and_eq_false_iff, decide_eq_false_iff_not]
      omega
    have hs := search_layer (N := N) bound hit its [] seen (by simpa [later] using hf)
    rw [List.append_nil, hdead] at hs
    rw [hs, later, List.append_nil]
    cases fuel - its.length <;> simp [search]
  | succ n ih =>
    have hlen : its.length ≤ fuel := le_trans (by simp) hf
    have hs := search_layer (N := N) bound hit its [] seen hlen
    rw [List.append_nil, List.nil_append] at hs
    rw [hs, later, List.findSome?_append, ih]
    · intro x hx
      obtain ⟨it, hi, -, e, -, rfl⟩ := mem_finds hx
      have := hd it hi
      simp only [next]
      omega
    · rw [later, List.length_append] at hf
      omega

/-! ## Fuel for every find -/

/-- Items found for the first time, each at the end of an edge. -/
structure Fresh (N : Net κ ε) (seen : List κ) (new : List (Item κ)) : Prop where
  nodup : (new.map Item.key).Nodup
  unseen : ∀ k ∈ new.map Item.key, k ∉ seen
  edge : ∀ k ∈ new.map Item.key, k ∈ N.all.map N.dst

omit [DecidableEq κ] in
theorem Fresh.nil {seen : List κ} : N.Fresh seen [] :=
  ⟨List.nodup_nil, by simp, by simp⟩

omit [DecidableEq κ] in
theorem Fresh.append {seen : List κ} {xs ys : List (Item κ)} (hx : N.Fresh seen xs)
    (hy : N.Fresh (seen ++ xs.map Item.key) ys) : N.Fresh seen (xs ++ ys) := by
  refine ⟨?_, ?_, ?_⟩
  · rw [List.map_append, List.nodup_append]
    refine ⟨hx.nodup, hy.nodup, ?_⟩
    rintro a ha b hb rfl
    exact hy.unseen a hb (List.mem_append_right _ ha)
  · intro k hk
    rw [List.map_append, List.mem_append] at hk
    rcases hk with hk | hk
    · exact hx.unseen k hk
    · exact fun hs => hy.unseen k hk (List.mem_append_left _ hs)
  · intro k hk
    rw [List.map_append, List.mem_append] at hk
    exact hk.elim (hx.edge k) (hy.edge k)

theorem fresh_fresh (it : Item κ) {es : List ε} (hes : ∀ e ∈ es, e ∈ N.all) (seen : List κ) :
    N.Fresh seen (N.fresh it es seen) := by
  induction es generalizing seen with
  | nil => exact .nil
  | cons e es ih =>
    have hes' : ∀ e ∈ es, e ∈ N.all := fun x hx => hes x (by simp [hx])
    rw [fresh]
    split_ifs with hs
    · exact ih hes' seen
    · have hone : N.Fresh seen [N.next it e] := by
        refine ⟨List.nodup_singleton _, ?_, ?_⟩
        · simpa [next] using hs
        · simpa [next] using ⟨e, hes e (by simp), rfl⟩
      exact hone.append (ih hes' _)

theorem fresh_finds (bound : ℤ) (its : List (Item κ)) (seen : List κ) :
    N.Fresh seen (N.finds bound its seen) := by
  induction its generalizing seen with
  | nil => exact .nil
  | cons it its ih =>
    rw [finds]
    refine Fresh.append ?_ (ih _)
    split_ifs
    · exact fresh_fresh it (fun e he => (List.mem_filter.1 he).1) seen
    · exact .nil

theorem fresh_later (bound : ℤ) (n : ℕ) (its : List (Item κ)) (seen : List κ) :
    N.Fresh seen (N.later bound n its seen) := by
  induction n generalizing its seen with
  | zero => exact .nil
  | succ n ih => exact (fresh_finds bound its seen).append (ih _ _)

/-- There are no more finds than roots and edges. -/
theorem length_found_le (bound : ℤ) (roots : List κ) :
    (N.found bound roots).length ≤ roots.length + N.all.length := by
  have hf := fresh_later (N := N) bound bound.toNat (roots.map (root bound)) roots
  have hle := (hf.nodup.subperm hf.edge).length_le
  rw [List.length_map, List.length_map] at hle
  rw [found, List.length_append, List.length_map]
  omega

/-- **The search returns the answer of the first find that has one.** -/
theorem search_eq (bound : ℤ) (hit : ε → Bool) (roots : List κ) {fuel : ℕ}
    (h : roots.length + N.all.length ≤ fuel) :
    N.search bound hit fuel (roots.map (root bound)) roots =
      (N.found bound roots).findSome? (N.answer bound hit) := by
  refine search_later bound hit ?_ (le_trans (length_found_le bound roots) h)
  intro it hi
  obtain ⟨k, -, rfl⟩ := List.mem_map.1 hi
  simp only [root]
  omega

/-- The first find with an edge that hits gives the path, where these edges all
    end at `k`. -/
theorem findSome?_answer {bound : ℤ} {hit : ε → Bool} {k : κ}
    (hk : ∀ e, hit e = true → N.dst e = k) (its : List (Item κ)) :
    its.findSome? (N.answer bound hit) =
      (its.find? (N.hits bound hit)).map fun it => it.path ++ [k] := by
  induction its with
  | nil => rfl
  | cons it its ih =>
    rw [List.findSome?_cons, List.find?_cons, answer, hits]
    by_cases hl : it.live bound = true
    · cases hf : (N.out it.key).find? hit with
      | some e =>
        have he : hit e = true := List.find?_some hf
        have hany : (N.out it.key).any hit = true :=
          List.any_eq_true.2 ⟨e, List.mem_of_find?_eq_some hf, he⟩
        simp [hl, hany, hk e he]
      | none =>
        have hany : (N.out it.key).any hit = false := by
          rw [List.any_eq_false]
          exact List.find?_eq_none.1 hf
        simp [hany, ih]
    · simp [hl, ih]

/-! ## Routes and their budget -/

variable (N)

/-- The edges `es` lead from `r` to `k`. -/
def Route (r : κ) : List ε → κ → Prop
  | [], k => k = r
  | e :: es, k => e ∈ N.all ∧ N.src e = r ∧ Route (N.dst e) es k

/-- The hops that may still be taken after a route. -/
def left (bound : ℤ) (es : List ε) : ℤ := es.foldl (fun a e => min (a - 1) (N.cap e - 1)) bound

/-- An item with the route that found it. -/
def Routed (bound : ℤ) (roots : List κ) (it : Item κ) : Prop :=
  ∃ r ∈ roots, ∃ es, N.Route r es it.key ∧ it.path = r :: es.map N.dst ∧
    it.allowed = N.left bound es ∧ it.depth = es.length

variable {N}

theorem mem_out {k : κ} {e : ε} : e ∈ N.out k ↔ e ∈ N.all ∧ N.src e = k := by
  simp [out, List.mem_filter]

omit [DecidableEq κ] in
theorem route_append_singleton {r k : κ} {es : List ε} {e : ε} :
    N.Route r (es ++ [e]) k ↔ N.Route r es (N.src e) ∧ e ∈ N.all ∧ k = N.dst e := by
  induction es generalizing r with
  | nil => simp only [List.nil_append, Route]; tauto
  | cons e' es ih => simp only [List.cons_append, Route, ih]; tauto

omit [DecidableEq κ] in
/-- A route ends at its last key. -/
theorem Route.getLast? {r k : κ} {es : List ε} (h : N.Route r es k) :
    (r :: es.map N.dst).getLast? = some k := by
  induction es generalizing r with
  | nil => rw [h]; rfl
  | cons e es ih =>
    rw [List.map_cons, List.getLast?_cons_cons]
    exact ih h.2.2

omit [DecidableEq κ] in
theorem left_append_singleton (bound : ℤ) (es : List ε) (e : ε) :
    N.left bound (es ++ [e]) = min (N.left bound es - 1) (N.cap e - 1) := by
  simp [left]

omit [DecidableEq κ] in
/-- `m` hops are left after a route iff the bound and the cap of every edge
    cover the rest of the route and `m` more. -/
theorem le_left_iff (bound : ℤ) (es : List ε) (m : ℤ) : m ≤ N.left bound es ↔
    es.length + m ≤ bound ∧ ∀ i (h : i < es.length), es.length - i + m ≤ N.cap es[i] := by
  induction es using List.reverseRecOn generalizing m with
  | nil => simp [left]
  | append_singleton es e ih =>
    have hsplit : m ≤ N.left bound (es ++ [e]) ↔ m + 1 ≤ N.left bound es ∧ m + 1 ≤ N.cap e := by
      rw [left_append_singleton]
      omega
    rw [hsplit, ih]
    simp only [List.length_append, List.length_singleton, Int.natCast_add, Int.natCast_one]
    constructor
    · rintro ⟨⟨hb, hc⟩, he⟩
      refine ⟨by omega, fun i hi => ?_⟩
      rcases Nat.lt_or_ge i es.length with hlt | hge
      · have := hc i hlt
        rw [List.getElem_append_left hlt]
        omega
      · obtain rfl : i = es.length := by omega
        rw [List.getElem_concat_length rfl]
        omega
    · rintro ⟨hb, hc⟩
      refine ⟨⟨by omega, fun i hi => ?_⟩, ?_⟩
      · have := hc i (by omega)
        rw [List.getElem_append_left hi] at this
        omega
      · have := hc es.length (by omega)
        rw [List.getElem_concat_length rfl] at this
        omega

theorem Routed.next {bound : ℤ} {roots : List κ} {it : Item κ} (h : N.Routed bound roots it)
    {e : ε} (he : e ∈ N.out it.key) : N.Routed bound roots (N.next it e) := by
  obtain ⟨r, hr, es, hroute, hpath, hleft, hdepth⟩ := h
  obtain ⟨hall, hsrc⟩ := mem_out.1 he
  refine ⟨r, hr, es ++ [e], route_append_singleton.2 ⟨hsrc ▸ hroute, hall, rfl⟩, ?_, ?_, ?_⟩
  · simp [Net.next, hpath]
  · rw [left_append_singleton, ← hleft, Net.next]
  · simp [Net.next, hdepth]

theorem routed_later {bound : ℤ} {roots : List κ} {n : ℕ} {its : List (Item κ)} {seen : List κ}
    (h : ∀ it ∈ its, N.Routed bound roots it) :
    ∀ it ∈ N.later bound n its seen, N.Routed bound roots it := by
  induction n generalizing its seen with
  | zero => simp [later]
  | succ n ih =>
    have hnew : ∀ x ∈ N.finds bound its seen, N.Routed bound roots x := by
      intro x hx
      obtain ⟨it, hi, -, e, he, rfl⟩ := mem_finds hx
      exact (h it hi).next he
    intro x hx
    rw [later] at hx
    rcases List.mem_append.1 hx with hx | hx
    · exact hnew x hx
    · exact ih hnew x hx

/-- Every find has a route from a root, whose budget it carries. -/
theorem routed_found {bound : ℤ} {roots : List κ} {it : Item κ} (h : it ∈ N.found bound roots) :
    N.Routed bound roots it := by
  have hroots : ∀ it ∈ roots.map (root bound), N.Routed bound roots it := by
    intro x hx
    obtain ⟨r, hr, rfl⟩ := List.mem_map.1 hx
    exact ⟨r, hr, [], rfl, rfl, rfl, rfl⟩
  rcases List.mem_append.1 h with h | h
  · exact hroots it h
  · exact routed_later hroots it h

omit [DecidableEq κ] in
/-- A routed item is expanded iff its route leaves a hop. -/
theorem live_iff {bound : ℤ} {it : Item κ} {es : List ε} (ha : it.allowed = N.left bound es)
    (hd : it.depth = es.length) : it.live bound = true ↔ 1 ≤ N.left bound es := by
  rw [Item.live, Bool.and_eq_true, decide_eq_true_eq, decide_eq_true_eq, ha, hd]
  constructor
  · intro h
    exact h.2
  · intro h
    have := ((le_left_iff bound es 1).1 h).1
    exact ⟨by omega, h⟩

end Net

end Walk
