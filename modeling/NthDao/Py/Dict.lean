/-
  Dictionaries in the order of insertion.

  * `Dict.get`, `Dict.set`, `Dict.pop`: a key keeps its place when its value is
    replaced, and a new one goes last;
  * `Dict.get_map`, `Dict.pop_map`, `Dict.set_map`: the dictionary of a list of
    entries with distinct keys;
  * `Dict.sum_set`: a sum over the items changes by the new item less the old one.
-/
import Mathlib.Algebra.BigOperators.Group.List.Basic
import Mathlib.Data.List.Nodup
import Mathlib.Tactic.Abel

namespace Py

/-- `dict`: a list of items with distinct keys. -/
abbrev Dict (κ ν : Type) := List (κ × ν)

namespace Dict

variable {κ ν α : Type} [DecidableEq κ]

/-- `d.get(k)`. -/
def get (d : Dict κ ν) (k : κ) : Option ν := (d.find? fun p => p.1 == k).map Prod.snd

/-- `k in d`. -/
def has (d : Dict κ ν) (k : κ) : Bool := d.any fun p => p.1 == k

/-- `d[k] = v`. -/
def set (d : Dict κ ν) (k : κ) (v : ν) : Dict κ ν :=
  if d.has k then d.map fun p => if p.1 == k then (k, v) else p else d ++ [(k, v)]

/-- `d.pop(k, None)`. -/
def pop (d : Dict κ ν) (k : κ) : Dict κ ν := d.filter fun p => p.1 != k

theorem has_iff {d : Dict κ ν} {k : κ} : d.has k = true ↔ k ∈ d.map Prod.fst := by
  rw [has, List.any_eq_true, List.mem_map]
  constructor
  · rintro ⟨p, hp, hk⟩
    exact ⟨p, hp, by simpa using hk⟩
  · rintro ⟨p, hp, rfl⟩
    exact ⟨p, hp, by simp⟩

theorem has_eq_false {d : Dict κ ν} {k : κ} : d.has k = false ↔ k ∉ d.map Prod.fst := by
  rw [← has_iff, Bool.not_eq_true]

theorem get_eq_none {d : Dict κ ν} {k : κ} : d.get k = none ↔ k ∉ d.map Prod.fst := by
  rw [get, Option.map_eq_none_iff, List.find?_eq_none, List.mem_map]
  constructor
  · rintro h ⟨p, hp, rfl⟩
    exact h p hp (by simp)
  · rintro h p hp hk
    exact h ⟨p, hp, by simpa using hk⟩

theorem get_isSome {d : Dict κ ν} {k : κ} : (d.get k).isSome = d.has k := by
  rw [Bool.eq_iff_iff, has_iff, Option.isSome_iff_ne_none, ne_eq, get_eq_none, not_not]

theorem mem_of_get {d : Dict κ ν} {k : κ} {v : ν} (h : d.get k = some v) : (k, v) ∈ d := by
  obtain ⟨⟨k', v'⟩, hp, rfl⟩ := Option.map_eq_some_iff.1 h
  have hk : k' = k := by simpa using List.find?_some hp
  exact hk ▸ List.mem_of_find?_eq_some hp

theorem get_of_mem {d : Dict κ ν} (hn : (d.map Prod.fst).Nodup) {k : κ} {v : ν} (h : (k, v) ∈ d) :
    d.get k = some v := by
  induction d with
  | nil => cases h
  | cons p d ih =>
    obtain ⟨k', v'⟩ := p
    rw [List.map_cons, List.nodup_cons] at hn
    rcases List.mem_cons.1 h with h | h
    · cases h
      simp [get]
    · have hmem : k ∈ d.map Prod.fst := List.mem_map.2 ⟨(k, v), h, rfl⟩
      have hk : k' ≠ k := fun he => hn.1 (he ▸ hmem)
      have := ih hn.2 h
      unfold get at this ⊢
      rw [List.find?_cons_of_neg (by simpa using hk), this]

theorem set_of_not_mem {d : Dict κ ν} {k : κ} (h : k ∉ d.map Prod.fst) (v : ν) :
    d.set k v = d ++ [(k, v)] := by
  rw [set, has_eq_false.2 h]
  rfl

theorem get_cons (p : κ × ν) (d : Dict κ ν) (l : κ) :
    get (p :: d) l = if p.1 = l then some p.2 else get d l := by
  by_cases hp : p.1 = l <;> simp [get, hp]

theorem get_append (d e : Dict κ ν) (k : κ) : get (d ++ e) k = (get d k).or (get e k) := by
  rw [get, List.find?_append]
  cases h : d.find? fun p => p.1 == k <;> simp [get, h]

theorem get_map_replace (d : Dict κ ν) (k l : κ) (v : ν) :
    get (d.map fun p => if p.1 == k then (k, v) else p) l =
      if l = k then (get d k).map fun _ => v else get d l := by
  induction d with
  | nil => simp [get]
  | cons p d ih =>
    rw [List.map_cons, get_cons, ih, get_cons, get_cons]
    by_cases hp : p.1 = k
    · subst hp
      by_cases hl : l = p.1
      · simp [hl]
      · simp [hl, Ne.symm hl]
    · by_cases hl : l = k
      · simp [hl, hp]
      · simp [hl, hp]

/-- `d[k] = v` changes the value of `k` only. -/
theorem get_set (d : Dict κ ν) (k l : κ) (v : ν) :
    get (d.set k v) l = if l = k then some v else get d l := by
  by_cases hk : k ∈ d.map Prod.fst
  · rw [set, has_iff.2 hk, if_pos rfl, get_map_replace]
    obtain ⟨w, hw⟩ : ∃ w, get d k = some w := by
      rw [← Option.isSome_iff_exists, get_isSome, has_iff]
      exact hk
    simp [hw]
  · rw [set_of_not_mem hk, get_append, get_cons]
    by_cases hl : l = k
    · rw [if_pos hl, if_pos hl.symm, hl, get_eq_none.2 hk]
      rfl
    · rw [if_neg hl, if_neg (Ne.symm hl)]
      simp [get]

/-- `d.pop(k)` forgets `k` only. -/
theorem get_pop (d : Dict κ ν) (k l : κ) : (d.pop k).get l = if l = k then none else d.get l := by
  by_cases hl : l = k
  · rw [if_pos hl, get_eq_none, hl, pop, List.mem_map]
    rintro ⟨p, hp, hpk⟩
    simp [hpk] at hp
  · rw [if_neg hl, get, get, pop, List.find?_filter]
    congr 2
    funext p
    by_cases hp : p.1 = l
    · simp [hp, hl]
    · simp [hp]

/-- The value of a key outlasts a filter that it passes. -/
theorem get_filter_of {d : Dict κ ν} {k : κ} {v : ν} (h : d.get k = some v) {q : κ × ν → Bool}
    (hq : ∀ l, q (l, v) = true) : get (d.filter q) k = some v := by
  induction d with
  | nil => cases h
  | cons p d ih =>
    rw [get_cons] at h
    by_cases hp : p.1 = k
    · rw [if_pos hp, Option.some.injEq] at h
      obtain ⟨l, u⟩ := p
      cases h
      rw [List.filter_cons_of_pos (hq l), get_cons, if_pos hp]
    · rw [if_neg hp] at h
      by_cases hqp : q p = true
      · rw [List.filter_cons_of_pos hqp, get_cons, if_neg hp]
        exact ih h
      · rw [List.filter_cons_of_neg hqp]
        exact ih h

theorem mem_set {d : Dict κ ν} {k : κ} {v : ν} {p : κ × ν} (h : p ∈ d.set k v) :
    p ∈ d ∨ p = (k, v) := by
  unfold set at h
  split_ifs at h
  · obtain ⟨q, hq, rfl⟩ := List.mem_map.1 h
    split_ifs
    · exact .inr rfl
    · exact .inl hq
  · simpa using h

theorem pop_of_not_mem {d : Dict κ ν} {k : κ} (h : k ∉ d.map Prod.fst) : d.pop k = d := by
  rw [pop, List.filter_eq_self]
  intro p hp
  rw [bne_iff_ne]
  rintro rfl
  exact h (List.mem_map_of_mem hp)

theorem pop_set (d : Dict κ ν) (k : κ) (v : ν) : (d.set k v).pop k = d.pop k := by
  have hmap : ∀ e : Dict κ ν, pop (e.map fun p => if p.1 == k then (k, v) else p) k = pop e k := by
    intro e
    induction e with
    | nil => rfl
    | cons p e ih =>
      simp only [pop, List.map_cons, List.filter_cons, bne_iff_ne, beq_iff_eq] at ih ⊢
      by_cases hp : p.1 = k
      · simp only [hp, if_true, ne_eq, not_true_eq_false, if_false, ih]
      · simp only [hp, if_false, ne_eq, not_false_eq_true, if_true, ih]
  rw [set]
  split_ifs with h
  · exact hmap d
  · simp [pop]

theorem pop_append (d e : Dict κ ν) (k : κ) : pop (d ++ e) k = pop d k ++ pop e k :=
  List.filter_append ..

/-! ## Sets as values -/

/-- `d.get(k, set())`. -/
def members (d : Dict κ (List α)) (k : κ) : List α := (d.get k).getD []

/-- `d.setdefault(k, set()).add(a)`. -/
def addTo [DecidableEq α] (d : Dict κ (List α)) (k : κ) (a : α) : Dict κ (List α) :=
  d.set k (if a ∈ d.members k then d.members k else d.members k ++ [a])

theorem members_addTo [DecidableEq α] (d : Dict κ (List α)) (k l : κ) (a : α) :
    (d.addTo k a).members l = if l = k then
      (if a ∈ d.members k then d.members k else d.members k ++ [a]) else d.members l := by
  rw [addTo, members, get_set]
  by_cases hl : l = k
  · rw [if_pos hl, if_pos hl, Option.getD_some]
  · rw [if_neg hl, if_neg hl]
    rfl

theorem mem_members_addTo [DecidableEq α] {d : Dict κ (List α)} {k l : κ} {a b : α} :
    b ∈ (d.addTo k a).members l ↔ b ∈ d.members l ∨ (l = k ∧ b = a) := by
  rw [members_addTo]
  by_cases hl : l = k
  · subst hl
    rw [if_pos rfl]
    split_ifs with ha
    · constructor
      · exact .inl
      · rintro (hb | ⟨-, rfl⟩)
        · exact hb
        · exact ha
    · simp
  · simp [hl]

/-- Items set one after the other: the last one of a key counts. -/
theorem get_foldl_set (es : List α) (f : α → κ) (g : α → ν) (d : Dict κ ν) (k : κ) :
    get (es.foldl (fun d e => d.set (f e) (g e)) d) k =
      ((es.reverse.find? fun e => f e == k).map g).or (get d k) := by
  induction es generalizing d with
  | nil => simp
  | cons e es ih =>
    rw [List.foldl_cons, ih, List.reverse_cons, List.find?_append, get_set]
    cases hf : es.reverse.find? fun e => f e == k with
    | some x => simp
    | none =>
      by_cases he : f e = k
      · simp [he]
      · have he' : ¬ k = f e := fun h => he h.symm
        simp [he, he']

/-! ## Lists of entries -/

theorem get_map (es : List α) (f : α → κ) (g : α → ν) (k : κ) :
    get (es.map fun e => (f e, g e)) k = (es.find? fun e => f e == k).map g := by
  rw [get, List.find?_map, Option.map_map]
  rfl

theorem has_map (es : List α) (f : α → κ) (g : α → ν) (k : κ) :
    has (es.map fun e => (f e, g e)) k = es.any fun e => f e == k := by
  rw [has, List.any_map]
  rfl

theorem pop_map (es : List α) (f : α → κ) (g : α → ν) (k : κ) :
    pop (es.map fun e => (f e, g e)) k = (es.filter fun e => f e != k).map fun e => (f e, g e) := by
  rw [pop, List.filter_map]
  rfl

/-- The same for a test that tells the key from the others of the list. -/
theorem pop_map_of (es : List α) (f : α → κ) (g : α → ν) (k : κ) {q : α → Bool}
    (hq : ∀ e ∈ es, f e = k ↔ q e = false) :
    pop (es.map fun e => (f e, g e)) k = (es.filter q).map fun e => (f e, g e) := by
  rw [pop_map]
  congr 1
  refine List.filter_congr fun e he => ?_
  rw [Bool.eq_iff_iff, bne_iff_ne, ne_eq, hq e he, Bool.not_eq_false]

/-! ## Sums -/

theorem keys_set (d : Dict κ ν) (k : κ) (v : ν) :
    (d.set k v).map Prod.fst =
      if k ∈ d.map Prod.fst then d.map Prod.fst else d.map Prod.fst ++ [k] := by
  by_cases hk : k ∈ d.map Prod.fst
  · rw [if_pos hk, set, has_iff.2 hk, if_pos rfl, List.map_map]
    refine List.map_congr_left fun p _ => ?_
    by_cases hp : p.1 = k
    · simp [hp]
    · simp [hp]
  · rw [if_neg hk, set_of_not_mem hk, List.map_append]
    rfl

theorem nodup_set {d : Dict κ ν} (hn : (d.map Prod.fst).Nodup) (k : κ) (v : ν) :
    ((d.set k v).map Prod.fst).Nodup := by
  rw [keys_set]
  split_ifs with hk
  · exact hn
  · exact List.nodup_append.2 ⟨hn, List.nodup_singleton k, by
      rintro a ha b hb rfl
      exact hk (List.mem_singleton.1 hb ▸ ha)⟩

theorem set_set (d : Dict κ ν) (k : κ) (v w : ν) : (d.set k v).set k w = d.set k w := by
  have hk : (d.set k v).has k = true := by
    rw [has_iff, keys_set]
    split_ifs with h
    · exact h
    · simp
  rw [set, if_pos hk, set, set]
  split_ifs with h
  · rw [List.map_map]
    refine List.map_congr_left fun p _ => ?_
    by_cases hp : p.1 = k
    · simp [hp]
    · simp [hp]
  · rw [List.map_append]
    congr 1
    · conv_rhs => rw [← List.map_id d]
      refine List.map_congr_left fun p hp => ?_
      have hne : p.1 ≠ k := fun he => h (has_iff.2 (List.mem_map.2 ⟨p, hp, he⟩))
      simp [hne]
    · simp

/-- A sum over the items changes by the new item less the old one. -/
theorem sum_set {M : Type} [AddCommGroup M] (f : κ × ν → M) {d : Dict κ ν}
    (hn : (d.map Prod.fst).Nodup) (k : κ) (v : ν) :
    ((d.set k v).map f).sum =
      (d.map f).sum - ((d.get k).map fun u => f (k, u)).getD 0 + f (k, v) := by
  by_cases hk : k ∈ d.map Prod.fst
  · rw [set, has_iff.2 hk, if_pos rfl]
    induction d with
    | nil => cases hk
    | cons p d ih =>
      obtain ⟨l, u⟩ := p
      rw [List.map_cons, List.nodup_cons] at hn
      by_cases hl : l = k
      · subst hl
        have hd : (d.map fun p => if p.1 == l then (l, v) else p) = d := by
          refine (List.map_congr_left fun p hp => ?_).trans (List.map_id d)
          have hmem : p.1 ∈ d.map Prod.fst := List.mem_map_of_mem hp
          have hne : p.1 ≠ l := fun he => hn.1 (he ▸ hmem)
          simp [hne]
        rw [List.map_cons, hd, get_cons, if_pos rfl]
        simp only [beq_self_eq_true, if_true, List.map_cons, List.sum_cons, Option.map_some,
          Option.getD_some]
        abel
      · have hmem : k ∈ d.map Prod.fst := by
          rcases List.mem_cons.1 hk with he | hk
          · exact absurd he.symm hl
          · exact hk
        rw [List.map_cons, List.map_cons, List.sum_cons, ih hn.2 hmem, get_cons, if_neg hl]
        simp only [beq_iff_eq, hl, if_false, List.map_cons, List.sum_cons]
        abel
  · rw [set_of_not_mem hk, get_eq_none.2 hk, List.map_append, List.sum_append]
    simp

end Dict

end Py
