/-
  Dictionaries that loops fill: one entry for every key, or a list of them.

  * `Dict.members_group`: a dictionary of lists, filled by `setdefault(k, []).append(e)`,
    holds for every key the elements with that key, in order;
  * `Dict.perm_keyed`: what a comprehension `{key(e): e for e in es}` keeps depends on the
    elements alone, where the keys tell them apart;
  * `insertionSort_congr`: a sorted list without repetitions is known by its elements.
-/
import Mathlib.Data.List.Dedup
import Mathlib.Data.List.Sort
import NthDao.Py.Dict

namespace Py

/-- A sorted list without repetitions is known by its elements. -/
theorem insertionSort_congr {α : Type} [LinearOrder α] {xs ys : List α} (hx : xs.Nodup)
    (hy : ys.Nodup) (h : ∀ a, a ∈ xs ↔ a ∈ ys) :
    xs.insertionSort (· ≤ ·) = ys.insertionSort (· ≤ ·) := by
  have hperm : xs.Perm ys := (List.perm_ext_iff_of_nodup hx hy).2 h
  have hsort : (xs.insertionSort (· ≤ ·)).Perm (ys.insertionSort (· ≤ ·)) :=
    (List.perm_insertionSort _ xs).trans (hperm.trans (List.perm_insertionSort _ ys).symm)
  exact List.Perm.eq_of_pairwise (fun a b _ _ hab hba => le_antisymm hab hba)
    (List.pairwise_insertionSort _ xs) (List.pairwise_insertionSort _ ys) hsort

namespace Dict

variable {κ α : Type} [DecidableEq κ]

/-! ## A list for every key -/

/-- `d.setdefault(key(e), []).append(e)` for each of the elements. -/
def group (key : α → κ) (es : List α) (d : Dict κ (List α)) : Dict κ (List α) :=
  es.foldl (fun d e => d.set (key e) (d.members (key e) ++ [e])) d

theorem members_set (d : Dict κ (List α)) (k l : κ) (v : List α) :
    (d.set k v).members l = if l = k then v else d.members l := by
  rw [members, get_set]
  split_ifs <;> rfl

theorem members_group (key : α → κ) (es : List α) (d : Dict κ (List α)) (k : κ) :
    (group key es d).members k = d.members k ++ es.filter fun e => key e = k := by
  induction es generalizing d with
  | nil => simp [group]
  | cons e es ih =>
    rw [group, List.foldl_cons]
    refine (ih _).trans ?_
    rw [members_set]
    by_cases hk : key e = k
    · simp [hk]
    · rw [if_neg (Ne.symm hk), List.filter_cons_of_neg (by simpa using hk)]

theorem keys_group (key : α → κ) (es : List α) (d : Dict κ (List α)) (k : κ) :
    k ∈ (group key es d).map Prod.fst ↔ k ∈ d.map Prod.fst ∨ ∃ e ∈ es, key e = k := by
  induction es generalizing d with
  | nil => simp [group]
  | cons e es ih =>
    rw [group, List.foldl_cons]
    refine (ih _).trans ?_
    rw [keys_set, List.exists_mem_cons_iff]
    split_ifs with hmem
    · constructor
      · rintro (h | h)
        · exact .inl h
        · exact .inr (.inr h)
      · rintro (h | rfl | h)
        · exact .inl h
        · exact .inl hmem
        · exact .inr h
    · rw [List.mem_append, List.mem_singleton, eq_comm, or_assoc]

theorem nodup_group (key : α → κ) (es : List α) {d : Dict κ (List α)}
    (hd : (d.map Prod.fst).Nodup) : ((group key es d).map Prod.fst).Nodup := by
  induction es generalizing d with
  | nil => exact hd
  | cons e es ih =>
    rw [group, List.foldl_cons]
    exact ih (nodup_set hd _ _)

/-! ## An element for every key -/

/-- `{key(e): e for e in es}`. -/
def keyed (key : α → κ) (es : List α) : Dict κ α := es.foldl (fun d e => d.set (key e) e) []

/-- The values are elements, under their keys, and every key of an element is there. -/
theorem keyed_spec (key : α → κ) (es : List α) : ((keyed key es).map Prod.fst).Nodup ∧
    (∀ p ∈ keyed key es, p.1 = key p.2 ∧ p.2 ∈ es) ∧
      ∀ e ∈ es, ∃ p ∈ keyed key es, p.1 = key e := by
  have hget : ∀ k, (keyed key es).get k = (es.reverse.find? fun e => key e == k).map id := by
    intro k
    have hfold := get_foldl_set es key id [] k
    rwa [show get ([] : Dict κ α) k = none from rfl, Option.or_none] at hfold
  have hnodup : ∀ (es : List α) (d : Dict κ α), (d.map Prod.fst).Nodup →
      ((es.foldl (fun d e => d.set (key e) e) d).map Prod.fst).Nodup := by
    intro es
    induction es with
    | nil => exact fun d hd => hd
    | cons e es ih => exact fun d hd => ih _ (nodup_set hd _ _)
  refine ⟨hnodup es [] List.nodup_nil, fun p hp => ?_, fun e he => ?_⟩
  · have hp' := get_of_mem (hnodup es [] List.nodup_nil) hp
    have hfound := (hget p.1).symm.trans hp'
    rw [Option.map_id, id] at hfound
    have hk := List.find?_some hfound
    exact ⟨(beq_iff_eq.1 hk).symm, List.mem_reverse.1 (List.mem_of_find?_eq_some hfound)⟩
  · cases hf : es.reverse.find? fun e' => key e' == key e with
    | none =>
      have hnone := List.find?_eq_none.1 hf e (List.mem_reverse.2 he)
      simp at hnone
    | some e' =>
      refine ⟨(key e, e'), mem_of_get ?_, rfl⟩
      rw [hget, hf]
      rfl

/-- What is kept is known by the elements, where the keys tell them apart. -/
theorem perm_keyed {key : α → κ} {xs ys : List α} (hinj : ∀ a ∈ xs, ∀ b ∈ xs, key a = key b → a = b)
    (h : ∀ a, a ∈ xs ↔ a ∈ ys) : ((keyed key xs).map Prod.snd).Perm ((keyed key ys).map Prod.snd) := by
  have hnodup : ∀ zs : List α, ((keyed key zs).map Prod.snd).Nodup := by
    intro zs
    obtain ⟨hn, hk, -⟩ := keyed_spec key zs
    refine List.Nodup.of_map key ?_
    have hkeys : ((keyed key zs).map Prod.snd).map key = (keyed key zs).map Prod.fst := by
      rw [List.map_map]
      exact List.map_congr_left fun p hp => (hk p hp).1.symm
    rwa [hkeys]
  have hmem : ∀ zs : List α, (∀ a ∈ zs, a ∈ xs) → ∀ a, a ∈ (keyed key zs).map Prod.snd ↔ a ∈ zs := by
    intro zs hsub a
    obtain ⟨-, hk, hall⟩ := keyed_spec key zs
    constructor
    · intro ha
      obtain ⟨p, hp, rfl⟩ := List.mem_map.1 ha
      exact (hk p hp).2
    · intro ha
      obtain ⟨p, hp, hkey⟩ := hall a ha
      obtain ⟨hpk, hpz⟩ := hk p hp
      refine List.mem_map.2 ⟨p, hp, ?_⟩
      exact hinj _ (hsub _ hpz) _ (hsub _ ha) (hpk ▸ hkey)
  refine (List.perm_ext_iff_of_nodup (hnodup xs) (hnodup ys)).2 fun a => ?_
  rw [hmem xs (fun _ ha => ha), hmem ys fun a ha => (h a).2 ha, h]

end Dict

end Py
