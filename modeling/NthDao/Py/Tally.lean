/-
  Tallies of a dictionary whose keys name an owner.

  * `ofOwner d o`: the items of an owner;
  * `total f d`, `tally f d o`: the sum of a measure over all items, and over those
    of an owner;
  * `tally_set`, `tally_pop`, `tally_filter`: what an operation adds to it.
-/
import NthDao.Py.Dict

namespace Py

namespace Dict

variable {ο κ ν : Type}

/-- The sum of a measure over the items. -/
def total (f : ν → ℤ) (d : Dict κ ν) : ℤ := (d.map fun x => f x.2).sum

theorem total_nonneg {f : ν → ℤ} (hf : ∀ v, 0 ≤ f v) (d : Dict κ ν) : 0 ≤ total f d := by
  induction d with
  | nil => exact Int.le_refl 0
  | cons x d ih =>
    have h₁ := hf x.2
    simp only [total, List.map_cons, List.sum_cons] at ih ⊢
    omega

theorem total_filter (f : ν → ℤ) (d : Dict κ ν) (q : κ × ν → Bool) :
    total f (d.filter q) = total f d - total f (d.filter fun x => !q x) := by
  induction d with
  | nil => rfl
  | cons x d ih =>
    unfold total at ih ⊢
    cases hq : q x
    · rw [List.filter_cons_of_neg (by simp [hq]), List.filter_cons_of_pos (by simp [hq]), ih,
        List.map_cons, List.map_cons, List.sum_cons, List.sum_cons]
      omega
    · rw [List.filter_cons_of_pos hq, List.filter_cons_of_neg (by simp [hq]), List.map_cons,
        List.map_cons, List.sum_cons, List.sum_cons, ih]
      omega

theorem total_filter_le {f : ν → ℤ} (hf : ∀ v, 0 ≤ f v) (d : Dict κ ν) (q : κ × ν → Bool) :
    total f (d.filter q) ≤ total f d := by
  have h := total_nonneg hf (d.filter fun x => !q x)
  rw [total_filter]
  omega

theorem nodup_filter {d : Dict κ ν} (hn : (d.map Prod.fst).Nodup) (q : κ × ν → Bool) :
    ((d.filter q).map Prod.fst).Nodup :=
  hn.sublist (List.filter_sublist.map _)

section Keys

variable [DecidableEq κ]

theorem total_set (f : ν → ℤ) {d : Dict κ ν} (hn : (d.map Prod.fst).Nodup) (k : κ) (v : ν) :
    total f (d.set k v) = total f d - ((d.get k).map f).getD 0 + f v := by
  rw [total, sum_set (fun x : κ × ν => f x.2) hn]
  rfl

/-- The item of a key, among those with distinct keys. -/
theorem filter_key {d : Dict κ ν} (hn : (d.map Prod.fst).Nodup) (k : κ) :
    (d.filter fun x => x.1 == k) = ((d.get k).map fun v => (k, v)).toList := by
  induction d with
  | nil => rfl
  | cons x d ih =>
    obtain ⟨l, v⟩ := x
    rw [List.map_cons, List.nodup_cons] at hn
    rw [get_cons]
    by_cases hl : l = k
    · subst hl
      rw [List.filter_cons_of_pos (by simp), ih hn.2, get_eq_none.2 hn.1, if_pos rfl]
      rfl
    · rw [List.filter_cons_of_neg (by simpa using hl), ih hn.2, if_neg hl]

theorem total_pop (f : ν → ℤ) {d : Dict κ ν} (hn : (d.map Prod.fst).Nodup) (k : κ) :
    total f (d.pop k) = total f d - ((d.get k).map f).getD 0 := by
  have hq : (fun x : κ × ν => !(x.1 != k)) = fun x => x.1 == k := by
    funext x
    simp [bne]
  rw [pop, total_filter, hq, filter_key hn]
  cases d.get k <;> simp [total]

end Keys

/-! ## By owner -/

variable [DecidableEq ο]

/-- The items of an owner. -/
def ofOwner (d : Dict (ο × κ) ν) (o : ο) : Dict (ο × κ) ν := d.filter fun x => x.1.1 == o

/-- The sum of a measure over the items of an owner. -/
def tally (f : ν → ℤ) (d : Dict (ο × κ) ν) (o : ο) : ℤ := total f (ofOwner d o)

theorem nodup_ofOwner {d : Dict (ο × κ) ν} (hn : (d.map Prod.fst).Nodup) (o : ο) :
    ((ofOwner d o).map Prod.fst).Nodup := nodup_filter hn _

theorem mem_ofOwner {d : Dict (ο × κ) ν} {o : ο} {x : (ο × κ) × ν} :
    x ∈ ofOwner d o ↔ x ∈ d ∧ x.1.1 = o := by
  rw [ofOwner, List.mem_filter, beq_iff_eq]

theorem ofOwner_filter (d : Dict (ο × κ) ν) (o : ο) (q : (ο × κ) × ν → Bool) :
    ofOwner (d.filter q) o = (ofOwner d o).filter q := by
  rw [ofOwner, ofOwner, List.filter_filter, List.filter_filter]
  exact List.filter_congr fun x _ => Bool.and_comm _ _

theorem tally_filter (f : ν → ℤ) (d : Dict (ο × κ) ν) (q : (ο × κ) × ν → Bool) (o : ο) :
    tally f (d.filter q) o = tally f d o - tally f (d.filter fun x => !q x) o := by
  rw [tally, tally, tally, ofOwner_filter, ofOwner_filter, total_filter]

theorem tally_filter_le {f : ν → ℤ} (hf : ∀ v, 0 ≤ f v) (d : Dict (ο × κ) ν)
    (q : (ο × κ) × ν → Bool) (o : ο) : tally f (d.filter q) o ≤ tally f d o := by
  rw [tally, tally, ofOwner_filter]
  exact total_filter_le hf _ _

theorem tally_nonneg {f : ν → ℤ} (hf : ∀ v, 0 ≤ f v) (d : Dict (ο × κ) ν) (o : ο) :
    0 ≤ tally f d o := total_nonneg hf _

/-- An owner without keys weighs nothing. -/
theorem tally_eq_zero (f : ν → ℤ) {d : Dict (ο × κ) ν} {o : ο} (h : ∀ x ∈ d, x.1.1 ≠ o) :
    tally f d o = 0 := by
  rw [tally, ofOwner, List.filter_eq_nil_iff.2 fun x hx => by simpa using h x hx]
  rfl

/-- The number of items of an owner. -/
theorem tally_one (d : Dict (ο × κ) ν) (o : ο) : tally (fun _ => 1) d o = (ofOwner d o).length := by
  rw [tally, total, List.map_const', List.sum_replicate, Int.nsmul_eq_mul, mul_one]

/-! ## Operations -/

variable [DecidableEq κ]

/-- What an operation does for one owner the others do not see. -/
theorem ofOwner_set_of_ne (d : Dict (ο × κ) ν) {k : ο × κ} {o : ο} (h : k.1 ≠ o) (v : ν) :
    ofOwner (d.set k v) o = ofOwner d o := by
  rw [set, ofOwner, ofOwner]
  split_ifs with hk
  · clear hk
    induction d with
    | nil => rfl
    | cons x d ih =>
      rw [List.map_cons, List.filter_cons, List.filter_cons, ih]
      by_cases hx : x.1 = k
      · simp [hx, h]
      · simp [hx]
  · simp [List.filter_append, h]

theorem ofOwner_pop_of_ne (d : Dict (ο × κ) ν) {k : ο × κ} {o : ο} (h : k.1 ≠ o) :
    ofOwner (d.pop k) o = ofOwner d o := by
  rw [pop, ofOwner_filter, List.filter_eq_self]
  intro x hx
  have hne : x.1 ≠ k := fun he => h (he ▸ (mem_ofOwner.1 hx).2)
  simpa using hne

theorem ofOwner_set (d : Dict (ο × κ) ν) (k : ο × κ) (v : ν) :
    ofOwner (d.set k v) k.1 = (ofOwner d k.1).set k v := by
  have hhas : has (ofOwner d k.1) k = d.has k := by
    rw [Bool.eq_iff_iff, has_iff, has_iff, List.mem_map, List.mem_map]
    constructor
    · rintro ⟨x, hx, rfl⟩
      exact ⟨x, (mem_ofOwner.1 hx).1, rfl⟩
    · rintro ⟨x, hx, rfl⟩
      exact ⟨x, mem_ofOwner.2 ⟨hx, rfl⟩, rfl⟩
  rw [set, set, hhas]
  split_ifs
  · rw [ofOwner, ofOwner, List.filter_map]
    congr 1
    refine List.filter_congr fun x _ => ?_
    by_cases hx : x.1 = k
    · simp [hx]
    · simp [hx]
  · simp [ofOwner, List.filter_append]

theorem get_ofOwner (d : Dict (ο × κ) ν) (k : ο × κ) : get (ofOwner d k.1) k = get d k := by
  rw [get, get, ofOwner, List.find?_filter]
  congr 2
  funext x
  by_cases hx : x.1 = k
  · rw [hx]
    simp
  · simp [hx]

theorem tally_set (f : ν → ℤ) {d : Dict (ο × κ) ν} (hn : (d.map Prod.fst).Nodup) (k : ο × κ) (v : ν)
    (o : ο) : tally f (d.set k v) o =
      tally f d o + if k.1 = o then f v - ((d.get k).map f).getD 0 else 0 := by
  rw [tally, tally]
  by_cases ho : k.1 = o
  · subst ho
    rw [if_pos rfl, ofOwner_set, total_set f (nodup_ofOwner hn _), get_ofOwner]
    omega
  · rw [if_neg ho, ofOwner_set_of_ne d ho, add_zero]

theorem tally_pop (f : ν → ℤ) {d : Dict (ο × κ) ν} (hn : (d.map Prod.fst).Nodup) (k : ο × κ) (o : ο) :
    tally f (d.pop k) o = tally f d o - if k.1 = o then ((d.get k).map f).getD 0 else 0 := by
  rw [tally, tally]
  by_cases ho : k.1 = o
  · subst ho
    rw [if_pos rfl, pop, ofOwner_filter, ← get_ofOwner, ← total_pop f (nodup_ofOwner hn _)]
    rfl
  · rw [if_neg ho, ofOwner_pop_of_ne d ho, sub_zero]

end Dict

end Py
