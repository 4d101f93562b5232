/-
  Python's `==` on JSON values is an equivalence.

  * `ident v` sorts the keys of every object of `v` and turns each `bool` into
    its `int`;
  * `eqv_iff`: two values are equal exactly if they have one `ident`, and so for
    lists (`eqvList_iff`).
-/
import NthDao.Py.Str

namespace Py

namespace Json

mutual
/-- The value up to what `==` does not see. -/
def ident : Json → Json
  | .bool b => .int (if b then 1 else 0)
  | .arr xs => .arr (identList xs)
  | .obj kvs => .obj ((identFields kvs).insertionSort keyLe)
  | j => j
def identList : List Json → List Json
  | [] => []
  | x :: xs => ident x :: identList xs
def identFields : Fields → Fields
  | [] => []
  | (k, x) :: kvs => (k, ident x) :: identFields kvs
end

/-- An item up to what `==` does not see. -/
def identItem (p : String × Json) : String × Json := (p.1, p.2.ident)

theorem identList_eq (xs : List Json) : identList xs = xs.map ident := by
  induction xs with
  | nil => rfl
  | cons x xs ih => rw [identList, ih, List.map_cons]

theorem identFields_eq (kvs : Fields) : identFields kvs = kvs.map identItem := by
  induction kvs with
  | nil => rfl
  | cons p kvs ih => obtain ⟨k, x⟩ := p; rw [identFields, ih, List.map_cons, identItem]

theorem nodup_identItem {kvs : Fields} (h : (kvs.map Prod.fst).Nodup) :
    ((kvs.map identItem).map Prod.fst).Nodup := by
  rw [List.map_map]; exact h

/-- Items with distinct keys are sorted in one way. -/
theorem insertionSort_eq_iff {xs ys : Fields} (hx : (xs.map Prod.fst).Nodup) :
    xs.insertionSort keyLe = ys.insertionSort keyLe ↔ xs.Perm ys := by
  have sorted := fun zs : Fields => List.pairwise_insertionSort keyLe zs
  have perm := fun zs : Fields => List.perm_insertionSort keyLe zs
  constructor
  · intro h
    exact (perm xs).symm.trans (h ▸ perm ys)
  · intro h
    refine List.Perm.eq_of_pairwise ?_ (sorted xs) (sorted ys)
      ((perm xs).trans (h.trans (perm ys).symm))
    rintro ⟨k, v⟩ ⟨l, w⟩ hp hq hle hle'
    obtain rfl : k = l := le_antisymm hle hle'
    have hv := lookup_of_mem hx ((perm xs).mem_iff.1 hp)
    have hw := lookup_of_mem hx (h.symm.mem_iff.1 ((perm ys).mem_iff.1 hq))
    rw [hv] at hw
    rw [Option.some.inj hw]

end Json

open Json

theorem eqvFields_iff {xs ys : Fields} : eqvFields xs ys = true ↔
    ∀ p ∈ xs, ∃ y, lookup ys p.1 = some y ∧ eqv p.2 y = true := by
  induction xs with
  | nil => simp [eqvFields]
  | cons p xs ih =>
    obtain ⟨k, x⟩ := p
    rw [eqvFields, Bool.and_eq_true, ih, List.forall_mem_cons]
    refine and_congr_left fun _ => ?_
    cases lookup ys k <;> simp

theorem eqvList_iff_of {xs ys : List Json}
    (h : ∀ x ∈ xs, ∀ y ∈ ys, eqv x y = true ↔ x.ident = y.ident) :
    eqvList xs ys = true ↔ xs.map ident = ys.map ident := by
  induction xs generalizing ys with
  | nil => cases ys <;> simp [eqvList]
  | cons x xs ih =>
    cases ys with
    | nil => simp [eqvList]
    | cons y ys =>
      rw [eqvList, Bool.and_eq_true, h x (by simp) y (by simp),
        ih fun a ha b hb => h a (by simp [ha]) b (by simp [hb])]
      simp

/-- Two values are equal exactly if they have one `ident`. -/
theorem eqv_iff (a : Json) (ha : a.wf = true) (b : Json) (hb : b.wf = true) :
    eqv a b = true ↔ a.ident = b.ident := by
  induction a using Json.ind generalizing b with
  | arr xs ih =>
    rw [wf_arr] at ha
    cases b with
    | arr ys =>
      rw [wf_arr] at hb
      rw [eqv, eqvList_iff_of fun x hx y hy => ih x hx (ha x hx) y (hb y hy)]
      simp [ident, identList_eq]
    | _ => simp [eqv, ident]
  | obj xs ih =>
    rw [wf_obj] at ha
    cases b with
    | obj ys =>
      rw [wf_obj] at hb
      have hn := nodup_identItem ha.1
      rw [eqv, Bool.and_eq_true, beq_iff_eq, eqvFields_iff, ident, ident, identFields_eq,
        identFields_eq, Json.obj.injEq, insertionSort_eq_iff hn]
      constructor
      · -- the items of `xs` are among those of `ys`, which are as many
        rintro ⟨hlen, hsub⟩
        refine (List.subperm_of_subset (List.Nodup.of_map _ hn) ?_).perm_of_length_le (by simp [hlen])
        intro q hq
        obtain ⟨⟨k, x⟩, hp, rfl⟩ := List.mem_map.1 hq
        obtain ⟨y, hy, he⟩ := hsub (k, x) hp
        have hmem := mem_of_lookup hy
        rw [ih (k, x) hp (ha.2 _ hp) y (hb.2 _ hmem)] at he
        exact List.mem_map.2 ⟨(k, y), hmem, by rw [identItem, identItem, he]⟩
      · intro h
        refine ⟨by simpa using h.length_eq, fun p hp => ?_⟩
        obtain ⟨⟨l, y⟩, hq, he⟩ := List.mem_map.1 (h.mem_iff.1 (List.mem_map_of_mem hp))
        obtain ⟨rfl, he⟩ := Prod.mk.inj he
        exact ⟨y, lookup_of_mem hb.1 hq, (ih p hp (ha.2 p hp) y (hb.2 _ hq)).2 he.symm⟩
    | _ => simp [eqv, ident]
  | bool c =>
    cases b with
    | bool d => cases c <;> cases d <;> simp [eqv, ident]
    | _ => simp [eqv, ident]
  | int n =>
    cases b with
    | bool d => cases d <;> simp only [eqv, beq_iff_eq, ident, Json.int.injEq] <;> exact eq_comm
    | _ => simp [eqv, ident]
  | null => cases b <;> simp [eqv, ident]
  | str s => cases b <;> simp [eqv, ident]
  | other t => cases b <;> simp [eqv, ident]

/-- Two lists are equal exactly if their elements are. -/
theorem eqvList_iff {xs ys : List Json} (hx : ∀ x ∈ xs, x.wf = true) (hy : ∀ y ∈ ys, y.wf = true) :
    eqvList xs ys = true ↔ xs.map ident = ys.map ident :=
  eqvList_iff_of fun x h y h' => eqv_iff x (hx x h) y (hy y h')

end Py
