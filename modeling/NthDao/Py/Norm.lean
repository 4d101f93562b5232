/-
  Values up to the order of their keys.

  A value read back from its canonical text has its keys sorted.  What a program
  reads of it is what it reads of the value it wrote:

  * `norm_obj_of_perm`: items in another order are the same sorted object;
  * `get_norm`-like facts for the tests of a program: `asStr_norm`, `asInt_norm`,
    `isObj_norm`, `keysEq_norm`;
  * `eqv_of_norm`: values that are sorted to the same one are equal.
-/
import NthDao.Py.Ascii
import NthDao.Py.Equal

namespace Py

namespace Json

/-- An item with its value sorted. -/
def normItem (p : String × Json) : String × Json := (p.1, p.2.norm)

theorem norm_obj_eq (kvs : Fields) :
    (Json.obj kvs).norm = .obj ((kvs.map normItem).insertionSort keyLe) := norm_obj kvs

theorem norm_fields_perm (kvs : Fields) : (Json.obj kvs).norm.fields.Perm (kvs.map normItem) := by
  rw [norm_obj_eq, fields_obj]
  exact List.perm_insertionSort keyLe _

theorem map_fst_normItem (kvs : Fields) : (kvs.map normItem).map Prod.fst = kvs.map Prod.fst := by
  rw [List.map_map]; rfl

theorem normItem_normItem (p : String × Json) : normItem (normItem p) = normItem p := by
  rw [normItem, normItem, norm_norm]

theorem map_normItem_idem (kvs : Fields) :
    (kvs.map normItem).map normItem = kvs.map normItem := by
  rw [List.map_map]
  exact List.map_congr_left fun p _ => normItem_normItem p

/-- Items that agree up to their order and that of the keys inside. -/
theorem norm_obj_of_perm {xs ys : Fields} (hx : (xs.map Prod.fst).Nodup)
    (h : (xs.map normItem).Perm (ys.map normItem)) : (Json.obj xs).norm = (Json.obj ys).norm := by
  rw [norm_obj_eq, norm_obj_eq, (insertionSort_eq_iff (by rwa [map_fst_normItem])).2 h]

theorem norm_obj_of_map {xs ys : Fields} (h : xs.map normItem = ys.map normItem) :
    (Json.obj xs).norm = (Json.obj ys).norm := by
  rw [norm_obj_eq, norm_obj_eq, h]

/-- Items that read alike are the same sorted object. -/
theorem norm_obj_of_lookup {xs ys : Fields} (hx : (xs.map Prod.fst).Nodup)
    (hy : (ys.map Prod.fst).Nodup)
    (h : ∀ k, (lookup xs k).map norm = (lookup ys k).map norm) :
    (Json.obj xs).norm = (Json.obj ys).norm := by
  have hmem : ∀ {zs : Fields}, (zs.map Prod.fst).Nodup → ∀ p : String × Json,
      p ∈ zs.map normItem ↔ (lookup zs p.1).map norm = some p.2 := by
    intro zs hz p
    rw [List.mem_map, Option.map_eq_some_iff]
    constructor
    · rintro ⟨q, hq, rfl⟩
      exact ⟨q.2, lookup_of_mem hz hq, rfl⟩
    · rintro ⟨v, hv, he⟩
      exact ⟨(p.1, v), mem_of_lookup hv, Prod.ext rfl he⟩
  have hnodup : ∀ {zs : Fields}, (zs.map Prod.fst).Nodup → (zs.map normItem).Nodup := fun hz =>
    List.Nodup.of_map Prod.fst (by rwa [map_fst_normItem])
  refine norm_obj_of_perm hx ((List.perm_ext_iff_of_nodup (hnodup hx) (hnodup hy)).2 fun p => ?_)
  rw [hmem hx, hmem hy, h]

@[simp] theorem norm_eq_null {j : Json} : j.norm = .null ↔ j = .null := by
  cases j <;> simp [norm]

@[simp] theorem asStr_norm (j : Json) : j.norm.asStr = j.asStr := by
  cases j <;> rfl

@[simp] theorem asInt_norm (j : Json) : j.norm.asInt = j.asInt := by
  cases j <;> rfl

@[simp] theorem eqStr_norm (j : Json) (s : String) : j.norm.eqStr s = j.eqStr s := by
  cases j <;> rfl

@[simp] theorem isObj_norm (j : Json) : j.norm.isObj = j.isObj := by
  cases j <;> rfl

theorem eq_obj_of_isObj {j : Json} (h : j.isObj = true) : j = .obj j.fields := by
  cases j with
  | obj kvs => rfl
  | _ => cases h

theorem keysEq_of_perm {xs ys : Fields} (h : (xs.map Prod.fst).Perm (ys.map Prod.fst))
    (fs : List String) : keysEq xs fs = keysEq ys fs := by
  have hall : ∀ zs : Fields, zs.all (fun p => fs.contains p.1) = (zs.map Prod.fst).all fs.contains := by
    intro zs; rw [List.all_map]; rfl
  have hany : ∀ (zs : Fields) (f : String),
      (zs.any fun p => p.1 == f) = (zs.map Prod.fst).any (· == f) := by
    intro zs f; rw [List.any_map]; rfl
  rw [keysEq, keysEq, hall, hall, h.all_eq]
  congr 2
  funext f
  rw [hany, hany, h.any_eq]

theorem keysEq_norm (kvs fs) : keysEq (Json.obj kvs).norm.fields fs = keysEq kvs fs := by
  refine keysEq_of_perm ?_ fs
  have h := (norm_fields_perm kvs).map Prod.fst
  rwa [map_fst_normItem] at h

theorem nodup_filter {kvs : Fields} (h : (kvs.map Prod.fst).Nodup) (q : String × Json → Bool) :
    ((kvs.filter q).map Prod.fst).Nodup :=
  h.sublist (List.filter_sublist.map _)

/-- A filter on keys reads what it keeps. -/
theorem lookup_filter_key (kvs : Fields) (q : String → Bool) (k : String) :
    lookup (kvs.filter fun p => q p.1) k = if q k then lookup kvs k else none := by
  induction kvs with
  | nil => simp [lookup_nil]
  | cons p kvs ih =>
    obtain ⟨l, v⟩ := p
    rw [List.filter_cons]
    by_cases hl : l = k
    · subst hl
      by_cases hq : q l = true
      · simp [hq, lookup_cons]
      · simp only [hq, Bool.false_eq_true, if_false] at ih ⊢
        exact ih
    · by_cases hq : q l = true
      · rw [if_pos hq, lookup_cons, if_neg hl, ih, lookup_cons, if_neg hl]
      · rw [if_neg hq, ih, lookup_cons, if_neg hl]

/-- Dropping the items that are `None` changes nothing that `get` reads. -/
theorem get_filter_null {kvs : Fields} (h : (kvs.map Prod.fst).Nodup) (k : String) :
    get (kvs.filter fun p => p.2 != .null) k = get kvs k := by
  rw [get, get]
  cases hl : lookup kvs k with
  | none =>
    rw [lookup_eq_none_iff] at hl
    rw [lookup_eq_none_iff.2 fun hk => hl ((List.filter_sublist.map Prod.fst).subset hk)]
  | some v =>
    by_cases hv : v = .null
    · subst hv
      have hn : lookup (kvs.filter fun p => p.2 != .null) k = none := by
        rw [lookup_eq_none_iff]
        intro hk
        obtain ⟨⟨k', w⟩, hp, rfl⟩ := List.mem_map.1 hk
        rw [List.mem_filter] at hp
        rw [lookup_of_mem h hp.1, Option.some.injEq] at hl
        simp [hl] at hp
      rw [hn]; rfl
    · rw [lookup_of_mem (nodup_filter h _)
        (List.mem_filter.2 ⟨mem_of_lookup hl, by simpa using hv⟩)]

theorem map_normItem_filter_key (kvs : Fields) (q : String → Bool) :
    (kvs.filter fun p => q p.1).map normItem = (kvs.map normItem).filter fun p => q p.1 := by
  rw [List.filter_map]; rfl

theorem map_normItem_insert (kvs : Fields) (k : String) (v : Json) :
    (insert kvs k v).map normItem = insert (kvs.map normItem) k v.norm := by
  induction kvs with
  | nil => rfl
  | cons p kvs ih =>
    rw [insert, List.map_cons, insert, show (normItem p).1 = p.1 from rfl]
    split_ifs
    · rfl
    · rw [List.map_cons, ih]

theorem get_map_normItem (kvs : Fields) (k : String) :
    get (kvs.map normItem) k = (get kvs k).norm := by
  induction kvs with
  | nil => rfl
  | cons p kvs ih =>
    obtain ⟨l, v⟩ := p
    rw [get, get, List.map_cons, normItem, lookup_cons, lookup_cons]
    split_ifs
    · rfl
    · exact ih

/-! ## Events of texts and numbers -/

/-- A text or a number. -/
def isScalar : Json → Bool
  | .str _ => true
  | .int _ => true
  | _ => false

/-- An object of texts and numbers. -/
def flat (kvs : Fields) : Bool :=
  decide (kvs.map Prod.fst).Nodup && kvs.all fun p => p.2.isScalar

theorem nodup_of_flat {kvs : Fields} (h : flat kvs = true) : (kvs.map Prod.fst).Nodup := by
  rw [flat, Bool.and_eq_true, decide_eq_true_iff] at h
  exact h.1

theorem norm_of_flat {kvs : Fields} (h : flat kvs = true) {p : String × Json} (hp : p ∈ kvs) :
    p.2.norm = p.2 ∧ p.2.wf = true := by
  rw [flat, Bool.and_eq_true, List.all_eq_true] at h
  have hs := h.2 p hp
  revert hs
  cases p.2 <;> simp [isScalar, norm, wf]

theorem wf_of_flat {kvs : Fields} (h : flat kvs = true) : (Json.obj kvs).wf = true :=
  wf_obj.2 ⟨nodup_of_flat h, fun _ hp => (norm_of_flat h hp).2⟩

/-- Sorting keys changes nothing that is read of texts and numbers. -/
theorem lookup_norm_flat {kvs : Fields} (h : flat kvs = true) (k : String) :
    lookup (Json.obj kvs).norm.fields k = lookup kvs k := by
  rw [lookup_norm (nodup_of_flat h)]
  cases hl : lookup kvs k with
  | none => rfl
  | some v => rw [Option.map_some, (norm_of_flat h (mem_of_lookup hl)).1]

theorem isSome_lookup {kvs : Fields} {k : String} :
    (lookup kvs k).isSome = true ↔ k ∈ kvs.map Prod.fst := by
  rw [← not_iff_not, ← lookup_eq_none_iff, Bool.not_eq_true, Option.isSome_eq_false_iff,
    Option.isNone_iff_eq_none]

/-- The comparison of keys reads which keys there are. -/
theorem keysEq_congr {xs ys : Fields} (h : ∀ k, lookup xs k = lookup ys k) (fs : List String) :
    keysEq xs fs = keysEq ys fs := by
  have hm : ∀ k, k ∈ xs.map Prod.fst ↔ k ∈ ys.map Prod.fst := fun k => by
    rw [← isSome_lookup, h, isSome_lookup]
  have hk : ∀ zs : Fields, keysEq zs fs = true ↔
      (∀ k ∈ zs.map Prod.fst, k ∈ fs) ∧ ∀ f ∈ fs, f ∈ zs.map Prod.fst := by
    intro zs
    simp [keysEq, List.all_eq_true, List.any_eq_true]
  rw [Bool.eq_iff_iff, hk, hk]
  simp only [hm]

/-- Short numbers have a text. -/
theorem encodable_int {n : ℤ} (h : n.natAbs < 10 ^ 20) : (Json.int n).encodable = true := by
  rw [encodable, decide_eq_true_iff]
  have hl : (Nat.toDigits 10 n.natAbs).length ≤ 20 :=
    (Nat.length_toDigits_le_iff (by decide) (by decide)).2 h
  exact hl.trans (by decide)

end Json

/-! ## `==` -/

/-- Sorting keys is not seen by `==`. -/
theorem Json.ident_norm (v : Json) (h : v.wf = true) : v.norm.ident = v.ident := by
  induction v using Json.ind with
  | arr xs ih =>
    rw [Json.wf_arr] at h
    rw [Json.norm_arr, Json.ident, Json.ident, Json.identList_eq, Json.identList_eq, List.map_map]
    exact congrArg Json.arr (List.map_congr_left fun x hx => ih x hx (h x hx))
  | obj kvs ih =>
    rw [Json.wf_obj] at h
    have hitem : ∀ p ∈ kvs, Json.identItem (Json.normItem p) = Json.identItem p := fun p hp =>
      Prod.ext rfl (ih p hp (h.2 p hp))
    have hperm : (((kvs.map Json.normItem).insertionSort Json.keyLe).map Json.identItem).Perm
        (kvs.map Json.identItem) := by
      refine ((List.perm_insertionSort Json.keyLe _).map _).trans ?_
      rw [List.map_map]
      exact (List.map_congr_left hitem) ▸ List.Perm.refl _
    have hnodup : ((((kvs.map Json.normItem).insertionSort Json.keyLe).map Json.identItem).map
        Prod.fst).Nodup :=
      (hperm.map Prod.fst).nodup_iff.2 (Json.nodup_identItem h.1)
    rw [Json.norm_obj_eq, Json.ident, Json.ident, Json.identFields_eq, Json.identFields_eq,
      (Json.insertionSort_eq_iff hnodup).2 hperm]
  | _ => rfl

theorem eqv_of_norm {v w : Json} (hv : v.wf = true) (hw : w.wf = true) (h : v.norm = w.norm) :
    eqv v w = true := by
  rw [eqv_iff v hv w hw, ← Json.ident_norm v hv, h, Json.ident_norm w hw]

end Py
