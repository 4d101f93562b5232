/-
  JSON values as a Python program holds them.

  A value is what `json.loads` returns: `None`, a `bool`, an `int`, a `str`, a
  `list` or a `dict` (its items in insertion order), or a value that no strict
  encoder accepts (`other`: a `float`, a `str` with a lone surrogate).

  * `get` is `d.get(k)`, `keysEq` the comparison `set(d) == fields`;
  * `eqInt` and `eqStr` are Python's `==` against an `int` and a `str` (a
    `bool` equals the `int` it is), `eqv` its `==` between two values;
  * `norm` sorts the keys of every object (`sort_keys=True`); `wf` says that no
    object has a key twice, as in every `dict`.
-/
import Mathlib.Data.List.Sort
import NthDao.Py.Chars

namespace Py

/-- A JSON value. -/
inductive Json where
  | null
  | bool (b : Bool)
  | int (n : ℤ)
  | str (s : String)
  | arr (xs : List Json)
  | obj (kvs : List (String × Json))
  /-- a value outside canonical JSON, with its text -/
  | other (text : String)
  deriving Repr

/-- The items of an object. -/
abbrev Fields := List (String × Json)

namespace Json

/-- Induction on values, with a hypothesis for every element. -/
theorem ind {P : Json → Prop} (null : P .null) (bool : ∀ b, P (.bool b)) (int : ∀ n, P (.int n))
    (str : ∀ s, P (.str s)) (other : ∀ t, P (.other t))
    (arr : ∀ xs, (∀ x ∈ xs, P x) → P (.arr xs))
    (obj : ∀ kvs, (∀ p ∈ kvs, P p.2) → P (.obj kvs)) : ∀ j, P j :=
  @Json.rec P (fun xs => ∀ x ∈ xs, P x) (fun kvs => ∀ p ∈ kvs, P p.2) (fun p => P p.2)
    null bool int str arr obj other (by simp)
    (fun _ _ h hs => List.forall_mem_cons.2 ⟨h, hs⟩) (by simp)
    (fun _ _ h hs => List.forall_mem_cons.2 ⟨h, hs⟩) (fun _ _ h => h)

mutual
/-- Structural equality. -/
def beq : Json → Json → Bool
  | .null, .null => true
  | .bool a, .bool b => a == b
  | .int a, .int b => a == b
  | .str a, .str b => a == b
  | .other a, .other b => a == b
  | .arr xs, .arr ys => beqList xs ys
  | .obj xs, .obj ys => beqFields xs ys
  | _, _ => false
def beqList : List Json → List Json → Bool
  | [], [] => true
  | x :: xs, y :: ys => beq x y && beqList xs ys
  | _, _ => false
def beqFields : Fields → Fields → Bool
  | [], [] => true
  | (k, x) :: xs, (l, y) :: ys => k == l && beq x y && beqFields xs ys
  | _, _ => false
end

theorem beq_iff : ∀ a b : Json, beq a b = true ↔ a = b := by
  have list : ∀ {xs : List Json}, (∀ x ∈ xs, ∀ b, beq x b = true ↔ x = b) →
      ∀ ys, beqList xs ys = true ↔ xs = ys := by
    intro xs
    induction xs with
    | nil => intro _ ys; cases ys <;> simp [beqList]
    | cons x xs ih =>
      intro h ys
      cases ys with
      | nil => simp [beqList]
      | cons y ys => simp [beqList, h x (by simp), ih (fun z hz => h z (by simp [hz]))]
  have fields : ∀ {xs : Fields}, (∀ p ∈ xs, ∀ b, beq p.2 b = true ↔ p.2 = b) →
      ∀ ys, beqFields xs ys = true ↔ xs = ys := by
    intro xs
    induction xs with
    | nil => intro _ ys; cases ys <;> simp [beqFields]
    | cons p xs ih =>
      intro h ys
      cases ys with
      | nil => simp [beqFields]
      | cons q ys =>
        obtain ⟨k, x⟩ := p; obtain ⟨l, y⟩ := q
        simp [beqFields, h (k, x) (by simp), ih (fun z hz => h z (by simp [hz])), and_assoc]
  intro a
  induction a using ind with
  | arr xs ih => intro b; cases b <;> simp [beq, list ih]
  | obj kvs ih => intro b; cases b <;> simp [beq, fields ih]
  | _ => intro b; cases b <;> simp [beq]

instance : DecidableEq Json := fun a b => decidable_of_iff (beq a b = true) (beq_iff a b)

instance : Inhabited Json := ⟨.null⟩

/-! ## Access -/

/-- The value of key `k` among the items `kvs`. -/
def lookup (kvs : Fields) (k : String) : Option Json :=
  (kvs.find? fun p => p.1 == k).map Prod.snd

/-- `d.get(k)`: `None` for a missing key. -/
def get (kvs : Fields) (k : String) : Json := (lookup kvs k).getD .null

/-- `d.get(k, default)`. -/
def getD (kvs : Fields) (k : String) (default : Json) : Json := (lookup kvs k).getD default

/-- The items of an object, none for any other value. -/
def fields : Json → Fields
  | .obj kvs => kvs
  | _ => []

/-- `isinstance(v, dict)`. -/
def isObj : Json → Bool
  | .obj _ => true
  | _ => false

/-- `set(d) == fs`. -/
def keysEq (kvs : Fields) (fs : List String) : Bool :=
  kvs.all (fun p => fs.contains p.1) && fs.all (fun f => kvs.any fun p => p.1 == f)

/-- `d[k] = v`: replaces the value of a key in place, or adds the key last. -/
def insert (kvs : Fields) (k : String) (v : Json) : Fields :=
  match kvs with
  | [] => [(k, v)]
  | p :: ps => if p.1 == k then (k, v) :: ps else p :: insert ps k v

/-- An `int` that is not a `bool`. -/
def asInt : Json → Option ℤ
  | .int n => some n
  | _ => none

/-- A `str`. -/
def asStr : Json → Option String
  | .str s => some s
  | _ => none

/-- `v == n` for an `int` `n`: a `bool` counts as `0` or `1`. -/
def eqInt : Json → ℤ → Bool
  | .int m, n => m == n
  | .bool b, n => (if b then 1 else 0) == n
  | _, _ => false

/-- `v == s` for a `str` `s`. -/
def eqStr : Json → String → Bool
  | .str t, s => t == s
  | _, _ => false

@[simp] theorem eqStr_iff {j : Json} {s : String} : j.eqStr s = true ↔ j = .str s := by
  cases j <;> simp [eqStr]

@[simp] theorem asInt_eq_some {j : Json} {n : ℤ} : j.asInt = some n ↔ j = .int n := by
  cases j <;> simp [asInt]

@[simp] theorem asStr_eq_some {j : Json} {s : String} : j.asStr = some s ↔ j = .str s := by
  cases j <;> simp [asStr]

@[simp] theorem fields_obj (kvs : Fields) : (Json.obj kvs).fields = kvs := rfl

theorem lookup_nil (k : String) : lookup [] k = none := rfl

theorem lookup_cons (k l : String) (v : Json) (kvs : Fields) :
    lookup ((l, v) :: kvs) k = if l = k then some v else lookup kvs k := by
  by_cases h : l = k <;> simp [lookup, h]

theorem mem_of_lookup {kvs : Fields} {k : String} {v : Json} (h : lookup kvs k = some v) :
    (k, v) ∈ kvs := by
  simp only [lookup, Option.map_eq_some_iff] at h
  obtain ⟨⟨l, w⟩, hf, rfl⟩ := h
  have hl : l = k := by simpa using List.find?_some hf
  exact hl ▸ List.mem_of_find?_eq_some hf

theorem lookup_of_mem {kvs : Fields} (hn : (kvs.map Prod.fst).Nodup) {k : String} {v : Json}
    (h : (k, v) ∈ kvs) : lookup kvs k = some v := by
  induction kvs with
  | nil => cases h
  | cons p kvs ih =>
    obtain ⟨l, w⟩ := p
    rw [List.map_cons, List.nodup_cons] at hn
    rw [lookup_cons]
    rcases List.mem_cons.1 h with h | h
    · cases h; simp
    · have hk : l ≠ k := fun e => hn.1 (List.mem_map.2 ⟨(k, v), h, e.symm⟩)
      rw [if_neg hk, ih hn.2 h]

theorem lookup_eq_none_iff {kvs : Fields} {k : String} :
    lookup kvs k = none ↔ k ∉ kvs.map Prod.fst := by
  induction kvs with
  | nil => simp [lookup_nil]
  | cons p kvs ih =>
    obtain ⟨l, v⟩ := p
    by_cases h : l = k
    · simp [lookup_cons, h]
    · rw [lookup_cons, if_neg h, ih, List.map_cons, List.mem_cons, not_or]
      exact ⟨fun hk => ⟨Ne.symm h, hk⟩, fun hk => hk.2⟩

theorem lookup_insert (kvs : Fields) (k l : String) (v : Json) :
    lookup (insert kvs k v) l = if k = l then some v else lookup kvs l := by
  induction kvs with
  | nil => simp [insert, lookup_cons, lookup_nil]
  | cons p ps ih =>
    obtain ⟨m, w⟩ := p
    by_cases hm : m = k
    · subst hm; by_cases hl : m = l <;> simp [insert, lookup_cons, hl]
    · by_cases hl : m = l
      · subst hl; simp [insert, lookup_cons, hm, Ne.symm hm]
      · simp [insert, lookup_cons, hm, hl, ih]

/-! ## Well-formed values -/

mutual
/-- No object has a key twice. -/
def wf : Json → Bool
  | .arr xs => wfList xs
  | .obj kvs => decide (kvs.map Prod.fst).Nodup && wfFields kvs
  | _ => true
def wfList : List Json → Bool
  | [] => true
  | x :: xs => wf x && wfList xs
def wfFields : Fields → Bool
  | [] => true
  | (_, x) :: kvs => wf x && wfFields kvs
end

theorem wfList_iff {xs : List Json} : wfList xs = true ↔ ∀ x ∈ xs, x.wf = true := by
  induction xs with
  | nil => simp [wfList]
  | cons x xs ih => simp [wfList, ih]

theorem wfFields_iff {kvs : Fields} : wfFields kvs = true ↔ ∀ p ∈ kvs, p.2.wf = true := by
  induction kvs with
  | nil => simp [wfFields]
  | cons p kvs ih => obtain ⟨k, x⟩ := p; simp [wfFields, ih]

theorem wf_arr {xs : List Json} : (Json.arr xs).wf = true ↔ ∀ x ∈ xs, x.wf = true := by
  rw [wf, wfList_iff]

theorem wf_obj {kvs : Fields} : (Json.obj kvs).wf = true ↔
    (kvs.map Prod.fst).Nodup ∧ ∀ p ∈ kvs, p.2.wf = true := by
  rw [wf, Bool.and_eq_true, decide_eq_true_iff, wfFields_iff]

theorem wf_get {kvs : Fields} (h : (Json.obj kvs).wf = true) (k : String) : (get kvs k).wf = true := by
  rw [wf_obj] at h
  unfold get
  cases hl : lookup kvs k with
  | none => rfl
  | some v => exact h.2 _ (mem_of_lookup hl)

/-! ## Sorted keys -/

/-- The order of items by key. -/
def keyLe (p q : String × Json) : Prop := p.1 ≤ q.1

instance : DecidableRel keyLe := fun p q => inferInstanceAs (Decidable (p.1 ≤ q.1))
instance : Std.Total keyLe := ⟨fun p q => le_total p.1 q.1⟩
instance : IsTrans (String × Json) keyLe := ⟨fun _ _ _ h h' => @le_trans String _ _ _ _ h h'⟩

mutual
/-- The value with the keys of every object sorted (`sort_keys=True`). -/
def norm : Json → Json
  | .arr xs => .arr (normList xs)
  | .obj kvs => .obj ((normFields kvs).insertionSort keyLe)
  | j => j
def normList : List Json → List Json
  | [] => []
  | x :: xs => norm x :: normList xs
def normFields : Fields → Fields
  | [] => []
  | (k, x) :: kvs => (k, norm x) :: normFields kvs
end

theorem normList_eq (xs : List Json) : normList xs = xs.map norm := by
  induction xs with
  | nil => rfl
  | cons x xs ih => simp [normList, ih]

theorem normFields_eq (kvs : Fields) : normFields kvs = kvs.map fun p => (p.1, p.2.norm) := by
  induction kvs with
  | nil => rfl
  | cons p kvs ih => obtain ⟨k, x⟩ := p; simp [normFields, ih]

theorem norm_arr (xs : List Json) : (Json.arr xs).norm = .arr (xs.map norm) := by
  rw [norm, normList_eq]

theorem norm_obj (kvs : Fields) : (Json.obj kvs).norm =
    .obj ((kvs.map fun p => (p.1, p.2.norm)).insertionSort keyLe) := by
  rw [norm, normFields_eq]

theorem keys_normFields (kvs : Fields) :
    (((kvs.map fun p => (p.1, p.2.norm)).insertionSort keyLe).map Prod.fst).Perm
      (kvs.map Prod.fst) := by
  refine ((List.perm_insertionSort keyLe _).map Prod.fst).trans ?_
  rw [List.map_map]; exact .refl _

/-- Sorting keys keeps what a key reads. -/
theorem lookup_norm {kvs : Fields} (h : (kvs.map Prod.fst).Nodup) (k : String) :
    lookup (Json.obj kvs).norm.fields k = (lookup kvs k).map norm := by
  rw [norm_obj, fields_obj]
  have hp := keys_normFields kvs
  cases hl : lookup kvs k with
  | none =>
    rw [lookup_eq_none_iff] at hl
    exact lookup_eq_none_iff.2 fun hk => hl (hp.mem_iff.1 hk)
  | some v =>
    refine lookup_of_mem (hp.nodup_iff.2 h) ((List.perm_insertionSort keyLe _).mem_iff.2 ?_)
    exact List.mem_map.2 ⟨(k, v), mem_of_lookup hl, rfl⟩

theorem get_norm {kvs : Fields} (h : (kvs.map Prod.fst).Nodup) (k : String) :
    get (Json.obj kvs).norm.fields k = (get kvs k).norm := by
  rw [get, get, lookup_norm h]
  cases lookup kvs k <;> rfl

@[simp] theorem eqInt_norm (j : Json) (n : ℤ) : j.norm.eqInt n = j.eqInt n := by
  cases j <;> rfl

/-- Sorting keys keeps a value well formed. -/
theorem wf_norm (j : Json) (h : j.wf = true) : j.norm.wf = true := by
  induction j using ind with
  | arr xs ih =>
    rw [wf_arr] at h
    rw [norm_arr, wf_arr]
    intro x hx
    obtain ⟨y, hy, rfl⟩ := List.mem_map.1 hx
    exact ih y hy (h y hy)
  | obj kvs ih =>
    rw [wf_obj] at h
    rw [norm_obj, wf_obj]
    refine ⟨(keys_normFields kvs).nodup_iff.2 h.1, fun p hp => ?_⟩
    rw [(List.perm_insertionSort keyLe _).mem_iff] at hp
    obtain ⟨q, hq, rfl⟩ := List.mem_map.1 hp
    exact ih q hq (h.2 q hq)
  | _ => exact h

end Json

end Py
