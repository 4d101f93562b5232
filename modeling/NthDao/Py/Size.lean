/-
  The size of the text of a JSON value.

  * `weight ascii v` is the number of bytes of `json.dumps(v)`; `weight_arr` and
    `weight_obj` compute it from the parts, whatever their order;
  * `weight_norm`: sorting keys does not change the size;
  * `perm_of_keysEq`: an object with given keys has the items these keys read.
-/
import Mathlib.Algebra.BigOperators.Group.List.Basic
import Mathlib.Algebra.Ring.Nat
import NthDao.Py.Loads

namespace Py

/-- The number of bytes of `json.dumps(v)`. -/
def weight (ascii : Bool) (j : Json) : ℕ := (utf8 (dumps ascii j)).length

/-- The number of bytes of a string with its quotes. -/
def strWeight (ascii : Bool) (s : String) : ℕ := (utf8 (dumpsStr ascii s)).length

/-- The bytes of an item of an object, with its separators. -/
def itemWeight (ascii : Bool) (p : String × Json) : ℕ := strWeight ascii p.1 + weight ascii p.2 + 2

theorem utf8_length_cons {c : Char} (h : c.toNat < 128) (cs : List Char) :
    (utf8 (c :: cs)).length = (utf8 cs).length + 1 := by
  have hc : c.utf8Size = 1 := by
    rw [Char.utf8Size_eq_one_iff, UInt32.le_iff_toNat_le]
    exact Nat.lt_succ_iff.1 h
  have h₁ : (utf8 [c]).length = 1 := by simp [utf8, hc]
  rw [utf8_cons, List.length_append, h₁, Nat.add_comm]

theorem utf8_length_append (cs ds : List Char) :
    (utf8 (cs ++ ds)).length = (utf8 cs).length + (utf8 ds).length := by
  rw [utf8_append, List.length_append]

theorem weight_str (ascii : Bool) (s : String) : weight ascii (.str s) = strWeight ascii s := by
  rw [weight, dumps, strWeight]

theorem utf8_dumpsFields (ascii : Bool) : ∀ kvs : Fields, kvs ≠ [] →
    (utf8 (dumpsFields ascii kvs)).length + 1 = (kvs.map (itemWeight ascii)).sum
  | [], h => absurd rfl h
  | [(k, x)], _ => by
    rw [dumpsFields, utf8_length_append, utf8_length_cons (by decide)]
    simp [itemWeight, strWeight, weight]; omega
  | (k, x) :: q :: kvs, _ => by
    have ih := utf8_dumpsFields ascii (q :: kvs) (by simp)
    rw [dumpsFields, utf8_length_append, utf8_length_append, utf8_length_cons (by decide),
      utf8_length_cons (by decide), List.map_cons, List.sum_cons, ← ih]
    simp only [itemWeight, strWeight, weight]; omega

theorem utf8_dumpsList (ascii : Bool) : ∀ xs : List Json, xs ≠ [] →
    (utf8 (dumpsList ascii xs)).length + 1 = (xs.map fun x => weight ascii x + 1).sum
  | [], h => absurd rfl h
  | [x], _ => by simp [dumpsList, weight]
  | x :: y :: xs, _ => by
    have ih := utf8_dumpsList ascii (y :: xs) (by simp)
    rw [dumpsList, utf8_length_append, utf8_length_cons (by decide), List.map_cons, List.sum_cons,
      ← ih]
    simp only [weight]; omega

theorem weight_obj (ascii : Bool) {kvs : Fields} (h : kvs ≠ []) :
    weight ascii (.obj kvs) = 1 + (kvs.map (itemWeight ascii)).sum := by
  rw [weight, dumps, utf8_length_cons (by decide), utf8_length_append,
    ← utf8_dumpsFields ascii kvs h, show (utf8 ['}']).length = 1 from rfl]
  omega

theorem weight_arr (ascii : Bool) {xs : List Json} (h : xs ≠ []) :
    weight ascii (.arr xs) = 1 + (xs.map fun x => weight ascii x + 1).sum := by
  rw [weight, dumps, utf8_length_cons (by decide), utf8_length_append,
    ← utf8_dumpsList ascii xs h, show (utf8 [']']).length = 1 from rfl]
  omega

/-! ## Plain text -/

/-- A printable ASCII character that is written as itself. -/
def plain (c : Char) : Bool :=
  0x20 ≤ c.toNat && c.toNat ≤ 0x7e && c.toNat != 0x22 && c.toNat != 0x5c

theorem escChar_plain (ascii : Bool) {c : Char} (h : plain c = true) : escChar ascii c = [c] := by
  simp only [plain, Bool.and_eq_true, decide_eq_true_iff, bne_iff_ne] at h
  obtain ⟨⟨⟨h₁, h₂⟩, h₃⟩, h₄⟩ := h
  unfold escChar
  rw [if_neg h₃, if_neg h₄, if_neg (by omega), if_neg (by omega), if_neg (by omega),
    if_neg (by omega), if_neg (by omega), if_neg (by omega), if_neg (by omega)]

theorem utf8_length_plain {cs : List Char} (h : ∀ c ∈ cs, plain c = true) :
    (utf8 cs).length = cs.length := by
  induction cs with
  | nil => rfl
  | cons c cs ih =>
    rw [List.forall_mem_cons] at h
    have hc : c.toNat < 128 := by
      have := h.1
      simp only [plain, Bool.and_eq_true, decide_eq_true_iff] at this
      omega
    rw [utf8_length_cons hc, ih h.2, List.length_cons]

/-- Plain text has no escapes. -/
theorem dumpsStr_plain (ascii : Bool) {s : String} (h : ∀ c ∈ s.toList, plain c = true) :
    dumpsStr ascii s = '"' :: (s.toList ++ ['"']) := by
  have hesc : ∀ cs : List Char, (∀ c ∈ cs, plain c = true) → cs.flatMap (escChar ascii) = cs := by
    intro cs hcs
    induction cs with
    | nil => rfl
    | cons c cs ih =>
      rw [List.forall_mem_cons] at hcs
      rw [List.flatMap_cons, escChar_plain ascii hcs.1, ih hcs.2]
      rfl
  rw [dumpsStr, chars_eq, hesc _ h]

/-- Plain text grows by its quotes. -/
theorem strWeight_plain (ascii : Bool) {s : String} (h : ∀ c ∈ s.toList, plain c = true) :
    strWeight ascii s = s.length + 2 := by
  rw [strWeight, dumpsStr_plain ascii h, utf8_length_cons (by decide), utf8_length_append,
    utf8_length_plain h, String.length_toList]
  rfl

/-! ## Bounds -/

theorem utf8_escChar_le (c : Char) : (utf8 (escChar false c)).length ≤ 6 := by
  have hc : (utf8 [c]).length ≤ 6 := by
    have := c.utf8Size_le_four
    simp [utf8]; omega
  have hd : ∀ d < 16, (Nat.digitChar d).toNat < 128 := by decide
  have hm : ∀ n, (Nat.digitChar (n % 16)).toNat < 128 := fun n => hd _ (Nat.mod_lt _ (by decide))
  have hx : (utf8 (hexEsc c.toNat)).length = 6 := by
    rw [hexEsc, utf8_length_cons (by decide), utf8_length_cons (by decide), utf8_length_cons (hm _),
      utf8_length_cons (hm _), utf8_length_cons (hm _), utf8_length_cons (hm _)]
    rfl
  unfold escChar
  split_ifs
  all_goals first | exact hc | exact hx.le | decide | simp_all

/-- A character takes at most six bytes. -/
theorem strWeight_le (s : String) : strWeight false s ≤ 6 * s.length + 2 := by
  have hesc : ∀ cs : List Char, (utf8 (cs.flatMap (escChar false))).length ≤ 6 * cs.length := by
    intro cs
    induction cs with
    | nil => simp [utf8]
    | cons c cs ih =>
      rw [List.flatMap_cons, utf8_length_append, List.length_cons]
      have := utf8_escChar_le c
      omega
  have h := hesc s.toList
  rw [String.length_toList] at h
  rw [strWeight, dumpsStr, chars_eq, utf8_length_cons (by decide), utf8_length_append,
    show (utf8 ['"']).length = 1 from rfl]
  omega

theorem length_le_utf8 (cs : List Char) : cs.length ≤ (utf8 cs).length := by
  induction cs with
  | nil => exact le_rfl
  | cons c cs ih =>
    have hc : 1 ≤ (utf8 [c]).length := by
      have := c.utf8Size_pos
      simp [utf8]
      omega
    rw [← List.singleton_append, utf8_length_append, List.length_append, List.length_singleton]
    omega

theorem utf8_le_escChar (c : Char) : (utf8 [c]).length ≤ (utf8 (escChar false c)).length := by
  have hsmall : c.toNat < 128 → (utf8 [c]).length = 1 := fun h => utf8_length_cons h []
  have hpos : ∀ d ds, 1 ≤ (utf8 (d :: ds)).length := by
    intro d ds
    have := length_le_utf8 (d :: ds)
    rw [List.length_cons] at this
    omega
  unfold escChar
  simp only [Bool.false_eq_true, false_and, if_false]
  -- what is escaped is one byte long
  split_ifs
  all_goals first
    | exact le_rfl
    | (rw [hsmall (by omega)]; exact hpos _ _)

/-- A text is not shorter with its quotes and escapes. -/
theorem utf8_le_strWeight (s : String) : (utf8 (chars s)).length ≤ strWeight false s := by
  have hcs : ∀ cs : List Char, (utf8 cs).length ≤ (utf8 (cs.flatMap (escChar false))).length := by
    intro cs
    induction cs with
    | nil => exact le_rfl
    | cons c cs ih =>
      have := utf8_le_escChar c
      rw [List.flatMap_cons, utf8_length_append, ← List.singleton_append, utf8_length_append]
      omega
  have := hcs (chars s)
  rw [strWeight, dumpsStr, utf8_length_cons (by decide), utf8_length_append]
  omega

/-- The digits of a number, and its sign. -/
theorem weight_int_digits_le (n : ℤ) :
    weight false (.int n) ≤ (Nat.toDigits 10 n.natAbs).length + 1 := by
  have hd : (utf8 (Nat.toDigits 10 n.natAbs)).length = (Nat.toDigits 10 n.natAbs).length := by
    refine utf8_length_plain fun c hc => ?_
    have hc := Nat.isDigit_of_mem_toDigits (by decide) (by decide) hc
    simp only [Char.isDigit, Bool.and_eq_true, decide_eq_true_eq, ge_iff_le,
      UInt32.le_iff_toNat_le] at hc
    change 48 ≤ c.toNat ∧ c.toNat ≤ 57 at hc
    simp only [plain, Bool.and_eq_true, decide_eq_true_eq, bne_iff_ne]; omega
  rw [weight, dumps, dumpsInt]
  split
  · rw [utf8_length_cons (by decide), hd]
  · rw [hd]; omega

theorem weight_int_le {n : ℤ} (h : (Json.int n).encodable = true) :
    weight false (.int n) ≤ maxIntDigits + 1 := by
  have hn := weight_int_digits_le n
  rw [Json.encodable, decide_eq_true_eq] at h
  omega

/-! ## Permutations -/

/-- The order of the items does not matter. -/
theorem weight_obj_perm (ascii : Bool) {xs ys : Fields} (h : xs.Perm ys) :
    weight ascii (.obj xs) = weight ascii (.obj ys) := by
  by_cases hx : xs = []
  · subst hx; rw [List.nil_perm.1 h]
  · have hy : ys ≠ [] := by rintro rfl; exact hx (List.perm_nil.1 h)
    rw [weight_obj ascii hx, weight_obj ascii hy, (h.map _).sum_eq]

/-- Sorting keys keeps the size. -/
theorem weight_norm (ascii : Bool) (j : Json) : weight ascii j.norm = weight ascii j := by
  induction j using Json.ind with
  | arr xs ih =>
    rw [Json.norm_arr]
    by_cases hx : xs = []
    · subst hx; rfl
    · rw [weight_arr ascii (by simpa using hx), weight_arr ascii hx, List.map_map]
      congr 2
      exact List.map_congr_left fun x hx => by rw [Function.comp_apply, ih x hx]
  | obj kvs ih =>
    rw [Json.norm_obj, weight_obj_perm ascii (List.perm_insertionSort _ _)]
    by_cases hx : kvs = []
    · subst hx; rfl
    · rw [weight_obj ascii (by simpa using hx), weight_obj ascii hx, List.map_map]
      congr 2
      exact List.map_congr_left fun p hp => by
        rw [Function.comp_apply, itemWeight, itemWeight, ih p hp]
  | _ => rfl

theorem one_le_weight (ascii : Bool) {v : Json} (h : v.encodable = true) : 1 ≤ weight ascii v := by
  obtain ⟨c, cs, hd, -⟩ := dumps_head ascii h
  have := c.utf8Size_pos
  rw [weight, hd, utf8_cons, List.length_append]
  simp [utf8]; omega

/-- The items of an object are the ones its keys read. -/
theorem perm_of_keysEq {kvs : Fields} {fs : List String} (hk : (kvs.map Prod.fst).Nodup)
    (hf : fs.Nodup) (h : Json.keysEq kvs fs = true) :
    kvs.Perm (fs.map fun f => (f, Json.get kvs f)) := by
  rw [Json.keysEq, Bool.and_eq_true, List.all_eq_true, List.all_eq_true] at h
  have hn : (fs.map fun f => (f, Json.get kvs f)).Nodup :=
    hf.map fun a b hab => (Prod.mk.inj hab).1
  refine (List.perm_ext_iff_of_nodup (List.Nodup.of_map _ hk) hn).2 fun p => ?_
  obtain ⟨k, v⟩ := p
  constructor
  · intro hp
    refine List.mem_map.2 ⟨k, by simpa using h.1 _ hp, ?_⟩
    rw [Json.get, Json.lookup_of_mem hk hp]; rfl
  · intro hp
    obtain ⟨f, hf', he⟩ := List.mem_map.1 hp
    cases he
    have ha := h.2 k hf'
    rw [List.any_eq_true] at ha
    obtain ⟨⟨k', w⟩, hq, hqe⟩ := ha
    cases beq_iff_eq.1 hqe
    rw [Json.get, Json.lookup_of_mem hk hq]; exact hq

end Py
