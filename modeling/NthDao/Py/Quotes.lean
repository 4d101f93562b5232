/-
  What the text of a value weighs inside another text.

  A text written by the encoder has no control characters, so each of its
  characters is written as itself but for quotes and backslashes.

  * `quotes cs` counts these;
  * `strWeight_of_dumps`: a text weighs its bytes, its quotes and two;
  * `quotes_dumps_arr`, `quotes_dumps_obj`: the quotes of a value from its parts.
-/
import NthDao.Py.Ascii
import NthDao.Py.Norm

namespace Py

/-- A character that is escaped by a backslash. -/
def quoted (c : Char) : Bool := c == '"' || c == '\\'

theorem quoted_iff {c : Char} : quoted c = true ↔ c.toNat = 0x22 ∨ c.toNat = 0x5c := by
  rw [quoted, Bool.or_eq_true, beq_iff_eq, beq_iff_eq, ← Char.toNat_inj, ← Char.toNat_inj]
  rfl

theorem quotes_nil : quotes [] = 0 := rfl

theorem quotes_cons (c : Char) (cs : List Char) :
    quotes (c :: cs) = quotes cs + if quoted c = true then 1 else 0 := List.countP_cons ..

/-- Text without control characters grows by its quotes. -/
theorem strWeight_eq_quotes {s : String} (h : ∀ c ∈ s.toList, 0x20 ≤ c.toNat) :
    strWeight false s = (utf8 s.toList).length + quotes s.toList + 2 := by
  have hesc : ∀ cs : List Char, (∀ c ∈ cs, 0x20 ≤ c.toNat) →
      (utf8 (cs.flatMap (escChar false))).length = (utf8 cs).length + quotes cs := by
    intro cs hcs
    induction cs with
    | nil => rfl
    | cons c cs ih =>
      rw [List.forall_mem_cons] at hcs
      have hc : (utf8 (escChar false c)).length =
          (utf8 [c]).length + if quoted c = true then 1 else 0 := by
        by_cases hq : quoted c = true
        · rw [if_pos hq]
          rw [quoted_iff] at hq
          have hlt : c.toNat < 128 := by omega
          rw [utf8_length_cons hlt]
          unfold escChar
          rcases hq with hq | hq
          · rw [if_pos hq]; rfl
          · rw [if_neg (by omega), if_pos hq]; rfl
        · rw [if_neg hq]
          rw [quoted_iff, not_or] at hq
          unfold escChar
          rw [if_neg hq.1, if_neg hq.2, if_neg (by omega), if_neg (by omega), if_neg (by omega),
            if_neg (by omega), if_neg (by omega), if_neg (by omega), if_neg (by simp)]
          rfl
      rw [List.flatMap_cons, utf8_length_append, hc, ih hcs.2, quotes_cons,
        show utf8 (c :: cs) = utf8 ([c] ++ cs) from rfl, utf8_length_append]
      omega
  rw [strWeight, dumpsStr, chars_eq, utf8_length_cons (by decide), utf8_length_append, hesc _ h]
  show (utf8 s.toList).length + quotes s.toList + 1 + 1 = _
  rfl

/-- A text that the encoder wrote weighs its bytes, its quotes and two. -/
theorem strWeight_of_dumps {v : Json} (hv : v.encodable = true) {s : String}
    (hs : s.toList = dumps false v) : strWeight false s = weight false v + quotes (dumps false v) + 2 := by
  rw [strWeight_eq_quotes (by rw [hs]; exact le_of_mem_dumps v hv), hs, weight]

/-! ## Quotes of a value -/

theorem quotes_escChar_le (c : Char) : quotes (escChar false c) ≤ 2 := by
  have hd : ∀ d < 16, quoted (Nat.digitChar d) = false := by decide
  have hm : ∀ n, quoted (Nat.digitChar (n % 16)) = false := fun n => hd _ (Nat.mod_lt _ (by decide))
  have hx : quotes (hexEsc c.toNat) ≤ 2 := by
    simp only [hexEsc, quotes_cons, quotes_nil, hm]
    decide
  unfold escChar
  split_ifs with h₁ h₂ h₃ h₄ h₅ h₆ h₇ h₈ h₉
  · decide
  · decide
  · decide
  · decide
  · decide
  · decide
  · decide
  · exact hx
  · exact absurd h₉.1 (by simp)
  · rw [quotes_cons, quotes_nil]
    split_ifs <;> omega

theorem quotes_dumpsStr_le (s : String) : quotes (dumpsStr false s) ≤ 2 + 2 * s.length := by
  have hesc : ∀ cs : List Char, quotes (cs.flatMap (escChar false)) ≤ 2 * cs.length := by
    intro cs
    induction cs with
    | nil => exact le_refl _
    | cons c cs ih =>
      have := quotes_escChar_le c
      rw [List.flatMap_cons, quotes_append, List.length_cons]
      omega
  have h := hesc s.toList
  rw [String.length_toList] at h
  rw [dumpsStr, chars_eq, quotes_cons, quotes_append]
  have h₁ : (if quoted '"' = true then 1 else 0) = 1 := rfl
  have h₂ : quotes ['"'] = 1 := rfl
  omega

/-- Plain text has the quotes around it. -/
theorem quotes_dumpsStr_plain {s : String} (h : ∀ c ∈ s.toList, plain c = true) :
    quotes (dumpsStr false s) = 2 := by
  have hzero : ∀ cs : List Char, (∀ c ∈ cs, plain c = true) → quotes cs = 0 := by
    intro cs hcs
    rw [quotes, List.countP_eq_zero]
    intro c hc
    have := hcs c hc
    simp only [plain, Bool.and_eq_true, bne_iff_ne] at this
    exact fun hq => (quoted_iff.1 hq).elim this.1.2 this.2
  rw [dumpsStr_plain false h, quotes_cons, quotes_append, hzero _ h]
  rfl

theorem quotes_dumps_arr (xs : List Json) :
    quotes (dumps false (.arr xs)) = (xs.map fun x => quotes (dumps false x)).sum := by
  have hlist : ∀ xs : List Json,
      quotes (dumpsList false xs) = (xs.map fun x => quotes (dumps false x)).sum := by
    intro xs
    induction xs with
    | nil => rfl
    | cons x xs ih =>
      cases xs with
      | nil => simp [dumpsList]
      | cons y ys =>
        rw [dumpsList, quotes_append, quotes_cons, ih, List.map_cons, List.sum_cons]
        simp [quoted]
  have hend : quotes [']'] = 0 := rfl
  rw [dumps, quotes_cons, quotes_append, hlist, hend]
  simp [quoted]

theorem quotes_dumps_obj (kvs : Fields) : quotes (dumps false (.obj kvs)) =
    (kvs.map fun p => quotes (dumpsStr false p.1) + quotes (dumps false p.2)).sum := by
  have hfields : ∀ kvs : Fields, quotes (dumpsFields false kvs) =
      (kvs.map fun p => quotes (dumpsStr false p.1) + quotes (dumps false p.2)).sum := by
    intro kvs
    induction kvs with
    | nil => rfl
    | cons p kvs ih =>
      obtain ⟨k, x⟩ := p
      cases kvs with
      | nil => simp [dumpsFields, quotes_append, quotes_cons, quoted]
      | cons q ps =>
        simp only [dumpsFields, quotes_append, quotes_cons, ih, List.map_cons, List.sum_cons]
        simp [quoted]
  have hend : quotes ['}'] = 0 := rfl
  rw [dumps, quotes_cons, quotes_append, hfields, hend]
  simp [quoted]

theorem quotes_dumps_int (n : ℤ) : quotes (dumps false (.int n)) = 0 := by
  have hdigits : quotes (Nat.toDigits 10 n.natAbs) = 0 := by
    rw [quotes, List.countP_eq_zero]
    intro c hc
    have h := Nat.isDigit_of_mem_toDigits (by decide) (by decide) hc
    simp only [Char.isDigit, Bool.and_eq_true, decide_eq_true_eq] at h
    have h₁ : 48 ≤ c.toNat := h.1
    have h₂ : c.toNat ≤ 57 := h.2
    intro hq
    rcases quoted_iff.1 hq with hq | hq <;> omega
  rw [dumps, dumpsInt]
  split_ifs
  · rw [quotes_cons, hdigits]; rfl
  · exact hdigits

/-- Sorting keys keeps the quotes. -/
theorem quotes_norm (j : Json) : quotes (dumps false j.norm) = quotes (dumps false j) := by
  induction j using Json.ind with
  | arr xs ih =>
    rw [Json.norm_arr, quotes_dumps_arr, quotes_dumps_arr, List.map_map]
    congr 1
    exact List.map_congr_left fun x hx => ih x hx
  | obj kvs ih =>
    rw [Json.norm_obj, quotes_dumps_obj, quotes_dumps_obj,
      ((List.perm_insertionSort _ _).map _).sum_eq, List.map_map]
    congr 1
    exact List.map_congr_left fun p hp => by rw [Function.comp_apply, ih p hp]
  | _ => rfl

end Py
