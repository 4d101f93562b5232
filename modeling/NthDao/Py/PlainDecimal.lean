/-
  Plain decimals: digits, and perhaps a point and more digits.

  * `Plain` is such a spelling, without a needless zero in front; `Plain.value` is the
    number it spells and `Plain.text` its text;
  * `decimalOfText_text`: `Decimal(s)` reads the number from the text;
  * `Plain.eq_of_value`: of the spellings of one number, one does not end in a zero.
-/
import Mathlib.Data.List.DropRight
import NthDao.Py.Decimal

namespace Py

/-! ## Digits -/

theorem digit_le {c : Char} (h : c.isDigit = true) : 48 ≤ c.toNat ∧ c.toNat ≤ 57 := by
  simp only [Char.isDigit, Bool.and_eq_true, decide_eq_true_eq, ge_iff_le,
    UInt32.le_iff_toNat_le] at h
  exact h

theorem digit_inj {c d : Char} (hc : c.isDigit = true) (hd : d.isDigit = true)
    (h : c.toNat - 48 = d.toNat - 48) : c = d := by
  have hc := digit_le hc
  have hd := digit_le hd
  exact Char.toNat_inj.1 (by omega)

theorem digit_ne_point {c : Char} (h : c.isDigit = true) : c ≠ '.' := by
  rintro rfl
  cases h

theorem ofDigitChars_cons_zero (c : Char) (cs : List Char) :
    Nat.ofDigitChars 10 (c :: cs) 0 =
      (c.toNat - 48) * 10 ^ cs.length + Nat.ofDigitChars 10 cs 0 := by
  rw [Nat.ofDigitChars_cons, Nat.ofDigitChars_eq_ofDigitChars_zero, Nat.mul_zero, Nat.zero_add,
    Nat.mul_comm]
  rfl

theorem ofDigitChars_append_zero (cs ds : List Char) :
    Nat.ofDigitChars 10 (cs ++ ds) 0 =
      Nat.ofDigitChars 10 cs 0 * 10 ^ ds.length + Nat.ofDigitChars 10 ds 0 := by
  rw [Nat.ofDigitChars_append, Nat.ofDigitChars_eq_ofDigitChars_zero, Nat.mul_comm]

theorem ofDigitChars_append_zeros (cs : List Char) (n : ℕ) :
    Nat.ofDigitChars 10 (cs ++ List.replicate n '0') 0 = Nat.ofDigitChars 10 cs 0 * 10 ^ n := by
  rw [Nat.ofDigitChars_append, Nat.ofDigitChars_replicate_zero, Nat.mul_comm]

theorem ofDigitChars_lt {cs : List Char} (h : ∀ c ∈ cs, c.isDigit = true) :
    Nat.ofDigitChars 10 cs 0 < 10 ^ cs.length := by
  induction cs with
  | nil => decide
  | cons c cs ih =>
    rw [List.forall_mem_cons] at h
    have hc := digit_le h.1
    have hcs := ih h.2
    have hle : (c.toNat - 48) * 10 ^ cs.length ≤ 9 * 10 ^ cs.length :=
      Nat.mul_le_mul_right _ (by omega)
    rw [ofDigitChars_cons_zero, List.length_cons, Nat.pow_succ]
    omega

/-- Division with remainder, read back. -/
theorem mul_add_inj {k a b v w : ℕ} (hv : v < k) (hw : w < k) (h : a * k + v = b * k + w) :
    a = b ∧ v = w := by
  have hk : 0 < k := by omega
  have hab : (a * k + v) / k = (b * k + w) / k := by rw [h]
  rw [Nat.mul_comm a, Nat.mul_comm b, Nat.mul_add_div hk, Nat.mul_add_div hk,
    Nat.div_eq_of_lt hv, Nat.div_eq_of_lt hw] at hab
  obtain rfl : a = b := hab
  exact ⟨rfl, by omega⟩

/-- As many digits of the same number are the same digits. -/
theorem ofDigitChars_inj {cs ds : List Char} (hc : ∀ c ∈ cs, c.isDigit = true)
    (hd : ∀ c ∈ ds, c.isDigit = true) (hlen : cs.length = ds.length)
    (h : Nat.ofDigitChars 10 cs 0 = Nat.ofDigitChars 10 ds 0) : cs = ds := by
  induction cs generalizing ds with
  | nil => exact (List.length_eq_zero_iff.1 hlen.symm).symm
  | cons c cs ih =>
    cases ds with
    | nil => cases hlen
    | cons d ds =>
      rw [List.forall_mem_cons] at hc hd
      have hlen' : cs.length = ds.length := Nat.succ.inj hlen
      rw [ofDigitChars_cons_zero, ofDigitChars_cons_zero, hlen'] at h
      obtain ⟨hcd, hval⟩ := mul_add_inj (hlen' ▸ ofDigitChars_lt hc.2) (ofDigitChars_lt hd.2) h
      rw [digit_inj hc.1 hd.1 hcd, ih hc.2 hd.2 hlen' hval]

/-- A digit in front that is no zero counts. -/
theorem pow_le_ofDigitChars {c : Char} {cs : List Char} (hc : c.isDigit = true) (h0 : c ≠ '0') :
    10 ^ cs.length ≤ Nat.ofDigitChars 10 (c :: cs) 0 := by
  have hpos : 1 ≤ c.toNat - 48 := by
    by_contra hlt
    exact h0 (digit_inj hc (by decide) (by
      show c.toNat - 48 = 0
      omega))
  rw [ofDigitChars_cons_zero]
  exact le_trans (Nat.le_mul_of_pos_left _ hpos) (Nat.le_add_right ..)

/-! ## Spellings -/

/-- Digits before a point and after it. -/
structure Plain where
  whole : List Char
  fraction : List Char
  whole_ne_nil : whole ≠ []
  whole_digits : ∀ c ∈ whole, c.isDigit = true
  whole_zero : whole.head? = some '0' → whole = ['0']
  fraction_digits : ∀ c ∈ fraction, c.isDigit = true

namespace Plain

@[ext] theorem ext {p q : Plain} (hw : p.whole = q.whole) (hf : p.fraction = q.fraction) :
    p = q := by
  cases p
  cases q
  cases hw
  cases hf
  rfl

/-- The characters. -/
def chars (p : Plain) : List Char :=
  p.whole ++ if p.fraction = [] then [] else '.' :: p.fraction

def text (p : Plain) : String := String.ofList p.chars

/-- All digits, as a number. -/
def num (p : Plain) : ℕ := Nat.ofDigitChars 10 (p.whole ++ p.fraction) 0

/-- The number that is spelled. -/
def value (p : Plain) : ℚ := p.num / 10 ^ p.fraction.length

/-- No digit can be left out. -/
def Canonical (p : Plain) : Prop := p.fraction.getLast? ≠ some '0'

theorem digits (p : Plain) : ∀ c ∈ p.whole ++ p.fraction, c.isDigit = true := by
  intro c hc
  rcases List.mem_append.1 hc with hc | hc
  · exact p.whole_digits c hc
  · exact p.fraction_digits c hc

theorem num_eq (p : Plain) :
    p.num = Nat.ofDigitChars 10 p.whole 0 * 10 ^ p.fraction.length +
      Nat.ofDigitChars 10 p.fraction 0 := ofDigitChars_append_zero ..

theorem mem_chars {p : Plain} {c : Char} (h : c ∈ p.chars) : c.isDigit = true ∨ c = '.' := by
  rw [chars, List.mem_append] at h
  rcases h with h | h
  · exact .inl (p.whole_digits c h)
  · split_ifs at h with hf
    · cases h
    · rcases List.mem_cons.1 h with h | h
      · exact .inr h
      · exact .inl (p.fraction_digits c h)

/-- The digits before the first point are the whole part. -/
theorem takeWhile_chars (p : Plain) : p.chars.takeWhile (· != '.') = p.whole := by
  have hw : ∀ c ∈ p.whole, (c != '.') = true := fun c hc => by
    simpa using digit_ne_point (p.whole_digits c hc)
  rw [chars, List.takeWhile_append_of_pos hw]
  split_ifs <;> simp

theorem dropWhile_chars (p : Plain) :
    p.chars.dropWhile (· != '.') = if p.fraction = [] then [] else '.' :: p.fraction := by
  have hw : ∀ c ∈ p.whole, (c != '.') = true := fun c hc => by
    simpa using digit_ne_point (p.whole_digits c hc)
  rw [chars, List.dropWhile_append_of_pos hw]
  split_ifs <;> simp

theorem text_inj {p q : Plain} (h : p.text = q.text) : p = q := by
  have hc : p.chars = q.chars := String.ofList_injective h
  have hd := hc ▸ dropWhile_chars p
  rw [dropWhile_chars] at hd
  refine Plain.ext ?_ ?_
  · rw [← takeWhile_chars p, ← takeWhile_chars q, hc]
  · split_ifs at hd with hq hp hp
    · rw [hp, hq]
    · exact ((List.cons.inj hd).2).symm

/-! ## One spelling of a number -/

/-- Two wholes of one number are as long. -/
theorem whole_length_le {p q : Plain}
    (h : Nat.ofDigitChars 10 p.whole 0 = Nat.ofDigitChars 10 q.whole 0) :
    p.whole.length ≤ q.whole.length := by
  have hlt : Nat.ofDigitChars 10 p.whole 0 < 10 ^ q.whole.length :=
    h ▸ ofDigitChars_lt q.whole_digits
  have hq : 0 < q.whole.length := List.length_pos_iff.2 q.whole_ne_nil
  obtain ⟨c, cs, hp⟩ := List.exists_cons_of_ne_nil p.whole_ne_nil
  by_cases h0 : c = '0'
  · rw [p.whole_zero (by rw [hp, h0]; rfl)]
    exact hq
  · have hle : 10 ^ cs.length ≤ Nat.ofDigitChars 10 (c :: cs) 0 :=
      pow_le_ofDigitChars (p.whole_digits c (by simp [hp])) h0
    rw [← hp] at hle
    have := (Nat.pow_lt_pow_iff_right (by decide : 1 < 10)).1 (lt_of_le_of_lt hle hlt)
    rw [hp, List.length_cons]
    omega

/-- Spellings with as many places are told apart by their digits. -/
theorem eq_of_num {p q : Plain} (hlen : p.fraction.length = q.fraction.length)
    (h : p.num = q.num) : p = q := by
  rw [num_eq, num_eq, hlen] at h
  obtain ⟨hw, hf⟩ := mul_add_inj (hlen ▸ ofDigitChars_lt p.fraction_digits)
    (ofDigitChars_lt q.fraction_digits) h
  have hlen' := le_antisymm (whole_length_le hw) (whole_length_le hw.symm)
  exact Plain.ext (ofDigitChars_inj p.whole_digits q.whole_digits hlen' hw)
    (ofDigitChars_inj p.fraction_digits q.fraction_digits hlen hf)

theorem num_mul_eq {p q : Plain} (h : p.value = q.value) :
    p.num * 10 ^ q.fraction.length = q.num * 10 ^ p.fraction.length := by
  have hp : (10 : ℚ) ^ p.fraction.length ≠ 0 := pow_ne_zero _ (by norm_num)
  have hq : (10 : ℚ) ^ q.fraction.length ≠ 0 := pow_ne_zero _ (by norm_num)
  rw [value, value, div_eq_div_iff hp hq] at h
  exact_mod_cast h

/-- The last digit is the remainder by ten. -/
theorem num_mod_ten {p : Plain} {c : Char} (h : p.fraction.getLast? = some c) :
    p.num % 10 = c.toNat - 48 := by
  obtain ⟨cs, hcs⟩ := List.getLast?_eq_some_iff.1 h
  have hc := digit_le (p.fraction_digits c (by simp [hcs]))
  have hone : Nat.ofDigitChars 10 [c] 0 = c.toNat - 48 := by
    rw [ofDigitChars_cons_zero]
    exact Nat.mul_one _
  rw [num, hcs, ← List.append_assoc, ofDigitChars_append_zero, hone]
  show (_ * 10 ^ 1 + (c.toNat - 48)) % 10 = c.toNat - 48
  omega

/-- With no zero at its end, a spelling has no more places than another one. -/
theorem length_fraction_le {p q : Plain} (hq : q.Canonical) (h : p.value = q.value) :
    q.fraction.length ≤ p.fraction.length := by
  by_contra hlt
  push Not at hlt
  obtain ⟨k, hk⟩ := Nat.exists_eq_add_of_lt hlt
  have hmul := num_mul_eq h
  rw [hk, add_assoc, pow_add, ← mul_assoc, mul_right_comm] at hmul
  -- the number has a zero at the last place, and the spelling does not
  have hten : q.num = p.num * 10 ^ (k + 1) :=
    (Nat.eq_of_mul_eq_mul_right (Nat.pow_pos (by decide)) hmul).symm
  have hne : q.fraction ≠ [] := fun he => by simp [he] at hlt
  have hlast := List.getLast?_eq_some_getLast hne
  have hmod := num_mod_ten hlast
  rw [hten, pow_succ, ← mul_assoc, Nat.mul_mod_left] at hmod
  have hzero : q.fraction.getLast hne = '0' :=
    digit_inj (q.fraction_digits _ (List.getLast_mem hne)) (by decide) hmod.symm
  exact hq (by rw [hlast, hzero])

/-- **A number has one spelling** that does not end in a zero. -/
theorem eq_of_value {p q : Plain} (hp : p.Canonical) (hq : q.Canonical)
    (h : p.value = q.value) : p = q := by
  have hlen := le_antisymm (length_fraction_le hp h.symm) (length_fraction_le hq h)
  have hmul := num_mul_eq h
  rw [hlen] at hmul
  exact eq_of_num hlen (Nat.eq_of_mul_eq_mul_right (Nat.pow_pos (by decide)) hmul)

/-! ## Reading -/

/-- A text without blanks and underscores is read as it stands. -/
theorem numericAscii_of_ascii {s : String}
    (h : ∀ c ∈ Py.chars s, isSpace c = false ∧ c ≠ '_' ∧ c.toNat ≤ 127 ∧ c.toNat ≠ 0) :
    numericAscii s = some (Py.chars s) := by
  have hdrop : ∀ cs : List Char, (∀ c ∈ cs, isSpace c = false) → cs.dropWhile isSpace = cs := by
    intro cs hcs
    cases cs with
    | nil => rfl
    | cons c cs => exact List.dropWhile_cons_of_neg (by simp [hcs c (by simp)])
  have hmap : ∀ cs : List Char, (∀ c ∈ cs, c.toNat ≤ 127 ∧ c.toNat ≠ 0) →
      (cs.mapM fun c => if c.toNat ≤ 127 then (if c.toNat = 0 then none else some c)
        else if isSpace c then some ' ' else (NthDao.TradeRules.decimalVal c).map Nat.digitChar) = some cs := by
    intro cs hcs
    induction cs with
    | nil => rfl
    | cons c cs ih =>
      rw [List.forall_mem_cons] at hcs
      rw [List.mapM_cons, ih hcs.2, if_pos hcs.1.1, if_neg hcs.1.2]
      rfl
  rw [numericAscii, hdrop _ fun c hc => (h c hc).1,
    hdrop _ fun c hc => (h c (List.mem_reverse.1 hc)).1, List.reverse_reverse,
    List.filter_eq_self.2 fun c hc => by simpa using (h c hc).2.1]
  exact hmap _ fun c hc => (h c hc).2.2

theorem scanDecimal_chars (p : Plain) :
    scanDecimal p.chars = some (p.num, -(p.fraction.length : ℤ)) := by
  have hE : ∀ c ∈ p.chars, (!(c == 'e' || c == 'E')) = true := by
    intro c hc
    rcases mem_chars hc with h | h
    · have := digit_le h
      rw [Bool.not_eq_true', Bool.or_eq_false_iff, beq_eq_false_iff_ne, beq_eq_false_iff_ne]
      constructor
      · rintro rfl
        exact absurd this.2 (by decide)
      · rintro rfl
        exact absurd this.2 (by decide)
    · subst h
      rfl
  have hmant : p.chars.takeWhile (fun c => !(c == 'e' || c == 'E')) = p.chars :=
    List.takeWhile_eq_self_iff.2 hE
  have hrest : p.chars.dropWhile (fun c => !(c == 'e' || c == 'E')) = [] :=
    List.dropWhile_eq_nil_iff.2 hE
  have hfrac : (if p.fraction = [] then [] else '.' :: p.fraction).drop 1 = p.fraction := by
    split_ifs with h
    · rw [h, List.drop_nil]
    · rfl
  have hall : (p.whole ++ p.fraction).all Char.isDigit = true := List.all_eq_true.2 p.digits
  have hne : (p.whole ++ p.fraction).isEmpty = false := by
    rw [List.isEmpty_eq_false_iff, ne_eq, List.append_eq_nil_iff]
    exact fun h => p.whole_ne_nil h.1
  simp only [scanDecimal, hmant, hrest, takeWhile_chars, dropWhile_chars, hfrac, hall, hne,
    Bool.not_true, Bool.or_self, Bool.false_eq_true, if_false, Option.map_some, zero_sub]
  rfl

theorem length_toDigits_num (p : Plain) :
    (Nat.toDigits 10 p.num).length ≤ p.whole.length + p.fraction.length := by
  have hpos : 0 < (p.whole ++ p.fraction).length := by
    rw [List.length_append]
    exact Nat.add_pos_left (List.length_pos_iff.2 p.whole_ne_nil) _
  have hlt := ofDigitChars_lt p.digits
  rw [← List.length_append]
  exact (Nat.length_toDigits_le_iff (by decide) hpos).2 hlt

theorem length_chars (p : Plain) :
    p.whole.length + p.fraction.length ≤ p.chars.length := by
  rw [chars, List.length_append]
  split_ifs with h
  · simp [h]
  · simp

/-- A text that starts with a digit is no name of infinity. -/
theorem decimalOfAscii_digit {c : Char} {cs : List Char} {coeff : ℕ} {exp : ℤ}
    (hc : c.isDigit = true) (hscan : scanDecimal (c :: cs) = some (coeff, exp))
    (hfits : decimalFits coeff exp = true) :
    decimalOfAscii (c :: cs) = some (.finite false coeff exp) := by
  obtain ⟨hl, hu⟩ := digit_le hc
  have hlower : c.toLower = c := by
    refine dif_neg ?_
    intro h
    exact absurd (le_trans (UInt32.le_iff_toNat_le.1 h.1) hu) (by decide)
  have hne : ∀ {d : Char}, d.isDigit = false → c ≠ d := by
    rintro d hd rfl
    rw [hc] at hd
    cases hd
  have hnan : (Py.chars "nan").isPrefixOf (c :: cs.map Char.toLower) = false := by
    show ('n' == c && _) = false
    rw [beq_eq_false_iff_ne.2 (hne rfl).symm, Bool.false_and]
  have hsnan : (Py.chars "snan").isPrefixOf (c :: cs.map Char.toLower) = false := by
    show ('s' == c && _) = false
    rw [beq_eq_false_iff_ne.2 (hne rfl).symm, Bool.false_and]
  have hinf : ¬(c :: cs.map Char.toLower = Py.chars "inf" ∨
      c :: cs.map Char.toLower = Py.chars "infinity") := by
    rintro (h | h)
    · exact hne (d := 'i') rfl (List.cons.inj h).1
    · exact hne (d := 'i') rfl (List.cons.inj h).1
  unfold decimalOfAscii
  split
  rename_i heq
  split at heq
  · exact absurd (List.cons.inj ‹_›).1 (hne rfl)
  · exact absurd (List.cons.inj ‹_›).1 (hne rfl)
  · cases heq
    simp only [List.map_cons, hlower, hnan, hsnan, if_neg hinf, Bool.false_and,
      Bool.false_eq_true, if_false, hscan, Option.bind_eq_bind, Option.bind_some, hfits, if_true]

theorem isSpace_of_digit {c : Char} (h : c.isDigit = true) : isSpace c = false := by
  obtain ⟨hl, hu⟩ := digit_le h
  simp only [isSpace, Bool.or_eq_false_iff, Bool.and_eq_false_imp, decide_eq_true_eq,
    decide_eq_false_iff_not, beq_eq_false_iff_ne]
  omega

/-- `Decimal(s)` of a plain decimal that is not too long for it. -/
theorem decimalOfText_text {p : Plain} (h : p.chars.length ≤ 999999999999999999) :
    decimalOfText p.text = some (.finite false p.num (-(p.fraction.length : ℤ))) := by
  have hchars : Py.chars p.text = p.chars := by rw [text, chars_eq, String.toList_ofList]
  have hascii : numericAscii p.text = some p.chars := by
    rw [← hchars]
    refine numericAscii_of_ascii fun c hc => ?_
    rw [hchars] at hc
    rcases mem_chars hc with hd | rfl
    · obtain ⟨hl, hu⟩ := digit_le hd
      refine ⟨isSpace_of_digit hd, ?_, by omega, by omega⟩
      rintro rfl
      cases hd
    · decide
  have hfits : decimalFits p.num (-(p.fraction.length : ℤ)) = true := by
    have hdigits := length_toDigits_num p
    have hlen := length_chars p
    simp only [decimalFits, Bool.and_eq_true, decide_eq_true_eq]
    omega
  obtain ⟨c, cs, hw⟩ := List.exists_cons_of_ne_nil p.whole_ne_nil
  have hcons : p.chars = c :: (cs ++ if p.fraction = [] then [] else '.' :: p.fraction) := by
    rw [chars, hw, List.cons_append]
  rw [decimalOfText, hascii, Option.bind_some, hcons]
  exact decimalOfAscii_digit (p.whole_digits c (by simp [hw])) (hcons ▸ scanDecimal_chars p) hfits

/-- What `Decimal(s)` reads is the number of the spelling. -/
theorem value_decimalOfText {p : Plain} (h : p.chars.length ≤ 999999999999999999) :
    (decimalOfText p.text).map Decimal.value = some p.value := by
  rw [decimalOfText_text h, Option.map_some, Decimal.value, Decimal.signed, value,
    zpow_neg, zpow_natCast, div_eq_mul_inv]
  norm_num

end Plain

end Py
