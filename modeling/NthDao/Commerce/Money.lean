/-
  Amounts in minor units (`commerce/money.py`).

  An amount is written as a plain decimal and kept as a whole number of the currency's
  least unit.

  * `decimalToMinor` and `minorToDecimal` are the two conversions;
  * `decimalToMinor_text_iff` says what is accepted: the spellings with no more places
    than the currency has, as the number they spell;
  * `minorToDecimal_eq` says what is written: the canonical spelling.
-/
import NthDao.Py.Check
import NthDao.Py.PlainDecimal

namespace NthDao.Commerce

open Py

def assetDecimals : String → Option ℕ
  | "USDC" => some 6
  | "NTH-TEST" => some 6
  | "credit" => some 0
  | _ => none

def maxMinorAmount : ℕ := 2 ^ 63 - 1
def maxAmountTextChars : ℕ := 96

/-- An amount as it is passed: a `str`, a `Decimal` or a value of another type. -/
inductive Amount where
  | text (s : String)
  | decimal (d : Decimal)
  | other
  deriving DecidableEq, Repr

/-- `_PLAIN_DECIMAL.fullmatch`. -/
def isPlainDecimal (cs : List Char) : Bool :=
  (match cs.takeWhile (· != '.') with
    | [] => false
    | c :: r => (c :: r).all Char.isDigit && (c != '0' || r.isEmpty)) &&
  (match cs.dropWhile (· != '.') with
    | [] => true
    | _ :: fraction => !fraction.isEmpty && fraction.all Char.isDigit)

/-- `_decimal_parts`. -/
def decimalParts (value : Amount) : Except String (List Char × List Char) := do
  let text ← match value with
    | .text s => .ok s
    | .decimal d => .ok d.str
    | .other => .error "amount must be a plain decimal string or Decimal"
  require ((chars text).length ≤ maxAmountTextChars) "amount text is too long"
  require (isPlainDecimal (chars text)) "amount must use unsigned plain-decimal notation"
  -- `text.partition(".")`
  return ((chars text).takeWhile (· != '.'), ((chars text).dropWhile (· != '.')).drop 1)

variable (isprintable : Char → Bool)

/-- The places of a supported currency. -/
def placesOf (currency : String) : Except String ℕ :=
  expect (assetDecimals currency)
    ("unsupported currency: " ++ String.ofList (reprStr isprintable currency))

/-- `decimal_to_minor`. -/
def decimalToMinor (value : Amount) (currency : String) (requirePositive : Bool) :
    Except String ℕ := do
  let decimals ← placesOf isprintable currency
  let (whole, fraction) ← decimalParts value
  require (fraction.length ≤ decimals)
    ("amount has more than " ++ toString decimals ++ " fractional digits")
  let amountMinor := Nat.ofDigitChars 10 whole 0 * 10 ^ decimals +
    if fraction.isEmpty then 0
    else Nat.ofDigitChars 10 (fraction ++ List.replicate (decimals - fraction.length) '0') 0
  require (amountMinor ≤ maxMinorAmount) "amount exceeds the supported minor-unit range"
  require (!(requirePositive && amountMinor == 0)) "amount must be positive"
  return amountMinor

/-- `f"{n:0{width}d}"`. -/
def zeroPadded (width n : ℕ) : List Char :=
  List.replicate (width - (Nat.toDigits 10 n).length) '0' ++ Nat.toDigits 10 n

/-- `minor_to_decimal`. -/
def minorToDecimal (amountMinor : Json) (currency : String) : Except String String := do
  let decimals ← placesOf isprintable currency
  let amount ← match amountMinor with
    | .int n => .ok n
    | _ => .error "minor amount must be an integer"
  require (0 ≤ amount) "minor amount must be non-negative"
  require (amount ≤ maxMinorAmount) "minor amount exceeds the supported range"
  if decimals = 0 then return toString amount
  let whole := amount.toNat / 10 ^ decimals
  let fraction := amount.toNat % 10 ^ decimals
  if fraction = 0 then return toString whole
  -- `.rstrip("0")`
  return String.ofList ((Nat.toDigits 10 whole ++ '.' :: zeroPadded decimals fraction).rdropWhile
    (· == '0'))

/-! ## Reading an amount -/

/-- The pattern accepts the plain decimals. -/
theorem isPlainDecimal_chars (p : Plain) : isPlainDecimal p.chars = true := by
  rw [isPlainDecimal, p.takeWhile_chars, p.dropWhile_chars, Bool.and_eq_true]
  constructor
  · obtain ⟨c, cs, hw⟩ := List.exists_cons_of_ne_nil p.whole_ne_nil
    have hall : (c :: cs).all Char.isDigit = true := List.all_eq_true.2 (hw ▸ p.whole_digits)
    have hzero : (c != '0' || cs.isEmpty) = true := by
      by_cases h0 : c = '0'
      · have := p.whole_zero (by rw [hw, h0]; rfl)
        rw [hw] at this
        rw [(List.cons.inj this).2]
        simp
      · simp [h0]
    simp only [hw]
    rw [hall, hzero, Bool.and_self]
  · split_ifs with hf
    · rfl
    · show (!p.fraction.isEmpty && p.fraction.all Char.isDigit) = true
      rw [List.all_eq_true.2 p.fraction_digits, List.isEmpty_eq_false_iff.2 hf]
      rfl

/-- A text that the pattern accepts is a plain decimal. -/
theorem exists_plain {cs : List Char} (h : isPlainDecimal cs = true) :
    ∃ p : Plain, p.chars = cs := by
  rw [isPlainDecimal, Bool.and_eq_true] at h
  obtain ⟨hw, hf⟩ := h
  have hcs : cs.takeWhile (· != '.') ++ cs.dropWhile (· != '.') = cs :=
    List.takeWhile_append_dropWhile
  cases hwhole : cs.takeWhile (· != '.') with
  | nil =>
    rw [hwhole] at hw
    cases hw
  | cons c r =>
    rw [hwhole, Bool.and_eq_true, Bool.or_eq_true, bne_iff_ne, List.isEmpty_iff] at hw
    have hdigits : ∀ d ∈ c :: r, d.isDigit = true := List.all_eq_true.1 hw.1
    have hzero : (c :: r).head? = some '0' → c :: r = ['0'] := by
      intro h0
      obtain rfl : c = '0' := Option.some.inj h0
      rw [hw.2.resolve_left (fun h => h rfl)]
    cases hrest : cs.dropWhile (· != '.') with
    | nil =>
      refine ⟨⟨c :: r, [], List.cons_ne_nil _ _, hdigits, hzero, by simp⟩, ?_⟩
      rw [← hcs, hwhole, hrest]
      rfl
    | cons d fraction =>
      rw [hrest, Bool.and_eq_true, Bool.not_eq_true', List.isEmpty_eq_false_iff] at hf
      have hd : d = '.' := by
        have := List.head?_dropWhile_not (· != '.') cs
        rw [hrest] at this
        simpa using this
      refine ⟨⟨c :: r, fraction, List.cons_ne_nil _ _, hdigits, hzero,
        List.all_eq_true.1 hf.2⟩, ?_⟩
      rw [← hcs, hwhole, hrest, hd, Plain.chars, if_neg hf.1]

/-- `_decimal_parts` accepts the texts of plain decimals that are not too long. -/
theorem decimalParts_text_iff {s : String} {parts : List Char × List Char} :
    decimalParts (.text s) = .ok parts ↔ ∃ p : Plain, p.text = s ∧
      p.chars.length ≤ maxAmountTextChars ∧ parts = (p.whole, p.fraction) := by
  simp only [decimalParts, unit_bind_eq_ok, require_eq_ok, ok_bind, decide_eq_true_eq, pure_eq_ok]
  constructor
  · rintro ⟨hlen, hplain, rfl⟩
    obtain ⟨p, hp⟩ := exists_plain hplain
    refine ⟨p, by rw [Plain.text, hp, chars_eq, String.ofList_toList], hp ▸ hlen, ?_⟩
    rw [← hp, p.takeWhile_chars, p.dropWhile_chars]
    split_ifs with hf
    · rw [hf]; rfl
    · rfl
  · rintro ⟨p, rfl, hlen, rfl⟩
    have hchars : chars p.text = p.chars := by rw [Plain.text, chars_eq, String.toList_ofList]
    rw [hchars, p.takeWhile_chars, p.dropWhile_chars]
    refine ⟨hlen, isPlainDecimal_chars p, ?_⟩
    split_ifs with hf
    · rw [hf]; rfl
    · rfl

/-- The digits of an amount at the places of the currency. -/
theorem ofDigitChars_parts (p : Plain) {decimals : ℕ} (h : p.fraction.length ≤ decimals) :
    (Nat.ofDigitChars 10 p.whole 0 * 10 ^ decimals +
      if p.fraction.isEmpty then 0
      else Nat.ofDigitChars 10 (p.fraction ++ List.replicate (decimals - p.fraction.length) '0') 0) =
      p.num * 10 ^ (decimals - p.fraction.length) := by
  have hpow : 10 ^ decimals = 10 ^ p.fraction.length * 10 ^ (decimals - p.fraction.length) := by
    rw [← Nat.pow_add, Nat.add_sub_cancel' h]
  rw [ofDigitChars_append_zeros, p.num_eq, Nat.add_mul, Nat.mul_assoc, ← hpow]
  split_ifs with hf
  · rw [List.isEmpty_iff.1 hf, Nat.ofDigitChars_nil, Nat.zero_mul]
  · rfl

/-- The number at the places of the currency. -/
theorem num_eq_iff (p : Plain) {decimals n : ℕ} (h : p.fraction.length ≤ decimals) :
    p.num * 10 ^ (decimals - p.fraction.length) = n ↔ p.value = n / 10 ^ decimals := by
  have hd : (10 : ℚ) ^ decimals ≠ 0 := pow_ne_zero _ (by norm_num)
  have hf : (10 : ℚ) ^ p.fraction.length ≠ 0 := pow_ne_zero _ (by norm_num)
  have hpow : (10 : ℚ) ^ decimals =
      10 ^ (decimals - p.fraction.length) * 10 ^ p.fraction.length := by
    rw [← pow_add, Nat.sub_add_cancel h]
  rw [Plain.value, div_eq_div_iff hf hd, hpow, ← mul_assoc, mul_right_cancel_iff_of_pos (by positivity)]
  exact_mod_cast Iff.rfl

variable {isprintable}

/-- **What is accepted**: a plain decimal that is not too long, with no more places than the
    currency has, as the number that it spells. -/
theorem decimalToMinor_text_iff {currency : String} {decimals : ℕ}
    (hc : assetDecimals currency = some decimals) {s : String} {pos : Bool} {n : ℕ} :
    decimalToMinor isprintable (.text s) currency pos = .ok n ↔ ∃ p : Plain, p.text = s ∧
      p.chars.length ≤ maxAmountTextChars ∧ p.fraction.length ≤ decimals ∧
      p.value = n / 10 ^ decimals ∧ n ≤ maxMinorAmount ∧ (pos = true → n ≠ 0) := by
  have hplaces : placesOf isprintable currency = .ok decimals := by
    rw [placesOf, hc]
    rfl
  simp only [decimalToMinor, hplaces, ok_bind, bind_eq_ok, require_eq_ok, decide_eq_true_eq,
    pure_eq_ok, decimalParts_text_iff]
  constructor
  · rintro ⟨_, ⟨p, rfl, hlen, rfl⟩, -, hfrac, -, hmax, -, hpos, hn⟩
    rw [ofDigitChars_parts p hfrac] at hmax hpos hn
    refine ⟨p, rfl, hlen, hfrac, (num_eq_iff p hfrac).1 hn, hn ▸ hmax, ?_⟩
    rintro rfl rfl
    simp [hn] at hpos
  · rintro ⟨p, rfl, hlen, hfrac, hval, hmax, hpos⟩
    have hn := (num_eq_iff p hfrac).2 hval
    refine ⟨(p.whole, p.fraction), ⟨p, rfl, hlen, rfl⟩, (), hfrac, (), ?_⟩
    rw [ofDigitChars_parts p hfrac, hn]
    refine ⟨hmax, (), ?_, rfl⟩
    cases pos with
    | false => rfl
    | true => simpa using hpos rfl

/-! ## Writing an amount -/

/-- Zeros at the end of a text stop at a point. -/
theorem rdropWhile_point (cs ds : List Char) :
    (cs ++ '.' :: ds).rdropWhile (· == '0') = cs ++ '.' :: ds.rdropWhile (· == '0') := by
  have hp : (cs ++ ['.']).rdropWhile (· == '0') = cs ++ ['.'] :=
    List.rdropWhile_concat_neg _ _ _ (by decide)
  have hsplit : cs ++ '.' :: ds = (cs ++ ['.']) ++ ds := by simp
  rw [hsplit, List.rdropWhile, List.reverse_append, List.dropWhile_append]
  split_ifs with h
  · have hnil : ds.rdropWhile (· == '0') = [] := by
      rw [List.rdropWhile, List.isEmpty_iff.1 h, List.reverse_nil]
    rw [hnil]
    exact hp
  · rw [List.reverse_append, List.reverse_reverse, List.append_assoc]
    rfl

/-- A text is its part without zeros at the end, and these zeros. -/
theorem exists_rdropWhile (ds : List Char) :
    ∃ k, ds = ds.rdropWhile (· == '0') ++ List.replicate k '0' := by
  refine ⟨(ds.rtakeWhile (· == '0')).length, ?_⟩
  have hall : ∀ c ∈ ds.rtakeWhile (· == '0'), c = '0' := fun c hc =>
    beq_iff_eq.1 (List.mem_rtakeWhile_imp (p := (· == '0')) hc)
  rw [← List.eq_replicate_of_mem hall, List.rdropWhile_append_rtakeWhile]

theorem isDigit_of_mem_zeroPadded {width n : ℕ} {c : Char} (h : c ∈ zeroPadded width n) :
    c.isDigit = true := by
  rcases List.mem_append.1 h with h | h
  · rw [List.eq_of_mem_replicate h]
    rfl
  · exact Nat.isDigit_of_mem_toDigits (by decide) (by decide) h

theorem length_zeroPadded {width n : ℕ} (hw : 0 < width) (h : n < 10 ^ width) :
    (zeroPadded width n).length = width := by
  have := (Nat.length_toDigits_le_iff (n := n) (by decide : 1 < 10) hw).2 h
  rw [zeroPadded, List.length_append, List.length_replicate]
  omega

theorem ofDigitChars_zeroPadded (width n : ℕ) : Nat.ofDigitChars 10 (zeroPadded width n) 0 = n := by
  rw [zeroPadded, Nat.ofDigitChars_append, Nat.ofDigitChars_replicate_zero, Nat.mul_zero,
    Nat.ofDigitChars_ten_toDigits]

/-- A whole number as a spelling. -/
theorem toDigits_zero {n : ℕ} (h : (Nat.toDigits 10 n).head? = some '0') :
    Nat.toDigits 10 n = ['0'] := by
  by_cases h0 : n = 0
  · rw [h0]
    rfl
  · exact absurd h (head_toDigits h0)

/-- The spelling of an amount: the digits before the places of the currency, and those at
    the places without the zeros at their end. -/
def canonicalSpelling (n decimals : ℕ) : Plain where
  whole := Nat.toDigits 10 (n / 10 ^ decimals)
  fraction := (zeroPadded decimals (n % 10 ^ decimals)).rdropWhile (· == '0')
  whole_ne_nil := Nat.toDigits_ne_nil
  whole_digits := fun _ hc => Nat.isDigit_of_mem_toDigits (by decide) (by decide) hc
  whole_zero := toDigits_zero
  fraction_digits := fun _ hc =>
    isDigit_of_mem_zeroPadded ((List.rdropWhile_prefix _ _).subset hc)

theorem canonicalSpelling_canonical (n decimals : ℕ) :
    (canonicalSpelling n decimals).Canonical := by
  intro h
  have hne : (canonicalSpelling n decimals).fraction ≠ [] := fun he => by simp [he] at h
  have hlast := List.rdropWhile_last_not _ _ hne
  rw [List.getLast?_eq_some_getLast hne] at h
  exact hlast (by rw [beq_iff_eq]; exact Option.some.inj h)

theorem fraction_spelling_zero (n : ℕ) : (canonicalSpelling n 0).fraction = [] := by
  show (zeroPadded 0 (n % 1)).rdropWhile (· == '0') = []
  rw [Nat.mod_one]
  rfl

/-- The digits at the places, and as many zeros as were left out. -/
theorem exists_fraction (n : ℕ) {decimals : ℕ} (h : 0 < decimals) :
    ∃ k, (canonicalSpelling n decimals).fraction.length + k = decimals ∧
      Nat.ofDigitChars 10 (canonicalSpelling n decimals).fraction 0 * 10 ^ k =
        n % 10 ^ decimals := by
  obtain ⟨k, hk⟩ := exists_rdropWhile (zeroPadded decimals (n % 10 ^ decimals))
  have hlt : n % 10 ^ decimals < 10 ^ decimals := Nat.mod_lt _ (Nat.pow_pos (by decide))
  refine ⟨k, ?_, ?_⟩
  · have := congrArg List.length hk
    rw [length_zeroPadded h hlt, List.length_append, List.length_replicate] at this
    exact this.symm
  · rw [← ofDigitChars_append_zeros]
    exact (congrArg (Nat.ofDigitChars 10 · 0) hk).symm.trans (ofDigitChars_zeroPadded ..)

theorem length_fraction_spelling (n decimals : ℕ) :
    (canonicalSpelling n decimals).fraction.length ≤ decimals := by
  rcases Nat.eq_zero_or_pos decimals with rfl | h
  · rw [fraction_spelling_zero]
    exact le_rfl
  · obtain ⟨k, hk, -⟩ := exists_fraction n h
    omega

theorem ofDigitChars_whole (n decimals : ℕ) :
    Nat.ofDigitChars 10 (canonicalSpelling n decimals).whole 0 = n / 10 ^ decimals :=
  Nat.ofDigitChars_ten_toDigits

theorem canonicalSpelling_value (n decimals : ℕ) :
    (canonicalSpelling n decimals).value = n / 10 ^ decimals := by
  rw [← num_eq_iff _ (length_fraction_spelling n decimals), Plain.num_eq, ofDigitChars_whole]
  rcases Nat.eq_zero_or_pos decimals with rfl | h
  · rw [fraction_spelling_zero, Nat.ofDigitChars_nil]
    simp
  · obtain ⟨k, hlen, hk⟩ := exists_fraction n h
    have hsub : decimals - (canonicalSpelling n decimals).fraction.length = k := by omega
    rw [hsub, Nat.add_mul, hk, Nat.mul_assoc, ← Nat.pow_add, hlen, Nat.mul_comm]
    exact Nat.div_add_mod ..

/-- **What is written**: the canonical spelling. -/
theorem minorToDecimal_eq {currency : String} {decimals : ℕ}
    (hc : assetDecimals currency = some decimals) {n : ℕ} (hn : n ≤ maxMinorAmount) :
    minorToDecimal isprintable (.int n) currency = .ok (canonicalSpelling n decimals).text := by
  have hplaces : placesOf isprintable currency = .ok decimals := by
    rw [placesOf, hc]
    rfl
  have hmax : ((n : ℤ) ≤ (maxMinorAmount : ℕ)) := by exact_mod_cast hn
  have hwhole : ∀ {d : ℕ}, (canonicalSpelling n d).fraction = [] →
      toString (n / 10 ^ d) = (canonicalSpelling n d).text := by
    intro d hf
    rw [Plain.text, Plain.chars, if_pos hf, List.append_nil]
    exact Nat.toString_eq_ofList_toDigits
  simp only [minorToDecimal, hplaces, ok_bind, require, Int.natCast_nonneg, hmax, decide_true,
    if_true, Int.toNat_natCast]
  split_ifs with hd hf
  · subst hd
    rw [← hwhole (fraction_spelling_zero n), Nat.pow_zero, Nat.div_one]
    rfl
  · refine congrArg Except.ok (hwhole ?_)
    obtain ⟨k, -, hk⟩ := exists_fraction n (Nat.pos_of_ne_zero hd)
    show (zeroPadded decimals (n % 10 ^ decimals)).rdropWhile (· == '0') = []
    rw [hf, List.rdropWhile_eq_nil_iff]
    intro c hc
    rcases List.mem_append.1 hc with hc | hc
    · rw [List.eq_of_mem_replicate hc]
      rfl
    · rw [Nat.toDigits_zero, List.mem_singleton] at hc
      rw [hc]
      rfl
  · have hne : (canonicalSpelling n decimals).fraction ≠ [] := by
      intro he
      obtain ⟨k, -, hk⟩ := exists_fraction n (Nat.pos_of_ne_zero hd)
      rw [he, Nat.ofDigitChars_nil, Nat.zero_mul] at hk
      exact hf hk.symm
    rw [rdropWhile_point, Plain.text, Plain.chars, if_neg hne]
    rfl

theorem assetDecimals_le {currency : String} {decimals : ℕ}
    (hc : assetDecimals currency = some decimals) : decimals ≤ 6 := by
  unfold assetDecimals at hc
  split at hc <;> cases hc <;> decide

/-- The spelling of an amount is not too long. -/
theorem length_canonicalSpelling {n decimals : ℕ} (hn : n ≤ maxMinorAmount) (hd : decimals ≤ 6) :
    (canonicalSpelling n decimals).chars.length ≤ maxAmountTextChars := by
  have hlt : n / 10 ^ decimals < 10 ^ 19 :=
    lt_of_le_of_lt (Nat.div_le_self ..) (lt_of_le_of_lt hn (by decide))
  have hw : (canonicalSpelling n decimals).whole.length ≤ 19 :=
    (Nat.length_toDigits_le_iff (by decide) (by decide)).2 hlt
  have hf := length_fraction_spelling n decimals
  have hm : maxAmountTextChars = 96 := rfl
  rw [Plain.chars, List.length_append]
  split_ifs with h
  · rw [List.length_nil]
    omega
  · rw [List.length_cons]
    omega

/-! ## Both ways -/

theorem decimalToMinor_canonical {currency : String} {decimals n : ℕ}
    (hc : assetDecimals currency = some decimals) (hn : n ≤ maxMinorAmount) :
    decimalToMinor isprintable (.text (canonicalSpelling n decimals).text) currency false = .ok n :=
  (decimalToMinor_text_iff hc).2 ⟨_, rfl, length_canonicalSpelling hn (assetDecimals_le hc),
    length_fraction_spelling .., canonicalSpelling_value .., hn, fun h => by cases h⟩

/-- A number that is read from an accepted text is that of its plain spelling. -/
theorem value_of_accepted {currency : String} {decimals : ℕ}
    (hc : assetDecimals currency = some decimals) {s : String} {pos : Bool} {n : ℕ}
    (h : decimalToMinor isprintable (.text s) currency pos = .ok n) :
    (decimalOfText s).map Decimal.value = some ((n : ℚ) / 10 ^ decimals) := by
  obtain ⟨p, rfl, hlen, -, hval, -⟩ := (decimalToMinor_text_iff hc).1 h
  rw [Plain.value_decimalOfText (hlen.trans (by decide)), hval]

/-- **Money conversion is exact and canonical.**  An amount reads back from what is written of
    it; an accepted text is worth just the amount, and what is written of that is the one
    spelling of the number without a zero at its end; a text with more places than the
    currency has, or of a number out of range, is refused. -/
theorem money_exact_canonical {currency : String} {decimals : ℕ}
    (hc : assetDecimals currency = some decimals) :
    (∀ n ≤ maxMinorAmount, ∃ s, minorToDecimal isprintable (.int n) currency = .ok s ∧
      decimalToMinor isprintable (.text s) currency false = .ok n) ∧
    (∀ s pos n, decimalToMinor isprintable (.text s) currency pos = .ok n →
      (decimalOfText s).map Decimal.value = some ((n : ℚ) / 10 ^ decimals) ∧
      ∃ q : Plain, minorToDecimal isprintable (.int n) currency = .ok q.text ∧ q.Canonical ∧
        q.value = n / 10 ^ decimals ∧
        ∀ q' : Plain, q'.Canonical → q'.value = n / 10 ^ decimals → q' = q) ∧
    (∀ (p : Plain) pos, decimals < p.fraction.length →
      ∃ e, decimalToMinor isprintable (.text p.text) currency pos = .error e) ∧
    ∀ s d pos, decimalOfText s = some d →
      (¬ ∃ n ≤ maxMinorAmount, d.value = (n : ℚ) / 10 ^ decimals) →
      ∃ e, decimalToMinor isprintable (.text s) currency pos = .error e := by
  have refused : ∀ {s : String} {pos : Bool},
      (∀ n, decimalToMinor isprintable (.text s) currency pos ≠ .ok n) →
      ∃ e, decimalToMinor isprintable (.text s) currency pos = .error e := by
    intro s pos h
    cases he : decimalToMinor isprintable (.text s) currency pos with
    | error e => exact ⟨e, rfl⟩
    | ok n => exact absurd he (h n)
  refine ⟨fun n hn => ?_, fun s pos n h => ?_, fun p pos hp => ?_, fun s d pos hs hd => ?_⟩
  · exact ⟨_, minorToDecimal_eq hc hn, decimalToMinor_canonical hc hn⟩
  · obtain ⟨p, -, -, -, -, hn, -⟩ := (decimalToMinor_text_iff hc).1 h
    refine ⟨value_of_accepted hc h, _, minorToDecimal_eq hc hn, canonicalSpelling_canonical _ _,
      canonicalSpelling_value .., fun q hq hval => ?_⟩
    exact Plain.eq_of_value hq (canonicalSpelling_canonical _ _)
      (hval.trans (canonicalSpelling_value ..).symm)
  · refine refused fun n h => ?_
    obtain ⟨q, hq, -, hfrac, -⟩ := (decimalToMinor_text_iff hc).1 h
    rw [Plain.text_inj hq] at hfrac
    omega
  · refine refused fun n h => hd ⟨n, ?_, ?_⟩
    · obtain ⟨p, -, -, -, -, hn, -⟩ := (decimalToMinor_text_iff hc).1 h
      exact hn
    · have := value_of_accepted hc h
      rw [hs] at this
      exact Option.some.inj this

/-- The theorem at an amount in USDC. -/
theorem money_exact_canonical_usdc :
    ∃ s, minorToDecimal Char.isAlphanum (.int (50000001 : ℕ)) "USDC" = .ok s ∧
      decimalToMinor Char.isAlphanum (.text s) "USDC" false = .ok 50000001 :=
  (money_exact_canonical (show assetDecimals "USDC" = some 6 from rfl)).1 50000001 (by decide)

example : minorToDecimal Char.isAlphanum (.int 50000001) "USDC" = .ok "50.000001" := by decide

end NthDao.Commerce
