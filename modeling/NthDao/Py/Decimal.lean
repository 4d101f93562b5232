/-
  `decimal.Decimal`: reading, comparison and text.

  * `decimalOfText` is `Decimal(s)` for a `str`, `none` where it raises
    `InvalidOperation`; `decimalOf` takes the other values too;
  * `Decimal.value` is the rational number of a finite one, and `le_iff`,
    `isPositive_iff` compare numbers;
  * `Decimal.str` is `str(d)`.
-/
import Mathlib.Data.Rat.Lemmas
import Mathlib.Tactic.FieldSimp
import NthDao.Normalize
import NthDao.Py.Str
import NthDao.TradeRules.Timestamp

namespace Py

open NthDao NthDao.TradeRules

inductive Decimal where
  | finite (neg : Bool) (coeff : ℕ) (exp : ℤ)
  | infinity (neg : Bool)
  | nan
  deriving DecidableEq, Repr

/-! ## Reading -/

/-- The text in ASCII, without the blanks around it and without underscores;
    `none` if another character is left. -/
def numericAscii (s : String) : Option (List Char) :=
  let cs := ((chars s).dropWhile isSpace).reverse.dropWhile isSpace
  (cs.reverse.filter (· != '_')).mapM fun c =>
    if c.toNat ≤ 127 then (if c.toNat = 0 then none else some c)
    else if isSpace c then some ' '
    else (decimalVal c).map Nat.digitChar

/-- The exponent behind an `e`: a sign and digits. -/
def scanExponent (cs : List Char) : Option ℤ :=
  let ds := match cs with
    | '-' :: r => r
    | '+' :: r => r
    | r => r
  if ds.isEmpty || !ds.all Char.isDigit then none else some (signedVal cs)

/-- A number without its sign: digits, a point among them, an exponent. -/
def scanDecimal (cs : List Char) : Option (ℕ × ℤ) :=
  let isE := fun c : Char => c == 'e' || c == 'E'
  let mantissa := cs.takeWhile (!isE ·)
  let whole := mantissa.takeWhile (· != '.')
  let fraction := (mantissa.dropWhile (· != '.')).drop 1
  let digits := whole ++ fraction
  if digits.isEmpty || !digits.all Char.isDigit then none
  else
    let exponent := match cs.dropWhile (!isE ·) with
      | [] => some 0
      | _ :: r => scanExponent r
    exponent.map fun e => (Nat.ofDigitChars 10 digits 0, e - fraction.length)

/-- The bounds of the library: the least exponent and the greatest place of a digit. -/
def decimalFits (coeff : ℕ) (exp : ℤ) : Bool :=
  -1999999999999999997 ≤ exp && exp + (Nat.toDigits 10 coeff).length - 1 ≤ 999999999999999999

/-- `Decimal(s)` of a text in ASCII. -/
def decimalOfAscii (cs : List Char) : Option Decimal :=
  let (neg, cs) := match cs with
    | '-' :: r => (true, r)
    | '+' :: r => (false, r)
    | r => (false, r)
  let low := cs.map Char.toLower
  if low = chars "inf" ∨ low = chars "infinity" then some (.infinity neg)
  else if (chars "nan").isPrefixOf low && (low.drop 3).all Char.isDigit then some .nan
  else if (chars "snan").isPrefixOf low && (low.drop 4).all Char.isDigit then some .nan
  else do
    let (coeff, exp) ← scanDecimal cs
    if decimalFits coeff exp then some (.finite neg coeff exp) else none

/-- `Decimal(s)`. -/
def decimalOfText (s : String) : Option Decimal := (numericAscii s).bind decimalOfAscii

/-- A digit of a coefficient. -/
def digitOf (v : Json) : Option ℕ := do
  let n ← number v
  if 0 ≤ n ∧ n ≤ 9 then some n.toNat else none

/-- `Decimal([sign, digits, exponent])`, an error for the name of the exception. -/
def decimalOfList : List Json → Except String (Option Decimal)
  | [sign, digits, exponent] => do
    let neg ← match number sign with
      | some 0 => .ok false
      | some 1 => .ok true
      | _ => .error "ValueError"
    let coefficient := match digits with
      | .arr ds => (ds.mapM digitOf).map fun ds => ds.foldl (fun n d => 10 * n + d) 0
      | _ => none
    match exponent with
    | .str text =>
      if coefficient.isNone then .error "ValueError"
      else if text = "F" then .ok (some (.infinity neg))
      else if text = "n" ∨ text = "N" then .ok (some .nan)
      else .error "ValueError"
    | v =>
      match number v, coefficient with
      | some e, some coeff =>
        if e < -9223372036854775808 ∨ 9223372036854775807 < e then .error "OverflowError"
        else .ok (if decimalFits coeff e then some (.finite neg coeff e) else none)
      | _, _ => .error "ValueError"
  | _ => .error "ValueError"

/-- `Decimal(v)`, `none` where it raises `InvalidOperation`, and else the name of
    the exception.  A `float` has been refused before, where the value comes from
    canonical JSON. -/
def decimalOf : Json → Except String (Option Decimal)
  | .str s => .ok (decimalOfText s)
  | .int n => .ok (some (.finite (n < 0) n.natAbs 0))
  | .bool b => .ok (some (.finite false (if b then 1 else 0) 0))
  | .arr xs => decimalOfList xs
  | .null | .obj _ | .other _ => .error "TypeError"

namespace Decimal

/-! ## Comparison -/

def isFinite : Decimal → Bool
  | .finite _ _ _ => true
  | _ => false

/-- The coefficient with its sign. -/
def signed (neg : Bool) (coeff : ℕ) : ℤ := if neg then -coeff else coeff

/-- `0 < d`, for a finite one. -/
def isPositive : Decimal → Bool
  | .finite neg coeff _ => 0 < signed neg coeff
  | _ => false

/-- `d ≤ e`, for finite ones: the coefficients at one exponent. -/
def le : Decimal → Decimal → Bool
  | .finite neg coeff exp, .finite neg' coeff' exp' =>
    let m := min exp exp'
    signed neg coeff * 10 ^ (exp - m).toNat ≤ signed neg' coeff' * 10 ^ (exp' - m).toNat
  | _, _ => false

/-- The number. -/
def value : Decimal → ℚ
  | .finite neg coeff exp => signed neg coeff * (10 : ℚ) ^ exp
  | _ => 0

theorem isPositive_iff {d : Decimal} (h : d.isFinite = true) : d.isPositive = true ↔ 0 < d.value := by
  cases d with
  | finite neg coeff exp =>
    have hpow : (0 : ℚ) < 10 ^ exp := zpow_pos (by norm_num) _
    rw [isPositive, value, decide_eq_true_eq, mul_pos_iff_of_pos_right hpow, Int.cast_pos]
  | infinity neg => cases h
  | nan => cases h

/-- A coefficient moved to a smaller exponent. -/
theorem scale_eq (n : ℤ) {exp m : ℤ} (h : m ≤ exp) :
    ((n * 10 ^ (exp - m).toNat : ℤ) : ℚ) * (10 : ℚ) ^ m = n * (10 : ℚ) ^ exp := by
  have hexp : exp = ((exp - m).toNat : ℤ) + m := by omega
  have hpow : (10 : ℚ) ^ exp = (10 : ℚ) ^ (exp - m).toNat * (10 : ℚ) ^ m := by
    rw [← zpow_natCast, ← zpow_add₀ (by norm_num), ← hexp]
  rw [hpow]
  push_cast
  ring

theorem le_iff {d e : Decimal} (hd : d.isFinite = true) (he : e.isFinite = true) :
    d.le e = true ↔ d.value ≤ e.value := by
  cases d with
  | finite neg coeff exp =>
    cases e with
    | finite neg' coeff' exp' =>
      have hpow : (0 : ℚ) < 10 ^ min exp exp' := zpow_pos (by norm_num) _
      rw [le, value, value, decide_eq_true_eq, ← scale_eq _ (min_le_left exp exp'),
        ← scale_eq _ (min_le_right exp exp'), mul_le_mul_iff_left₀ hpow, Int.cast_le]
    | infinity neg => cases he
    | nan => cases he
  | infinity neg => cases hd
  | nan => cases hd

/-! ## Text -/

/-- `str(d)`. -/
def str : Decimal → String
  | .infinity neg => if neg then "-Infinity" else "Infinity"
  | .nan => "NaN"
  | .finite neg coeff exp =>
    let digits := Nat.toDigits 10 coeff
    let point := exp + digits.length
    let sign := if neg then "-" else ""
    if exp ≤ 0 ∧ -6 < point then
      if exp = 0 then sign ++ String.ofList digits
      else sign ++ String.ofList (placePoint digits point)
    else
      let e := point - 1
      let mantissa := if digits.length = 1 then digits else placePoint digits 1
      sign ++ String.ofList mantissa ++ "E" ++ (if e < 0 then "-" else "+") ++ toString e.natAbs

end Decimal

example : (decimalOfText "100.00").map Decimal.str = some "100.00" := by decide
example : (decimalOfText " -1_0e-9 ").map Decimal.str = some "-1.0E-8" := by decide
example : decimalOfText "1e" = none := by decide

end Py
