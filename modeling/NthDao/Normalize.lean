/-
  Values with fractions in canonical JSON (`normalize_for_canonical_json`).

  Canonical JSON has no `float`; the objects that carry one are signed with the
  decimal text in its place.

  * `decimalText t` is `format(Decimal(t), "f")` for the text of a `float`;
  * `normalizeForCanonicalJson v` replaces every `float` of `v` by it.
-/
import NthDao.CanonicalJson

namespace NthDao

open Py

/-- The number that digits are, with a sign before them. -/
def signedVal : List Char → ℤ
  | '-' :: ds => -(Nat.ofDigitChars 10 ds 0 : ℕ)
  | '+' :: ds => (Nat.ofDigitChars 10 ds 0 : ℕ)
  | ds => (Nat.ofDigitChars 10 ds 0 : ℕ)

/-- `digits` with a decimal point before the one at `point`. -/
def placePoint (digits : List Char) (point : ℤ) : List Char :=
  if point ≤ 0 then '0' :: '.' :: (List.replicate (-point).toNat '0' ++ digits)
  else if (digits.length : ℤ) ≤ point then
    digits ++ List.replicate (point.toNat - digits.length) '0'
  else digits.take point.toNat ++ '.' :: digits.drop point.toNat

/-- `format(Decimal(t), "f")` for the text of a `float`, `none` for one that is
    no number. -/
def decimalText (t : String) : Option String :=
  let cs := chars t
  let (sign, cs) := match cs with
    | '-' :: r => (['-'], r)
    | r => ([], r)
  let mantissa := cs.takeWhile (· != 'e')
  let exponent := (cs.dropWhile (· != 'e')).drop 1
  let whole := mantissa.takeWhile (· != '.')
  let fraction := (mantissa.dropWhile (· != '.')).drop 1
  if whole.isEmpty || !(whole ++ fraction).all Char.isDigit then none
  else
    some (String.ofList (sign ++
      placePoint (whole ++ fraction) (whole.length + signedVal exponent)))

example : decimalText "1.5" = some "1.5" := by decide
example : decimalText "-2.5e-07" = some "-0.00000025" := by decide
example : decimalText "nan" = none := by decide

mutual
/-- `normalize_for_canonical_json`, `none` where it raises. -/
def normalizeForCanonicalJson : Json → Option Json
  | .other t => (decimalText t).map .str
  | .arr xs => (normalizeList xs).map .arr
  | .obj kvs => (normalizeFields kvs).map .obj
  | v => some v
def normalizeList : List Json → Option (List Json)
  | [] => some []
  | x :: xs => do return (← normalizeForCanonicalJson x) :: (← normalizeList xs)
def normalizeFields : Fields → Option Fields
  | [] => some []
  | (k, x) :: kvs => do return (k, ← normalizeForCanonicalJson x) :: (← normalizeFields kvs)
end

end NthDao
