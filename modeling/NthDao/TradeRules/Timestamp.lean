/-
  The timestamps of recognitions and policies (`_timestamp` in `recognition.py` and
  `recognition_policy.py`).

  The pattern of the source takes every decimal digit of Unicode (`\d`), and
  `strptime` takes them too, where its own patterns do: as a digit of the year, and
  as the second digit of a day, hour, minute or second whose first digit leaves it
  open.

  * `decimalVal`: the value of a decimal digit, from the table of Unicode 14;
  * `canonicalTimestamp`: the time in microseconds.
-/
import NthDao.TradeRules.Fields

namespace NthDao.TradeRules

open Py

/-- The zeros of the decimal digits of Unicode; each is followed by its nine digits. -/
def decimalZeros : List ℕ :=
  [0x30, 0x660, 0x6f0, 0x7c0, 0x966, 0x9e6, 0xa66, 0xae6, 0xb66, 0xbe6, 0xc66, 0xce6, 0xd66, 0xde6,
    0xe50, 0xed0, 0xf20, 0x1040, 0x1090, 0x17e0, 0x1810, 0x1946, 0x19d0, 0x1a80, 0x1a90, 0x1b50, 0x1bb0,
    0x1c40, 0x1c50, 0xa620, 0xa8d0, 0xa900, 0xa9d0, 0xa9f0, 0xaa50, 0xabf0, 0xff10, 0x104a0, 0x10d30,
    0x11066, 0x110f0, 0x11136, 0x111d0, 0x112f0, 0x11450, 0x114d0, 0x11650, 0x116c0, 0x11730, 0x118e0,
    0x11950, 0x11c50, 0x11d50, 0x11da0, 0x16a60, 0x16ac0, 0x16b50, 0x1d7ce, 0x1d7d8, 0x1d7e2, 0x1d7ec,
    0x1d7f6, 0x1e140, 0x1e2f0, 0x1e950, 0x1fbf0]

/-- `unicodedata.decimal(c)`. -/
def decimalVal (c : Char) : Option ℕ :=
  (decimalZeros.find? fun z => z ≤ c.toNat && c.toNat < z + 10).map (c.toNat - ·)

/-- `\d`. -/
def isDecimal (c : Char) : Bool := (decimalVal c).isSome

/-- The value of an ASCII digit. -/
def asciiVal (c : Char) : Option ℕ := if c.isDigit then decimalVal c else none

/-- Two digits; the second may be any decimal digit behind the first ones of `wide`. -/
def clockField (wide : List ℕ) : List Char → Option ℕ
  | [a, b] => do
    let tens ← asciiVal a
    let units ← if wide.contains tens then decimalVal b else asciiVal b
    return 10 * tens + units
  | _ => none

/-- The digits of a year. -/
def yearField (cs : List Char) : Option ℕ :=
  (cs.mapM decimalVal).map fun ds => ds.foldl (fun n d => 10 * n + d) 0

/-- `strptime` of a text that matched, in microseconds. -/
def strptime (y mo d h mi s frac : List Char) : Option ℕ := do
  let year ← yearField y
  let month ← clockField [] mo
  let day ← clockField [1, 2] d
  let hour ← clockField [0, 1] h
  let minute ← clockField [0, 1, 2, 3, 4, 5] mi
  let second ← clockField [0, 1, 2, 3, 4, 5] s
  let base ← realTime year month day hour minute second
  if frac.all Char.isDigit then return base * 1000000 + digitsVal frac else none

/-- `(?:\.(\d{6}))?Z`, the digits; `none` also where they are `000000`. -/
def fractionOf : List Char → Option (List Char)
  | ['Z'] => some []
  | ['.', a, b, c, d, e, f, 'Z'] =>
    if [a, b, c, d, e, f].all isDecimal && [a, b, c, d, e, f] != "000000".toList then
      some [a, b, c, d, e, f]
    else none
  | _ => none

/-- `_timestamp`; `text` is the reason given for what is no short string. -/
def canonicalTimestamp (value : Json) (label text : String) : Except String ℕ := do
  let value ← expect (value.asStr.filter fun s => len s ≤ 35) (label ++ text)
  let ((y, mo, d, h, mi, s), r) ← expect (splitTime isDecimal (chars value))
    (label ++ " must be a canonical UTC RFC3339 timestamp")
  let frac ← expect (fractionOf r) (label ++ " must be a canonical UTC RFC3339 timestamp")
  expect (strptime y mo d h mi s frac) (label ++ " is not a real timestamp")

end NthDao.TradeRules
