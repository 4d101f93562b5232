/-
  The fields of trade documents: the checks that `offer.py`, `recognition.py` and
  `recognition_policy.py` share in shape.

  * the patterns of names, tokens, digests and quantities, as tests on the
    characters (each is the `fullmatch` of the pattern it cites);
  * `realTime`: `datetime` from its numbers, in seconds since the first day of
    year 1, `none` where there is no such time;
  * `exactFields`, `boundedString`, `token`, `digestField`: the field checks, with the
    label and the bounds as arguments.
-/
import NthDao.Identity
import NthDao.Py.Check
import NthDao.Py.Norm
import NthDao.Py.Str

namespace NthDao.TradeRules

open Py

/-! ## Patterns -/

/-- `[a-z0-9]`. -/
def isLowerAlnum (c : Char) : Bool := ('a' ≤ c && c ≤ 'z') || ('0' ≤ c && c ≤ '9')

/-- `[a-z0-9](?:X{0,n}[a-z0-9])?`, for a class `X` of characters. -/
def isEnclosed (n : ℕ) (inner : Char → Bool) (cs : List Char) : Bool :=
  match cs with
  | [] => false
  | c :: r => isLowerAlnum c && r.length ≤ n + 1 && r.all inner && isLowerAlnum (r.getLastD c)

/-- `_LABEL`. -/
def isLabel (cs : List Char) : Bool := isEnclosed 61 (fun c => isLowerAlnum c || c == '-') cs

/-- The last part of an identifier, `[a-z0-9](?:[a-z0-9._-]{0,n}[a-z0-9])?`. -/
def isSlug (n : ℕ) (cs : List Char) : Bool :=
  isEnclosed n (fun c => isLowerAlnum c || c == '.' || c == '_' || c == '-') cs

/-- `_LABEL(?:\._LABEL)+`. -/
def isDottedName (cs : List Char) : Bool :=
  let labels := cs.splitOn '.'
  2 ≤ labels.length && labels.all isLabel

/-- A dotted name and a slug behind a slash; the slug may be missing where `need` is false. -/
def isNamespaced (n : ℕ) (need : Bool) (cs : List Char) : Bool :=
  isDottedName (cs.takeWhile (· != '/')) &&
    match cs.dropWhile (· != '/') with
    | [] => !need
    | _ :: slug => isSlug n slug

/-- `_TOKEN.fullmatch`. -/
def isToken (s : String) : Bool :=
  match chars s with
  | [] => false
  | c :: r => isLowerAlnum c &&
    r.all fun d => isLowerAlnum d || d == '.' || d == '_' || d == ':' || d == '/' || d == '-'

/-- `_DIGEST.fullmatch`. -/
def isDigest (s : String) : Bool := startsWith "sha256:" s && isHex 64 ((chars s).drop 7)

/-! ## Times -/

def isLeap (y : ℕ) : Bool := y % 4 == 0 && (y % 100 != 0 || y % 400 == 0)

/-- The days of the months of a year. -/
def monthDays (y : ℕ) : List ℕ :=
  [31, if isLeap y then 29 else 28, 31, 30, 31, 30, 31, 31, 30, 31, 30, 31]

/-- The days before a date since the first day of year 1 (`toordinal`, from zero). -/
def dayNumber (y mo d : ℕ) : ℕ :=
  365 * (y - 1) + (y - 1) / 4 - (y - 1) / 100 + (y - 1) / 400 + ((monthDays y).take (mo - 1)).sum +
    (d - 1)

/-- `datetime(y, mo, d, h, mi, s)` in seconds, `none` where there is no such time. -/
def realTime (y mo d h mi s : ℕ) : Option ℕ :=
  if 1 ≤ y && 1 ≤ mo && mo ≤ 12 && 1 ≤ d && d ≤ (monthDays y).getD (mo - 1) 0 && h ≤ 23 && mi ≤ 59 &&
      s ≤ 59 then
    some (((dayNumber y mo d * 24 + h) * 60 + mi) * 60 + s)
  else none

/-- The number that digits write. -/
def digitsVal (cs : List Char) : ℕ := Nat.ofDigitChars 10 cs 0

/-- The parts of `DDDD-DD-DDTDD:DD:DD` and the text behind it, for a class of digits. -/
def splitTime (digit : Char → Bool) (cs : List Char) :
    Option ((List Char × List Char × List Char × List Char × List Char × List Char) × List Char) :=
  match cs with
  | y₁ :: y₂ :: y₃ :: y₄ :: '-' :: m₁ :: m₂ :: '-' :: d₁ :: d₂ :: 'T' :: h₁ :: h₂ :: ':' :: i₁ :: i₂ ::
      ':' :: s₁ :: s₂ :: r =>
    if [y₁, y₂, y₃, y₄, m₁, m₂, d₁, d₂, h₁, h₂, i₁, i₂, s₁, s₂].all digit then
      some (([y₁, y₂, y₃, y₄], [m₁, m₂], [d₁, d₂], [h₁, h₂], [i₁, i₂], [s₁, s₂]), r)
    else none
  | _ => none

/-! ## Checks -/

variable (H : Host)

/-- A list of names as Python prints it. -/
def showNames (names : List String) : String := toStr H.isprintable (.arr (names.map .str))

/-- `_exact_fields` of an offer. -/
def exactFields (value : Json) (expected : List String) (label : String) : Except String Fields := do
  require value.isObj (label ++ " must be an object")
  let actual := value.fields.map Prod.fst
  let missing := (expected.filter fun f => !actual.contains f).insertionSort (· ≤ ·)
  let unknown := (actual.filter fun f => !expected.contains f).insertionSort (· ≤ ·)
  require (Json.keysEq value.fields expected)
    (label ++ " fields invalid; missing=" ++ showNames H missing ++ ", unknown=" ++
      showNames H unknown)
  return value.fields

/-- `_exact_fields` of recognitions and policies. -/
def sameFields (value : Json) (expected : List String) (label : String) : Except String Fields := do
  require (value.isObj && Json.keysEq value.fields expected)
    (label ++ " has missing or unknown fields")
  return value.fields

/-- `_bounded_string`. -/
def boundedString (value : Json) (label : String) (minimum maximum : ℕ) : Except String String :=
  expect (value.asStr.filter fun s => minimum ≤ len s && len s ≤ maximum)
    (label ++ " must be a string of length " ++ toString minimum ++ ".." ++ toString maximum)

/-- `_token`. -/
def token (value : Json) (label : String) (maximum : ℕ) : Except String String := do
  let text ← boundedString value label 1 maximum
  require (isToken text) (label ++ " is not a valid namespaced token")
  return text

/-- `_digest` of an offer. -/
def digestField (value : Json) (label : String) : Except String String := do
  let text ← boundedString value label 1 71
  require (isDigest text) (label ++ " must be a lowercase sha256 digest")
  return text

/-- `v in names`: a list or an object cannot be looked up in a set. -/
def memberOf (value : Json) (names : List String) : Except String Bool :=
  match value with
  | .arr _ => .error "unhashable type: 'list'"
  | .obj _ => .error "unhashable type: 'dict'"
  | v => .ok (names.any v.eqStr)

variable {H}

theorem isDigest_sha256 (b : Bytes) : isDigest ("sha256:" ++ H.sha256 b) = true := by
  simp only [isDigest, startsWith, chars_eq, String.toList_append, Bool.and_eq_true]
  exact ⟨by simp, H.sha256_isHex b⟩

/-- The text of a digest. -/
theorem toList_of_isDigest {s : String} (h : isDigest s = true) :
    s.toList = "sha256:".toList ++ s.toList.drop 7 ∧ isHex 64 (s.toList.drop 7) = true := by
  simp only [isDigest, startsWith, chars_eq, Bool.and_eq_true, List.isPrefixOf_iff_prefix] at h
  obtain ⟨⟨t, ht⟩, hx⟩ := h
  refine ⟨?_, hx⟩
  rw [← ht]
  rfl

theorem length_of_isDigest {s : String} (h : isDigest s = true) : s.length = 71 := by
  simp only [isDigest, startsWith, chars_eq, isHex, Bool.and_eq_true, beq_iff_eq,
    List.isPrefixOf_iff_prefix] at h
  have hd := h.2.1
  have hp := h.1.length_le
  rw [List.length_drop] at hd
  rw [← String.length_toList]
  omega

theorem exactFields_eq_ok {value : Json} {expected : List String} {label : String} {kvs : Fields}
    (h : exactFields H value expected label = .ok kvs) : value = .obj kvs := by
  simp only [exactFields, require_bind_eq_ok, pure_eq_ok] at h
  obtain ⟨ho, -, rfl⟩ := h
  exact Json.eq_obj_of_isObj ho

theorem sameFields_eq_ok {value : Json} {expected : List String} {label : String} {kvs : Fields}
    (h : sameFields value expected label = .ok kvs) : value = .obj kvs := by
  simp only [sameFields, require_bind_eq_ok, pure_eq_ok, Bool.and_eq_true] at h
  obtain ⟨⟨ho, -⟩, rfl⟩ := h
  exact Json.eq_obj_of_isObj ho

theorem boundedString_eq_ok {value : Json} {label s : String} {lo hi : ℕ} :
    boundedString value label lo hi = .ok s ↔ value = .str s ∧ lo ≤ len s ∧ len s ≤ hi := by
  rw [boundedString, expect_eq_ok, Option.filter_eq_some_iff, Json.asStr_eq_some]
  simp

theorem digestField_eq_ok {value : Json} {label s : String} (h : digestField value label = .ok s) :
    value = .str s := by
  simp only [digestField, bind_eq_ok, boundedString_eq_ok, pure_eq_ok] at h
  obtain ⟨t, ⟨ht, -⟩, -, -, rfl⟩ := h
  exact ht

end NthDao.TradeRules
