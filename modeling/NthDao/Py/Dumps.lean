/-
  The text of a JSON value: `json.dumps(v, separators=(",", ":"))`, with and
  without `ensure_ascii`, and its encoding to bytes.

  * `dumps ascii v` is the text; the keys are written in the order of the items,
    so `sort_keys=True` is `dumps ascii v.norm`;
  * `encodable` says that `dumps` does not raise: no `float`, no lone surrogate,
    and no `int` beyond the limit of `int.__str__`;
  * `utf8` is `s.encode("utf-8")` and `utf8Decode` is `b.decode("utf-8")`.
-/
import NthDao.Py.Json

namespace Py

/-- A byte string. -/
abbrev Bytes := List UInt8

/-! ## Bytes -/

/-- `s.encode("utf-8")`. -/
def utf8 (cs : List Char) : Bytes := cs.flatMap String.utf8EncodeChar

/-- `b.decode("utf-8")`, `none` for an ill-formed byte string. -/
def utf8Decode (bs : Bytes) : Option (List Char) := bs.toByteArray.utf8Decode?.map Array.toList

@[simp] theorem utf8Decode_utf8 (cs : List Char) : utf8Decode (utf8 cs) = some cs := by
  have h : (utf8 cs).toByteArray = cs.utf8Encode := rfl
  simp [utf8Decode, h]

theorem utf8_injective : Function.Injective utf8 := fun cs ds h => by
  simpa using congrArg utf8Decode h

@[simp] theorem utf8_append (cs ds : List Char) : utf8 (cs ++ ds) = utf8 cs ++ utf8 ds :=
  List.flatMap_append

theorem utf8_cons (c : Char) (cs : List Char) : utf8 (c :: cs) = utf8 [c] ++ utf8 cs := by
  simp [utf8]

/-! ## Strings -/

/-- `'\\u{0:04x}'.format(n)`. -/
def hexEsc (n : ℕ) : List Char :=
  ['\\', 'u', Nat.digitChar (n / 4096 % 16), Nat.digitChar (n / 256 % 16),
    Nat.digitChar (n / 16 % 16), Nat.digitChar (n % 16)]

/-- The text of a character outside the printable ASCII range under
    `ensure_ascii`: one escape, or a surrogate pair. -/
def uniEsc (n : ℕ) : List Char :=
  if n < 0x10000 then hexEsc n
  else hexEsc (0xD800 + (n - 0x10000) / 0x400) ++ hexEsc (0xDC00 + (n - 0x10000) % 0x400)

/-- The text of a character inside a JSON string. -/
def escChar (ascii : Bool) (c : Char) : List Char :=
  if c.toNat = 0x22 then ['\\', '"']
  else if c.toNat = 0x5c then ['\\', '\\']
  else if c.toNat = 0x0a then ['\\', 'n']
  else if c.toNat = 0x0d then ['\\', 'r']
  else if c.toNat = 0x09 then ['\\', 't']
  else if c.toNat = 0x08 then ['\\', 'b']
  else if c.toNat = 0x0c then ['\\', 'f']
  else if c.toNat < 0x20 then hexEsc c.toNat
  else if ascii = true ∧ 0x7e < c.toNat then uniEsc c.toNat
  else [c]

/-- The text of a string, with its quotes. -/
def dumpsStr (ascii : Bool) (s : String) : List Char :=
  '"' :: ((chars s).flatMap (escChar ascii) ++ ['"'])

/-! ## Values -/

/-- `int.__repr__`. -/
def dumpsInt (n : ℤ) : List Char :=
  if n < 0 then '-' :: Nat.toDigits 10 n.natAbs else Nat.toDigits 10 n.natAbs

mutual
/-- `json.dumps(v, separators=(",", ":"))`. -/
def dumps (ascii : Bool) : Json → List Char
  | .null => ['n', 'u', 'l', 'l']
  | .bool true => ['t', 'r', 'u', 'e']
  | .bool false => ['f', 'a', 'l', 's', 'e']
  | .int n => dumpsInt n
  | .str s => dumpsStr ascii s
  | .arr xs => '[' :: (dumpsList ascii xs ++ [']'])
  | .obj kvs => '{' :: (dumpsFields ascii kvs ++ ['}'])
  | .other t => chars t
def dumpsList (ascii : Bool) : List Json → List Char
  | [] => []
  | [x] => dumps ascii x
  | x :: y :: xs => dumps ascii x ++ ',' :: dumpsList ascii (y :: xs)
def dumpsFields (ascii : Bool) : Fields → List Char
  | [] => []
  | [(k, x)] => dumpsStr ascii k ++ ':' :: dumps ascii x
  | (k, x) :: q :: kvs => dumpsStr ascii k ++ ':' :: dumps ascii x ++ ',' :: dumpsFields ascii (q :: kvs)
end

/-- `sys.int_info.default_max_str_digits`: an `int` with more digits is not
    converted to or from text. -/
def maxIntDigits : ℕ := 4300

mutual
/-- The encoder raises on none of the parts of the value. -/
def Json.encodable : Json → Bool
  | .int n => decide ((Nat.toDigits 10 n.natAbs).length ≤ maxIntDigits)
  | .arr xs => encodableList xs
  | .obj kvs => encodableFields kvs
  | .other _ => false
  | _ => true
def Json.encodableList : List Json → Bool
  | [] => true
  | x :: xs => Json.encodable x && encodableList xs
def Json.encodableFields : Fields → Bool
  | [] => true
  | (_, x) :: kvs => Json.encodable x && encodableFields kvs
end

namespace Json

theorem encodableList_iff {xs : List Json} :
    encodableList xs = true ↔ ∀ x ∈ xs, x.encodable = true := by
  induction xs with
  | nil => simp [encodableList]
  | cons x xs ih => simp [encodableList, ih]

theorem encodableFields_iff {kvs : Fields} :
    encodableFields kvs = true ↔ ∀ p ∈ kvs, p.2.encodable = true := by
  induction kvs with
  | nil => simp [encodableFields]
  | cons p kvs ih => obtain ⟨k, x⟩ := p; simp [encodableFields, ih]

theorem encodable_arr {xs : List Json} :
    (Json.arr xs).encodable = true ↔ ∀ x ∈ xs, x.encodable = true := by
  rw [encodable, encodableList_iff]

theorem encodable_obj {kvs : Fields} :
    (Json.obj kvs).encodable = true ↔ ∀ p ∈ kvs, p.2.encodable = true := by
  rw [encodable, encodableFields_iff]

/-- Sorting keys changes nothing the encoder raises on. -/
theorem encodable_norm (j : Json) : j.norm.encodable = j.encodable := by
  rw [Bool.eq_iff_iff]
  induction j using ind with
  | arr xs ih =>
    rw [norm_arr, encodable_arr, encodable_arr, List.forall_mem_map]
    exact forall₂_congr fun x hx => ih x hx
  | obj kvs ih =>
    rw [norm_obj, encodable_obj, encodable_obj]
    constructor
    · intro h p hp
      refine (ih p hp).1 (h (p.1, p.2.norm) ?_)
      rw [(List.perm_insertionSort keyLe _).mem_iff]
      exact List.mem_map.2 ⟨p, hp, rfl⟩
    · intro h p hp
      rw [(List.perm_insertionSort keyLe _).mem_iff] at hp
      obtain ⟨q, hq, rfl⟩ := List.mem_map.1 hp
      exact (ih q hq).2 (h q hq)
  | _ => rfl

end Json

end Py
