/-
  Python's view of JSON values outside JSON: truth, equality, `str()` and the
  character classes.

  * `truthy v` is `bool(v)`;
  * `eqv v w` is `v == w`: objects compare without the order of their items,
    and a `bool` equals the `int` it is;
  * `toStr p v` is `str(v)`, where `p` is the `isprintable` table;
  * `isSpace` is `str.isspace` of one character.
-/
import NthDao.Py.Dumps

namespace Py

/-- `bool(v)`. -/
def truthy : Json → Bool
  | .null => false
  | .bool b => b
  | .int n => n != 0
  | .str s => s != ""
  | .arr xs => !xs.isEmpty
  | .obj kvs => !kvs.isEmpty
  | .other t => t != "0.0" && t != "-0.0"

/-- The number of an `int` or a `bool`. -/
def number : Json → Option ℤ
  | .int n => some n
  | .bool b => some (if b then 1 else 0)
  | _ => none

theorem eqInt_iff {j : Json} {n : ℤ} : j.eqInt n = true ↔ number j = some n := by
  cases j <;> simp [Json.eqInt, number]

mutual
/-- `v == w`. -/
def eqv : Json → Json → Bool
  | .null, .null => true
  | .bool a, .bool b => a == b
  | .bool a, .int n => (if a then 1 else 0) == n
  | .int n, .bool a => (if a then 1 else 0) == n
  | .int a, .int b => a == b
  | .str a, .str b => a == b
  | .other a, .other b => a == b
  | .arr xs, .arr ys => eqvList xs ys
  | .obj xs, .obj ys => xs.length == ys.length && eqvFields xs ys
  | _, _ => false
def eqvList : List Json → List Json → Bool
  | [], [] => true
  | x :: xs, y :: ys => eqv x y && eqvList xs ys
  | _, _ => false
/-- Every item of the first object has an equal value in the second. -/
def eqvFields : Fields → Fields → Bool
  | [], _ => true
  | (k, x) :: xs, ys =>
    (match Json.lookup ys k with
      | some y => eqv x y
      | none => false) && eqvFields xs ys
end

/-- A value equals itself. -/
theorem eqv_refl (j : Json) (h : j.wf = true) : eqv j j = true := by
  induction j using Json.ind with
  | arr xs ih =>
    rw [Json.wf_arr] at h
    rw [eqv]
    induction xs with
    | nil => rfl
    | cons x xs ihx =>
      rw [List.forall_mem_cons] at h
      rw [eqvList, ih x (by simp) h.1, ihx (fun y hy => ih y (by simp [hy])) h.2]; rfl
  | obj kvs ih =>
    rw [Json.wf_obj] at h
    have sub : ∀ xs : Fields, (∀ p ∈ xs, p ∈ kvs) → eqvFields xs kvs = true := by
      intro xs
      induction xs with
      | nil => intro _; rfl
      | cons p xs ihx =>
        intro hp
        rw [List.forall_mem_cons] at hp
        rw [eqvFields, Json.lookup_of_mem h.1 hp.1, ihx hp.2]
        simp [ih p hp.1 (h.2 p hp.1)]
    rw [eqv, sub kvs fun _ hp => hp]
    simp
  | _ => simp [eqv]

/-! ## `str()` -/

/-- The escape of a character in `repr(s)`. -/
def reprChar (isprintable : Char → Bool) (quote c : Char) : List Char :=
  if c = quote || c = '\\' then ['\\', c]
  else if c = '\n' then ['\\', 'n']
  else if c = '\r' then ['\\', 'r']
  else if c = '\t' then ['\\', 't']
  else if c.toNat < 0x20 || c.toNat = 0x7f || !isprintable c then
    if c.toNat < 0x100 then
      ['\\', 'x', Nat.digitChar (c.toNat / 16), Nat.digitChar (c.toNat % 16)]
    else if c.toNat < 0x10000 then hexEsc c.toNat
    else ['\\', 'U', '0', '0', Nat.digitChar (c.toNat / 1048576 % 16),
      Nat.digitChar (c.toNat / 65536 % 16)] ++ (hexEsc (c.toNat % 65536)).drop 2
  else [c]

/-- `repr(s)`: single quotes unless only they occur in `s`. -/
def reprStr (isprintable : Char → Bool) (s : String) : List Char :=
  let quote := if (chars s).contains '\'' && !(chars s).contains '"' then '"' else '\''
  quote :: (chars s).flatMap (reprChar isprintable quote) ++ [quote]

mutual
/-- `repr(v)`. -/
def reprJson (isprintable : Char → Bool) : Json → List Char
  | .null => chars "None"
  | .bool true => chars "True"
  | .bool false => chars "False"
  | .int n => dumpsInt n
  | .str s => reprStr isprintable s
  | .arr xs => '[' :: reprList isprintable xs ++ [']']
  | .obj kvs => '{' :: reprFields isprintable kvs ++ ['}']
  | .other t => chars t
def reprList (isprintable : Char → Bool) : List Json → List Char
  | [] => []
  | [x] => reprJson isprintable x
  | x :: y :: xs => reprJson isprintable x ++ chars ", " ++ reprList isprintable (y :: xs)
def reprFields (isprintable : Char → Bool) : Fields → List Char
  | [] => []
  | [(k, x)] => reprStr isprintable k ++ chars ": " ++ reprJson isprintable x
  | (k, x) :: q :: kvs =>
    reprStr isprintable k ++ chars ": " ++ reprJson isprintable x ++ chars ", " ++
      reprFields isprintable (q :: kvs)
end

/-- `str(v)`: a string is itself. -/
def toStr (isprintable : Char → Bool) : Json → String
  | .str s => s
  | j => String.ofList (reprJson isprintable j)

@[simp] theorem toStr_str (p : Char → Bool) (s : String) : toStr p (.str s) = s := rfl

/-! ## Characters -/

/-- `str.isspace` of one character. -/
def isSpace (c : Char) : Bool :=
  let n := c.toNat
  (9 ≤ n && n ≤ 13) || (0x1c ≤ n && n ≤ 0x20) || n == 0x85 || n == 0xa0 || n == 0x1680 ||
    (0x2000 ≤ n && n ≤ 0x200a) || n == 0x2028 || n == 0x2029 || n == 0x202f || n == 0x205f ||
    n == 0x3000

/-- `s.startswith(p)`. -/
def startsWith (p : String) (s : String) : Bool := (chars p).isPrefixOf (chars s)

end Py
