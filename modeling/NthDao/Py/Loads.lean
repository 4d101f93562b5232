/-
  Reading JSON text: `json.loads`, and that it inverts `json.dumps`.

  * `loads cs` is the value of the text `cs`, `none` if the reader raises.  The
    reader takes the whitespace, the escapes and the numbers of the standard
    library, keeps the last of several items with one key, and reads a number
    with a fraction or an exponent (and `NaN`, `Infinity`) as a `float`;
  * `loads_dumps`: the text of a well-formed, encodable value reads back as the
    value, also with trailing whitespace (`loads_dumps_newline`); hence two such
    values with the same text are equal (`dumps_injective`).
-/
import NthDao.Py.Dumps

namespace Py

/-! ## Tokens -/

/-- The whitespace of JSON. -/
def isWs (c : Char) : Bool := c == ' ' || c == '\t' || c == '\n' || c == '\r'

/-- Skip leading whitespace. -/
def skipWs : List Char → List Char
  | [] => []
  | c :: cs => if isWs c then skipWs cs else c :: cs

/-- The value of a hexadecimal digit. -/
def hexVal (c : Char) : Option ℕ :=
  if '0' ≤ c ∧ c ≤ '9' then some (c.toNat - '0'.toNat)
  else if 'a' ≤ c ∧ c ≤ 'f' then some (c.toNat - 'a'.toNat + 10)
  else if 'A' ≤ c ∧ c ≤ 'F' then some (c.toNat - 'A'.toNat + 10)
  else none

/-- The value of the four digits of a `\u` escape. -/
def hexVal4 (a b c d : Char) : Option ℕ := do
  return (← hexVal a) * 4096 + (← hexVal b) * 256 + (← hexVal c) * 16 + (← hexVal d)

/-- The character of a one-letter escape. -/
def unescape : Char → Option Char
  | '"' => some '"'
  | '\\' => some '\\'
  | '/' => some '/'
  | 'b' => some '\x08'
  | 'f' => some '\x0c'
  | 'n' => some '\n'
  | 'r' => some '\r'
  | 't' => some '\t'
  | _ => none

/-- The code units of a string after its opening quote, and the text after its
    closing quote. -/
def scanStr : List Char → Option (List ℕ × List Char)
  | [] => none
  | '"' :: r => some ([], r)
  | '\\' :: 'u' :: a :: b :: c :: d :: r =>
    match hexVal4 a b c d with
    | some n => (scanStr r).map fun p => (n :: p.1, p.2)
    | none => none
  | '\\' :: e :: r =>
    match unescape e with
    | some c => (scanStr r).map fun p => (c.toNat :: p.1, p.2)
    | none => none
  | c :: r => if c.toNat < 0x20 then none else (scanStr r).map fun p => (c.toNat :: p.1, p.2)

/-- Join the surrogate pairs among code units. -/
def joinUnits : List ℕ → List ℕ
  | [] => []
  | [u] => [u]
  | h :: l :: us =>
    if 0xD800 ≤ h ∧ h < 0xDC00 ∧ 0xDC00 ≤ l ∧ l < 0xE000 then
      (0x10000 + (h - 0xD800) * 0x400 + (l - 0xDC00)) :: joinUnits us
    else h :: joinUnits (l :: us)

/-- The string of code units, `none` if a lone surrogate is left. -/
def strOfUnits (us : List ℕ) : Option String :=
  if (joinUnits us).all fun n => decide n.isValidChar then
    some (String.ofList ((joinUnits us).map Char.ofNat))
  else none

/-- The leading digits of a text. -/
def spanDigits : List Char → List Char × List Char
  | [] => ([], [])
  | c :: cs => if c.isDigit then ((spanDigits cs).map (c :: ·) id) else ([], c :: cs)

/-- A fraction or an exponent: the text of `(\.\d+)?([eE][-+]?\d+)?` and the
    rest. -/
def scanFrac (cs : List Char) : List Char × List Char :=
  let (frac, cs) := match cs with
    | '.' :: r => match spanDigits r with
      | ([], _) => ([], cs)
      | (ds, r') => ('.' :: ds, r')
    | _ => ([], cs)
  match cs with
  | e :: r =>
    if e == 'e' || e == 'E' then
      let (sign, r) := match r with
        | '-' :: r' => (['-'], r')
        | '+' :: r' => (['+'], r')
        | _ => ([], r)
      match spanDigits r with
      | ([], _) => (frac, cs)
      | (ds, r') => (frac ++ e :: sign ++ ds, r')
    else (frac, cs)
  | [] => (frac, cs)

/-- The digits `0|[1-9]\d*` and the rest. -/
def scanNat (cs : List Char) : Option (List Char × List Char) :=
  match spanDigits cs with
  | ([], _) => none
  | ('0' :: ds, r) => some (['0'], ds ++ r)
  | (ds, r) => some (ds, r)

/-- A number after its sign: an `int` within the digit limit, or a `float`. -/
def scanNumber (neg : Bool) (cs : List Char) : Option (Json × List Char) := do
  let (ds, r) ← scanNat cs
  match scanFrac r with
  | ([], _) =>
    if ds.length ≤ maxIntDigits then
      let n : ℤ := Nat.ofDigitChars 10 ds 0
      some (.int (if neg then -n else n), r)
    else none
  | (f, r') => some (.other (String.ofList ((if neg then ['-'] else []) ++ ds ++ f)), r')

/-! ## Values -/

/-- The value of a scanned string. -/
def strVal (us : List ℕ) : Json :=
  match strOfUnits us with
  | some s => .str s
  | none => .other "str with a lone surrogate"

/-- The `dict` of scanned items: a later item replaces the value of its key. -/
def dictOf (kvs : Fields) : Fields := kvs.foldl (fun d p => Json.insert d p.1 p.2) []

/-- The value of a scanned object. -/
def objVal (kvs : List (Option String × Json)) : Json :=
  match kvs.mapM fun p => p.1.map (·, p.2) with
  | some kvs => .obj (dictOf kvs)
  | none => .other "dict with a lone surrogate in a key"

mutual
/-- One value and the text after it.  The fuel bounds the nesting. -/
def parseValue : ℕ → List Char → Option (Json × List Char)
  | 0, _ => none
  | fuel + 1, cs =>
    match cs with
    | '"' :: r => (scanStr r).map fun p => (strVal p.1, p.2)
    | '{' :: r =>
      match skipWs r with
      | '}' :: r' => some (.obj [], r')
      | r' => (parseMembers fuel r').map fun p => (objVal p.1, p.2)
    | '[' :: r =>
      match skipWs r with
      | ']' :: r' => some (.arr [], r')
      | r' => (parseElems fuel r').map fun p => (.arr p.1, p.2)
    | 'n' :: 'u' :: 'l' :: 'l' :: r => some (.null, r)
    | 't' :: 'r' :: 'u' :: 'e' :: r => some (.bool true, r)
    | 'f' :: 'a' :: 'l' :: 's' :: 'e' :: r => some (.bool false, r)
    | 'N' :: 'a' :: 'N' :: r => some (.other "NaN", r)
    | 'I' :: 'n' :: 'f' :: 'i' :: 'n' :: 'i' :: 't' :: 'y' :: r => some (.other "Infinity", r)
    | '-' :: 'I' :: 'n' :: 'f' :: 'i' :: 'n' :: 'i' :: 't' :: 'y' :: r =>
      some (.other "-Infinity", r)
    | '-' :: r => scanNumber true r
    | cs => scanNumber false cs
/-- The elements of an array after `[`, up to its `]`. -/
def parseElems : ℕ → List Char → Option (List Json × List Char)
  | 0, _ => none
  | fuel + 1, cs =>
    match parseValue fuel cs with
    | none => none
    | some (x, r) =>
      match skipWs r with
      | ']' :: r' => some ([x], r')
      | ',' :: r' => (parseElems fuel (skipWs r')).map fun p => (x :: p.1, p.2)
      | _ => none
/-- The items of an object after `{`, up to its `}`. -/
def parseMembers : ℕ → List Char → Option (List (Option String × Json) × List Char)
  | 0, _ => none
  | fuel + 1, cs =>
    match cs with
    | '"' :: r =>
      match scanStr r with
      | none => none
      | some (us, r) =>
        match skipWs r with
        | ':' :: r =>
          match parseValue fuel (skipWs r) with
          | none => none
          | some (x, r) =>
            match skipWs r with
            | '}' :: r' => some ([(strOfUnits us, x)], r')
            | ',' :: r' =>
              (parseMembers fuel (skipWs r')).map fun p => ((strOfUnits us, x) :: p.1, p.2)
            | _ => none
        | _ => none
    | _ => none
end

/-- `json.loads`.  A value inside another is at least one character shorter,
    and a list of them costs one more unit of fuel. -/
def loads (cs : List Char) : Option Json :=
  match parseValue (2 * cs.length + 1) (skipWs cs) with
  | some (v, r) => if skipWs r = [] then some v else none
  | none => none

/-! ## Hooks -/

section Hooks

variable (hook : List (Option String × Json) → Option Json)

mutual
/-- One value and the text after it, with an `object_pairs_hook` (`none` where it raises). -/
def parseValueWith : ℕ → List Char → Option (Json × List Char)
  | 0, _ => none
  | fuel + 1, cs =>
    match cs with
    | '"' :: r => (scanStr r).map fun p => (strVal p.1, p.2)
    | '{' :: r =>
      match skipWs r with
      | '}' :: r' => (hook []).map fun v => (v, r')
      | r' => (parseMembersWith fuel r').bind fun p => (hook p.1).map fun v => (v, p.2)
    | '[' :: r =>
      match skipWs r with
      | ']' :: r' => some (.arr [], r')
      | r' => (parseElemsWith fuel r').map fun p => (.arr p.1, p.2)
    | 'n' :: 'u' :: 'l' :: 'l' :: r => some (.null, r)
    | 't' :: 'r' :: 'u' :: 'e' :: r => some (.bool true, r)
    | 'f' :: 'a' :: 'l' :: 's' :: 'e' :: r => some (.bool false, r)
    | 'N' :: 'a' :: 'N' :: r => some (.other "NaN", r)
    | 'I' :: 'n' :: 'f' :: 'i' :: 'n' :: 'i' :: 't' :: 'y' :: r => some (.other "Infinity", r)
    | '-' :: 'I' :: 'n' :: 'f' :: 'i' :: 'n' :: 'i' :: 't' :: 'y' :: r =>
      some (.other "-Infinity", r)
    | '-' :: r => scanNumber true r
    | cs => scanNumber false cs
/-- The elements of an array after `[`, up to its `]`. -/
def parseElemsWith : ℕ → List Char → Option (List Json × List Char)
  | 0, _ => none
  | fuel + 1, cs =>
    match parseValueWith fuel cs with
    | none => none
    | some (x, r) =>
      match skipWs r with
      | ']' :: r' => some ([x], r')
      | ',' :: r' => (parseElemsWith fuel (skipWs r')).map fun p => (x :: p.1, p.2)
      | _ => none
/-- The items of an object after `{`, up to its `}`. -/
def parseMembersWith : ℕ → List Char → Option (List (Option String × Json) × List Char)
  | 0, _ => none
  | fuel + 1, cs =>
    match cs with
    | '"' :: r =>
      match scanStr r with
      | none => none
      | some (us, r) =>
        match skipWs r with
        | ':' :: r =>
          match parseValueWith fuel (skipWs r) with
          | none => none
          | some (x, r) =>
            match skipWs r with
            | '}' :: r' => some ([(strOfUnits us, x)], r')
            | ',' :: r' =>
              (parseMembersWith fuel (skipWs r')).map fun p => ((strOfUnits us, x) :: p.1, p.2)
            | _ => none
        | _ => none
    | _ => none
end

/-- `json.loads` with an `object_pairs_hook`. -/
def loadsWith (cs : List Char) : Option Json :=
  match parseValueWith hook (2 * cs.length + 1) (skipWs cs) with
  | some (v, r) => if skipWs r = [] then some v else none
  | none => none

end Hooks

/-- The hook of a plain `json.loads`. -/
theorem parseWith_objVal (n : ℕ) :
    parseValueWith (fun kvs => some (objVal kvs)) n = parseValue n ∧
    parseElemsWith (fun kvs => some (objVal kvs)) n = parseElems n ∧
    parseMembersWith (fun kvs => some (objVal kvs)) n = parseMembers n := by
  induction n with
  | zero =>
    refine ⟨?_, ?_, ?_⟩ <;> funext cs
    · rw [parseValueWith, parseValue]
    · rw [parseElemsWith, parseElems]
    · rw [parseMembersWith, parseMembers]
  | succ n ih =>
    obtain ⟨h₁, h₂, h₃⟩ := ih
    refine ⟨?_, ?_, ?_⟩ <;> funext cs
    · rw [parseValueWith.eq_def, parseValue.eq_def]
      simp only [h₂, h₃, Option.map_eq_bind, Function.comp_def]
      rfl
    · rw [parseElemsWith, parseElems, h₁, h₂]
    · rw [parseMembersWith.eq_def, parseMembers.eq_def]
      simp only [h₁, h₃]

theorem loadsWith_objVal (cs : List Char) : loadsWith (fun kvs => some (objVal kvs)) cs = loads cs := by
  rw [loadsWith, loads, (parseWith_objVal _).1]

/-- A hook that takes items with distinct keys as they are. -/
def Keeps (hook : List (Option String × Json) → Option Json) : Prop :=
  ∀ kvs : Fields, (kvs.map Prod.fst).Nodup → hook (kvs.map fun p => (some p.1, p.2)) = some (.obj kvs)

variable {hook : List (Option String × Json) → Option Json}

/-! ## Strings read back -/

theorem hexVal_digitChar : ∀ d < 16, hexVal (Nat.digitChar d) = some d := by decide

theorem scanStr_hexEsc {n : ℕ} (h : n < 0x10000) (r : List Char) :
    scanStr (hexEsc n ++ r) = (scanStr r).map fun p => (n :: p.1, p.2) := by
  have hv : hexVal4 (Nat.digitChar (n / 4096 % 16)) (Nat.digitChar (n / 256 % 16))
      (Nat.digitChar (n / 16 % 16)) (Nat.digitChar (n % 16)) = some n := by
    simp only [hexVal4, hexVal_digitChar _ (Nat.mod_lt _ (by decide : 0 < 16)),
      Option.bind_eq_bind, Option.bind_some, Option.pure_def, Option.some.injEq]
    omega
  simp [hexEsc, scanStr, hv]

/-- The code units a character is written as. -/
def unitsOf (ascii : Bool) (c : Char) : List ℕ :=
  if ascii = true ∧ 0x10000 ≤ c.toNat then
    [0xD800 + (c.toNat - 0x10000) / 0x400, 0xDC00 + (c.toNat - 0x10000) % 0x400]
  else [c.toNat]

theorem scanStr_plain {c : Char} (h₁ : c ≠ '"') (h₂ : c ≠ '\\') (h₃ : ¬ c.toNat < 0x20)
    (r : List Char) : scanStr (c :: r) = (scanStr r).map fun p => (c.toNat :: p.1, p.2) := by
  rw [scanStr.eq_def]
  split <;> simp_all

theorem toNat_lt (c : Char) : c.toNat < 0x110000 := by
  rcases c.valid with h | h
  · exact h.trans (by decide)
  · exact h.2

theorem scanStr_escChar (ascii : Bool) (c : Char) (r : List Char) :
    scanStr (escChar ascii c ++ r) =
      (scanStr r).map fun p => (unitsOf ascii c ++ p.1, p.2) := by
  -- the one-letter escapes
  have short : ∀ {d e : Char}, unescape e = some d → e ≠ 'u' → d.toNat < 0x10000 →
      scanStr ('\\' :: e :: r) = (scanStr r).map fun p => (unitsOf ascii d ++ p.1, p.2) := by
    intro d e hd he hn
    have hu : unitsOf ascii d = [d.toNat] := if_neg (by omega)
    rw [scanStr.eq_def, hu]
    split
    · simp_all
    · simp_all
    · simp_all
    · rename_i h; cases h; simp [hd]
    · rename_i h' h; cases h; exact absurd rfl (h' e r rfl)
  have charEq : ∀ {d : Char}, c.toNat = d.toNat → c = d := Char.toNat_inj.1
  unfold escChar
  split_ifs with h₁ h₂ h₃ h₄ h₅ h₆ h₇ h₈ h₉
  · obtain rfl := charEq (d := '"') h₁; exact short rfl (by decide) (by decide)
  · obtain rfl := charEq (d := '\\') h₂; exact short rfl (by decide) (by decide)
  · obtain rfl := charEq (d := '\n') h₃; exact short rfl (by decide) (by decide)
  · obtain rfl := charEq (d := '\r') h₄; exact short rfl (by decide) (by decide)
  · obtain rfl := charEq (d := '\t') h₅; exact short rfl (by decide) (by decide)
  · obtain rfl := charEq (d := '\x08') h₆; exact short rfl (by decide) (by decide)
  · obtain rfl := charEq (d := '\x0c') h₇; exact short rfl (by decide) (by decide)
  · rw [scanStr_hexEsc (by omega)]; simp [unitsOf, show ¬ 0x10000 ≤ c.toNat by omega]
  · have hc := toNat_lt c
    unfold uniEsc
    split_ifs with h
    · rw [scanStr_hexEsc h]; simp [unitsOf, show ¬ 0x10000 ≤ c.toNat by omega]
    · rw [List.append_assoc, scanStr_hexEsc (by omega), scanStr_hexEsc (by omega)]
      simp [unitsOf, h₉.1, show 0x10000 ≤ c.toNat by omega, Function.comp_def]
  · rw [List.singleton_append, scanStr_plain (by rintro rfl; exact h₁ rfl) (by rintro rfl; exact h₂ rfl) h₈]
    have hu : ¬ (ascii = true ∧ 0x10000 ≤ c.toNat) := fun h => h₉ ⟨h.1, by omega⟩
    simp [unitsOf, hu]

theorem scanStr_chars (ascii : Bool) (cs r : List Char) :
    scanStr (cs.flatMap (escChar ascii) ++ '"' :: r) = some (cs.flatMap (unitsOf ascii), r) := by
  induction cs with
  | nil => simp [scanStr]
  | cons c cs ih =>
    rw [List.flatMap_cons, List.append_assoc, scanStr_escChar, ih]
    simp

theorem joinUnits_toNat (c : Char) (us : List ℕ) :
    joinUnits (c.toNat :: us) = c.toNat :: joinUnits us := by
  have hs : ¬ (0xD800 ≤ c.toNat ∧ c.toNat < 0xDC00) := by
    rcases c.valid with h | h
    · have : c.toNat < 0xD800 := h
      omega
    · have : 0xDFFF < c.toNat := h.1
      omega
  cases us with
  | nil => rfl
  | cons l us => rw [joinUnits, if_neg (fun h => hs ⟨h.1, h.2.1⟩)]

theorem joinUnits_unitsOf (ascii : Bool) (cs : List Char) :
    joinUnits (cs.flatMap (unitsOf ascii)) = cs.map Char.toNat := by
  induction cs with
  | nil => rfl
  | cons c cs ih =>
    rw [List.flatMap_cons, List.map_cons, unitsOf]
    split_ifs with h
    · have hc := toNat_lt c
      rw [List.cons_append, List.cons_append, List.nil_append, joinUnits,
        if_pos (by omega), ih]
      rw [show 0x10000 + (0xD800 + (c.toNat - 0x10000) / 0x400 - 0xD800) * 0x400 +
        (0xDC00 + (c.toNat - 0x10000) % 0x400 - 0xDC00) = c.toNat by omega]
    · rw [List.singleton_append, joinUnits_toNat, ih]

theorem strOfUnits_unitsOf (ascii : Bool) (s : String) :
    strOfUnits (s.toList.flatMap (unitsOf ascii)) = some s := by
  have hv : (s.toList.map Char.toNat).all (fun n => decide n.isValidChar) = true := by
    simp only [List.all_map, List.all_eq_true, Function.comp_apply, decide_eq_true_iff]
    exact fun c _ => c.valid
  have hm : (s.toList.map Char.toNat).map Char.ofNat = s.toList := by
    simp [Function.comp_def, Char.ofNat_toNat]
  rw [strOfUnits, joinUnits_unitsOf, if_pos hv, hm, String.ofList_toList]

/-- The text of a string reads back as the string. -/
theorem scanStr_dumpsStr (ascii : Bool) (s : String) (r : List Char) :
    ∃ us, scanStr (s.toList.flatMap (escChar ascii) ++ '"' :: r) = some (us, r) ∧
      strOfUnits us = some s :=
  ⟨_, scanStr_chars ascii s.toList r, strOfUnits_unitsOf ascii s⟩

/-! ## Numbers read back -/

/-- A text that does not continue a number. -/
def Stop (r : List Char) : Prop :=
  ∀ c ∈ r.head?, c.isDigit = false ∧ c ≠ '.' ∧ c ≠ 'e' ∧ c ≠ 'E'

theorem spanDigits_append {ds r : List Char} (hd : ∀ c ∈ ds, c.isDigit = true) (hr : Stop r) :
    spanDigits (ds ++ r) = (ds, r) := by
  induction ds with
  | nil =>
    cases r with
    | nil => rfl
    | cons c r => simp [spanDigits, (hr c rfl).1]
  | cons d ds ih =>
    rw [List.forall_mem_cons] at hd
    simp [spanDigits, hd.1, ih hd.2]

theorem scanFrac_stop {r : List Char} (hr : Stop r) : scanFrac r = ([], r) := by
  cases r with
  | nil => rfl
  | cons c r =>
    obtain ⟨-, h₁, h₂, h₃⟩ := hr c rfl
    unfold scanFrac
    split
    rename_i h
    split at h
    · simp_all
    · cases h; simp [h₂, h₃]

/-- The decimal digits of a positive number do not start with `0`. -/
theorem head_toDigits {n : ℕ} (h : n ≠ 0) : (Nat.toDigits 10 n).head? ≠ some '0' := by
  induction n using Nat.strong_induction_on with
  | _ n ih =>
    by_cases hn : n < 10
    · rw [Nat.toDigits_of_lt_base hn]
      have : ∀ m < 10, m ≠ 0 → [Nat.digitChar m].head? ≠ some '0' := by decide
      exact this n hn h
    · rw [Nat.toDigits_of_base_le (by decide) (by omega), List.head?_append_of_ne_nil _
        Nat.toDigits_ne_nil]
      exact ih (n / 10) (by omega) (by omega)

theorem scanNat_toDigits (n : ℕ) {r : List Char} (hr : Stop r) :
    scanNat (Nat.toDigits 10 n ++ r) = some (Nat.toDigits 10 n, r) := by
  have hd : ∀ c ∈ Nat.toDigits 10 n, c.isDigit = true :=
    fun c hc => Nat.isDigit_of_mem_toDigits (by decide) (by decide) hc
  rw [scanNat, spanDigits_append hd hr]
  by_cases h0 : n = 0
  · subst h0; rfl
  · have hh := head_toDigits h0
    split
    · rename_i h; exact absurd (Prod.mk.inj h).1 Nat.toDigits_ne_nil
    · rename_i h; rw [(Prod.mk.inj h).1] at hh; simp at hh
    · rename_i h; rw [(Prod.mk.inj h).1, (Prod.mk.inj h).2]

theorem scanNumber_toDigits (neg : Bool) (n : ℕ) (hn : (Nat.toDigits 10 n).length ≤ maxIntDigits)
    {r : List Char} (hr : Stop r) :
    scanNumber neg (Nat.toDigits 10 n ++ r) = some (.int (if neg then -(n : ℤ) else n), r) := by
  simp [scanNumber, scanNat_toDigits n hr, scanFrac_stop hr, hn, Nat.ofDigitChars_ten_toDigits]

theorem exists_toDigits (n : ℕ) : ∃ c cs, Nat.toDigits 10 n = c :: cs ∧ c.isDigit = true := by
  obtain ⟨c, cs, h⟩ := List.exists_cons_of_ne_nil (Nat.toDigits_ne_nil (n := n) (b := 10))
  exact ⟨c, cs, h, Nat.isDigit_of_mem_toDigits (b := 10) (n := n) (by decide) (by decide)
    (by simp [h])⟩

theorem parseValueWith_digit {c : Char} (hc : c.isDigit = true) (fuel : ℕ) (r : List Char) :
    parseValueWith hook (fuel + 1) (c :: r) = scanNumber false (c :: r) := by
  rw [parseValueWith.eq_def]
  simp only
  split
  all_goals first
    | rfl
    | (rename_i h; cases h; exact absurd hc (by decide))

theorem parseValueWith_minus {c : Char} (hc : c.isDigit = true) (fuel : ℕ) (r : List Char) :
    parseValueWith hook (fuel + 1) ('-' :: c :: r) = scanNumber true (c :: r) := by
  rw [parseValueWith.eq_def]
  simp only
  split
  all_goals first
    | (rename_i h; cases h; rfl)
    | (rename_i h; cases h; exact absurd hc (by decide))
    | simp_all

theorem parseValue_digit {c : Char} (hc : c.isDigit = true) (fuel : ℕ) (r : List Char) :
    parseValue (fuel + 1) (c :: r) = scanNumber false (c :: r) := by
  rw [← (parseWith_objVal _).1, parseValueWith_digit hc]

theorem parseValue_minus {c : Char} (hc : c.isDigit = true) (fuel : ℕ) (r : List Char) :
    parseValue (fuel + 1) ('-' :: c :: r) = scanNumber true (c :: r) := by
  rw [← (parseWith_objVal _).1, parseValueWith_minus hc]

theorem parseValueWith_dumpsInt (fuel : ℕ) {n : ℤ}
    (hn : (Nat.toDigits 10 n.natAbs).length ≤ maxIntDigits) {r : List Char} (hr : Stop r) :
    parseValueWith hook (fuel + 1) (dumpsInt n ++ r) = some (.int n, r) := by
  obtain ⟨c, cs, hcs, hc⟩ := exists_toDigits n.natAbs
  have hs := fun neg => scanNumber_toDigits neg n.natAbs hn hr
  rw [hcs] at hs
  unfold dumpsInt
  split_ifs with h
  · rw [hcs, List.cons_append, List.cons_append, parseValueWith_minus hc, ← List.cons_append, hs]
    simp only [if_true, Option.some.injEq, Prod.mk.injEq, Json.int.injEq, and_true]
    omega
  · rw [hcs, List.cons_append, parseValueWith_digit hc, ← List.cons_append, hs]
    simp only [Bool.false_eq_true, if_false, Option.some.injEq, Prod.mk.injEq, Json.int.injEq,
      and_true]
    omega

/-! ## Values read back -/

theorem stop_cons {c : Char} (h : c.isDigit = false ∧ c ≠ '.' ∧ c ≠ 'e' ∧ c ≠ 'E')
    (r : List Char) : Stop (c :: r) := by
  intro d hd; simp only [List.head?_cons, Option.mem_def, Option.some.injEq] at hd; exact hd ▸ h

/-- The text of a value starts with a character that opens a value: no
    whitespace, no closing bracket. -/
theorem dumps_head (ascii : Bool) {v : Json} (hv : v.encodable = true) :
    ∃ c cs, dumps ascii v = c :: cs ∧ isWs c = false ∧ c ≠ ']' := by
  cases v with
  | null => exact ⟨_, _, rfl, by decide, by decide⟩
  | bool b => cases b <;> exact ⟨_, _, rfl, by decide, by decide⟩
  | int n =>
    rw [dumps, dumpsInt]
    split_ifs with h
    · exact ⟨_, _, rfl, by decide, by decide⟩
    · obtain ⟨c, cs, hcs, hc⟩ := exists_toDigits n.natAbs
      refine ⟨c, cs, hcs, ?_, ?_⟩
      · have : ∀ d : Char, d.isDigit = true → isWs d = false := by
          intro d hd
          simp only [isWs, Bool.or_eq_false_iff, beq_eq_false_iff_ne]
          refine ⟨⟨⟨?_, ?_⟩, ?_⟩, ?_⟩ <;> (rintro rfl; exact absurd hd (by decide))
        exact this c hc
      · rintro rfl; exact absurd hc (by decide)
  | str s => exact ⟨_, _, rfl, by decide, by decide⟩
  | arr xs => exact ⟨_, _, by rw [dumps], by decide, by decide⟩
  | obj kvs => exact ⟨_, _, by rw [dumps], by decide, by decide⟩
  | other t => simp [Json.encodable] at hv

theorem skipWs_of_not_ws {c : Char} (h : isWs c = false) (cs : List Char) :
    skipWs (c :: cs) = c :: cs := by
  simp [skipWs, h]

theorem skipWs_dumps (ascii : Bool) {v : Json} (hv : v.encodable = true) (r : List Char) :
    skipWs (dumps ascii v ++ r) = dumps ascii v ++ r := by
  obtain ⟨c, cs, h, hw, -⟩ := dumps_head ascii hv
  rw [h, List.cons_append, skipWs_of_not_ws hw]

theorem dictOf_eq_aux {kvs acc : Fields} (h : ((acc ++ kvs).map Prod.fst).Nodup) :
    kvs.foldl (fun d p => Json.insert d p.1 p.2) acc = acc ++ kvs := by
  have insert_new : ∀ (d : Fields) (k : String) (v : Json), k ∉ d.map Prod.fst →
      Json.insert d k v = d ++ [(k, v)] := by
    intro d
    induction d with
    | nil => intro k v _; rfl
    | cons p d ih =>
      intro k v hk
      simp only [List.map_cons, List.mem_cons, not_or] at hk
      rw [Json.insert, if_neg (by simpa using Ne.symm hk.1), ih k v hk.2, List.cons_append]
  induction kvs generalizing acc with
  | nil => simp
  | cons p kvs ih =>
    rw [List.append_cons] at h
    have hp : p.1 ∉ acc.map Prod.fst := by
      rw [List.map_append, List.map_append, List.nodup_append, List.nodup_append] at h
      exact fun hm => h.1.2.2 _ hm _ (by simp) rfl
    rw [List.foldl_cons, insert_new acc p.1 p.2 hp, ih h, List.append_assoc, List.singleton_append]

theorem dictOf_eq {kvs : Fields} (h : (kvs.map Prod.fst).Nodup) : dictOf kvs = kvs :=
  dictOf_eq_aux (List.nil_append kvs ▸ h)

theorem objVal_eq {kvs : Fields} (h : (kvs.map Prod.fst).Nodup) :
    objVal (kvs.map fun p => (some p.1, p.2)) = .obj kvs := by
  have hm : (kvs.map fun p : String × Json => (some p.1, p.2)).mapM
      (fun p : Option String × Json => p.1.map (·, p.2)) = some kvs := by
    clear h
    induction kvs with
    | nil => rfl
    | cons p kvs ih => simp [List.mapM_cons, ih]
  rw [objVal, hm]
  simp only [dictOf_eq h]

mutual
/-- The fuel that reading the text of a value takes. -/
def fuelOf : Json → ℕ
  | .arr xs => 1 + fuelList xs
  | .obj kvs => 1 + fuelFields kvs
  | _ => 1
def fuelList : List Json → ℕ
  | [] => 0
  | x :: xs => 1 + fuelOf x + fuelList xs
def fuelFields : Fields → ℕ
  | [] => 0
  | (_, x) :: kvs => 1 + fuelOf x + fuelFields kvs
end

theorem length_dumps_pos (ascii : Bool) {v : Json} (hv : v.encodable = true) :
    1 ≤ (dumps ascii v).length := by
  obtain ⟨c, cs, h, -⟩ := dumps_head ascii hv
  rw [h, List.length_cons]; omega

theorem fuelOf_le (ascii : Bool) (v : Json) (hv : v.encodable = true) :
    fuelOf v ≤ 2 * (dumps ascii v).length := by
  induction v using Json.ind with
  | arr xs ih =>
    rw [Json.encodable_arr] at hv
    have hl : fuelList xs ≤ 2 * (dumpsList ascii xs).length + 1 := by
      induction xs with
      | nil => simp [fuelList]
      | cons x xs ihx =>
        rw [List.forall_mem_cons] at hv
        have h₁ := ih x (by simp) hv.1
        have h₂ := ihx (fun y hy => ih y (by simp [hy])) hv.2
        have h₃ := length_dumps_pos ascii hv.1
        cases xs with
        | nil => simp only [fuelList, dumpsList]; omega
        | cons y ys => simp only [fuelList, dumpsList, List.length_append, List.length_cons] at *; omega
    simp only [fuelOf, dumps, List.length_cons, List.length_append, List.length_nil]; omega
  | obj kvs ih =>
    rw [Json.encodable_obj] at hv
    have hl : fuelFields kvs ≤ 2 * (dumpsFields ascii kvs).length + 1 := by
      induction kvs with
      | nil => simp [fuelFields]
      | cons p kvs ihx =>
        obtain ⟨k, x⟩ := p
        rw [List.forall_mem_cons] at hv
        have h₁ := ih (k, x) (by simp) hv.1
        have h₂ := ihx (fun y hy => ih y (by simp [hy])) hv.2
        have h₃ := length_dumps_pos ascii hv.1
        cases kvs with
        | nil =>
          simp only [fuelFields, dumpsFields, List.length_append, List.length_cons] at *; omega
        | cons q ys =>
          simp only [fuelFields, dumpsFields, List.length_append, List.length_cons] at *; omega
    simp only [fuelOf, dumps, List.length_cons, List.length_append, List.length_nil]; omega
  | _ => have h := length_dumps_pos ascii hv; simp only [fuelOf]; omega

variable (hook) in
/-- The reader returns `v` on the text of `v`, whatever follows it. -/
def ReadsBack (ascii : Bool) (v : Json) : Prop :=
  ∀ fuel r, fuelOf v ≤ fuel → Stop r → parseValueWith hook fuel (dumps ascii v ++ r) = some (v, r)

theorem parseElemsWith_dumpsList (ascii : Bool) {xs : List Json} (hx : xs ≠ [])
    (he : ∀ x ∈ xs, x.encodable = true) (h : ∀ x ∈ xs, ReadsBack hook ascii x) (fuel : ℕ)
    (hf : fuelList xs ≤ fuel) (r : List Char) :
    parseElemsWith hook fuel (dumpsList ascii xs ++ ']' :: r) = some (xs, r) := by
  induction xs generalizing fuel with
  | nil => exact absurd rfl hx
  | cons x xs ih =>
    rw [List.forall_mem_cons] at h he
    simp only [fuelList] at hf
    obtain ⟨f, rfl⟩ : ∃ f, fuel = f + 1 := ⟨fuel - 1, by omega⟩
    cases xs with
    | nil =>
      rw [dumpsList, parseElemsWith, h.1 f _ (by omega) (stop_cons (by decide) r)]
      simp only [skipWs_of_not_ws (show isWs ']' = false by decide)]
    | cons y ys =>
      have hy : skipWs (dumpsList ascii (y :: ys) ++ ']' :: r) =
          dumpsList ascii (y :: ys) ++ ']' :: r := by
        cases ys with
        | nil => rw [dumpsList, skipWs_dumps ascii (he.2 y (by simp))]
        | cons z zs => rw [dumpsList, List.append_assoc, skipWs_dumps ascii (he.2 y (by simp))]
      rw [dumpsList, List.append_assoc, List.cons_append, parseElemsWith,
        h.1 f _ (by omega) (stop_cons (by decide) _)]
      simp only [skipWs_of_not_ws (show isWs ',' = false by decide), hy,
        ih (by simp) he.2 h.2 f (by omega), Option.map_some]

theorem dumpsFields_cons (ascii : Bool) (k : String) (x : Json) (kvs : Fields) (r : List Char) :
    ∃ t, dumpsFields ascii ((k, x) :: kvs) ++ r = '"' :: t := by
  cases kvs with
  | nil => exact ⟨_, by rw [dumpsFields, dumpsStr]; rfl⟩
  | cons q kvs => exact ⟨_, by rw [dumpsFields, dumpsStr]; rfl⟩

theorem parseMembersWith_dumpsFields (ascii : Bool) {kvs : Fields} (hx : kvs ≠ [])
    (he : ∀ p ∈ kvs, p.2.encodable = true) (h : ∀ p ∈ kvs, ReadsBack hook ascii p.2) (fuel : ℕ)
    (hf : fuelFields kvs ≤ fuel) (r : List Char) :
    parseMembersWith hook fuel (dumpsFields ascii kvs ++ '}' :: r) =
      some (kvs.map fun p => (some p.1, p.2), r) := by
  induction kvs generalizing fuel with
  | nil => exact absurd rfl hx
  | cons p kvs ih =>
    obtain ⟨k, x⟩ := p
    rw [List.forall_mem_cons] at h he
    simp only [fuelFields] at hf
    obtain ⟨f, rfl⟩ : ∃ f, fuel = f + 1 := ⟨fuel - 1, by omega⟩
    -- the text of the value is followed by `t`, a comma or the closing bracket
    have item : ∀ t, Stop t → ∃ us, strOfUnits us = some k ∧
        scanStr (k.toList.flatMap (escChar ascii) ++ '"' :: ':' :: (dumps ascii x ++ t)) =
          some (us, ':' :: (dumps ascii x ++ t)) ∧
        parseValueWith hook f (skipWs (dumps ascii x ++ t)) = some (x, t) := by
      intro t ht
      obtain ⟨us, h₁, h₂⟩ := scanStr_dumpsStr ascii k (':' :: (dumps ascii x ++ t))
      refine ⟨us, h₂, h₁, ?_⟩
      rw [skipWs_dumps ascii he.1, h.1 f t (show fuelOf x ≤ f by omega) ht]
    cases kvs with
    | nil =>
      obtain ⟨us, h₁, h₂, h₃⟩ := item ('}' :: r) (stop_cons (by decide) r)
      rw [dumpsFields, dumpsStr, chars_eq]
      simp only [List.cons_append, List.append_assoc, List.nil_append]
      rw [parseMembersWith]
      simp only [h₂, skipWs_of_not_ws (show isWs ':' = false by decide), h₃,
        skipWs_of_not_ws (show isWs '}' = false by decide), h₁, List.map_cons, List.map_nil]
    | cons q ys =>
      obtain ⟨us, h₁, h₂, h₃⟩ := item (',' :: (dumpsFields ascii (q :: ys) ++ '}' :: r))
        (stop_cons (by decide) _)
      obtain ⟨t, ht⟩ := dumpsFields_cons ascii q.1 q.2 ys ('}' :: r)
      have hq : skipWs (dumpsFields ascii (q :: ys) ++ '}' :: r) =
          dumpsFields ascii (q :: ys) ++ '}' :: r := by
        rw [ht, skipWs_of_not_ws (by decide)]
      rw [dumpsFields, dumpsStr, chars_eq]
      simp only [List.cons_append, List.append_assoc, List.nil_append]
      rw [parseMembersWith]
      simp only [h₂, skipWs_of_not_ws (show isWs ':' = false by decide), h₃,
        skipWs_of_not_ws (show isWs ',' = false by decide), h₁, hq,
        ih (by simp) he.2 h.2 f (by omega), Option.map_some, List.map_cons]

/-- **The text of a value reads back as the value.** -/
theorem parseValueWith_dumps (hh : Keeps hook) (ascii : Bool) (v : Json) (hw : v.wf = true) (he : v.encodable = true) :
    ReadsBack hook ascii v := by
  induction v using Json.ind with
  | null =>
    intro fuel r hf _
    obtain ⟨f, rfl⟩ : ∃ f, fuel = f + 1 := ⟨fuel - 1, by simp [fuelOf] at hf; omega⟩
    rfl
  | bool b =>
    intro fuel r hf _
    obtain ⟨f, rfl⟩ : ∃ f, fuel = f + 1 := ⟨fuel - 1, by simp [fuelOf] at hf; omega⟩
    cases b <;> rfl
  | int n =>
    intro fuel r hf hr
    obtain ⟨f, rfl⟩ : ∃ f, fuel = f + 1 := ⟨fuel - 1, by simp [fuelOf] at hf; omega⟩
    exact parseValueWith_dumpsInt f (by simpa [Json.encodable] using he) hr
  | str s =>
    intro fuel r hf _
    obtain ⟨f, rfl⟩ : ∃ f, fuel = f + 1 := ⟨fuel - 1, by simp [fuelOf] at hf; omega⟩
    obtain ⟨us, h₁, h₂⟩ := scanStr_dumpsStr ascii s r
    rw [dumps, dumpsStr, chars_eq]
    simp only [List.cons_append, List.append_assoc, List.nil_append]
    rw [parseValueWith, h₁]
    simp [strVal, h₂]
  | other t => simp [Json.encodable] at he
  | arr xs ih =>
    rw [Json.wf_arr] at hw
    rw [Json.encodable_arr] at he
    intro fuel r hf _
    simp only [fuelOf] at hf
    obtain ⟨f, rfl⟩ : ∃ f, fuel = f + 1 := ⟨fuel - 1, by omega⟩
    rw [dumps, List.cons_append, List.append_assoc, List.singleton_append]
    cases xs with
    | nil => rfl
    | cons x xs =>
      have hp := parseElemsWith_dumpsList ascii (List.cons_ne_nil x xs) he
        (fun y hy => ih y hy (hw y hy) (he y hy)) f (by omega) r
      have hd : ∃ c t, dumpsList ascii (x :: xs) ++ ']' :: r = c :: t ∧ isWs c = false ∧
          c ≠ ']' := by
        obtain ⟨c, cs, h₁, h₂, h₃⟩ := dumps_head ascii (he x (by simp))
        cases xs with
        | nil => exact ⟨c, _, by rw [dumpsList, h₁]; rfl, h₂, h₃⟩
        | cons y ys => exact ⟨c, _, by rw [dumpsList, h₁]; rfl, h₂, h₃⟩
      obtain ⟨c, t, ht, hws, hc⟩ := hd
      rw [ht] at hp ⊢
      rw [parseValueWith, skipWs_of_not_ws hws]
      split
      · rename_i h; cases h; exact absurd rfl hc
      · rw [hp, Option.map_some]
  | obj kvs ih =>
    rw [Json.wf_obj] at hw
    rw [Json.encodable_obj] at he
    intro fuel r hf _
    simp only [fuelOf] at hf
    obtain ⟨f, rfl⟩ : ∃ f, fuel = f + 1 := ⟨fuel - 1, by omega⟩
    rw [dumps, List.cons_append, List.append_assoc, List.singleton_append]
    cases kvs with
    | nil =>
      rw [dumpsFields, List.nil_append, parseValueWith, skipWs_of_not_ws (by decide)]
      have h₀ : hook [] = some (.obj []) := hh [] List.nodup_nil
      simp only [h₀, Option.map_some]
    | cons p kvs =>
      have hp := parseMembersWith_dumpsFields ascii (List.cons_ne_nil p kvs) he
        (fun q hq => ih q hq (hw.2 q hq) (he q hq)) f (by omega) r
      obtain ⟨t, ht⟩ := dumpsFields_cons ascii p.1 p.2 kvs ('}' :: r)
      rw [ht] at hp ⊢
      rw [parseValueWith, skipWs_of_not_ws (by decide)]
      split
      · rename_i h; exact absurd (List.cons.inj h).1 (by decide)
      · rw [hp, Option.bind_some, hh _ hw.1, Option.map_some]

/-- `json.loads` inverts `json.dumps`, also before trailing whitespace. -/
theorem loadsWith_dumps_append (hh : Keeps hook) (ascii : Bool) {v : Json} (hw : v.wf = true)
    (he : v.encodable = true) {t : List Char} (ht : ∀ c ∈ t, isWs c = true) :
    loadsWith hook (dumps ascii v ++ t) = some v := by
  have hs : skipWs t = [] := by
    clear hw he
    induction t with
    | nil => rfl
    | cons c t ih =>
      rw [List.forall_mem_cons] at ht
      rw [skipWs, if_pos ht.1, ih ht.2]
  have hstop : Stop t := by
    intro c hc
    cases t with
    | nil => cases hc
    | cons d t =>
      have hd := ht d (by simp)
      simp only [List.head?_cons, Option.mem_def, Option.some.injEq] at hc; subst hc
      simp only [isWs, Bool.or_eq_true, beq_iff_eq] at hd
      rcases hd with ((rfl | rfl) | rfl) | rfl <;> decide
  have hf := fuelOf_le ascii v he
  rw [loadsWith, skipWs_dumps ascii he,
    parseValueWith_dumps hh ascii v hw he _ t (by rw [List.length_append]; omega) hstop]
  simp [hs]

theorem keeps_objVal : Keeps fun kvs => some (objVal kvs) :=
  fun _ h => congrArg some (objVal_eq h)

theorem parseValue_dumps (ascii : Bool) (v : Json) (hw : v.wf = true) (he : v.encodable = true)
    (fuel : ℕ) (r : List Char) (hf : fuelOf v ≤ fuel) (hr : Stop r) :
    parseValue fuel (dumps ascii v ++ r) = some (v, r) := by
  rw [← (parseWith_objVal _).1, parseValueWith_dumps keeps_objVal ascii v hw he fuel r hf hr]

theorem loads_dumps_append (ascii : Bool) {v : Json} (hw : v.wf = true) (he : v.encodable = true)
    {t : List Char} (ht : ∀ c ∈ t, isWs c = true) : loads (dumps ascii v ++ t) = some v := by
  rw [← loadsWith_objVal, loadsWith_dumps_append keeps_objVal ascii hw he ht]

theorem loads_dumps (ascii : Bool) {v : Json} (hw : v.wf = true) (he : v.encodable = true) :
    loads (dumps ascii v) = some v := by
  simpa using loads_dumps_append ascii hw he (t := []) (by simp)

/-- Two values with the same text are equal. -/
theorem dumps_injective (ascii : Bool) {v w : Json} (hv : v.wf = true) (hv' : v.encodable = true)
    (hw : w.wf = true) (hw' : w.encodable = true) (h : dumps ascii v = dumps ascii w) : v = w := by
  have := loads_dumps ascii hw hw'
  rw [← h, loads_dumps ascii hv hv'] at this
  exact Option.some.inj this

end Py
