/-
  Why a JSON text cannot be read.

  `json.loads` raises `JSONDecodeError` where the text is no JSON, and a plain `ValueError`
  as soon as it gets to an integer of more digits than the interpreter converts.

  * `loadsOr cs` is the value of a text, or which of the two is raised;
  * `loadsOr_eq_ok`: the values are those of `loads`.

  The nesting of a text is within the recursion limit.
-/
import NthDao.Py.Check
import NthDao.Py.Loads

namespace Py

inductive LoadError where
  | decode
  | digits
  deriving DecidableEq, Repr

/-- A number after its sign. -/
def scanNumberOr (neg : Bool) (cs : List Char) : Except LoadError (Json × List Char) :=
  match scanNumber neg cs with
  | some p => .ok p
  | none => .error (if (scanNat cs).isSome then .digits else .decode)

mutual
/-- One value and the text after it. -/
def parseValueOr : ℕ → List Char → Except LoadError (Json × List Char)
  | 0, _ => .error .decode
  | fuel + 1, cs =>
    match cs with
    | '"' :: r => (expect (scanStr r) .decode).map fun p => (strVal p.1, p.2)
    | '{' :: r =>
      match skipWs r with
      | '}' :: r' => .ok (.obj [], r')
      | r' => (parseMembersOr fuel r').map fun p => (objVal p.1, p.2)
    | '[' :: r =>
      match skipWs r with
      | ']' :: r' => .ok (.arr [], r')
      | r' => (parseElemsOr fuel r').map fun p => (.arr p.1, p.2)
    | 'n' :: 'u' :: 'l' :: 'l' :: r => .ok (.null, r)
    | 't' :: 'r' :: 'u' :: 'e' :: r => .ok (.bool true, r)
    | 'f' :: 'a' :: 'l' :: 's' :: 'e' :: r => .ok (.bool false, r)
    | 'N' :: 'a' :: 'N' :: r => .ok (.other "NaN", r)
    | 'I' :: 'n' :: 'f' :: 'i' :: 'n' :: 'i' :: 't' :: 'y' :: r => .ok (.other "Infinity", r)
    | '-' :: 'I' :: 'n' :: 'f' :: 'i' :: 'n' :: 'i' :: 't' :: 'y' :: r =>
      .ok (.other "-Infinity", r)
    | '-' :: r => scanNumberOr true r
    | cs => scanNumberOr false cs
/-- The elements of an array after `[`, up to its `]`. -/
def parseElemsOr : ℕ → List Char → Except LoadError (List Json × List Char)
  | 0, _ => .error .decode
  | fuel + 1, cs =>
    match parseValueOr fuel cs with
    | .error e => .error e
    | .ok (x, r) =>
      match skipWs r with
      | ']' :: r' => .ok ([x], r')
      | ',' :: r' => (parseElemsOr fuel (skipWs r')).map fun p => (x :: p.1, p.2)
      | _ => .error .decode
/-- The items of an object after `{`, up to its `}`. -/
def parseMembersOr : ℕ → List Char → Except LoadError (List (Option String × Json) × List Char)
  | 0, _ => .error .decode
  | fuel + 1, cs =>
    match cs with
    | '"' :: r =>
      match scanStr r with
      | none => .error .decode
      | some (us, r) =>
        match skipWs r with
        | ':' :: r =>
          match parseValueOr fuel (skipWs r) with
          | .error e => .error e
          | .ok (x, r) =>
            match skipWs r with
            | '}' :: r' => .ok ([(strOfUnits us, x)], r')
            | ',' :: r' =>
              (parseMembersOr fuel (skipWs r')).map fun p => ((strOfUnits us, x) :: p.1, p.2)
            | _ => .error .decode
        | _ => .error .decode
    | _ => .error .decode
end

/-- `json.loads`. -/
def loadsOr (cs : List Char) : Except LoadError Json :=
  match parseValueOr (2 * cs.length + 1) (skipWs cs) with
  | .ok (v, r) => if skipWs r = [] then .ok v else .error .decode
  | .error e => .error e

/-! ## The values -/

theorem toOption_ok {ε α : Type} (a : α) : (.ok a : Except ε α).toOption = some a := rfl

theorem toOption_error {ε α : Type} (e : ε) : (.error e : Except ε α).toOption = none := rfl

theorem toOption_map {ε α β : Type} (x : Except ε α) (f : α → β) :
    (x.map f).toOption = x.toOption.map f := by
  cases x <;> rfl

theorem toOption_expect {ε α : Type} (o : Option α) (e : ε) : (expect o e).toOption = o := by
  cases o <;> rfl

theorem toOption_scanNumberOr (neg : Bool) (cs : List Char) :
    (scanNumberOr neg cs).toOption = scanNumber neg cs := by
  rw [scanNumberOr]
  split
  · rename_i p h
    exact h.symm
  · rename_i h
    exact h.symm

/-- The three readers give the values of those that do not say why they fail. -/
theorem toOption_parse (n : ℕ) :
    (∀ cs, (parseValueOr n cs).toOption = parseValue n cs) ∧
    (∀ cs, (parseElemsOr n cs).toOption = parseElems n cs) ∧
    ∀ cs, (parseMembersOr n cs).toOption = parseMembers n cs := by
  induction n with
  | zero =>
    refine ⟨fun cs => ?_, fun cs => ?_, fun cs => ?_⟩
    · rw [parseValueOr, parseValue]; rfl
    · rw [parseElemsOr, parseElems]; rfl
    · rw [parseMembersOr, parseMembers]; rfl
  | succ n ih =>
    obtain ⟨hvalue, helems, hmembers⟩ := ih
    refine ⟨fun cs => ?_, fun cs => ?_, fun cs => ?_⟩
    · rw [parseValueOr.eq_def, parseValue.eq_def]
      simp only
      split
      · simp [toOption_map, toOption_expect]
      · split
        · rename_i hskip
          simp [hskip, toOption_ok]
        · simp [toOption_map, hmembers]
      · split
        · rename_i hskip
          simp [hskip, toOption_ok]
        · simp [toOption_map, helems]
      · simp [toOption_ok]
      · simp [toOption_ok]
      · simp [toOption_ok]
      · simp [toOption_ok]
      · simp [toOption_ok]
      · simp [toOption_ok]
      · simp [toOption_scanNumberOr]
      · simp [toOption_scanNumberOr]
    · rw [parseElemsOr, parseElems, ← hvalue]
      cases parseValueOr n cs with
      | error e => rfl
      | ok p =>
        obtain ⟨x, r⟩ := p
        rw [toOption_ok]
        dsimp only
        split
        · rename_i hskip
          simp [hskip, toOption_ok]
        · rename_i hskip
          simp [hskip, toOption_map, helems]
        · simp [toOption_error]
    · rw [parseMembersOr.eq_def, parseMembers.eq_def]
      simp only
      split
      · split
        · rename_i hscan
          simp [hscan, toOption_error]
        · rename_i hscan
          split
          · rename_i r hskip
            simp only [hscan, hskip, ← hvalue]
            cases parseValueOr n (skipWs r) with
            | error e => simp [toOption_error]
            | ok p =>
              obtain ⟨x, r⟩ := p
              rw [toOption_ok]
              dsimp only
              split
              · rename_i hskip
                simp [hskip, toOption_ok]
              · rename_i hskip
                simp [hskip, toOption_map, hmembers]
              · simp [toOption_error]
          · simp [hscan, toOption_error]
      · simp [toOption_error]

/-- **The values are those of `loads`.** -/
theorem loadsOr_eq_ok {cs : List Char} {v : Json} : loadsOr cs = .ok v ↔ loads cs = some v := by
  rw [loadsOr, loads, ← (toOption_parse _).1]
  cases parseValueOr (2 * cs.length + 1) (skipWs cs) with
  | error e =>
    constructor
    · intro h; cases h
    · intro h; cases h
  | ok p =>
    simp only [Except.toOption]
    split_ifs <;> simp

end Py
