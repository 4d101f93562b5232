/-
  Sequences of checks that return or raise.

  A chain of guards `if not c: raise r` is a `do` block over `require` and
  `expect`; `require_bind_eq_ok` and `expect_bind_eq_ok` read a success of the
  block back as the conjunction of its guards.
-/
import Mathlib.Logic.Basic

namespace Py

variable {ε α β : Type}

/-- `if not c: raise r`. -/
def require (c : Bool) (r : ε) : Except ε Unit := if c then .ok () else .error r

/-- The value of an `Option`, raising `r` if there is none. -/
def expect (o : Option α) (r : ε) : Except ε α :=
  match o with
  | some a => .ok a
  | none => .error r

@[simp] theorem pure_eq_ok {a b : α} : (pure a : Except ε α) = .ok b ↔ a = b := by
  constructor
  · rintro ⟨⟩; rfl
  · rintro rfl; rfl

theorem bind_eq_ok {x : Except ε α} {f : α → Except ε β} {b : β} :
    (x >>= f) = .ok b ↔ ∃ a, x = .ok a ∧ f a = .ok b := by
  cases x with
  | error e =>
    constructor
    · intro h; cases h
    · rintro ⟨_, h, -⟩; cases h
  | ok a =>
    constructor
    · intro h; exact ⟨a, rfl, h⟩
    · rintro ⟨_, h, h'⟩; cases h; exact h'

theorem ok_bind (a : α) (f : α → Except ε β) : ((.ok a : Except ε α) >>= f) = f a := rfl

theorem error_bind (e : ε) (f : α → Except ε β) : ((.error e : Except ε α) >>= f) = .error e := rfl

theorem unit_bind_eq_ok {x : Except ε Unit} {f : Unit → Except ε β} {b : β} :
    (x >>= f) = .ok b ↔ x = .ok () ∧ f () = .ok b := by
  rw [bind_eq_ok]
  constructor
  · rintro ⟨⟨⟩, h, h'⟩; exact ⟨h, h'⟩
  · rintro ⟨h, h'⟩; exact ⟨(), h, h'⟩

theorem bind_eq_error {x : Except ε α} {f : α → Except ε β} {e : ε} :
    (x >>= f) = .error e ↔ x = .error e ∨ ∃ a, x = .ok a ∧ f a = .error e := by
  cases x with
  | error d =>
    constructor
    · intro h; cases h; exact .inl rfl
    · rintro (h | ⟨_, h, -⟩)
      · cases h; rfl
      · cases h
  | ok a =>
    constructor
    · intro h; exact .inr ⟨a, rfl, h⟩
    · rintro (h | ⟨_, h, h'⟩)
      · cases h
      · cases h; exact h'

/-- A check that returns, as a test. -/
theorem eq_ok_of_isSome {x : Except ε Unit} (h : x.toOption.isSome = true) : x = .ok () := by
  cases x with
  | error e => cases h
  | ok u => rfl

theorem exists_ok {x : Except ε α} (h : x.toOption.isSome = true) : ∃ a, x = .ok a := by
  cases x with
  | error e => cases h
  | ok a => exact ⟨a, rfl⟩

/-- A result that a test accepts. -/
theorem ok_of_any {x : Except ε α} {check : α → Bool} (h : x.toOption.any check = true) :
    ∃ a, x = .ok a ∧ check a = true := by
  cases x with
  | error e => cases h
  | ok a => exact ⟨a, rfl, h⟩

@[simp] theorem require_eq_ok {c : Bool} {r : ε} {u : Unit} : require c r = .ok u ↔ c = true := by
  cases c <;> simp [require]

@[simp] theorem require_eq_error {c : Bool} {r e : ε} :
    require c r = .error e ↔ c = false ∧ r = e := by
  cases c <;> simp [require]

@[simp] theorem require_bind_eq_ok {c : Bool} {r : ε} {f : Unit → Except ε β} {b : β} :
    (require c r >>= f) = .ok b ↔ c = true ∧ f () = .ok b := by
  rw [unit_bind_eq_ok, require_eq_ok]

@[simp] theorem expect_eq_ok {o : Option α} {r : ε} {a : α} : expect o r = .ok a ↔ o = some a := by
  cases o <;> simp [expect]

@[simp] theorem expect_bind_eq_ok {o : Option α} {r : ε} {f : α → Except ε β} {b : β} :
    (expect o r >>= f) = .ok b ↔ ∃ a, o = some a ∧ f a = .ok b := by
  simp [bind_eq_ok]

theorem mapError_ok {ε' : Type} (g : ε → ε') (a : α) :
    (Except.ok a : Except ε α).mapError g = .ok a := rfl

theorem mapError_error {ε' : Type} (g : ε → ε') (r : ε) :
    (Except.error r : Except ε α).mapError g = .error (g r) := rfl

@[simp] theorem mapError_eq_ok {ε' : Type} {x : Except ε α} {g : ε → ε'} {a : α} :
    x.mapError g = .ok a ↔ x = .ok a := by
  cases x <;> simp [mapError_ok, mapError_error]

theorem map_eq_ok {x : Except ε α} {g : α → β} {b : β} :
    x.map g = .ok b ↔ ∃ a, x = .ok a ∧ g a = b := by
  cases x <;> simp [Except.map]

theorem mapError_bind_eq_ok {ε' : Type} {x : Except ε α} {g : ε → ε'} {f : α → Except ε' β}
    {b : β} : (x.mapError g >>= f) = .ok b ↔ ∃ a, x = .ok a ∧ f a = .ok b := by
  cases x <;> simp [mapError_ok, mapError_error, error_bind, ok_bind]

end Py
