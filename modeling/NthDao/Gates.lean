/-
  Checks in a row, each of which may let pass, refuse or raise.

  A check refuses with a reason.  It raises where it meets a value that it cannot
  read; what comes after is then not looked at.

  * `Gate`: whether a check can read what it meets, and whether it lets pass;
  * `Handled gates`: each gate that is reached can read what it meets;
  * `Follows x gates`: the check `x` does what the gates say;
  * `Follows.bind`, `Follows.require`, `Follows.read`, `Follows.relabel`: the gates of
    a program, one rule for each of its forms.
-/
import NthDao.Py.Check

namespace Gates

open Py

/-- The end of a check that does not let pass. -/
inductive Stop (ρ ε : Type) where
  | refused (reason : ρ)
  | raised (error : ε)
  deriving DecidableEq

/-- What one check makes of its input. -/
structure Gate where
  /-- the input can be read -/
  readable : Bool := true
  /-- the input lets pass -/
  passes : Bool := true

/-- The gates that are reached can read their input. -/
def Handled : List Gate → Prop
  | [] => True
  | g :: gs => g.readable = true ∧ (g.passes = true → Handled gs)

/-- All gates let pass. -/
def Open (gs : List Gate) : Prop := ∀ g ∈ gs, g.readable = true ∧ g.passes = true

theorem open_append {gs hs : List Gate} : Open (gs ++ hs) ↔ Open gs ∧ Open hs :=
  List.forall_mem_append

theorem handled_append {gs hs : List Gate} :
    Handled (gs ++ hs) ↔ Handled gs ∧ (Open gs → Handled hs) := by
  induction gs with
  | nil => simp [Handled, Open]
  | cons g gs ih =>
    rw [List.cons_append, Handled, Handled, ih]
    constructor
    · rintro ⟨hr, h⟩
      refine ⟨⟨hr, fun hp => (h hp).1⟩, fun ho => ?_⟩
      have hg := ho g (by simp)
      exact (h hg.2).2 fun g' hg' => ho g' (List.mem_cons_of_mem _ hg')
    · rintro ⟨⟨hr, h⟩, hh⟩
      refine ⟨hr, fun hp => ⟨h hp, fun ho => hh ?_⟩⟩
      exact List.forall_mem_cons.2 ⟨⟨hr, hp⟩, ho⟩

variable {ρ ρ' ε α β : Type}

/-- The check has raised. -/
def Raised (x : Except (Stop ρ ε) α) : Prop := ∃ e, x = .error (.raised e)

/-- The check lets pass where all gates do, and raises where one that is reached
    cannot read its input. -/
structure Follows (x : Except (Stop ρ ε) α) (gs : List Gate) : Prop where
  passes : (∃ a, x = .ok a) ↔ Open gs
  raises : Raised x ↔ ¬ Handled gs

theorem Follows.require (c : Bool) (r : ρ) :
    Follows (require c (.refused r) : Except (Stop ρ ε) Unit) [{ passes := c }] := by
  cases c
  · exact ⟨by simp [Open], by simp [Raised, Handled, Py.require]⟩
  · exact ⟨by simp [Open], by simp [Raised, Handled, Py.require]⟩

/-- A value that is read. -/
theorem Follows.read (o : Option α) (e : ε) :
    Follows (Py.expect o (.raised e) : Except (Stop ρ ε) α) [{ readable := o.isSome }] := by
  cases o
  · exact ⟨by simp [Open], by simp [Raised, Handled, Py.expect]⟩
  · exact ⟨by simp [Open], by simp [Raised, Handled, Py.expect]⟩

/-- A gate that is known to be open. -/
theorem Follows.cons_open {x : Except (Stop ρ ε) α} {g : Gate} {gs : List Gate}
    (hr : g.readable = true) (hp : g.passes = true) (h : Follows x gs) : Follows x (g :: gs) := by
  constructor
  · rw [h.passes]
    simp [Open, hr, hp]
  · rw [h.raises]
    simp [Handled, hr, hp]

/-- A check that raises instead of refusing, unless it can tell the reason. -/
theorem Follows.require_or {c d : Bool} {x : Except (Stop ρ ε) Unit} {r : ρ} {e : ε}
    (hx : x = if c then .ok () else if d then .error (.refused r) else .error (.raised e)) :
    Follows x [⟨c || d, c⟩] := by
  subst hx
  cases c <;> cases d <;>
    exact ⟨by simp [Open], by simp [Raised, Handled]⟩

theorem raised_bind {x : Except (Stop ρ ε) α} {f : α → Except (Stop ρ ε) β} :
    Raised (x >>= f) ↔ Raised x ∨ ∃ a, x = .ok a ∧ Raised (f a) := by
  cases x with
  | error e => simp [Raised, error_bind]
  | ok a => simp [Raised, ok_bind]

/-- The gates of a sequence. -/
theorem Follows.bind {x : Except (Stop ρ ε) α} {f : α → Except (Stop ρ ε) β} {gs hs : List Gate}
    (hx : Follows x gs) (hf : ∀ a, x = .ok a → Follows (f a) hs) : Follows (x >>= f) (gs ++ hs) := by
  constructor
  · rw [open_append, ← hx.passes]
    constructor
    · rintro ⟨b, hb⟩
      obtain ⟨a, ha, hb⟩ := bind_eq_ok.1 hb
      exact ⟨⟨a, ha⟩, (hf a ha).passes.1 ⟨b, hb⟩⟩
    · rintro ⟨⟨a, ha⟩, ho⟩
      obtain ⟨b, hb⟩ := (hf a ha).passes.2 ho
      exact ⟨b, bind_eq_ok.2 ⟨a, ha, hb⟩⟩
  · rw [raised_bind, handled_append, hx.raises, ← hx.passes]
    constructor
    · rintro (h | ⟨a, ha, hr⟩)
      · exact fun h' => h h'.1
      · exact fun h' => (hf a ha).raises.1 hr (h'.2 ⟨a, ha⟩)
    · intro h
      by_cases hh : Handled gs
      · obtain ⟨⟨a, ha⟩, hn⟩ := Classical.not_imp.1 (not_and.1 h hh)
        exact .inr ⟨a, ha, (hf a ha).raises.2 hn⟩
      · exact .inl hh

/-- The same reason under another name. -/
def Stop.relabel (g : ρ → ρ') : Stop ρ ε → Stop ρ' ε
  | .refused r => .refused (g r)
  | .raised e => .raised e

theorem Follows.relabel {x : Except (Stop ρ ε) α} {gs : List Gate} (h : Follows x gs) (g : ρ → ρ') :
    Follows (x.mapError (Stop.relabel g)) gs := by
  refine ⟨by rw [← h.passes]; simp, ?_⟩
  rw [← h.raises]
  cases x with
  | ok a => simp [Raised, mapError_ok]
  | error e => cases e <;> simp [Raised, mapError_error, Stop.relabel]

/-- Where a gate can only pass or raise, its refusals do not matter. -/
theorem Follows.congr {x : Except (Stop ρ ε) α} {gs hs : List Gate} (h : Follows x gs)
    (ho : Open gs ↔ Open hs) (hh : Handled gs ↔ Handled hs) : Follows x hs :=
  ⟨h.passes.trans ho, h.raises.trans (not_congr hh)⟩

end Gates
