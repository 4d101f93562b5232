/-
  A check of each element of a list, in turn.

  * `mapM_eq_ok`: all elements pass;
  * `mapM_eq_error`: one element does not, and all before it do;
  * `mapM_id_eq_some`: there is a value at each place.
-/
import NthDao.Py.Check
import Mathlib.Data.List.Forall2

namespace Py

variable {ε α β : Type} {xs : List α}

section Check

variable {f : α → Except ε β}

@[simp] theorem expect_eq_error {o : Option α} {r e : ε} :
    expect o r = .error e ↔ o = none ∧ r = e := by
  cases o <;> simp [expect]

theorem map_eq_error {x : Except ε α} {g : α → β} {e : ε} : x.map g = .error e ↔ x = .error e := by
  cases x <;> simp [Except.map]

theorem mapM_eq_ok {ys : List β} :
    xs.mapM f = .ok ys ↔ List.Forall₂ (fun x y => f x = .ok y) xs ys := by
  induction xs generalizing ys with
  | nil =>
    rw [List.mapM_nil, pure_eq_ok, List.forall₂_nil_left_iff]
    exact eq_comm
  | cons x xs ih =>
    simp only [List.mapM_cons, bind_eq_ok, pure_eq_ok, List.forall₂_cons_left_iff]
    constructor
    · rintro ⟨y, hy, ys, hys, rfl⟩
      exact ⟨y, ys, hy, ih.1 hys, rfl⟩
    · rintro ⟨y, ys, hy, hys, rfl⟩
      exact ⟨y, hy, ys, ih.2 hys, rfl⟩

/-- The first element that does not pass ends the loop. -/
theorem mapM_eq_error {e : ε} : xs.mapM f = .error e ↔ ∃ pre x post, xs = pre ++ x :: post ∧
    (∀ y ∈ pre, ∃ b, f y = .ok b) ∧ f x = .error e := by
  induction xs with
  | nil => simp [List.mapM_nil, pure, Except.pure]
  | cons x xs ih =>
    simp only [List.mapM_cons, bind_eq_error, ih]
    constructor
    · rintro (hx | ⟨b, hb, ⟨pre, y, post, rfl, hpre, hy⟩ | ⟨_, _, h⟩⟩)
      · exact ⟨[], x, xs, rfl, by simp, hx⟩
      · exact ⟨x :: pre, y, post, rfl, List.forall_mem_cons.2 ⟨⟨b, hb⟩, hpre⟩, hy⟩
      · cases h
    · rintro ⟨pre, y, post, heq, hpre, hy⟩
      cases pre with
      | nil =>
        rw [List.nil_append, List.cons.injEq] at heq
        obtain ⟨rfl, -⟩ := heq
        exact .inl hy
      | cons z pre =>
        rw [List.cons_append, List.cons.injEq] at heq
        obtain ⟨rfl, rfl⟩ := heq
        rw [List.forall_mem_cons] at hpre
        obtain ⟨⟨b, hb⟩, hpre⟩ := hpre
        exact .inr ⟨b, hb, .inl ⟨pre, y, post, rfl, hpre, hy⟩⟩

end Check

theorem mapM_id_eq_some {xs : List (Option α)} {ys : List α} :
    xs.mapM id = some ys ↔ xs = ys.map some := by
  induction xs generalizing ys with
  | nil =>
    rw [List.mapM_nil, Option.pure_def, Option.some.injEq, eq_comm, eq_comm (b := ys.map some),
      List.map_eq_nil_iff]
  | cons x xs ih =>
    simp only [List.mapM_cons, id, Option.bind_eq_bind, Option.bind_eq_some_iff, Option.pure_def,
      Option.some.injEq, ih]
    constructor
    · rintro ⟨y, rfl, ys, rfl, rfl⟩
      rfl
    · intro h
      obtain ⟨y, ys, rfl, rfl, hys⟩ := List.map_eq_cons_iff.1 h.symm
      exact ⟨y, rfl, ys, hys.symm, rfl⟩

theorem mapM_eq_none {f : α → Option β} : xs.mapM f = none ↔ ∃ x ∈ xs, f x = none := by
  induction xs with
  | nil => simp
  | cons x xs ih =>
    rw [List.mapM_cons, List.exists_mem_cons_iff, ← ih]
    cases f x with
    | none => simp
    | some b => cases xs.mapM f <;> simp

end Py
