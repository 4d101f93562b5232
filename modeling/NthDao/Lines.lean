/-
  The lines of a file.

  `split sep xs` cuts `xs` after every `sep`; only its last part may not end
  with one.

  * `flatten_split`: the parts are the file;
  * `split_append`: a file of whole lines and what follows it are cut apart;
  * `Whole.getLast?`: a file of whole lines ends with `sep`;
  * `exists_torn`: every file is whole lines and a part of a line.
-/
import Mathlib.Data.List.Basic
import Mathlib.Data.List.Induction

namespace Lines

variable {α : Type*} [DecidableEq α] (sep : α)

/-- The lines of a file, each with its separator. -/
def split : List α → List (List α)
  | [] => []
  | x :: xs =>
    if x = sep then [x] :: split xs
    else match split xs with
      | [] => [[x]]
      | l :: ls => (x :: l) :: ls

@[simp] theorem flatten_split (xs : List α) : (split sep xs).flatten = xs := by
  induction xs with
  | nil => rfl
  | cons x xs ih =>
    rw [split]
    split_ifs with h
    · rw [List.flatten_cons, ih]; rfl
    · cases hs : split sep xs with
      | nil => rw [hs] at ih; rw [← ih]; rfl
      | cons l ls => rw [hs, List.flatten_cons] at ih; rw [← ih]; rfl

theorem ne_nil_of_mem_split {xs l : List α} (h : l ∈ split sep xs) : l ≠ [] := by
  induction xs generalizing l with
  | nil => cases h
  | cons x xs ih =>
    rw [split] at h
    split_ifs at h with hx
    · rcases List.mem_cons.1 h with rfl | h
      · simp
      · exact ih h
    · split at h
      · rw [List.mem_singleton.1 h]; simp
      · rename_i m ls hs
        rcases List.mem_cons.1 h with rfl | h
        · simp
        · exact ih (hs ▸ List.mem_cons_of_mem _ h)

/-- A file of whole lines. -/
def Whole (xs : List α) : Prop := ∀ l ∈ split sep xs, l.getLast? = some sep

/-- Whole lines are not changed by what follows them. -/
theorem split_append {xs : List α} (h : Whole sep xs) (ys : List α) :
    split sep (xs ++ ys) = split sep xs ++ split sep ys := by
  induction xs with
  | nil => rfl
  | cons x xs ih =>
    unfold Whole at h
    rw [List.cons_append, split, split]
    rw [split] at h
    split_ifs at h ⊢ with hx
    · rw [ih fun l hl => h l (List.mem_cons_of_mem _ hl)]; rfl
    · cases hs : split sep xs with
      | nil =>
        rw [hs] at h
        exact absurd (Option.some.inj (h [x] (by simp))) hx
      | cons l ls =>
        rw [hs] at h
        have hl : l ≠ [] := ne_nil_of_mem_split sep (hs ▸ List.mem_cons_self)
        have hw : Whole sep xs := by
          intro m hm
          rw [hs] at hm
          rcases List.mem_cons.1 hm with rfl | hm
          · have := h (x :: m) List.mem_cons_self
            rwa [List.getLast?_cons_of_ne_nil hl] at this
          · exact h m (List.mem_cons_of_mem _ hm)
        rw [ih hw, hs]; rfl

/-- One line. -/
theorem split_line {xs : List α} (h : sep ∉ xs) : split sep (xs ++ [sep]) = [xs ++ [sep]] := by
  induction xs with
  | nil => simp [split]
  | cons x xs ih =>
    rw [List.mem_cons, not_or] at h
    rw [List.cons_append, split, if_neg (Ne.symm h.1), ih h.2]

/-- A last part without the separator. -/
theorem split_of_not_mem {xs : List α} (h : sep ∉ xs) (hne : xs ≠ []) : split sep xs = [xs] := by
  induction xs with
  | nil => exact absurd rfl hne
  | cons x xs ih =>
    rw [List.mem_cons, not_or] at h
    rw [split, if_neg (Ne.symm h.1)]
    by_cases hx : xs = []
    · rw [hx, split]
    · rw [ih h.2 hx]

theorem whole_line {xs : List α} (h : sep ∉ xs) : Whole sep (xs ++ [sep]) := by
  intro l hl
  rw [split_line sep h, List.mem_singleton] at hl
  rw [hl, List.getLast?_concat]

theorem Whole.append {xs ys : List α} (hx : Whole sep xs) (hy : Whole sep ys) :
    Whole sep (xs ++ ys) := by
  intro l hl
  rw [split_append sep hx, List.mem_append] at hl
  exact hl.elim (hx l) (hy l)

/-- A file of whole lines that is not empty ends with the separator. -/
theorem Whole.getLast? {xs : List α} (h : Whole sep xs) (hne : xs ≠ []) :
    xs.getLast? = some sep := by
  have hs : split sep xs ≠ [] := fun hs => hne (by rw [← flatten_split sep xs, hs]; rfl)
  have hl := h _ (List.getLast_mem hs)
  rw [← flatten_split sep xs, ← List.dropLast_append_getLast hs, List.flatten_append]
  simp [hl]

/-- **A file is whole lines and a part of a line.** -/
theorem exists_torn (xs : List α) : ∃ whole torn, xs = whole ++ torn ∧ Whole sep whole ∧ sep ∉ torn := by
  induction xs using List.reverseRecOn with
  | nil => exact ⟨[], [], rfl, fun l hl => absurd hl List.not_mem_nil, List.not_mem_nil⟩
  | append_singleton xs x ih =>
    obtain ⟨whole, torn, rfl, hw, ht⟩ := ih
    by_cases hx : x = sep
    · subst hx
      refine ⟨whole ++ (torn ++ [x]), [], by simp, hw.append _ (whole_line x ht), List.not_mem_nil⟩
    · refine ⟨whole, torn ++ [x], by simp, hw, ?_⟩
      rw [List.mem_append, List.mem_singleton]
      rintro (h | h)
      · exact ht h
      · exact hx h.symm

/-- A file is whole iff it is empty or ends with the separator. -/
theorem whole_iff {xs : List α} : Whole sep xs ↔ xs = [] ∨ xs.getLast? = some sep := by
  constructor
  · intro h
    by_cases hx : xs = []
    · exact .inl hx
    · exact .inr (h.getLast? sep hx)
  · intro h
    obtain ⟨whole, torn, rfl, hw, ht⟩ := exists_torn sep xs
    by_cases hn : torn = []
    · rwa [hn, List.append_nil]
    · rcases h with h | h
      · exact absurd (List.append_eq_nil_iff.1 h).2 hn
      · rw [List.getLast?_append_of_ne_nil _ hn] at h
        exact absurd (List.mem_of_getLast? h) ht

end Lines
