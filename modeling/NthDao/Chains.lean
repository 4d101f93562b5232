/-
  Lists that grow at their end, and where two of them part.

  * `Diverge n xs ys`: the lists agree before index `n` and differ at it;
  * `prefix_or_diverge`: two lists extend one another or part at some index;
  * `Diverge.mono`: lists that extend them part at the same index.
-/
import Mathlib.Data.List.Basic

namespace Chains

variable {α : Type*}

/-- The lists agree before index `n` and differ at it. -/
def Diverge (n : ℕ) (xs ys : List α) : Prop :=
  xs.take n = ys.take n ∧ ∃ x y, xs[n]? = some x ∧ ys[n]? = some y ∧ x ≠ y

theorem Diverge.symm {n : ℕ} {xs ys : List α} (h : Diverge n xs ys) : Diverge n ys xs := by
  obtain ⟨ht, x, y, hx, hy, hne⟩ := h
  exact ⟨ht.symm, y, x, hy, hx, hne.symm⟩

/-- Two lists extend one another or part at some index. -/
theorem prefix_or_diverge (xs ys : List α) :
    xs <+: ys ∨ ys <+: xs ∨ ∃ n, Diverge n xs ys := by
  induction xs generalizing ys with
  | nil => exact Or.inl List.nil_prefix
  | cons x xs ih =>
    cases ys with
    | nil => exact Or.inr (Or.inl List.nil_prefix)
    | cons y ys =>
      by_cases hxy : x = y
      · subst hxy
        rcases ih ys with h | h | ⟨n, ht, a, b, ha, hb, hne⟩
        · exact Or.inl (List.prefix_cons_inj x |>.2 h)
        · exact Or.inr (Or.inl (List.prefix_cons_inj x |>.2 h))
        · exact Or.inr (Or.inr ⟨n + 1, by simp [ht], a, b, by simpa using ha, by simpa using hb, hne⟩)
      · exact Or.inr (Or.inr ⟨0, rfl, x, y, rfl, rfl, hxy⟩)

theorem take_of_extends {n : ℕ} {xs xs' : List α} (h : xs <+: xs') {x : α} (hx : xs[n]? = some x) :
    xs'.take n = xs.take n ∧ xs'[n]? = some x := by
  obtain ⟨t, rfl⟩ := h
  obtain ⟨hn, -⟩ := List.getElem?_eq_some_iff.1 hx
  refine ⟨?_, by rw [List.getElem?_append_left hn, hx]⟩
  rw [List.take_append_of_le_length (Nat.le_of_lt hn)]

/-- Where two lists part, all that extend them part. -/
theorem Diverge.mono {n : ℕ} {xs ys xs' ys' : List α} (h : Diverge n xs ys) (hx : xs <+: xs')
    (hy : ys <+: ys') : Diverge n xs' ys' := by
  obtain ⟨ht, x, y, hx', hy', hne⟩ := h
  obtain ⟨hxt, hxn⟩ := take_of_extends hx hx'
  obtain ⟨hyt, hyn⟩ := take_of_extends hy hy'
  exact ⟨by rw [hxt, hyt, ht], x, y, hxn, hyn, hne⟩

theorem Diverge.not_prefix {n : ℕ} {xs ys : List α} (h : Diverge n xs ys) : ¬ xs <+: ys := by
  intro hp
  obtain ⟨-, x, y, hx, hy, hne⟩ := h
  rw [(take_of_extends hp hx).2] at hy
  exact hne (Option.some.inj hy)

end Chains
