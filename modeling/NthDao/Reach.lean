/-
  Runs of a system given by its step function.

  `Reach step cond s₀ s`: actions that meet `cond` in the state where they are
  taken lead from `s₀` to `s`.

  * `Reach.invariant`: what every such step preserves holds in all of them;
  * `reach_of_run`: the state after a list of actions;
  * `reach_of_guarded`: the same for actions checked one by one.
-/
import Mathlib.Logic.Basic

namespace Runs

variable {σ α : Type*} (step : σ → α → Option σ)

/-- The states that actions meeting `cond` lead to. -/
inductive Reach (cond : σ → α → Prop) (s₀ : σ) : σ → Prop
  | start : Reach cond s₀ s₀
  | step {s s' : σ} {a : α} : Reach cond s₀ s → cond s a → step s a = some s' → Reach cond s₀ s'

variable {step}

/-- The induction over a run. -/
theorem Reach.invariant {cond : σ → α → Prop} {s₀ s : σ} {P : σ → Prop}
    (h : Reach step cond s₀ s) (h₀ : P s₀)
    (hstep : ∀ s a s', P s → cond s a → step s a = some s' → P s') : P s := by
  induction h with
  | start => exact h₀
  | step _ hc hs ih => exact hstep _ _ _ ih hc hs

/-- Runs of fewer actions are runs. -/
theorem Reach.mono {cond cond' : σ → α → Prop} {s₀ s : σ} (h : Reach step cond s₀ s)
    (hc : ∀ s a, cond s a → cond' s a) : Reach step cond' s₀ s := by
  induction h with
  | start => exact .start
  | step _ hs ht ih => exact ih.step (hc _ _ hs) ht

variable (step)

/-- The state after a list of actions. -/
def run : σ → List α → Option σ
  | s, [] => some s
  | s, a :: as => (step s a).bind fun s' => run s' as

variable {step}

theorem reach_of_run {cond : σ → α → Prop} {s₀ s s' : σ} {as : List α}
    (h : Reach step cond s₀ s) (hr : run step s as = some s') (hc : ∀ s, ∀ a ∈ as, cond s a) :
    Reach step cond s₀ s' := by
  induction as generalizing s with
  | nil => cases hr; exact h
  | cons a as ih =>
    rw [run, Option.bind_eq_some_iff] at hr
    obtain ⟨t, ht, hr⟩ := hr
    exact ih (h.step (hc s a (by simp)) ht) hr fun s b hb => hc s b (by simp [hb])

variable (step)

/-- The step, refused where `cond` does not hold. -/
def guarded (cond : σ → α → Prop) [∀ s a, Decidable (cond s a)] (s : σ) (a : α) : Option σ :=
  if cond s a then step s a else none

variable {step}

theorem reach_of_guarded {cond : σ → α → Prop} [∀ s a, Decidable (cond s a)] {s₀ s s' : σ}
    {as : List α} (h : Reach step cond s₀ s) (hr : run (guarded step cond) s as = some s') :
    Reach step cond s₀ s' := by
  induction as generalizing s with
  | nil => cases hr; exact h
  | cons a as ih =>
    rw [run, Option.bind_eq_some_iff] at hr
    obtain ⟨t, ht, hr⟩ := hr
    rw [guarded, Option.ite_none_right_eq_some] at ht
    exact ih (h.step ht.1 ht.2) hr

end Runs
