/-
  Sequences of durable steps that a crash can cut.

  A step changes what is stored or raises without changing it; `run fs n s`
  makes the steps `fs` from `s` and crashes after `n` of them.

  * `Keeps P fs s`: `P` holds at every point where the sequence can be cut;
  * `run_keeps`: so it holds after every crash;
  * `run_exec`, `exec_of_run`: the run without a crash.
-/
import Mathlib.Data.Nat.Notation

namespace Durable

variable {σ ε : Type}

/-- How a sequence of steps ended. -/
inductive Outcome (ε : Type) where
  | done
  | raised (e : ε)
  | crashed

/-- The steps in order, with a crash after `n` of them. -/
def run : List (σ → Except ε σ) → ℕ → σ → σ × Outcome ε
  | [], _, s => (s, .done)
  | _ :: _, 0, s => (s, .crashed)
  | f :: fs, n + 1, s =>
    match f s with
    | .ok s' => run fs n s'
    | .error e => (s, .raised e)

theorem run_zero (fs : List (σ → Except ε σ)) (s : σ) :
    run fs 0 s = (s, if fs.isEmpty then .done else .crashed) := by
  cases fs <;> rfl

/-- `P` holds before and after every step. -/
def Keeps (P : σ → Prop) : List (σ → Except ε σ) → σ → Prop
  | [], s => P s
  | f :: fs, s => P s ∧ ∀ s', f s = .ok s' → Keeps P fs s'

theorem Keeps.now {P : σ → Prop} {fs : List (σ → Except ε σ)} {s : σ} (h : Keeps P fs s) : P s := by
  cases fs with
  | nil => exact h
  | cons f fs => exact h.1

/-- What holds at every point of a sequence holds after a crash. -/
theorem run_keeps {P : σ → Prop} {fs : List (σ → Except ε σ)} {s : σ} (h : Keeps P fs s) (n : ℕ) :
    P (run fs n s).1 := by
  induction fs generalizing n s with
  | nil => exact h
  | cons f fs ih =>
    cases n with
    | zero => exact h.1
    | succ n =>
      rw [run]
      cases hf : f s with
      | error e => exact h.1
      | ok s' => exact ih (h.2 s' hf) n

/-- All the steps, the first error stopping them. -/
def exec : List (σ → Except ε σ) → σ → Except ε σ
  | [], s => .ok s
  | f :: fs, s => f s >>= exec fs

/-- Without a crash the steps are all made. -/
theorem run_exec {fs : List (σ → Except ε σ)} {s s' : σ} (h : exec fs s = .ok s') {n : ℕ}
    (hn : fs.length ≤ n) : run fs n s = (s', .done) := by
  induction fs generalizing n s with
  | nil => cases h; rfl
  | cons f fs ih =>
    cases n with
    | zero => cases hn
    | succ n =>
      rw [exec] at h
      rw [run]
      cases hf : f s with
      | error e => rw [hf] at h; cases h
      | ok t => rw [hf] at h; exact ih h (Nat.le_of_succ_le_succ hn)

/-- A run that ends has made all the steps. -/
theorem exec_of_run {fs : List (σ → Except ε σ)} {s s' : σ} {n : ℕ}
    (h : run fs n s = (s', .done)) : exec fs s = .ok s' := by
  induction fs generalizing n s with
  | nil =>
    cases h
    rfl
  | cons f fs ih =>
    cases n with
    | zero => cases h
    | succ n =>
      rw [run] at h
      rw [exec]
      cases hf : f s with
      | error e =>
        rw [hf] at h
        cases h
      | ok t =>
        rw [hf] at h
        exact ih h

end Durable
