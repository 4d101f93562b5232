/-
  Operations that read and write a disk, and that a crash can cut.

  An operation is given the number of durable steps until the crash; it returns,
  raises or crashes, and leaves a disk.  A step is labelled with its site, which
  a crash in front of it reports.

  * `Triple P x Q E K`: from a disk with `P`, `x` returns with `Q`, raises with `E` or
    crashes with `K`;
  * the rules: `Triple.pure`, `bind`, `get`, `lift`, `raise`, `write`, `ite`, and `weaken`;
  * `Triple.of_forall`: a triple from a disk at a time, and `Triple.disk`: what holds
    whatever the end.
-/
import Mathlib.Logic.Basic
import Mathlib.Data.Nat.Notation

namespace Crash

variable {σ κ ε α β : Type}

/-- How an operation ended. -/
inductive Ending (κ ε α : Type) where
  | returned (a : α)
  | raised (e : ε)
  | crashed (site : κ)

/-- What an operation leaves: its end, the steps left until the crash, and the disk. -/
structure Outcome (σ κ ε α : Type) where
  ending : Ending κ ε α
  steps : ℕ
  disk : σ

/-- An operation. -/
def Op (σ κ ε α : Type) := ℕ → σ → Outcome σ κ ε α

namespace Op

/-- Return a value. -/
def ret (a : α) : Op σ κ ε α := fun n s => ⟨.returned a, n, s⟩

/-- One operation after another. -/
def andThen (x : Op σ κ ε α) (f : α → Op σ κ ε β) : Op σ κ ε β := fun n s =>
  match x n s with
  | ⟨.returned a, m, t⟩ => f a m t
  | ⟨.raised e, m, t⟩ => ⟨.raised e, m, t⟩
  | ⟨.crashed k, m, t⟩ => ⟨.crashed k, m, t⟩

instance : Monad (Op σ κ ε) where
  pure := ret
  bind := andThen

/-- The disk. -/
def get : Op σ κ ε σ := fun n s => ⟨.returned s, n, s⟩

def raise (e : ε) : Op σ κ ε α := fun n s => ⟨.raised e, n, s⟩

/-- A computation that does not touch the disk. -/
def lift (x : Except ε α) : Op σ κ ε α := fun n s =>
  match x with
  | .ok a => ⟨.returned a, n, s⟩
  | .error e => ⟨.raised e, n, s⟩

/-- A durable step. -/
def write (site : κ) (f : σ → σ) : Op σ κ ε Unit := fun n s =>
  match n with
  | 0 => ⟨.crashed site, 0, s⟩
  | n + 1 => ⟨.returned (), n, f s⟩

end Op

/-- What an operation ends with. -/
def Outcome.Meets (r : Outcome σ κ ε α) (Q : α → σ → Prop) (E : ε → σ → Prop) (K : κ → σ → Prop) :
    Prop :=
  match r.ending with
  | .returned a => Q a r.disk
  | .raised e => E e r.disk
  | .crashed k => K k r.disk

/-- From a disk with `P` the operation returns with `Q`, raises with `E` or crashes with `K`. -/
def Triple (P : σ → Prop) (x : Op σ κ ε α) (Q : α → σ → Prop) (E : ε → σ → Prop)
    (K : κ → σ → Prop) : Prop :=
  ∀ n s, P s → (x n s).Meets Q E K

variable {P P' : σ → Prop} {x : Op σ κ ε α} {Q Q' : α → σ → Prop} {E E' : ε → σ → Prop}
  {K K' : κ → σ → Prop}

theorem Outcome.Meets.imp {r : Outcome σ κ ε α} (h : r.Meets Q E K) (hQ : ∀ a s, Q a s → Q' a s)
    (hE : ∀ e s, E e s → E' e s) (hK : ∀ k s, K k s → K' k s) : r.Meets Q' E' K' := by
  obtain ⟨ending, n, s⟩ := r
  cases ending with
  | returned a => exact hQ a s h
  | raised e => exact hE e s h
  | crashed k => exact hK k s h

/-- The rule of consequence. -/
theorem Triple.weaken (h : Triple P x Q E K) (hP : ∀ s, P' s → P s) (hQ : ∀ a s, Q a s → Q' a s)
    (hE : ∀ e s, E e s → E' e s) (hK : ∀ k s, K k s → K' k s) : Triple P' x Q' E' K' :=
  fun n s hs => (h n s (hP s hs)).imp hQ hE hK

theorem Triple.pre (h : Triple P x Q E K) (hP : ∀ s, P' s → P s) : Triple P' x Q E K :=
  h.weaken hP (fun _ _ h => h) (fun _ _ h => h) fun _ _ h => h

theorem Triple.post (h : Triple P x Q E K) (hQ : ∀ a s, Q a s → Q' a s) : Triple P x Q' E K :=
  h.weaken (fun _ h => h) hQ (fun _ _ h => h) fun _ _ h => h

theorem Triple.pure (a : α) : Triple (Q a) (Pure.pure a : Op σ κ ε α) Q E K := fun _ _ h => h

theorem Triple.bind {R : β → σ → Prop} {f : α → Op σ κ ε β} (hx : Triple P x Q E K)
    (hf : ∀ a, Triple (Q a) (f a) R E K) : Triple P (x >>= f) R E K := by
  intro n s hs
  have h := hx n s hs
  change (Op.andThen x f n s).Meets R E K
  rw [Op.andThen]
  cases hr : x n s with
  | mk ending m t =>
    rw [hr] at h
    cases ending with
    | returned a => exact hf a m t h
    | raised e => exact h
    | crashed k => exact h

theorem Triple.get : Triple P (Op.get : Op σ κ ε σ) (fun a s => a = s ∧ P s) E K :=
  fun _ _ h => ⟨rfl, h⟩

theorem Triple.raise {e : ε} (h : ∀ s, P s → E e s) : Triple P (Op.raise e : Op σ κ ε α) Q E K :=
  fun _ s hs => h s hs

theorem Triple.lift {y : Except ε α} (hok : ∀ a, y = .ok a → ∀ s, P s → Q a s)
    (herr : ∀ e, y = .error e → ∀ s, P s → E e s) : Triple P (Op.lift y : Op σ κ ε α) Q E K := by
  intro n s hs
  cases y with
  | ok a => exact hok a rfl s hs
  | error e => exact herr e rfl s hs

theorem Triple.write {site : κ} {f : σ → σ} {Q : Unit → σ → Prop} (hdone : ∀ s, P s → Q () (f s))
    (hcut : ∀ s, P s → K site s) : Triple P (Op.write site f : Op σ κ ε Unit) Q E K := by
  intro n s hs
  cases n with
  | zero => exact hcut s hs
  | succ n => exact hdone s hs

theorem Triple.ite {c : Prop} [Decidable c] {y : Op σ κ ε α} (hx : c → Triple P x Q E K)
    (hy : ¬ c → Triple P y Q E K) : Triple P (if c then x else y) Q E K := by
  by_cases hc : c
  · rw [if_pos hc]
    exact hx hc
  · rw [if_neg hc]
    exact hy hc

/-- What holds however an operation ends holds of the disk it leaves. -/
theorem Triple.disk {R : σ → Prop} (h : Triple P x (fun _ => R) (fun _ => R) fun _ => R) (n : ℕ)
    {s : σ} (hs : P s) : R (x n s).disk := by
  have hr := h n s hs
  rw [Outcome.Meets] at hr
  cases hx : (x n s).ending with
  | returned a => rwa [hx] at hr
  | raised e => rwa [hx] at hr
  | crashed k => rwa [hx] at hr

/-- A triple for every disk it may start from. -/
theorem Triple.of_forall (h : ∀ s, P s → Triple (· = s) x Q E K) : Triple P x Q E K :=
  fun n s hs => h s hs n s rfl

end Crash
