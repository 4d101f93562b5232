/-
  Predicates of a time that change at known instants only.

  * `ConstantOff E P`: between two instants of `E`, `P` stays as it is;
  * `exists_last`: the last instant in an interval that has one;
  * `forall_iff_instants`: what holds up to an event holds on an interval just when it
    holds at the instants from the event on.
-/
import Mathlib.Data.Finset.Max
import Mathlib.Data.List.Basic
import Mathlib.Order.Interval.Set.Basic

namespace Timeline

variable {T : Type*} [LinearOrder T]

/-- `P` stays as it is where no instant lies. -/
def ConstantOff (E : List T) (P : T → Prop) : Prop :=
  ∀ a b, a ≤ b → (∀ e ∈ E, a < e → b < e) → (P a ↔ P b)

/-- The last instant in an interval that has one. -/
theorem exists_last {E : List T} {a b : T} (h : ∃ e ∈ E, a < e ∧ e ≤ b) :
    ∃ e ∈ E, a < e ∧ e ≤ b ∧ ∀ e' ∈ E, e < e' → b < e' := by
  obtain ⟨e₀, he₀, hin⟩ := h
  have hne : (E.toFinset.filter fun e => a < e ∧ e ≤ b).Nonempty :=
    ⟨e₀, Finset.mem_filter.2 ⟨List.mem_toFinset.2 he₀, hin⟩⟩
  have hmax := Finset.max'_mem _ hne
  rw [Finset.mem_filter, List.mem_toFinset] at hmax
  refine ⟨_, hmax.1, hmax.2.1, hmax.2.2, fun e' he' hlt => ?_⟩
  by_contra hle
  have hmem : e' ∈ E.toFinset.filter fun e => a < e ∧ e ≤ b :=
    Finset.mem_filter.2 ⟨List.mem_toFinset.2 he', hmax.2.1.trans hlt, not_lt.1 hle⟩
  exact absurd (Finset.le_max' _ _ hmem) (not_le.2 hlt)

/-- **What holds up to an event holds on an interval just when it holds at the instants from the
    event on.** -/
theorem forall_iff_instants {E : List T} {P Q : T → Prop} {t u : T} (hP : ConstantOff E P)
    (hQ : ∀ s, t ≤ s → Q s → ∃ e ∈ E, t < e ∧ e ≤ s ∧ ∀ s', e ≤ s' → Q s')
    (hbefore : ∀ s, t ≤ s → s < u → ¬Q s → P s) :
    (∀ s, t ≤ s → s < u → P s) ↔ ∀ e ∈ E, t < e → e < u → Q e → P e := by
  constructor
  · intro h e _ hte heu _
    exact h e hte.le heu
  · intro h s hts hsu
    by_cases hq : Q s
    · obtain ⟨e₀, he₀, hlt, hle, hup⟩ := hQ s hts hq
      obtain ⟨e, he, hte, hes, hlast⟩ := exists_last ⟨e₀, he₀, hlt, hle⟩
      have he₀e : e₀ ≤ e := by
        by_contra hgt
        exact absurd (hlast e₀ he₀ (not_le.1 hgt)) (not_lt.2 hle)
      exact (hP e s hes hlast).1 (h e he hte (hes.trans_lt hsu) (hup e he₀e))
    · exact hbefore s hts hsu hq

end Timeline
