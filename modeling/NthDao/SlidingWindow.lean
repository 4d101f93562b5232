/-
  Sliding windows over a list of times.

  At a time `now` the window of length `w` holds the times in `(now - w, now]`.

  * `inWindow` are the times in the window;
  * `inWindow_sub`: moving the clock and the times together changes nothing;
  * `inWindow_inWindow`: what has left an earlier window is not in a later one;
  * `Bounded n w ts`: no half-open interval of length `w` holds more than `n` of the times;
  * `Bounded.push`: a time joins while the window has room, and the bound is kept.
-/
import Mathlib.Algebra.Order.Group.Defs
import Mathlib.Algebra.Order.Sub.Basic
import Mathlib.Data.List.Basic
import Mathlib.Tactic.Abel
import Mathlib.Tactic.Linarith

namespace SlidingWindow

variable {τ : Type*} [AddCommGroup τ] [LinearOrder τ]

/-- The times that the window ending at `now` holds. -/
def inWindow (w now : τ) (ts : List τ) : List τ := ts.filter fun t => now - w < t ∧ t ≤ now

/-- No half-open interval of length `w` holds more than `n` of the times. -/
def Bounded (n : ℕ) (w : τ) (ts : List τ) : Prop :=
  ∀ a, (ts.filter fun t => a ≤ t ∧ t < a + w).length ≤ n

variable {w now : τ} {ts : List τ} {n : ℕ}

@[simp]
theorem mem_inWindow {t : τ} : t ∈ inWindow w now ts ↔ t ∈ ts ∧ now - w < t ∧ t ≤ now := by
  simp [inWindow]

@[simp]
theorem inWindow_nil : inWindow w now [] = [] := rfl

theorem inWindow_append (ts us : List τ) :
    inWindow w now (ts ++ us) = inWindow w now ts ++ inWindow w now us :=
  List.filter_append ..

theorem length_inWindow_le (w now : τ) (ts : List τ) : (inWindow w now ts).length ≤ ts.length :=
  List.length_filter_le _ _

theorem bounded_nil (n : ℕ) (w : τ) : Bounded n w [] := fun _ => Nat.zero_le n

variable [IsOrderedAddMonoid τ]

/-- The clock and the times may be moved together. -/
theorem inWindow_sub (w now d : τ) (ts : List τ) :
    inWindow w (now - d) (ts.map (· - d)) = (inWindow w now ts).map (· - d) := by
  rw [inWindow, inWindow, List.filter_map]
  congr 1
  refine List.filter_congr fun t _ => ?_
  have h₁ : now - d - w < t - d ↔ now - w < t := by
    rw [sub_right_comm, sub_lt_sub_iff_right]
  have h₂ : t - d ≤ now - d ↔ t ≤ now := sub_le_sub_iff_right d
  simp [h₁, h₂]

/-- What has left an earlier window is not in a later one. -/
theorem inWindow_inWindow {now' : τ} (h : now ≤ now') (hts : ∀ t ∈ ts, t ≤ now) :
    inWindow w now' (inWindow w now ts) = inWindow w now' ts := by
  rw [inWindow, inWindow, List.filter_filter]
  refine List.filter_congr fun t ht => ?_
  have hle := hts t ht
  rw [Bool.eq_iff_iff, Bool.and_eq_true, decide_eq_true_eq, decide_eq_true_eq]
  constructor
  · exact And.left
  · rintro ⟨hlt, hle'⟩
    exact ⟨⟨hlt, hle'⟩, (sub_le_sub_right h w).trans_lt hlt, hle⟩

/-- Times that are all over: the window at the last one is the end of the list. -/
theorem inWindow_self_push (hw : 0 < w) : inWindow w now (ts ++ [now]) = inWindow w now ts ++ [now] := by
  rw [inWindow_append]
  congr 1
  simp [inWindow, hw]

/-- **A time joins while the window has room.** -/
theorem Bounded.push (h : Bounded n w ts) (hts : ∀ t ∈ ts, t ≤ now)
    (hroom : (inWindow w now ts).length < n) : Bounded n w (ts ++ [now]) := by
  intro a
  rw [List.filter_append, List.length_append]
  by_cases ha : a ≤ now ∧ now < a + w
  · -- the interval is a part of the window and of what comes after it
    have hsub : (ts.filter fun t => a ≤ t ∧ t < a + w).length ≤ (inWindow w now ts).length := by
      rw [inWindow, ← List.countP_eq_length_filter, ← List.countP_eq_length_filter]
      refine List.countP_mono_left fun t ht hp => ?_
      rw [decide_eq_true_eq] at hp ⊢
      exact ⟨(sub_lt_iff_lt_add.2 ha.2).trans_le hp.1, hts t ht⟩
    have hone : ([now].filter fun t => a ≤ t ∧ t < a + w).length ≤ 1 := List.length_filter_le _ _
    omega
  · have hnone : [now].filter (fun t => a ≤ t ∧ t < a + w) = [] := by
      rw [List.filter_cons_of_neg (by simpa using ha), List.filter_nil]
    rw [hnone, List.length_nil, add_zero]
    exact h a

end SlidingWindow
