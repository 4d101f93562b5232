/-
  A bounded record of what was seen last.

  A queue of at most `n` values, oldest first, and beside it the set of its values, which
  answers the lookups.

  * `push` is the append of a queue that drops its oldest value when it is full;
    `push_rtake`: the queue holds the last `n` values that were pushed;
  * `Cache.mark` updates both; `Cache.Tracks.mark`: while no value comes again after it
    was dropped, the set is that of the last `n` values.
-/
import Mathlib.Data.Finset.Basic
import Mathlib.Data.Finset.Dedup
import Mathlib.Data.List.DropRight

namespace Recent

variable {α : Type*}

/-! ## The queue -/

/-- The value joins, and the oldest one of a full queue leaves. -/
def push (n : ℕ) (q : List α) (x : α) : List α :=
  if q.length = n then q.tail ++ [x] else q ++ [x]

theorem length_rtake (n : ℕ) (l : List α) : (l.rtake n).length = min n l.length := by
  rw [List.rtake, List.length_drop]
  omega

theorem tail_rtake_succ {n : ℕ} {l : List α} (h : n < l.length) :
    (l.rtake (n + 1)).tail = l.rtake n := by
  rw [List.rtake, List.rtake, List.tail_drop]
  congr 1
  omega

theorem rtake_eq_self {n : ℕ} {l : List α} (h : l.length ≤ n) : l.rtake n = l := by
  rw [List.rtake, Nat.sub_eq_zero_of_le h, List.drop_zero]

/-- The queue holds the last values that were pushed. -/
theorem push_rtake {n : ℕ} (hn : 0 < n) (l : List α) (x : α) :
    push n (l.rtake n) x = (l ++ [x]).rtake n := by
  obtain ⟨m, rfl⟩ := Nat.exists_eq_add_of_lt hn
  rw [Nat.zero_add, List.rtake_concat_succ, push, length_rtake]
  by_cases hfull : m < l.length
  · rw [if_pos (by omega), tail_rtake_succ hfull]
  · rw [if_neg (by omega), rtake_eq_self (by omega), rtake_eq_self (by omega)]

/-! ## The queue and its set -/

/-- The queue, and the set that is asked. -/
structure Cache (α : Type*) where
  queue : List α := []
  set : Finset α := ∅

/-- The value joins the queue alone. -/
def Cache.enqueue (n : ℕ) (c : Cache α) (x : α) : Cache α := { c with queue := push n c.queue x }

/-- A new value in the queue alone parts queue and set. -/
theorem Cache.enqueue_parts {n : ℕ} {c : Cache α} {x : α} (hx : x ∉ c.set) :
    x ∈ (c.enqueue n x).queue ∧ x ∉ (c.enqueue n x).set := by
  refine ⟨?_, hx⟩
  rw [Cache.enqueue, push]
  split_ifs <;> simp

variable [DecidableEq α]

/-- The value joins both; the oldest value of a full queue leaves both. -/
def Cache.mark (n : ℕ) (c : Cache α) (x : α) : Cache α where
  queue := push n c.queue x
  set :=
    match c.queue with
    | [] => insert x c.set
    | evicted :: rest =>
      if (evicted :: rest).length = n then insert x (c.set.erase evicted) else insert x c.set

/-- The cache holds the last `n` of the values that were marked, each of them once. -/
structure Cache.Tracks (n : ℕ) (c : Cache α) (marked : List α) : Prop where
  nodup : marked.Nodup
  queue : c.queue = marked.rtake n
  set : c.set = c.queue.toFinset

theorem Cache.Tracks.start (n : ℕ) : (({} : Cache α)).Tracks n [] :=
  ⟨List.nodup_nil, (List.drop_nil).symm, rfl⟩

/-- **Marking a new value keeps queue and set together.** -/
theorem Cache.Tracks.mark {n : ℕ} {c : Cache α} {marked : List α} (hn : 0 < n)
    (h : c.Tracks n marked) {x : α} (hx : x ∉ marked) : (c.mark n x).Tracks n (marked ++ [x]) where
  nodup := h.nodup.append (List.nodup_singleton x) (by simpa using hx)
  queue := by
    rw [Cache.mark, h.queue, push_rtake hn]
  set := by
    have hsub : c.queue.Nodup := h.queue ▸ h.nodup.sublist (List.drop_sublist _ _)
    obtain ⟨queue, set⟩ := c
    obtain rfl : set = queue.toFinset := h.set
    cases queue with
    | nil =>
      have hne : ¬ ([] : List α).length = n := fun h0 => hn.ne h0
      simp only [Cache.mark, push, if_neg hne]
      rfl
    | cons evicted rest =>
      by_cases hfull : (evicted :: rest).length = n
      · have hevicted : evicted ∉ rest := (List.nodup_cons.1 hsub).1
        ext y
        simp only [Cache.mark, push, if_pos hfull, List.tail_cons, Finset.mem_insert,
          Finset.mem_erase, List.mem_toFinset, List.mem_append, List.mem_cons, List.not_mem_nil,
          or_false]
        constructor
        · rintro (rfl | ⟨hne, rfl | hy⟩)
          · exact Or.inr rfl
          · exact absurd rfl hne
          · exact Or.inl hy
        · rintro (hy | rfl)
          · exact Or.inr ⟨fun he => hevicted (he ▸ hy), Or.inr hy⟩
          · exact Or.inl rfl
      · ext y
        simp only [Cache.mark, push, if_neg hfull, Finset.mem_insert, List.mem_toFinset,
          List.mem_append, List.mem_cons, List.not_mem_nil, or_false]
        tauto

theorem Cache.Tracks.mem_set {n : ℕ} {c : Cache α} {marked : List α} (h : c.Tracks n marked)
    {x : α} : x ∈ c.set ↔ x ∈ marked.rtake n := by
  rw [h.set, List.mem_toFinset, h.queue]

theorem Cache.Tracks.length_le {n : ℕ} {c : Cache α} {marked : List α} (h : c.Tracks n marked) :
    c.queue.length ≤ n := by
  rw [h.queue, length_rtake]
  exact Nat.min_le_left _ _

end Recent
