/-
  Worklists over a finite graph given by its successors.

  * `spread` marks an item when it is put on the stack, `sweep` when it is taken
    from it; both return what can be reached (`mem_spread`, `mem_sweep`), given
    fuel for every item (`spread_isSome`, `sweep_isSome`);
  * `follow` goes on to the first successor until there is none: where there is
    at most one, it lists what can be reached (`mem_follow`), and it ends where a
    rank grows along the edges (`follow_isSome`).
-/
import Mathlib.Algebra.BigOperators.Group.List.Basic
import Mathlib.Algebra.Order.BigOperators.Group.List
import Mathlib.Algebra.Order.Group.Nat
import Mathlib.Algebra.Ring.Nat
import Mathlib.Logic.Relation

namespace Worklist

open Relation

variable {α : Type} (next : α → List α)

/-- One edge. -/
def Edge (a b : α) : Prop := b ∈ next a

/-- What can be reached from the items of a list. -/
def Reaches (starts : List α) (x : α) : Prop := ∃ s ∈ starts, ReflTransGen (Edge next) s x

variable [DecidableEq α]

/-- Mark the unmarked of some items and put them on the stack. -/
def mark : List α → List α → List α → List α × List α
  | [], seen, stack => (seen, stack)
  | b :: bs, seen, stack =>
    if b ∈ seen then mark bs seen stack else mark bs (seen ++ [b]) (b :: stack)

/-- The loop that marks what it puts on the stack. -/
def spread : ℕ → List α → List α → Option (List α)
  | _, seen, [] => some seen
  | 0, _, _ :: _ => none
  | fuel + 1, seen, a :: stack =>
    spread fuel (mark (next a) seen stack).1 (mark (next a) seen stack).2

/-- The loop that marks what it takes from the stack. -/
def sweep : ℕ → List α → List α → Option (List α)
  | _, seen, [] => some seen
  | 0, _, _ :: _ => none
  | fuel + 1, seen, a :: stack =>
    if a ∈ seen then sweep fuel seen stack
    else sweep fuel (seen ++ [a]) ((next a).reverse ++ stack)

omit [DecidableEq α] in
/-- The walk along first successors. -/
def follow : ℕ → α → Option (List α)
  | 0, _ => none
  | fuel + 1, a =>
    match next a with
    | [] => some [a]
    | b :: _ => (follow fuel b).map (a :: ·)

variable {next}

omit [DecidableEq α] in
/-- A list that holds the successors of its items holds what they reach. -/
theorem mem_of_closed {seen : List α} (hc : ∀ a ∈ seen, ∀ b ∈ next a, b ∈ seen) {x : α} :
    x ∈ seen ↔ Reaches next seen x := by
  constructor
  · intro hx
    exact ⟨x, hx, .refl⟩
  · rintro ⟨s, hs, hr⟩
    induction hr with
    | refl => exact hs
    | tail _ hbc ih => exact hc _ ih _ hbc

/-! ## Marking on the way in -/

theorem mem_mark_fst {bs seen stack : List α} {x : α} :
    x ∈ (mark bs seen stack).1 ↔ x ∈ seen ∨ x ∈ bs := by
  induction bs generalizing seen stack with
  | nil => simp [mark]
  | cons b bs ih =>
    rw [mark]
    by_cases hb : b ∈ seen
    · rw [if_pos hb, ih, List.mem_cons]
      constructor
      · tauto
      · rintro (h | rfl | h)
        · exact .inl h
        · exact .inl hb
        · exact .inr h
    · rw [if_neg hb, ih]
      simp only [List.mem_append, List.mem_cons, List.not_mem_nil, or_false]
      tauto

/-- What is on the stack stays on it. -/
theorem mem_mark_of_mem {bs seen stack : List α} {x : α} (h : x ∈ stack) :
    x ∈ (mark bs seen stack).2 := by
  induction bs generalizing seen stack with
  | nil => exact h
  | cons b bs ih =>
    rw [mark]
    split_ifs
    · exact ih h
    · exact ih (List.mem_cons_of_mem _ h)

/-- What is marked first is put on the stack. -/
theorem mem_mark_snd {bs seen stack : List α} {x : α} (hx : x ∈ (mark bs seen stack).1) :
    x ∈ seen ∨ x ∈ (mark bs seen stack).2 := by
  induction bs generalizing seen stack with
  | nil => exact .inl hx
  | cons b bs ih =>
    rw [mark] at hx ⊢
    by_cases hb : b ∈ seen
    · rw [if_pos hb] at hx ⊢
      exact ih hx
    · rw [if_neg hb] at hx ⊢
      rcases ih hx with h | h
      · rcases List.mem_append.1 h with h | h
        · exact .inl h
        · rw [List.mem_singleton.1 h]
          exact .inr (mem_mark_of_mem List.mem_cons_self)
      · exact .inr h

theorem subset_mark {bs seen stack : List α} {x : α} (hx : x ∈ (mark bs seen stack).2) :
    x ∈ stack ∨ x ∈ bs := by
  induction bs generalizing seen stack with
  | nil => exact .inl hx
  | cons b bs ih =>
    rw [mark] at hx
    split_ifs at hx
    · exact (ih hx).imp_right (List.mem_cons_of_mem _)
    · rcases ih hx with h | h
      · rcases List.mem_cons.1 h with rfl | h
        · exact .inr List.mem_cons_self
        · exact .inl h
      · exact .inr (List.mem_cons_of_mem _ h)

/-- **The first loop marks what can be reached.** -/
theorem mem_spread {fuel : ℕ} {seen stack r : List α} (h : spread next fuel seen stack = some r)
    (hs : ∀ a ∈ stack, a ∈ seen)
    (hc : ∀ a ∈ seen, a ∈ stack ∨ ∀ b ∈ next a, b ∈ seen) (x : α) :
    x ∈ r ↔ Reaches next seen x := by
  induction fuel generalizing seen stack with
  | zero =>
    cases stack with
    | cons a stack => cases h
    | nil =>
      cases h
      exact mem_of_closed fun a ha => (hc a ha).resolve_left (by simp)
  | succ fuel ih =>
    cases stack with
    | nil =>
      rw [spread] at h
      cases h
      exact mem_of_closed fun a ha => (hc a ha).resolve_left (by simp)
    | cons a stack =>
      rw [List.forall_mem_cons] at hs
      rw [spread] at h
      rw [ih h]
      · constructor
        · rintro ⟨s, hm, hr⟩
          rcases mem_mark_fst.1 hm with hm | hm
          · exact ⟨s, hm, hr⟩
          · exact ⟨a, hs.1, .head hm hr⟩
        · rintro ⟨s, hm, hr⟩
          exact ⟨s, mem_mark_fst.2 (.inl hm), hr⟩
      · intro y hy
        rcases subset_mark hy with hy | hy
        · exact mem_mark_fst.2 (.inl (hs.2 y hy))
        · exact mem_mark_fst.2 (.inr hy)
      · intro y hy
        rcases mem_mark_snd hy with hm | hm
        · rcases hc y hm with hy | hy
          · rcases List.mem_cons.1 hy with rfl | hy
            · exact .inr fun b hb => mem_mark_fst.2 (.inr hb)
            · exact .inl (mem_mark_of_mem hy)
          · exact .inr fun b hb => mem_mark_fst.2 (.inl (hy b hb))
        · exact .inl hm

/-- The unmarked items of the graph. -/
def unmarked (all seen : List α) : ℕ := all.countP fun x => decide (x ∉ seen)

theorem unmarked_append_lt {all seen : List α} {b : α} (hb : b ∈ all) (hn : b ∉ seen) :
    unmarked all (seen ++ [b]) < unmarked all seen := by
  have hle : ∀ xs : List α, unmarked xs (seen ++ [b]) ≤ unmarked xs seen := fun xs => by
    refine List.countP_mono_left fun x _ hx => ?_
    simp only [List.mem_append, not_or, decide_eq_true_eq] at hx ⊢
    exact hx.1
  obtain ⟨xs, ys, rfl⟩ := List.append_of_mem hb
  have hx := hle xs
  have hy := hle ys
  simp only [unmarked, List.countP_append, List.countP_cons] at hx hy ⊢
  simp only [List.mem_append, List.mem_singleton, or_true, not_true_eq_false, decide_false, hn,
    not_false_eq_true, decide_true, if_true]
  simp only [List.mem_append, List.mem_singleton] at hx hy
  simp only [Bool.false_eq_true, if_false]
  omega

theorem length_mark {all bs seen stack : List α} (hbs : ∀ b ∈ bs, b ∈ all) :
    (mark bs seen stack).2.length + unmarked all (mark bs seen stack).1 ≤
      stack.length + unmarked all seen := by
  induction bs generalizing seen stack with
  | nil => exact le_rfl
  | cons b bs ih =>
    rw [List.forall_mem_cons] at hbs
    rw [mark]
    by_cases hb : b ∈ seen
    · rw [if_pos hb]
      exact ih hbs.2
    · rw [if_neg hb]
      refine (ih hbs.2).trans ?_
      have := unmarked_append_lt hbs.1 hb
      rw [List.length_cons]
      omega

/-- The first loop ends. -/
theorem spread_isSome (all : List α) (hall : ∀ a ∈ all, ∀ b ∈ next a, b ∈ all) {fuel : ℕ}
    {seen stack : List α} (hs : ∀ a ∈ stack, a ∈ all)
    (hf : stack.length + unmarked all seen ≤ fuel) : (spread next fuel seen stack).isSome = true := by
  induction fuel generalizing seen stack with
  | zero =>
    cases stack with
    | nil => rfl
    | cons a stack => rw [List.length_cons] at hf; omega
  | succ fuel ih =>
    cases stack with
    | nil => rfl
    | cons a stack =>
      rw [List.forall_mem_cons] at hs
      rw [spread]
      refine ih (fun y hy => ?_) ?_
      · exact (subset_mark hy).elim (hs.2 y) (hall a hs.1 y)
      · have hle : (mark (next a) seen stack).2.length + unmarked all (mark (next a) seen stack).1 ≤
            stack.length + unmarked all seen := length_mark (hall a hs.1)
        rw [List.length_cons] at hf
        omega

/-! ## Marking on the way out -/

/-- **The second loop marks what can be reached.** -/
theorem mem_sweep {fuel : ℕ} {seen stack r : List α} (h : sweep next fuel seen stack = some r)
    (hc : ∀ a ∈ seen, ∀ b ∈ next a, b ∈ seen ∨ b ∈ stack) (x : α) :
    x ∈ r ↔ x ∈ seen ∨ Reaches next stack x := by
  induction fuel generalizing seen stack with
  | zero =>
    cases stack with
    | cons a stack => cases h
    | nil =>
      cases h
      simp [Reaches]
  | succ fuel ih =>
    cases stack with
    | nil =>
      rw [sweep] at h
      cases h
      simp [Reaches]
    | cons a stack =>
      rw [sweep] at h
      by_cases ha : a ∈ seen
      · rw [if_pos ha] at h
        have hc' : ∀ y ∈ seen, ∀ b ∈ next y, b ∈ seen ∨ b ∈ stack := fun y hy b hb => by
          rcases hc y hy b hb with hm | hm
          · exact .inl hm
          · rcases List.mem_cons.1 hm with rfl | hm
            · exact .inl ha
            · exact .inr hm
        rw [ih h hc']
        constructor
        · rintro (hx | ⟨s, hs, hr⟩)
          · exact .inl hx
          · exact .inr ⟨s, List.mem_cons_of_mem _ hs, hr⟩
        · rintro (hx | ⟨s, hs, hr⟩)
          · exact .inl hx
          · rcases List.mem_cons.1 hs with rfl | hs
            · -- the path leaves the marked items through the stack, or not at all
              clear h ih hc
              induction hr with
              | refl => exact .inl ha
              | tail _ hbc ihr =>
                rcases ihr with hb | ⟨t, ht, hr⟩
                · rcases hc' _ hb _ hbc with hm | hm
                  · exact .inl hm
                  · exact .inr ⟨_, hm, .refl⟩
                · exact .inr ⟨t, ht, hr.tail hbc⟩
            · exact .inr ⟨s, hs, hr⟩
      · rw [if_neg ha] at h
        rw [ih h]
        · simp only [Reaches, List.mem_append, List.mem_reverse, List.mem_cons, List.not_mem_nil,
            or_false]
          constructor
          · rintro ((hx | rfl) | ⟨s, hs | hs, hr⟩)
            · exact .inl hx
            · exact .inr ⟨x, .inl rfl, .refl⟩
            · exact .inr ⟨a, .inl rfl, .head hs hr⟩
            · exact .inr ⟨s, .inr hs, hr⟩
          · rintro (hx | ⟨s, rfl | hs, hr⟩)
            · exact .inl (.inl hx)
            · rcases hr.cases_head with rfl | ⟨b, hb, hr⟩
              · exact .inl (.inr rfl)
              · exact .inr ⟨b, .inl hb, hr⟩
            · exact .inr ⟨s, .inr hs, hr⟩
        · intro y hy b hb
          rcases List.mem_append.1 hy with hy | hy
          · rcases hc y hy b hb with hm | hm
            · exact .inl (List.mem_append_left _ hm)
            · rcases List.mem_cons.1 hm with rfl | hm
              · exact .inl (by simp)
              · exact .inr (List.mem_append_right _ hm)
          · rw [List.mem_singleton.1 hy] at hb
            exact .inr (List.mem_append_left _ (List.mem_reverse.2 hb))

/-- The edges that leave unmarked items. -/
def pending (next : α → List α) (all seen : List α) : ℕ :=
  (all.map fun x => if x ∈ seen then 0 else (next x).length).sum

theorem pending_append_le {all seen : List α} {a : α} (ha : a ∈ all) (hn : a ∉ seen) :
    pending next all (seen ++ [a]) + (next a).length ≤ pending next all seen := by
  have hle : ∀ xs : List α, pending next xs (seen ++ [a]) ≤ pending next xs seen := fun xs => by
    refine List.sum_le_sum fun x _ => ?_
    by_cases hx : x ∈ seen
    · rw [if_pos hx, if_pos (List.mem_append_left _ hx)]
    · rw [if_neg hx]
      split_ifs
      · exact Nat.zero_le _
      · exact le_rfl
  obtain ⟨xs, ys, rfl⟩ := List.append_of_mem ha
  have hx := hle xs
  have hy := hle ys
  simp only [pending, List.map_append, List.sum_append, List.map_cons, List.sum_cons, if_neg hn]
    at hx hy ⊢
  rw [if_pos (show a ∈ seen ++ [a] by simp)]
  omega

/-- The second loop ends. -/
theorem sweep_isSome (all : List α) (hall : ∀ a ∈ all, ∀ b ∈ next a, b ∈ all) {fuel : ℕ}
    {seen stack : List α} (hs : ∀ a ∈ stack, a ∈ all)
    (hf : stack.length + pending next all seen ≤ fuel) : (sweep next fuel seen stack).isSome = true := by
  induction fuel generalizing seen stack with
  | zero =>
    cases stack with
    | nil => rfl
    | cons a stack => rw [List.length_cons] at hf; omega
  | succ fuel ih =>
    cases stack with
    | nil => rfl
    | cons a stack =>
      rw [List.forall_mem_cons] at hs
      rw [List.length_cons] at hf
      rw [sweep]
      by_cases ha : a ∈ seen
      · rw [if_pos ha]
        exact ih hs.2 (by omega)
      · rw [if_neg ha]
        refine ih (fun y hy => ?_) ?_
        · rcases List.mem_append.1 hy with hy | hy
          · exact hall a hs.1 y (List.mem_reverse.1 hy)
          · exact hs.2 y hy
        · have hle : pending next all (seen ++ [a]) + (next a).length ≤ pending next all seen :=
          pending_append_le hs.1 ha
          rw [List.length_append, List.length_reverse]
          omega

/-! ## Walking on -/

omit [DecidableEq α] in
/-- The walk lists a path from its start to an item without successors. -/
theorem follow_spec {fuel : ℕ} {a : α} {l : List α} (h : follow next fuel a = some l) :
    l.head? = some a ∧ l.IsChain (Edge next) ∧ ∀ z ∈ l.getLast?, next z = [] := by
  induction fuel generalizing a l with
  | zero => cases h
  | succ fuel ih =>
    rw [follow] at h
    split at h
    · rename_i hn
      cases h
      refine ⟨rfl, .singleton a, fun z hz => ?_⟩
      cases hz
      exact hn
    · rename_i b bs hn
      obtain ⟨l', hl, rfl⟩ := Option.map_eq_some_iff.1 h
      obtain ⟨hhead, hchain, hlast⟩ := ih hl
      cases l' with
      | nil => cases hhead
      | cons c l' =>
        cases hhead
        refine ⟨rfl, List.isChain_cons_cons.2 ⟨?_, hchain⟩, ?_⟩
        · rw [Edge, hn]
          exact List.mem_cons_self
        · rw [List.getLast?_cons_cons]
          exact hlast

omit [DecidableEq α] in
/-- **Where there is at most one successor, the walk lists what can be reached.** -/
theorem mem_follow (h₁ : ∀ x, (next x).length ≤ 1) {fuel : ℕ} {a : α} {l : List α}
    (h : follow next fuel a = some l) (x : α) : x ∈ l ↔ ReflTransGen (Edge next) a x := by
  induction fuel generalizing a l with
  | zero => cases h
  | succ fuel ih =>
    rw [follow] at h
    split at h
    · rename_i hn
      cases h
      rw [List.mem_singleton]
      constructor
      · rintro rfl
        exact .refl
      · intro hr
        rcases hr.cases_head with rfl | ⟨b, hb, -⟩
        · rfl
        · rw [Edge, hn] at hb
          cases hb
    · rename_i b bs hn
      obtain ⟨l', hl, rfl⟩ := Option.map_eq_some_iff.1 h
      have hbs : bs = [] := by
        have := h₁ a
        rw [hn, List.length_cons] at this
        exact List.length_eq_zero_iff.1 (by omega)
      rw [List.mem_cons, ih hl]
      constructor
      · rintro (rfl | hr)
        · exact .refl
        · exact .head (by rw [Edge, hn]; exact List.mem_cons_self) hr
      · intro hr
        rcases hr.cases_head with rfl | ⟨c, hc, hr⟩
        · exact .inl rfl
        · rw [Edge, hn, hbs, List.mem_singleton] at hc
          exact .inr (hc ▸ hr)

omit [DecidableEq α] in
/-- The walk ends where a rank grows along the edges. -/
theorem follow_isSome (all : List α) (rank : α → ℤ)
    (hall : ∀ a ∈ all, ∀ b ∈ next a, b ∈ all ∧ rank a < rank b) {fuel : ℕ} {a : α} (ha : a ∈ all)
    (hf : all.countP (fun x => decide (rank a < rank x)) < fuel) :
    (follow next fuel a).isSome = true := by
  induction fuel generalizing a with
  | zero => omega
  | succ fuel ih =>
    rw [follow]
    split
    · rfl
    · rename_i b bs hn
      obtain ⟨hb, hlt⟩ := hall a ha b (by rw [hn]; exact List.mem_cons_self)
      rw [Option.isSome_map]
      refine ih hb (lt_of_lt_of_le ?_ (Nat.lt_succ_iff.1 hf))
      obtain ⟨xs, ys, rfl⟩ := List.append_of_mem hb
      have hle : ∀ zs : List α, zs.countP (fun x => decide (rank b < rank x)) ≤
          zs.countP fun x => decide (rank a < rank x) := fun zs => by
        refine List.countP_mono_left fun x _ hx => ?_
        rw [decide_eq_true_eq] at hx ⊢
        exact hlt.trans hx
      have hx := hle xs
      have hy := hle ys
      simp only [List.countP_append, List.countP_cons, lt_self_iff_false, decide_false, hlt,
        decide_true, if_true, Bool.false_eq_true, if_false]
      omega

end Worklist
