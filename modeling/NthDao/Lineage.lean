/-
  Revisions that name the one before them, and what a set of them is: a line, a
  tree with forks, or a tree with gaps.

  `Rules` gives the key and the rank of a revision, the key it names, and the check
  of one edge.  Over a set `S` of revisions, `Root`, `Child`, `Forked`, `Invalid`
  and `Orphan` say where a revision stands.

  * `Forked.mono`: a fork stays one in a larger set;
  * `Line.sound` and `Line.complete`: a set whose keys differ is one line from
    rank 1 iff it has a root and nothing in it is forked, invalid or an orphan;
  * `Line.isPrefix`: of two lines, the one with fewer revisions is a prefix.
-/
import Mathlib.Data.List.Chain
import Mathlib.Data.Set.Function
import Mathlib.Logic.Relation

namespace Lineage

open Relation

/-- Revisions: rank 1 is a first one, and an edge that passes its check goes from the key that is
    named to the next rank. -/
structure Rules (α κ : Type) where
  key : α → κ
  rank : α → ℤ
  previous : α → Option κ
  /-- the check of an edge passes -/
  follows : α → α → Prop
  rank_pos : ∀ a, 1 ≤ rank a
  rank_of_follows : ∀ {a b}, follows a b → rank b = rank a + 1
  previous_of_follows : ∀ {a b}, follows a b → previous b = some (key a)

variable {α κ : Type} (R : Rules α κ) (S : Set α)

/-- A first revision. -/
def Root (a : α) : Prop := a ∈ S ∧ R.rank a = 1

/-- An edge inside the set. -/
def Child (a b : α) : Prop := a ∈ S ∧ b ∈ S ∧ R.follows a b

/-- A revision that names another one and fails the check against it. -/
def Invalid (b : α) : Prop :=
  b ∈ S ∧ R.rank b ≠ 1 ∧ ∃ a ∈ S, R.previous b = some (R.key a) ∧ ¬ R.follows a b

/-- A revision that is one of several roots, or one of several children. -/
def Seed (b : α) : Prop :=
  (Root R S b ∧ ∃ c, Root R S c ∧ c ≠ b) ∨ ∃ a c, Child R S a b ∧ Child R S a c ∧ c ≠ b

/-- A fork, or what follows one. -/
def Forked (b : α) : Prop := ∃ a, Seed R S a ∧ ReflTransGen (Child R S) a b

/-- What the roots lead to. -/
def Reached (b : α) : Prop := ∃ a, Root R S a ∧ ReflTransGen (Child R S) a b

/-- A revision that no root leads to, and that failed no check. -/
def Orphan (b : α) : Prop := b ∈ S ∧ ¬ Reached R S b ∧ ¬ Invalid R S b

/-- Revisions from rank 1 on, each following the one before. -/
def Line (l : List α) : Prop := (∃ a ∈ l.head?, R.rank a = 1) ∧ l.IsChain R.follows

variable {R S} {S' : Set α} {l l' : List α}

theorem mem_of_path {a b : α} (ha : a ∈ S) (h : ReflTransGen (Child R S) a b) : b ∈ S := by
  rcases h.cases_tail with rfl | ⟨x, -, hx⟩
  · exact ha
  · exact hx.2.1

theorem Reached.mem {b : α} (h : Reached R S b) : b ∈ S := by
  obtain ⟨a, ha, hab⟩ := h
  exact mem_of_path ha.1 hab

theorem Forked.mem {b : α} (h : Forked R S b) : b ∈ S := by
  obtain ⟨a, ha, hab⟩ := h
  refine mem_of_path ?_ hab
  rcases ha with ⟨hr, -⟩ | ⟨p, c, hc, -⟩
  · exact hr.1
  · exact hc.2.1

/-! ## Larger sets -/

theorem Root.mono (h : S ⊆ S') {a : α} (ha : Root R S a) : Root R S' a := ⟨h ha.1, ha.2⟩

theorem Child.mono (h : S ⊆ S') {a b : α} (hc : Child R S a b) : Child R S' a b :=
  ⟨h hc.1, h hc.2.1, hc.2.2⟩

/-- **A fork is never undone.** -/
theorem Forked.mono (h : S ⊆ S') {b : α} (hb : Forked R S b) : Forked R S' b := by
  obtain ⟨a, ha, hr⟩ := hb
  refine ⟨a, ?_, ReflTransGen.mono (fun _ _ hc => Child.mono h hc) _ _ hr⟩
  rcases ha with ⟨hroot, c, hc, hne⟩ | ⟨p, c, hb, hc, hne⟩
  · exact .inl ⟨hroot.mono h, c, hc.mono h, hne⟩
  · exact .inr ⟨p, c, hb.mono h, hc.mono h, hne⟩

/-! ## Ranks along a chain -/

/-- Behind the head of a chain the ranks are larger. -/
theorem rank_lt_of_mem {a : α} (h : (a :: l).IsChain R.follows) : ∀ b ∈ l, R.rank a < R.rank b := by
  induction l generalizing a with
  | nil => simp
  | cons c l ih =>
    rw [List.isChain_cons_cons] at h
    have hr := R.rank_of_follows h.1
    rw [List.forall_mem_cons]
    refine ⟨by omega, fun b hb => ?_⟩
    have := ih h.2 b hb
    omega

/-- In a chain the ranks tell the revisions apart. -/
theorem eq_of_rank_eq (h : l.IsChain R.follows) {a b : α} (ha : a ∈ l) (hb : b ∈ l)
    (hr : R.rank a = R.rank b) : a = b := by
  induction l with
  | nil => cases ha
  | cons c l ih =>
    have hlt := rank_lt_of_mem h
    rcases List.mem_cons.1 ha with hac | ha'
    · rcases List.mem_cons.1 hb with hbc | hb'
      · rw [hac, hbc]
      · have := hlt b hb'
        rw [hac] at hr
        omega
    · rcases List.mem_cons.1 hb with hbc | hb'
      · have := hlt a ha'
        rw [hbc] at hr
        omega
      · exact ih h.of_cons ha' hb'

theorem nodup_of_isChain (h : l.IsChain R.follows) : l.Nodup := by
  induction l with
  | nil => exact List.nodup_nil
  | cons a l ih =>
    rw [List.nodup_cons]
    exact ⟨fun ha => lt_irrefl _ (rank_lt_of_mem h a ha), ih h.of_cons⟩

/-- Every revision of a chain but the first follows another one of it. -/
theorem exists_follows {a b : α} (h : (a :: l).IsChain R.follows) (hb : b ∈ l) :
    ∃ c ∈ a :: l, R.follows c b := by
  induction l generalizing a with
  | nil => cases hb
  | cons c l ih =>
    rw [List.isChain_cons_cons] at h
    rcases List.mem_cons.1 hb with rfl | hb
    · exact ⟨a, List.mem_cons_self, h.1⟩
    · obtain ⟨d, hd, hf⟩ := ih h.2 hb
      exact ⟨d, List.mem_cons_of_mem _ hd, hf⟩

theorem Line.cons (h : Line R l) : ∃ a t, l = a :: t ∧ R.rank a = 1 := by
  obtain ⟨⟨a, ha, hr⟩, -⟩ := h
  cases l with
  | nil => cases ha
  | cons c t =>
    cases ha
    exact ⟨a, t, rfl, hr⟩

/-! ## A line -/

/-- A set that is one line has a root, no forks, no failed edges and no orphans. -/
structure Straight (R : Rules α κ) (S : Set α) : Prop where
  nonempty : S.Nonempty
  forked : ∀ b, ¬ Forked R S b
  invalid : ∀ b, ¬ Invalid R S b
  orphan : ∀ b, ¬ Orphan R S b

/-- **A line is straight.** -/
theorem Line.sound (h : Line R l) (hS : ∀ a, a ∈ l ↔ a ∈ S) (hinj : Set.InjOn R.key S) :
    Straight R S := by
  obtain ⟨r, t, rfl, hr⟩ := h.cons
  have hchain := h.2
  have heq : ∀ {a b}, a ∈ S → b ∈ S → R.rank a = R.rank b → a = b := fun ha hb =>
    eq_of_rank_eq hchain ((hS _).2 ha) ((hS _).2 hb)
  have hseed : ∀ b, ¬ Seed R S b := by
    rintro b (⟨hb, c, hc, hne⟩ | ⟨a, c, hb, hc, hne⟩)
    · exact hne (heq hc.1 hb.1 (hc.2.trans hb.2.symm))
    · refine hne (heq hc.2.1 hb.2.1 ?_)
      rw [R.rank_of_follows hc.2.2, R.rank_of_follows hb.2.2]
  have hroot : Root R S r := ⟨(hS r).1 List.mem_cons_self, hr⟩
  have hreached : ∀ b ∈ S, Reached R S b := by
    intro b hb
    refine ⟨r, hroot, ?_⟩
    have hsub : ∀ c ∈ r :: t, c ∈ S := fun c hc => (hS c).1 hc
    replace hb := (hS b).2 hb
    clear hr hroot heq hseed hinj h hS
    induction t generalizing r with
    | nil => rw [List.mem_singleton.1 hb]
    | cons c t ih =>
      rw [List.isChain_cons_cons] at hchain
      rcases List.mem_cons.1 hb with rfl | hb
      · exact .refl
      · exact .head ⟨hsub r (by simp), hsub c (by simp), hchain.1⟩
          (ih c hchain.2 (fun d hd => hsub d (List.mem_cons_of_mem _ hd)) hb)
  refine ⟨⟨r, hroot.1⟩, ?_, ?_, ?_⟩
  · rintro b ⟨a, ha, -⟩
    exact hseed a ha
  · rintro b ⟨hb, hne, a, ha, hprev, hnot⟩
    have hbt : b ∈ t := by
      rcases List.mem_cons.1 ((hS b).2 hb) with rfl | hbt
      · exact absurd hr hne
      · exact hbt
    obtain ⟨c, hc, hf⟩ := exists_follows hchain hbt
    have hkey : R.key a = R.key c := by
      rw [R.previous_of_follows hf] at hprev
      exact (Option.some.inj hprev).symm
    exact hnot (hinj ha ((hS c).1 hc) hkey ▸ hf)
  · rintro b ⟨hb, hnot, -⟩
    exact hnot (hreached b hb)

/-- In a straight set everything is reached. -/
theorem Straight.reached (h : Straight R S) {b : α} (hb : b ∈ S) : Reached R S b := by
  by_contra hn
  exact h.orphan b ⟨hb, hn, h.invalid b⟩

/-- There is one root. -/
theorem Straight.root (h : Straight R S) :
    ∃ r, Root R S r ∧ ∀ b, Root R S b → b = r := by
  obtain ⟨b, hb⟩ := h.nonempty
  obtain ⟨r, hr, -⟩ := h.reached hb
  refine ⟨r, hr, fun c hc => ?_⟩
  by_contra hne
  exact h.forked r ⟨r, .inl ⟨hr, c, hc, hne⟩, .refl⟩

/-- There is at most one child. -/
theorem Straight.child (h : Straight R S) {a b c : α} (hb : Child R S a b) (hc : Child R S a c) :
    b = c := by
  by_contra hne
  exact h.forked c ⟨c, .inr ⟨a, b, hc, hb, hne⟩, .refl⟩

/-- **A chain of a straight set that starts at its root and ends without a child is the set.** -/
theorem Line.complete (hs : Straight R S) (hl : l.IsChain (Child R S))
    (hhead : ∃ r ∈ l.head?, Root R S r) (hlast : ∀ z ∈ l.getLast?, ∀ b, ¬ Child R S z b) :
    Line R l ∧ ∀ a, a ∈ l ↔ a ∈ S := by
  obtain ⟨r, hr, hroot⟩ := hhead
  refine ⟨⟨⟨r, hr, hroot.2⟩, hl.imp fun _ _ h => h.2.2⟩, fun a => ⟨fun ha => ?_, fun ha => ?_⟩⟩
  · cases l with
    | nil => cases ha
    | cons c t =>
      cases hr
      rcases List.mem_cons.1 ha with rfl | ha
      · exact hroot.1
      · clear hlast
        induction t generalizing r with
        | nil => cases ha
        | cons d t ih =>
          rw [List.isChain_cons_cons] at hl
          rcases List.mem_cons.1 ha with rfl | ha
          · exact hl.1.2.1
          · -- only membership in the set is used of the head
            have hmem : ∀ (u : List α) (e : α), (e :: u).IsChain (Child R S) → ∀ x ∈ u, x ∈ S := by
              intro u
              induction u with
              | nil => simp
              | cons f u ihu =>
                intro e he
                rw [List.isChain_cons_cons] at he
                rw [List.forall_mem_cons]
                exact ⟨he.1.2.1, ihu f he.2⟩
            exact hmem t d hl.2 a ha
  · obtain ⟨r', hr', hpath⟩ := hs.reached ha
    obtain ⟨r₀, -, huniq⟩ := hs.root
    have hrr : r' = r := (huniq r' hr').trans (huniq r hroot).symm
    subst hrr
    clear hr' ha huniq hroot
    -- a path from the head stays in the list, since a child is unique
    induction hpath with
    | refl => exact List.mem_of_mem_head? hr
    | @tail b c hb hbc ih =>
      obtain ⟨u, v, huv⟩ := List.append_of_mem ih
      cases v with
      | nil =>
        have hz : b ∈ l.getLast? := by simp [huv]
        exact absurd hbc (hlast b hz c)
      | cons d v =>
        have hbd : Child R S b d := by
          rw [huv] at hl
          exact (List.isChain_cons_cons.1 (List.isChain_append.1 hl).2.1).1
        rw [hs.child hbc hbd, huv]
        simp

/-! ## Two lines -/

theorem isPrefix_of_rank {n : ℤ} (hl : l.IsChain R.follows) (hl' : l'.IsChain R.follows)
    (hn : ∀ a ∈ l.head?, R.rank a = n) (hn' : ∀ a ∈ l'.head?, R.rank a = n)
    (h : ∀ a ∈ l, a ∈ l') : l <+: l' := by
  induction l generalizing l' n with
  | nil => exact List.nil_prefix
  | cons a l ih =>
    rw [List.forall_mem_cons] at h
    cases l' with
    | nil => cases h.1
    | cons a' l' =>
      have ha := hn a rfl
      have ha' := hn' a' rfl
      have haa : a = a' := eq_of_rank_eq hl' h.1 List.mem_cons_self (ha.trans ha'.symm)
      subst haa
      rw [List.prefix_cons_inj]
      have next : ∀ {m : List α}, (a :: m).IsChain R.follows → ∀ b ∈ m.head?, R.rank b = n + 1 := by
        intro m hm b hb
        cases m with
        | nil => cases hb
        | cons c m =>
          cases hb
          rw [R.rank_of_follows (List.isChain_cons_cons.1 hm).1, ha]
      refine ih hl.of_cons hl'.of_cons (next hl) (next hl') fun b hb => ?_
      rcases List.mem_cons.1 (h.2 b hb) with rfl | hm
      · exact absurd (rank_lt_of_mem hl b hb) (lt_irrefl _)
      · exact hm

/-- **Of two lines, the one with fewer revisions is a prefix.** -/
theorem Line.isPrefix (hl : Line R l) (hl' : Line R l') (h : ∀ a ∈ l, a ∈ l') : l <+: l' := by
  obtain ⟨⟨a, ha, hra⟩, hc⟩ := hl
  obtain ⟨⟨b, hb, hrb⟩, hc'⟩ := hl'
  refine isPrefix_of_rank hc hc' (n := 1) (fun x hx => ?_) (fun x hx => ?_) h
  · rw [Option.mem_unique hx ha, hra]
  · rw [Option.mem_unique hx hb, hrb]

/-- A set has one line. -/
theorem Line.unique (hl : Line R l) (hl' : Line R l') (h : ∀ a, a ∈ l ↔ a ∈ l') : l = l' :=
  (hl.isPrefix hl' fun a ha => (h a).1 ha).eq_of_length_le
    (hl'.isPrefix hl fun a ha => (h a).2 ha).length_le

end Lineage
