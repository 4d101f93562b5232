/-
  The head journal of a payment attempt as a list of anchors.

  * `accepted_prepared` and `accepted_committed`: a prepare adds a head, a
    commit leaves only its own;
  * `le_of_accepted`: where the heads grow after each commit, no accepted head
    is older than a committed one;
  * `Ledger`: the lists `_validate_anchor_sequence` accepts, and
    `Ledger.prepare`, `Ledger.commit`: the prepare and the commit of a new
    operation keep them accepted, if time does not go back.
-/
import NthDao.Commerce.AttemptStore

namespace NthDao

open Py

/-! ## Accepted heads -/

theorem latestCommittedIndex_snoc (as : List Anchor) (a : Anchor) :
    latestCommittedIndex (as ++ [a]) =
      if a.phase = .committed then (as.length : ℤ) else latestCommittedIndex as := by
  simp [latestCommittedIndex, List.zipIdx_append]

theorem latestCommittedIndex_lt (as : List Anchor) : latestCommittedIndex as < as.length := by
  induction as using List.reverseRecOn with
  | nil => decide
  | append_singleton as a ih =>
    rw [latestCommittedIndex_snoc, List.length_append]
    split
    · simp
    · push_cast; omega

theorem accepted_prepared {as : List Anchor} {a : Anchor} (h : a.phase = .prepared) :
    acceptedAnchorHeads (as ++ [a]) = acceptedAnchorHeads as ++ [a.head] := by
  have hl := latestCommittedIndex_lt as
  simp only [acceptedAnchorHeads, latestCommittedIndex_snoc, h, List.zipIdx_append]
  simp [List.filter_append, hl, h]

theorem accepted_committed {as : List Anchor} {a : Anchor} (h : a.phase = .committed) :
    acceptedAnchorHeads (as ++ [a]) = [a.head] := by
  have hnone : as.zipIdx.filter (fun p : Anchor × ℕ =>
      decide ((p.2 : ℤ) = as.length ∨ ((as.length : ℤ) < p.2 ∧ p.1.phase = .prepared))) = [] := by
    refine List.filter_eq_nil_iff.2 fun p hp => ?_
    have := (List.mem_zipIdx hp).2.1
    simp only [decide_eq_true_eq]; omega
  simp only [acceptedAnchorHeads, latestCommittedIndex_snoc, h, if_true, List.zipIdx_append,
    List.filter_append, hnone]
  simp

/-- After a commit come only anchors of the same version or newer ones. -/
def Grows (as : List Anchor) : Prop :=
  as.Pairwise fun a b => a.phase = .committed → a.seq ≤ b.seq

theorem Grows.snoc {as : List Anchor} {b : Anchor} (h : Grows as)
    (hb : ∀ a ∈ as, a.phase = .committed → a.seq ≤ b.seq) : Grows (as ++ [b]) := by
  refine List.pairwise_append.2 ⟨h, List.pairwise_singleton _ _, fun a ha c hc => ?_⟩
  rw [List.mem_singleton.1 hc]; exact hb a ha

/-- No accepted head is older than a committed one. -/
theorem le_of_accepted {as : List Anchor} (h : Grows as) {a : Anchor} (ha : a ∈ as)
    (hc : a.phase = .committed) {head : ℤ × String} (hh : head ∈ acceptedAnchorHeads as) :
    a.seq ≤ head.1 := by
  induction as using List.reverseRecOn with
  | nil => cases ha
  | append_singleton as b ih =>
    obtain ⟨h, -, hb⟩ := List.pairwise_append.1 h
    have hlast : ∀ a ∈ as, a.phase = .committed → a.seq ≤ b.seq := fun a ha => hb a ha b (by simp)
    rcases hbp : b.phase with _ | _
    · rw [accepted_prepared hbp, List.mem_append, List.mem_singleton] at hh
      have ha : a ∈ as := by
        rcases List.mem_append.1 ha with ha | ha
        · exact ha
        · rw [List.mem_singleton.1 ha, hbp] at hc; cases hc
      rcases hh with hh | rfl
      · exact ih h ha hh
      · exact hlast a ha hc
    · rw [accepted_committed hbp, List.mem_singleton] at hh
      subst hh
      rcases List.mem_append.1 ha with ha | ha
      · exact hlast a ha hc
      · rw [List.mem_singleton.1 ha]; rfl

/-! ## Validated sequences -/

variable (H : Host)

theorem verifyAnchor_time {a : Anchor} (h : verifyAnchor H a = .ok ()) : 0 < a.createdAtMs := by
  simp only [verifyAnchor, bind_eq_ok, require_eq_ok, Bool.and_eq_true, decide_eq_true_eq] at h
  obtain ⟨_, h, -⟩ := h
  exact h.2

/-- The list `as` is accepted for the attempt and the actor, with the variables
    `seen` at its end. -/
structure Ledger (attemptId actorDid : String) (as : List Anchor) (seen : Seen) : Prop where
  valid : ∀ source, validateAnchorSequence H attemptId actorDid source as = .ok seen
  phases : ∀ x ∈ seen.phases, ∃ b ∈ as, b.operationId = x.1
  last : seen.lastCreatedAtMs ≤ 0 ∨ ∃ b ∈ as, b.createdAtMs = seen.lastCreatedAtMs

theorem Ledger.nil (attemptId actorDid : String) : Ledger H attemptId actorDid [] {} :=
  ⟨fun _ => rfl, fun _ hx => absurd hx List.not_mem_nil, Or.inl le_rfl⟩

variable {H}
variable {attemptId actorDid : String} {as : List Anchor} {seen : Seen}

theorem Ledger.snoc {seen' : Seen} {a : Anchor} (h : Ledger H attemptId actorDid as seen)
    (hstep : ∀ source, validateAnchorStep H attemptId actorDid source seen a = .ok seen')
    (hp : seen'.phases = (a.operationId, a.phase) :: seen.phases)
    (ht : seen'.lastCreatedAtMs = a.createdAtMs) : Ledger H attemptId actorDid (as ++ [a]) seen' where
  valid source := by
    have h := h.valid source
    rw [validateAnchorSequence] at h ⊢
    rw [List.foldlM_append, h]
    simp only [ok_bind, List.foldlM_cons, List.foldlM_nil, hstep source]; rfl
  phases x hx := by
    rw [hp] at hx
    rcases List.mem_cons.1 hx with rfl | hx
    · exact ⟨a, by simp, rfl⟩
    · obtain ⟨b, hb, he⟩ := h.phases x hx
      exact ⟨b, List.mem_append_left _ hb, he⟩
  last := Or.inr ⟨a, by simp, ht.symm⟩

/-- The prepare of a new operation. -/
theorem Ledger.prepare {p : Anchor} (h : Ledger H attemptId actorDid as seen)
    (hp : p.phase = .prepared) (hv : verifyAnchor H p = .ok ()) (hid : p.attemptId = attemptId)
    (hdid : p.actorDid = actorDid) (htime : ∀ b ∈ as, b.createdAtMs ≤ p.createdAtMs)
    (hfresh : ∀ b ∈ as, b.operationId ≠ p.operationId) :
    Ledger H attemptId actorDid (as ++ [p])
      { phases := (p.operationId, p.phase) :: seen.phases, prepared := p :: seen.prepared,
        lastCreatedAtMs := p.createdAtMs } := by
  have hlast : seen.lastCreatedAtMs ≤ p.createdAtMs := by
    rcases h.last with h' | ⟨b, hb, he⟩
    · exact h'.trans (verifyAnchor_time H hv).le
    · exact he ▸ htime b hb
  have hnew : (p.operationId, p.phase) ∉ seen.phases := fun hx => by
    obtain ⟨b, hb, he⟩ := h.phases _ hx
    exact hfresh b hb he
  refine h.snoc (fun source => ?_) rfl rfl
  unfold validateAnchorStep
  rw [hv, hp] at *
  simp [Except.mapError, hid, hdid, hlast, hnew, require, ok_bind]

/-- The commit of the operation just prepared. -/
theorem Ledger.commit {p c : Anchor} (h : Ledger H attemptId actorDid as seen)
    (hprep : seen.prepared.head? = some p) (hop : p.operationId = c.operationId)
    (hhead : p.head = c.head) (hpid : p.attemptId = attemptId) (hpdid : p.actorDid = actorDid)
    (hc : c.phase = .committed) (hv : verifyAnchor H c = .ok ()) (hid : c.attemptId = attemptId)
    (hdid : c.actorDid = actorDid) (htime : seen.lastCreatedAtMs ≤ c.createdAtMs)
    (hnew : (c.operationId, Phase.committed) ∉ seen.phases) :
    ∃ seen', Ledger H attemptId actorDid (as ++ [c]) seen' := by
  refine ⟨{ phases := (c.operationId, c.phase) :: seen.phases, prepared := seen.prepared,
            lastCreatedAtMs := c.createdAtMs }, h.snoc (fun source => ?_) rfl rfl⟩
  obtain ⟨ps, hps⟩ := List.head?_eq_some_iff.1 hprep
  have hm : matchPrepare seen.prepared c = .ok () := by
    have hs : p.seq = c.seq ∧ p.headHash = c.headHash := Prod.mk.inj hhead
    rw [matchPrepare, hps, List.find?_cons_of_pos (by simp [hop])]
    simp [expect, ok_bind, require, hs.1, hs.2, hpid, hpdid, hid, hdid]
  unfold validateAnchorStep
  rw [hv, hc]
  simp [Except.mapError, hid, hdid, htime, hnew, require, ok_bind, hm]

end NthDao
