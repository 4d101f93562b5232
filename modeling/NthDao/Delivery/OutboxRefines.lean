/-
  The memory of an outbox and its journal.

  * `memory_refines_journal`: the journal folds in every reached state, and the
    process that took the lock last holds exactly its fold, as do all whose
    fingerprint is current, if no attempt without an error code follows one with
    it, every acknowledgement holds at both readings of the clock, and no process
    has to read a journal beyond the limit;
  * `cleared_error_kept`: without the first condition the fold keeps an error code
    that the memory has cleared.
-/
import NthDao.Delivery.OutboxCalls

namespace NthDao

namespace Delivery

open Py Runs

variable {H : Host} {Q : String → Prop}

/-! ## Equality -/

/-- The attempt does not clear an error code. -/
def KeepsError (r : OutboxRecord) (a : OutboxAttempt) : Prop :=
  a.errorCode = "" → r.lastErrorCode = ""

/-- The last error code is that of the attempts. -/
def Exact (r : OutboxRecord) : Prop := r.state = .queued → r.lastErrorCode = lastError "" r.attempts

/-- The memory is the fold. -/
def Equal (v m : Records) : Prop := v = m ∧ ∀ r ∈ v, Exact r

theorem attempted_of_keepsError {r : OutboxRecord} {a : OutboxAttempt} (h : KeepsError r a) :
    r.attempted a = Outbox.afterAttempt r a := by
  unfold OutboxRecord.attempted Outbox.afterAttempt
  by_cases ha : a.errorCode = ""
  · rw [if_pos ha, h ha, ha]
  · rw [if_neg ha]

theorem refolded_of_exact {r : OutboxRecord} (h : Exact r) (hq : r.state = .queued) :
    r.refolded = r := by
  rw [OutboxRecord.refolded, ← h hq]

/-- The fold of a change is its effect on memory. -/
theorem fold_of_change_exact {m m' : Records} {event : Fields}
    (h : Change (H := H) KeepsError Q m event m') (hs : ∀ r ∈ m, Sound H r) :
    foldEvent H event m = .ok m' := by
  cases h with
  | @enqueue r e now he hr hnow hnone _ =>
    rw [foldEvent_enqueued he hnow hnone, ← hr]
  | @attempt r a hget hq hl ha hk =>
    rw [foldEvent_attempt (hs r (Records.get_eq_some hget).1).id_isDigest ha hq hl hget,
      attempted_of_keepsError hk]
  | deliver hget _ _ hfold => exact hfold m hget
  | @expire r now hget hq hnow =>
    exact foldEvent_expired (hs r (Records.get_eq_some hget).1).id_isDigest hq hnow hget

theorem exact_of_change {m m' : Records} {event : Fields}
    (h : Change (H := H) KeepsError Q m event m') (hx : ∀ r ∈ m, Exact r) : ∀ r ∈ m', Exact r := by
  cases h with
  | @enqueue r e now _ hr _ _ _ =>
    intro q hq
    rcases List.mem_append.1 hq with hq | hq
    · exact hx q hq
    · rw [List.mem_singleton.1 hq, hr]
      intro _
      rfl
  | @attempt r a hget hq _ _ hk =>
    intro q hmem
    rcases Records.mem_set hmem with rfl | ⟨hmem, -⟩
    · intro _
      have hr := hx r (Records.get_eq_some hget).1 hq
      simp only [Outbox.afterAttempt, lastError_append, ← hr]
      by_cases ha : a.errorCode = ""
      · simp [lastError, ha, hk ha]
      · simp [lastError, ha]
    · exact hx q hmem
  | deliver =>
    intro q hmem
    rcases Records.mem_set hmem with rfl | ⟨hmem, -⟩
    · intro hq; cases hq
    · exact hx q hmem
  | expire =>
    intro q hmem
    rcases Records.mem_set hmem with rfl | ⟨hmem, -⟩
    · intro hq; cases hq
    · exact hx q hmem

/-- Equality is tracked by the writes that keep error codes. -/
theorem tracks_equal : Tracks H KeepsError Q Equal where
  agree h := h.1 ▸ .refl _
  self h := ⟨rfl, h.2⟩
  nil := ⟨rfl, fun _ hr => absurd hr List.not_mem_nil⟩
  write {o o' f f' v} h he hw := by
    obtain ⟨rfl, hx⟩ := he
    cases hw with
    | append hc henc =>
      have hsound := sound_of_change hc h.sound
      have hnodup := nodup_of_change hc h.nodup
      refine ⟨_, ⟨folds_append h.folds (flat_of_change hc) henc (fold_of_change_exact hc h.sound),
        .refl _, hsound, hnodup, rfl⟩, rfl, exact_of_change hc hx⟩
    | compact henc =>
      have hkeep : ∀ r ∈ o.records.keep, r ∈ o.records ∧ r.state = .queued := by
        intro r hr
        rw [Records.keep, List.mem_filter] at hr
        refine ⟨hr.1, ?_⟩
        revert hr
        cases r.state <;> simp [OutboxState.isTerminal]
      have hmap : o.records.keep.map OutboxRecord.refolded = o.records.keep := by
        refine (List.map_congr_left fun r hr => ?_).trans (List.map_id _)
        exact refolded_of_exact (hx r (hkeep r hr).1) (hkeep r hr).2
      have hfolds := folds_compact f h.sound h.nodup henc
      rw [hmap] at hfolds
      exact ⟨_, ⟨hfolds, .refl _, fun r hr => h.sound r (hkeep r hr).1,
        h.nodup.sublist (List.filter_sublist.map _), rfl⟩, rfl, fun r hr => hx r (hkeep r hr).1⟩

/-! ## Runs -/

variable (H) in
/-- The call clears no error code, its acknowledgement holds at both readings of
    the clock, and its process reads the journal. -/
def OutboxWorld.KeepsErrors (w : OutboxWorld) (a : OutboxAct) : Prop :=
  w.Readable a ∧ ∀ i c, a = .call i c → c.AckHolds H ∧
    ∀ v, (outboxReader H).load w.file.bytes [] = .ok v → c.Meets KeepsError v

/-- **The memory of the outbox is the fold of its journal.** -/
theorem memory_refines_journal {w : OutboxWorld}
    (h : Reach (OutboxWorld.step H) (OutboxWorld.KeepsErrors H) {} w) :
    ∃ v, (outboxReader H).load w.file.bytes [] = .ok v ∧
      (∀ i o, w.turn = some i → w.procs[i]? = some o → o.records = v) ∧
      ∀ o ∈ w.procs, o.journalStat = w.file.stat → o.records = v := by
  have hinv : ∃ v, w.Inv H Equal True v := by
    refine h.invariant (P := fun w => ∃ v, w.Inv H Equal True v)
      ⟨[], inv_start (tracks_equal (Q := fun _ => True))⟩ ?_
    rintro s a s' ⟨v, hv⟩ ⟨hread, hcall⟩ hstep
    have hmeets : ∀ i c m, a = .call i c → Equal v m →
        c.Meets KeepsError m ∧ c.Enqueues (fun _ => True) m := by
      rintro i c m ha ⟨rfl, -⟩
      exact ⟨(hcall i c ha).2 v hv.folds.load, c.enqueues_of_forall fun _ => trivial⟩
    obtain ⟨v', hv', -⟩ := inv_step hv tracks_equal (fun i c ha => (hcall i c ha).1) hmeets
      (fun _ => hread) hstep
    exact ⟨v', hv'⟩
  obtain ⟨v, hv⟩ := hinv
  refine ⟨v, hv.folds.load, fun i o hi ho => ?_, fun o ho hs => (hv.agree o ho hs).1.symm⟩
  have hmem := List.mem_of_getElem? ho
  exact (hv.agree o hmem (hv.turn trivial i o hi ho)).1.symm

/-! ## Runs of one process -/

/-- The theorem on a queued message. -/
theorem memory_refines_enqueue : ∃ (w : OutboxWorld) (r : OutboxRecord),
    Reach (OutboxWorld.step checksumHost) (OutboxWorld.KeepsErrors checksumHost) {} w ∧
    (outboxReader checksumHost).load w.file.bytes [] = .ok [r] ∧ r.messageId = sampleMessageId := by
  obtain ⟨r, hr, hid, -, -⟩ := exists_sampleRecord
  have hstart : OutboxWorld.KeepsErrors checksumHost {} (.start 8 none) :=
    ⟨trivial, fun _ _ h => by cases h⟩
  have hcall : OutboxWorld.KeepsErrors checksumHost (soloStart 8)
      (.call 0 (.enqueue sampleEnvelope 1500)) := by
    refine ⟨fun o ho => .inr (Nat.zero_le _), fun i c h => ?_⟩
    cases h
    exact ⟨trivial, fun _ _ => trivial⟩
  obtain ⟨w, h, -⟩ := (Solo.start (H := checksumHost) (by decide) hstart).enqueue sampleEnvelope_wf
    hcall hr (by decide) rfl rfl (by decide)
  obtain ⟨v, hv, -, hcur⟩ := memory_refines_journal h.reach
  have hmem := hcur ⟨8, none, [r], w.file.stat⟩ (by rw [h.procs]; simp) rfl
  exact ⟨w, r, h.reach, by rw [hv, ← hmem], hid⟩

/-- **An error code that an attempt cleared in memory stays in the fold.** -/
theorem cleared_error_kept : ∃ (w : OutboxWorld) (o : Outbox) (v : Records),
    Reach (OutboxWorld.step checksumHost) (fun _ _ => True) {} w ∧ w.procs = [o] ∧
    (outboxReader checksumHost).load w.file.bytes [] = .ok v ∧
    o.records.map OutboxRecord.lastErrorCode = [""] ∧
    v.map OutboxRecord.lastErrorCode = ["timeout"] := by
  obtain ⟨r, hr, -, hfresh, he⟩ := exists_sampleRecord
  have hd := (recordEnvelope_facts he).1.id_isDigest
  have hq : r.state = .queued := by rw [hfresh]; rfl
  have hl : r.attempts = [] := by rw [hfresh]; rfl
  have h₀ : Solo checksumHost (fun _ _ => True) 8 (soloStart 8) [] [] :=
    Solo.start (by decide) trivial
  obtain ⟨w₁, h₁, -⟩ := h₀.enqueue sampleEnvelope_wf trivial hr (by decide) rfl rfl (by decide)
  -- an attempt that fails, then one that is sent
  obtain ⟨w₂, h₂⟩ := h₁.attempt (a := ⟨"mesh", 1600, .error, "timeout"⟩) rfl hd hq hq
    (by rw [hl]; decide) (by rw [hl]; decide) trivial
    (show Outbox.attemptArgs "mesh" "error" 1600 "timeout" = _ by decide) (by decide)
  obtain ⟨w₃, h₃⟩ := h₂.attempt (a := ⟨"mesh", 1700, .sent, ""⟩) rfl hd hq hq
    (by simp [Outbox.afterAttempt, hl, maxAttemptsPerRecord])
    (by simp [OutboxRecord.attempted, hl, maxAttemptsPerRecord]) trivial
    (show Outbox.attemptArgs "mesh" "sent" 1700 "" = _ by decide) (by decide)
  exact ⟨w₃, _, _, h₃.reach, h₃.procs, h₃.folds.load, rfl, rfl⟩

end Delivery

end NthDao
