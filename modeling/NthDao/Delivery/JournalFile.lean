/-
  A journal file as its processes see it.

  A process remembers the fingerprint of the file it has read, its size and the
  time of its last write, and reads it again when it has another.  No two writes
  share a time.

  * `Current`: the processes whose fingerprint is that of the file hold what the
    file says;
  * `Current.write`, `Current.add`, `Current.set`, `Current.keep`: it stays so when
    the file is written, and when a process starts, reads, or fails to read;
  * `canonical_lines`: the bytes that a store writes for events.
-/
import NthDao.CanonicalJson
import NthDao.Jsonl

namespace NthDao

namespace Delivery

open Py

/-- The journal file and the time of its last write. -/
structure JournalFile where
  journal : Option Bytes := none
  mtime : ℕ := 0
  deriving DecidableEq

/-- `(stat.st_mtime_ns, stat.st_size)`. -/
def JournalFile.stat (f : JournalFile) : Option (ℕ × ℕ) :=
  f.journal.map fun raw => (f.mtime, raw.length)

/-- The bytes of the journal. -/
def JournalFile.bytes (f : JournalFile) : Bytes := f.journal.getD []

/-- The file with other bytes. -/
def JournalFile.write (f : JournalFile) (raw : Bytes) : JournalFile :=
  { journal := some raw, mtime := f.mtime + 1 }

@[simp] theorem bytes_write (f : JournalFile) (raw : Bytes) : (f.write raw).bytes = raw := rfl

@[simp] theorem write_mtime (f : JournalFile) (raw : Bytes) : (f.write raw).mtime = f.mtime + 1 := rfl

theorem stat_eq_none {f : JournalFile} : f.stat = none ↔ f.journal = none := by
  rw [JournalFile.stat, Option.map_eq_none_iff]

/-- The lines of events that can be encoded. -/
theorem canonical_lines {events : List Fields} {lines : List Bytes}
    (h : events.mapM (fun e => canonicalJson (.obj e)) = some lines) :
    (∀ e ∈ events, (Json.obj e).encodable = true) ∧ Jsonl.text lines = Jsonl.eventsText events := by
  induction events generalizing lines with
  | nil =>
    cases h
    exact ⟨fun _ he => absurd he List.not_mem_nil, rfl⟩
  | cons e es ih =>
    simp only [List.mapM_cons, Option.bind_eq_bind, Option.bind_eq_some_iff, Option.pure_def,
      Option.some.injEq] at h
    obtain ⟨b, hb, bs, hbs, rfl⟩ := h
    obtain ⟨henc, hline⟩ := canonicalJson_eq_some hb
    obtain ⟨hes, htext⟩ := ih hbs
    refine ⟨List.forall_mem_cons.2 ⟨henc, hes⟩, ?_⟩
    rw [Jsonl.eventsText_cons, Jsonl.text_cons, htext, hline, List.append_assoc]
    rfl

/-- Events that can be encoded have lines. -/
theorem exists_canonical_lines {events : List Fields}
    (h : ∀ e ∈ events, (Json.obj e).encodable = true) :
    ∃ lines, events.mapM (fun e => canonicalJson (.obj e)) = some lines := by
  induction events with
  | nil => exact ⟨[], rfl⟩
  | cons e es ih =>
    rw [List.forall_mem_cons] at h
    obtain ⟨b, hb⟩ := canonicalJson_of_encodable h.1
    obtain ⟨bs, hbs⟩ := ih h.2
    exact ⟨b :: bs, by rw [List.mapM_cons, hb, hbs]; rfl⟩

/-- The file has been written since. -/
def Written (f f' : JournalFile) : Prop := f.mtime < f'.mtime ∧ f'.journal.isSome = true

theorem written_write (f : JournalFile) (raw : Bytes) : Written f (f.write raw) :=
  ⟨Nat.lt_succ_self _, rfl⟩

theorem Written.trans {f g k : JournalFile} (h : Written f g) (h' : Written g k) : Written f k :=
  ⟨h.1.trans h'.1, h'.2⟩

/-- The file is the same or has been written since. -/
def Newer (f f' : JournalFile) : Prop := f' = f ∨ Written f f'

theorem Newer.written {f g k : JournalFile} (h : Newer f g) (h' : Written g k) : Written f k := by
  rcases h with rfl | h
  · exact h'
  · exact h.trans h'

theorem Written.newer {f g k : JournalFile} (h : Written f g) (h' : Newer g k) : Written f k := by
  rcases h' with rfl | h'
  · exact h
  · exact h.trans h'

/-! ## Processes -/

variable {μ σ : Type}

/-- Processes with the fingerprint of the file have `v` in memory; no fingerprint is
    newer than the file. -/
structure Current (stat : μ → Option (ℕ × ℕ)) (mem : μ → σ) (f : JournalFile) (procs : List μ)
    (v : σ) : Prop where
  past : ∀ p ∈ procs, ∀ s, stat p = some s → s.1 ≤ f.mtime
  absent : f.journal = none → ∀ p ∈ procs, stat p = none
  agree : ∀ p ∈ procs, stat p = f.stat → mem p = v

namespace Current

variable {stat : μ → Option (ℕ × ℕ)} {mem : μ → σ} {f f' : JournalFile} {procs : List μ} {v v' : σ}
  {p p' : μ}

theorem nil : Current stat mem f [] v where
  past := fun _ hp => absurd hp List.not_mem_nil
  absent := fun _ _ hp => absurd hp List.not_mem_nil
  agree := fun _ hp => absurd hp List.not_mem_nil

/-- A fingerprint of the file is not newer than it. -/
theorem le_of_stat {s : ℕ × ℕ} (h : f.stat = some s) : s.1 ≤ f.mtime := by
  rw [JournalFile.stat, Option.map_eq_some_iff] at h
  obtain ⟨raw, -, rfl⟩ := h
  exact le_rfl

/-- A process that does not read the file again holds what it says. -/
theorem mem_eq (h : Current stat mem f procs v) (hp : p ∈ procs)
    (hc : ¬(f.journal.isSome && f.stat != stat p) = true) : stat p = f.stat ∧ mem p = v := by
  have hs : stat p = f.stat := by
    cases hj : f.journal with
    | none => rw [h.absent hj p hp, stat_eq_none.2 hj]
    | some raw =>
      rw [hj, Option.isSome_some, Bool.true_and, bne_iff_ne, not_not] at hc
      exact hc.symm
  exact ⟨hs, h.agree p hp hs⟩

/-- No process has the fingerprint of a file that is written now. -/
theorem write (h : Current stat mem f procs v) (hw : (f' = f ∧ v' = v) ∨ Written f f') :
    Current stat mem f' procs v' := by
  rcases hw with ⟨rfl, rfl⟩ | ⟨hlt, hsome⟩
  · exact h
  · obtain ⟨raw, hraw⟩ := Option.isSome_iff_exists.1 hsome
    refine ⟨fun q hq s hqs => (h.past q hq s hqs).trans hlt.le,
      (fun hn => by rw [hraw] at hn; cases hn), fun q hq hqs => ?_⟩
    have := h.past q hq (f'.mtime, raw.length) (by rw [hqs, JournalFile.stat, hraw]; rfl)
    exact absurd this (by simpa using hlt)

/-- A process that has read the file. -/
theorem add (h : Current stat mem f procs v) (hs : stat p = f.stat) (hm : mem p = v) :
    Current stat mem f (procs ++ [p]) v := by
  refine ⟨fun q hq s hqs => ?_, fun hn q hq => ?_, fun q hq hqs => ?_⟩
  · rcases List.mem_append.1 hq with hq | hq
    · exact h.past q hq s hqs
    · rw [List.mem_singleton.1 hq, hs] at hqs
      exact le_of_stat hqs
  · rcases List.mem_append.1 hq with hq | hq
    · exact h.absent hn q hq
    · rw [List.mem_singleton.1 hq, hs, stat_eq_none.2 hn]
  · rcases List.mem_append.1 hq with hq | hq
    · exact h.agree q hq hqs
    · rw [List.mem_singleton.1 hq, hm]

/-- A process that holds what the file says, in the place of another. -/
theorem set (h : Current stat mem f procs v) (hs : stat p = f.stat) (hm : mem p = v) (i : ℕ) :
    Current stat mem f (procs.set i p) v := by
  refine ⟨fun q hq s hqs => ?_, fun hn q hq => ?_, fun q hq hqs => ?_⟩
  · rcases List.mem_or_eq_of_mem_set hq with hq | rfl
    · exact h.past q hq s hqs
    · exact le_of_stat (hs ▸ hqs)
  · rcases List.mem_or_eq_of_mem_set hq with hq | rfl
    · exact h.absent hn q hq
    · rw [hs, stat_eq_none.2 hn]
  · rcases List.mem_or_eq_of_mem_set hq with hq | rfl
    · exact h.agree q hq hqs
    · exact hm

/-- A process that could not read the file keeps its fingerprint. -/
theorem keep (h : Current stat mem f procs v) (hp : p ∈ procs) (hs : stat p' = stat p)
    (hne : stat p ≠ f.stat) (i : ℕ) : Current stat mem f (procs.set i p') v := by
  refine ⟨fun q hq s hqs => ?_, fun hn q hq => ?_, fun q hq hqs => ?_⟩
  · rcases List.mem_or_eq_of_mem_set hq with hq | rfl
    · exact h.past q hq s hqs
    · exact h.past p hp s (hs ▸ hqs)
  · rcases List.mem_or_eq_of_mem_set hq with hq | rfl
    · exact h.absent hn q hq
    · rw [hs]; exact h.absent hn p hp
  · rcases List.mem_or_eq_of_mem_set hq with hq | rfl
    · exact h.agree q hq hqs
    · exact absurd (hs ▸ hqs) hne

end Current

end Delivery

end NthDao
