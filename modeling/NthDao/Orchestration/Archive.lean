/-
  Archiving old missions (`archive_completed` of
  `nth_dao/orchestration/mission_store.py`).

  The call reads every mission without a lock.  Then, under the lock of each that
  is due, it writes what it has read to the archive and removes the file.

  * `Archiving`: how far a call has come; `ArchiveWorld.step`: any number of
    calls, among updates and claims;
  * `StoreCall.local_run`: an update or a claim depends on one mission and
    changes one;
  * `archive_effect`: what a step does to the files and the locks.

  `datetime.fromisoformat` is a parameter.
-/
import NthDao.Orchestration.FindWork

namespace NthDao.Orchestration

open Py Runs

variable (H : Host)

/-! ## Calls of the store -/

/-- The calls that change a step. -/
inductive StoreCall where
  | updateStep (missionId stepId : String) (u : StepUpdate)
  | tryClaim (missionId stepId agentId : String) (capabilities : Option (List String))

namespace StoreCall

/-- The mission that is called for. -/
def missionId : StoreCall → String
  | .updateStep id _ _ => id
  | .tryClaim id _ _ _ => id

/-- The call; `None` where there is no such mission or step. -/
def run (files : Missions) (now : String) :
    StoreCall → Except StoreError (Missions × Option MissionStep)
  | .updateStep missionId stepId u => Orchestration.updateStep H files now missionId stepId u
  | .tryClaim missionId stepId agentId capabilities => do
    let (files', s) ← Orchestration.tryClaim H files now missionId stepId agentId capabilities
    return (files', some s)

/-- The files after the call on another directory. -/
def applied (files : Missions) (now : String) (c : StoreCall) : Missions :=
  match c.run H files now with
  | .ok (files', some _) => files'
  | _ => files

end StoreCall

/-! ## The archive -/

/-- The outcome of `datetime.fromisoformat`: a time in microseconds, or one with
    an offset, which is not compared. -/
inductive IsoTime where
  | naive (t : ℤ)
  | aware

/-- How far a call of `archive_completed` has come. -/
inductive Archiving where
  /-- `list_all` has these files to read and has read these missions -/
  | reading (cutoff : ℤ) (names : List String) (read : List Mission)
  /-- these missions are to be moved -/
  | moving (cutoff : ℤ) (todo : List Mission)
  /-- the copy is written and the file locked -/
  | unlinking (cutoff : ℤ) (todo : List Mission) (src : String) (dst : String × String)

/-- The file that a call has locked. -/
def Archiving.lock : Archiving → Option String
  | .unlinking _ _ src _ => some src
  | _ => none

/-- Which of the two `unlink`s go through. -/
inductive Unlinked where
  | removed | rolledBack | stuck
  deriving DecidableEq

/-- `completed_at or updated_at or created_at`. -/
def Mission.refTs (m : Mission) : String :=
  if m.completedAt.getD "" ≠ "" then m.completedAt.getD ""
  else if m.updatedAt ≠ "" then m.updatedAt
  else m.createdAt

/-- The statuses that are archived. -/
def MissionStatus.isTerminal (s : MissionStatus) : Bool :=
  s == .completed || s == .failed || s == .cancelled

/-- Whether a mission is to be moved; `none` where its time cannot be compared,
    which is an error. -/
def Mission.isDue (fromisoformat : String → Option IsoTime) (cutoff : ℤ) (m : Mission) :
    Option Bool :=
  if m.status.isTerminal then
    match fromisoformat m.refTs with
    | none => some false
    | some .aware => none
    | some (.naive t) => some (t ≤ cutoff)
  else some false

/-- `_archive_dir_for`. -/
def archiveDirFor (yearMonth when_ : String) : String :=
  if 7 ≤ when_.length then String.ofList (when_.toList.take 7) else yearMonth

/-- The directory, the archive and the calls that go on; for the record, what the
    updates and claims alone would have made of the directory, the files whose
    copy was old when they were locked, and those that could not be removed. -/
structure ArchiveWorld where
  files : Missions
  archive : Dict (String × String) Mission := []
  calls : List Archiving := []
  latest : Missions
  outdated : List String := []
  stuck : List String := []

inductive ArchiveAction where
  | call (now : String) (c : StoreCall)
  | archiveCompleted (now : ℤ) (olderThanDays : ℤ)
  | read (n : ℕ)
  | move (n : ℕ) (yearMonth : String)
  | unlink (n : ℕ) (outcome : Unlinked)
  /-- an error ends the call -/
  | abort (n : ℕ)

namespace ArchiveWorld

variable (w : ArchiveWorld)

def start (files : Missions) : ArchiveWorld where
  files := files
  latest := files

/-- A file is locked by a call that removes it. -/
def locked (file : String) : Bool := w.calls.any fun c => c.lock == some file

/-- The files that `root.glob` lists, sorted. -/
def names : List String := (w.files.map Prod.fst).insertionSort (· ≤ ·)

/-- The next mission of a call; `none` where its file is locked. -/
def moveNext (fromisoformat : String → Option IsoTime) (n : ℕ) (yearMonth : String) (cutoff : ℤ)
    (m : Mission) (todo : List Mission) : Option ArchiveWorld :=
  match m.isDue fromisoformat cutoff with
  | none => some { w with calls := w.calls.set n (.moving cutoff []) }
  | some false => some { w with calls := w.calls.set n (.moving cutoff todo) }
  | some true =>
    if w.locked (pathFor H m.id) then none
    else if w.files.has (pathFor H m.id) then
      some { w with
        archive := w.archive.set (archiveDirFor yearMonth m.refTs, pathFor H m.id) m
        calls := w.calls.set n
          (.unlinking cutoff todo (pathFor H m.id) (archiveDirFor yearMonth m.refTs, pathFor H m.id))
        outdated := if w.files.get (pathFor H m.id) = some m then w.outdated
          else w.outdated ++ [pathFor H m.id] }
    else some { w with calls := w.calls.set n (.moving cutoff todo) }

/-- One step of a call; an update or a claim waits for the lock. -/
def step (fromisoformat : String → Option IsoTime) : ArchiveAction → Option ArchiveWorld
  | .call now c =>
    if w.locked (pathFor H c.missionId) then none
    else match c.run H w.files now with
      | .ok (files, some _) => some { w with files, latest := c.applied H w.latest now }
      | _ => some w
  | .archiveCompleted now olderThanDays =>
    let cutoff := now - max 0 olderThanDays * 86400000000
    some { w with calls := w.calls ++ [.reading cutoff w.names []] }
  | .read n =>
    match w.calls[n]? with
    | some (.reading cutoff (name :: names) read) =>
      let read' := read ++ (w.files.get name).toList
      some { w with calls := w.calls.set n (.reading cutoff names read') }
    | some (.reading cutoff [] read) => some { w with calls := w.calls.set n (.moving cutoff read) }
    | _ => none
  | .move n yearMonth =>
    match w.calls[n]? with
    | some (.moving cutoff (m :: todo)) => w.moveNext H fromisoformat n yearMonth cutoff m todo
    | _ => none
  | .unlink n outcome =>
    match w.calls[n]? with
    | some (.unlinking cutoff todo src dst) =>
      let next := { w with calls := w.calls.set n (.moving cutoff todo) }
      match outcome with
      | .removed => some { next with files := w.files.pop src }
      | .rolledBack => some { next with archive := w.archive.pop dst }
      | .stuck => some { next with stuck := w.stuck ++ [src] }
    | _ => none
  | .abort n =>
    match w.calls[n]? with
    | some (.moving cutoff _) => some { w with calls := w.calls.set n (.moving cutoff []) }
    | _ => none

end ArchiveWorld

variable {H}

/-! ## What a call of the store needs -/

theorem Filed.set {files : Missions} (h : Filed H files) {file : String} {m : Mission}
    (hm : pathFor H m.id = file) : Filed H (files.set file m) := by
  intro file' m' hm'
  rw [Dict.get_set] at hm'
  split_ifs at hm' with he
  · cases hm'
    rw [hm, he]
  · exact h file' m' hm'

/-- A call reads one mission and writes it back. -/
theorem StoreCall.local_run {files files' : Missions} (hf : Filed H files) {now : String}
    {c : StoreCall} {s : MissionStep} (h : c.run H files now = .ok (files', some s)) :
    ∃ m m', files.get (pathFor H c.missionId) = some m ∧ pathFor H m'.id = pathFor H c.missionId ∧
      files' = files.set (pathFor H c.missionId) m' ∧
      ∀ others : Missions, others.get (pathFor H c.missionId) = some m →
        c.run H others now = .ok (others.set (pathFor H c.missionId) m', some s) := by
  cases c with
  | updateStep missionId stepId u =>
    obtain ⟨-, hnone⟩ | ⟨m, s₁, k, hm, hs, hc, hs', rfl⟩ := updateStep_eq_ok h
    · cases hnone
    cases hs'
    let m₁ := ({ m with steps := m.steps.set k (u.apply now s₁) }.settle now)
    have hid : pathFor H m₁.id = pathFor H missionId := by
      rw [id_settle]
      exact hf _ m hm
    have hsave : ∀ others : Missions, saveUnlocked H others now m₁ =
        others.set (pathFor H missionId) { m₁ with updatedAt := now } :=
      fun others => by rw [saveUnlocked, hid]
    refine ⟨m, { m₁ with updatedAt := now }, hm, hid, hsave files, fun others ho => ?_⟩
    exact (updateStep_of (H := H) ho hs hc).trans (by rw [hsave]; rfl)
  | tryClaim missionId stepId agentId capabilities =>
    simp only [run, bind_eq_ok, pure_eq_ok, Prod.mk.injEq, Prod.exists, Option.some.injEq] at h
    obtain ⟨_, _, h, rfl, rfl⟩ := h
    obtain ⟨m, s₁, k, hm, hs, hc, rfl, rfl⟩ := tryClaim_eq_ok h
    let m₁ : Mission := { m with
      status := if m.status = .planning then .active else m.status
      steps := m.steps.set k (s₁.claimedBy H now agentId capabilities) }
    have hid : pathFor H m₁.id = pathFor H missionId := hf _ m hm
    have hsave : ∀ others : Missions, saveUnlocked H others now m₁ =
        others.set (pathFor H missionId) { m₁ with updatedAt := now } :=
      fun others => by rw [saveUnlocked, hid]
    refine ⟨m, { m₁ with updatedAt := now }, hm, hid, hsave files, fun others ho => ?_⟩
    replace ho : getMission H others missionId = some m := ho
    have hrun : StoreCall.run H others now (.tryClaim missionId stepId agentId capabilities) =
        .ok (saveUnlocked H others now m₁, some (s₁.claimedBy H now agentId capabilities)) := by
      rw [run, tryClaim_of ho hs hc]
      rfl
    rw [hrun, hsave]
    rfl

/-- The record of a call is a change of one mission, or none. -/
theorem StoreCall.applied_cases {files : Missions} (hf : Filed H files) (now : String)
    (c : StoreCall) : c.applied H files now = files ∨
      ∃ m m', files.get (pathFor H c.missionId) = some m ∧
        pathFor H m'.id = pathFor H c.missionId ∧
        c.applied H files now = files.set (pathFor H c.missionId) m' := by
  unfold StoreCall.applied
  split
  next files' s h =>
    obtain ⟨m, m', hm, hid, rfl, -⟩ := StoreCall.local_run hf h
    exact .inr ⟨m, m', hm, hid, rfl⟩
  next => exact .inl rfl

/-! ## Locks -/

/-- The call at a place removes a file whose copy it has written. -/
def Holds (calls : List Archiving) (n : ℕ) (src : String) (dst : String × String) : Prop :=
  ∃ cutoff todo, calls[n]? = some (.unlinking cutoff todo src dst)

theorem ArchiveWorld.locked_iff {w : ArchiveWorld} {file : String} :
    w.locked file = true ↔ ∃ n dst, Holds w.calls n file dst := by
  simp only [ArchiveWorld.locked, List.any_eq_true, List.mem_iff_getElem?, beq_iff_eq]
  constructor
  · rintro ⟨c, ⟨n, hn⟩, hc⟩
    cases c with
    | unlinking cutoff todo src dst =>
      cases hc
      exact ⟨n, dst, cutoff, todo, hn⟩
    | reading _ _ _ | moving _ _ => cases hc
  · rintro ⟨n, dst, cutoff, todo, hn⟩
    exact ⟨_, ⟨n, hn⟩, rfl⟩

theorem not_holds_of_not_locked {w : ArchiveWorld} {file : String} (h : w.locked file = false)
    (n : ℕ) (dst : String × String) : ¬ Holds w.calls n file dst := by
  intro hn
  rw [ArchiveWorld.locked_iff.2 ⟨n, dst, hn⟩] at h
  cases h

/-- What a call holds after it has gone on. -/
theorem holds_set {calls : List Archiving} {n : ℕ} {c₀ : Archiving} (hn : calls[n]? = some c₀)
    (c : Archiving) (i : ℕ) (src : String) (dst : String × String) :
    Holds (calls.set n c) i src dst ↔
      i = n ∧ (∃ cutoff todo, c = .unlinking cutoff todo src dst) ∨ i ≠ n ∧ Holds calls i src dst := by
  have hlt := (List.getElem?_eq_some_iff.1 hn).1
  unfold Holds
  by_cases hi : i = n
  · subst hi
    simp [List.getElem?_set, hlt]
  · rw [List.getElem?_set_ne (Ne.symm hi)]
    simp [hi]

/-- A call that has no lock and takes none. -/
theorem holds_set_idle {calls : List Archiving} {n : ℕ} {c₀ c : Archiving}
    (hn : calls[n]? = some c₀) (h₀ : c₀.lock = none) (hc : c.lock = none) (i : ℕ) (src : String)
    (dst : String × String) : Holds (calls.set n c) i src dst ↔ Holds calls i src dst := by
  rw [holds_set hn]
  constructor
  · rintro (⟨-, _, _, rfl⟩ | ⟨-, h⟩)
    · cases hc
    · exact h
  · intro h
    refine .inr ⟨?_, h⟩
    rintro rfl
    obtain ⟨_, _, h⟩ := h
    rw [hn] at h
    cases h
    cases h₀

theorem holds_append_idle {calls : List Archiving} {c : Archiving} (hc : c.lock = none) (i : ℕ)
    (src : String) (dst : String × String) :
    Holds (calls ++ [c]) i src dst ↔ Holds calls i src dst := by
  unfold Holds
  refine exists₂_congr fun cutoff todo => ?_
  rcases lt_trichotomy i calls.length with hi | rfl | hi
  · rw [List.getElem?_append_left hi]
  · rw [List.getElem?_concat_length, List.getElem?_eq_none le_rfl]
    refine ⟨?_, nofun⟩
    rintro ⟨⟩
    cases hc
  · rw [List.getElem?_eq_none (by simpa using hi), List.getElem?_eq_none hi.le]

/-! ## What a step can do -/

/-- What a step can do to the files and the locks. -/
inductive ArchiveEffect (H : Host) (w : ArchiveWorld) : ArchiveWorld → Prop
  | idle {calls : List Archiving} : (∀ i src dst, Holds calls i src dst ↔ Holds w.calls i src dst) →
      ArchiveEffect H w { w with calls }
  | call {now : String} {c : StoreCall} {files : Missions} {s : MissionStep} :
      w.locked (pathFor H c.missionId) = false → c.run H w.files now = .ok (files, some s) →
      ArchiveEffect H w { w with files, latest := c.applied H w.latest now }
  | move {calls : List Archiving} {n : ℕ} {bucket : String} {m : Mission} :
      w.locked (pathFor H m.id) = false → w.files.has (pathFor H m.id) = true →
      (∀ i src dst, Holds calls i src dst ↔
        i = n ∧ src = pathFor H m.id ∧ dst = (bucket, pathFor H m.id) ∨ Holds w.calls i src dst) →
      ArchiveEffect H w { w with
        archive := w.archive.set (bucket, pathFor H m.id) m
        calls
        outdated := if w.files.get (pathFor H m.id) = some m then w.outdated
          else w.outdated ++ [pathFor H m.id] }
  | remove {calls : List Archiving} {n : ℕ} {src : String} {dst : String × String} :
      Holds w.calls n src dst →
      (∀ i src' dst', Holds calls i src' dst' ↔ i ≠ n ∧ Holds w.calls i src' dst') →
      ArchiveEffect H w { w with calls, files := w.files.pop src }
  | rollBack {calls : List Archiving} {n : ℕ} {src : String} {dst : String × String} :
      Holds w.calls n src dst →
      (∀ i src' dst', Holds calls i src' dst' ↔ i ≠ n ∧ Holds w.calls i src' dst') →
      ArchiveEffect H w { w with calls, archive := w.archive.pop dst }
  | stick {calls : List Archiving} {n : ℕ} {src : String} {dst : String × String} :
      Holds w.calls n src dst →
      (∀ i src' dst', Holds calls i src' dst' ↔ i ≠ n ∧ Holds w.calls i src' dst') →
      ArchiveEffect H w { w with calls, stuck := w.stuck ++ [src] }

variable {fromisoformat : String → Option IsoTime} {w w' : ArchiveWorld}

theorem moveNext_effect {n : ℕ} {yearMonth : String} {cutoff : ℤ} {m : Mission}
    {todo : List Mission} (hn : w.calls[n]? = some (.moving cutoff (m :: todo)))
    (h : w.moveNext H fromisoformat n yearMonth cutoff m todo = some w') :
    ArchiveEffect H w w' := by
  have hskip : ∀ todo', ArchiveEffect H w { w with calls := w.calls.set n (.moving cutoff todo') } :=
    fun _ => .idle (holds_set_idle hn rfl rfl)
  unfold ArchiveWorld.moveNext at h
  split at h
  · cases h
    exact hskip _
  · cases h
    exact hskip _
  by_cases hl : w.locked (pathFor H m.id) = true
  · rw [if_pos hl] at h
    cases h
  rw [if_neg hl] at h
  by_cases hs : w.files.has (pathFor H m.id) = true
  · rw [if_pos hs] at h
    cases h
    refine .move (n := n) (by simpa using hl) hs fun i src dst => ?_
    rw [holds_set hn]
    constructor
    · rintro (⟨rfl, _, _, he⟩ | ⟨-, h⟩)
      · cases he
        exact .inl ⟨rfl, rfl, rfl⟩
      · exact .inr h
    · rintro (⟨rfl, rfl, rfl⟩ | h)
      · exact .inl ⟨rfl, _, _, rfl⟩
      · refine .inr ⟨?_, h⟩
        rintro rfl
        obtain ⟨_, _, h⟩ := h
        rw [hn] at h
        cases h
  · rw [if_neg hs] at h
    cases h
    exact hskip _

theorem archive_effect {a : ArchiveAction} (h : w.step H fromisoformat a = some w') :
    ArchiveEffect H w w' := by
  cases a with
  | call now c =>
    simp only [ArchiveWorld.step] at h
    split_ifs at h with hl
    split at h
    next files s hrun =>
      cases h
      exact .call (by simpa using hl) hrun
    next =>
      cases h
      exact .idle fun _ _ _ => Iff.rfl
  | archiveCompleted now olderThanDays =>
    cases h
    exact .idle (holds_append_idle rfl)
  | read n =>
    simp only [ArchiveWorld.step] at h
    split at h
    next hn =>
      cases h
      exact .idle (holds_set_idle hn rfl rfl)
    next hn =>
      cases h
      exact .idle (holds_set_idle hn rfl rfl)
    next => cases h
  | move n yearMonth =>
    simp only [ArchiveWorld.step] at h
    split at h
    next hn => exact moveNext_effect hn h
    next => cases h
  | unlink n outcome =>
    simp only [ArchiveWorld.step] at h
    split at h
    next cutoff todo src dst hn =>
      have hcalls : ∀ i src' dst', Holds (w.calls.set n (.moving cutoff todo)) i src' dst' ↔
          i ≠ n ∧ Holds w.calls i src' dst' := by
        intro i src' dst'
        rw [holds_set hn]
        simp
      have hheld : Holds w.calls n src dst := ⟨cutoff, todo, hn⟩
      cases outcome with
      | removed =>
        cases h
        exact .remove hheld hcalls
      | rolledBack =>
        cases h
        exact .rollBack hheld hcalls
      | stuck =>
        cases h
        exact .stick hheld hcalls
    next => cases h
  | abort n =>
    simp only [ArchiveWorld.step] at h
    split at h
    next hn =>
      cases h
      exact .idle (holds_set_idle hn rfl rfl)
    next => cases h

end NthDao.Orchestration
