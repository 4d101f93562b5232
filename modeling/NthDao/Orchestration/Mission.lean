/-
  Missions and their store (`nth_dao/orchestration/mission.py`,
  `nth_dao/orchestration/mission_store.py`).

  A mission is a file with a list of steps; a step may depend on others, asks
  for capabilities and has an assignee.

  * `Mission.nextActionable`: the steps that an agent is offered;
  * `Mission.isFinished`, `Mission.isDead` and `Mission.settle`: the status that
    follows from the steps;
  * `updateStep` and `tryClaim`: the two changes of a step, under the file's lock;
  * `updateStep_eq_ok`, `tryClaim_eq_ok`: what they do.

  The clock of a call is one text.  `str.lower` is a parameter, and so are the
  checkers of `ACCEPTANCE_RULE_REGISTRY`.
-/
import NthDao.Py.Check
import NthDao.Py.Dict
import NthDao.Py.Str
import NthDao.SafeId

namespace NthDao.Orchestration

open Py

variable (H : Host)

/-! ## Steps -/

inductive MissionStatus where
  | planning | active | paused | completed | failed | cancelled
  deriving DecidableEq

inductive StepStatus where
  | todo | claimed | active | done | needsReview | failed | handedOff | blocked
  deriving DecidableEq

/-- The text of a status. -/
def StepStatus.value : StepStatus → String
  | .todo => "todo"
  | .claimed => "claimed"
  | .active => "active"
  | .done => "done"
  | .needsReview => "needs_review"
  | .failed => "failed"
  | .handedOff => "handed_off"
  | .blocked => "blocked"

structure MissionStep where
  id : String
  status : StepStatus := .todo
  requiredCapabilities : List String := []
  requiredPlatform : List String := []
  requiredRuntime : List String := []
  output : Option Json := none
  acceptanceCriteria : Option Fields := none
  reviewTrail : List Json := []
  dependsOn : List String := []
  assignee : Option String := none
  previousAssignees : List String := []
  updatedAt : String := ""
  completedAt : Option String := none
  notes : List String := []
  deriving DecidableEq

namespace MissionStep

variable (s : MissionStep)

/-- `step.assignee or ""`. -/
def holder : String := s.assignee.getD ""

/-- `add_note`. -/
def addNote (now note author : String) : MissionStep :=
  { s with
    notes := s.notes ++ ["[" ++ String.ofList (now.toList.take 19) ++ "] " ++ author ++ ": " ++ note]
    updatedAt := now }

/-- `can_start`. -/
def canStart (completed : List String) : Bool := s.dependsOn.all completed.contains

/-- `is_open`. -/
def isOpen : Bool :=
  s.status == .todo || s.status == .handedOff || s.status == .blocked || s.status == .needsReview

/-- What `try_claim` accepts: a step that is `todo`, `handed_off` or `blocked`. -/
def isClaimable : Bool := s.status == .todo || s.status == .handedOff || s.status == .blocked

end MissionStep

/-- A checker of an acceptance rule: the rule's value, the output and its content;
    what is wrong, if anything. -/
abbrev Checker := Json → Fields → String → Except String (Option String)

/-- `evaluate`: whether the output passes, and why not. -/
def MissionStep.evaluate (registry : List (String × Checker)) (s : MissionStep)
    (output : Option Json) : Except String (Bool × String) :=
  match s.acceptanceCriteria, output with
  | none, _ => .ok (true, "")
  | some rules, some (.obj kvs) => do
    let content := match Json.lookup kvs "content" with
      | some v => toStr H.isprintable v
      | none => ""
    let failures ← registry.filterMapM fun rule => match Json.lookup rules rule.1 with
      | some v => rule.2 v kvs content
      | none => .ok none
    return if failures = [] then (true, "ok") else (false, "; ".intercalate failures)
  | some _, _ => .ok (false, "output must be a dict when acceptance_criteria is set")

/-! ## Missions -/

structure Mission where
  id : String
  status : MissionStatus := .planning
  owner : String := ""
  scope : String := "shared"
  steps : List MissionStep := []
  createdAt : String := ""
  updatedAt : String := ""
  completedAt : Option String := none
  deriving DecidableEq

/-- What an agent brings along; `None` asks for nothing. -/
structure Profile where
  capabilities : Option (List String) := none
  platform : Option String := none
  runtime : Option String := none

/-- `not required or set(required).issubset(have)`, for `None` true. -/
def hasCapabilities (required : List String) : Option (List String) → Bool
  | none => true
  | some have_ => required.all have_.contains

/-- `not required or value.lower() in required`, for `None` true. -/
def isAllowed (lower : String → String) (required : List String) : Option String → Bool
  | none => true
  | some value => required.isEmpty || (required.map lower).contains (lower value)

namespace Mission

variable (m : Mission)

/-- `get_step`, with the place of the step. -/
def getStep (stepId : String) : Option (MissionStep × ℕ) := do
  let k ← m.steps.findIdx? fun s => s.id == stepId
  let s ← m.steps[k]?
  return (s, k)

/-- `completed_step_ids`. -/
def completedStepIds : List String := (m.steps.filter fun s => s.status == .done).map (·.id)

/-- `next_actionable`. -/
def nextActionable (lower : String → String) (p : Profile) : List MissionStep :=
  m.steps.filter fun s => s.isOpen && s.canStart m.completedStepIds &&
    hasCapabilities s.requiredCapabilities p.capabilities &&
    isAllowed lower s.requiredPlatform p.platform && isAllowed lower s.requiredRuntime p.runtime

/-- `is_finished`. -/
def isFinished : Bool :=
  !m.steps.isEmpty && m.steps.all fun s => s.status == .done || s.status == .handedOff

/-- `_mission_is_dead`. -/
def isDead : Bool :=
  m.steps.any (fun s => s.status == .failed) && (m.nextActionable (fun text => text) {}).isEmpty

/-- The status that follows from the steps. -/
def settle (now : String) : Mission :=
  if m.isFinished then { m with status := .completed, completedAt := some now }
  else if m.isDead then
    { m with status := .failed,
             completedAt := if m.completedAt.getD "" = "" then some now else m.completedAt }
  else if m.status = .planning ∧ m.steps.any (fun s => s.status != .todo) then
    { m with status := .active }
  else m

end Mission

/-! ## The store -/

/-- The exceptions of the store. -/
inductive StoreError where
  | claimConflict (message : String)
  | missionNotFound (missionId : String)
  | stepNotFound (stepId : String)
  deriving DecidableEq

/-- The files of the directory. -/
abbrev Missions := Dict String Mission

/-- `_path_for`. -/
def pathFor (missionId : String) : String := safeId H missionId ++ ".json"

/-- `get`. -/
def getMission (files : Missions) (missionId : String) : Option Mission :=
  files.get (pathFor H missionId)

/-- `_save_unlocked`. -/
def saveUnlocked (files : Missions) (now : String) (m : Mission) : Missions :=
  files.set (pathFor H m.id) { m with updatedAt := now }

/-- The arguments of `update_step`. -/
structure StepUpdate where
  status : Option StepStatus := none
  assignee : Option String := none
  output : Option Json := none
  note : String := ""
  noteAuthor : String := "system"
  expectStatus : Option StepStatus := none
  expectAssigneeIn : Option (List String) := none
  appendReviewTrail : Option Json := none

/-- The change of a step. -/
def StepUpdate.apply (u : StepUpdate) (now : String) (s : MissionStep) : MissionStep :=
  let next := u.assignee.getD s.holder
  let s₁ := { s with
    previousAssignees :=
      if s.holder ≠ "" ∧ next ≠ "" ∧ s.holder ≠ next then s.previousAssignees ++ [s.holder]
      else s.previousAssignees
    status := u.status.getD s.status
    completedAt := if u.status = some StepStatus.done then some now else s.completedAt
    assignee := u.assignee.or s.assignee
    output := u.output.or s.output }
  let s₂ := if u.note = "" then s₁ else s₁.addNote now u.note u.noteAuthor
  { s₂ with reviewTrail := s₂.reviewTrail ++ u.appendReviewTrail.toList }

/-- The preconditions of `update_step`. -/
def StepUpdate.check (u : StepUpdate) (stepId : String) (s : MissionStep) :
    Except StoreError Unit := do
  require (u.expectStatus.all (· == s.status)) (.claimConflict ("step " ++ stepId ++
    " expected status=" ++ ((u.expectStatus.map StepStatus.value).getD "") ++ " but is " ++
    s.status.value))
  require (u.expectAssigneeIn.all (·.contains s.holder)) (.claimConflict ("step " ++ stepId ++
    " expected assignee in " ++
    toStr H.isprintable (.arr ((u.expectAssigneeIn.getD []).map .str)) ++ " but is '" ++
    s.assignee.getD "None" ++ "'"))

/-- `update_step`: the files and the step, `None` for a mission or a step that
    does not exist. -/
def updateStep (files : Missions) (now missionId stepId : String) (u : StepUpdate) :
    Except StoreError (Missions × Option MissionStep) :=
  match getMission H files missionId with
  | none => .ok (files, none)
  | some m =>
    match m.getStep stepId with
    | none => .ok (files, none)
    | some (s, k) => do
      u.check H stepId s
      let s' := u.apply now s
      return (saveUnlocked H files now ({ m with steps := m.steps.set k s' }.settle now), some s')

/-- The checks of `try_claim`. -/
def checkClaim (stepId agentId : String) (capabilities : Option (List String)) (s : MissionStep) :
    Except StoreError Unit := do
  require s.isClaimable (.claimConflict ("step " ++ stepId ++ " not claimable (status=" ++
    s.status.value ++ ")"))
  require (s.holder == "" || s.holder == agentId) (.claimConflict (
    if s.status = .handedOff then
      "step " ++ stepId ++ " handed off to " ++ s.holder ++ ", not " ++ agentId
    else "step " ++ stepId ++ " already claimed by " ++ s.holder))
  require (hasCapabilities s.requiredCapabilities capabilities) (.claimConflict ("step " ++ stepId ++
    " requires " ++ toStr H.isprintable (.arr (s.requiredCapabilities.map .str)) ++
    ", agent only has " ++ toStr H.isprintable (.arr ((capabilities.getD []).map .str))))

/-- The claimed step; its last assignee is none or the claimer. -/
def MissionStep.claimedBy (s : MissionStep) (now agentId : String)
    (capabilities : Option (List String)) : MissionStep :=
  { s with status := .active, assignee := some agentId }.addNote now
    ("claimed by " ++ agentId ++ " (caps=" ++
      toStr H.isprintable (.arr ((capabilities.getD []).map .str)) ++ ")") agentId

/-- `try_claim`. -/
def tryClaim (files : Missions) (now missionId stepId agentId : String)
    (capabilities : Option (List String)) : Except StoreError (Missions × MissionStep) := do
  let m ← expect (getMission H files missionId) (.missionNotFound missionId)
  let (s, k) ← expect (m.getStep stepId) (.stepNotFound stepId)
  checkClaim H stepId agentId capabilities s
  let s' := s.claimedBy H now agentId capabilities
  let status := if m.status = .planning then .active else m.status
  return (saveUnlocked H files now { m with status, steps := m.steps.set k s' }, s')

/-! ## What the changes do -/

variable {H}

/-- The place of the first step with an id. -/
def Mission.placeOf (m : Mission) (stepId : String) : Option ℕ :=
  (m.steps.map fun s => s.id).findIdx? fun id => id == stepId

theorem getStep_eq_some {m : Mission} {stepId : String} {s : MissionStep} {k : ℕ} :
    m.getStep stepId = some (s, k) ↔ m.placeOf stepId = some k ∧ m.steps[k]? = some s := by
  simp [Mission.getStep, Mission.placeOf, List.findIdx?_map, Function.comp_def,
    Option.bind_eq_some_iff]

theorem id_of_getStep {m : Mission} {stepId : String} {s : MissionStep} {k : ℕ}
    (h : m.getStep stepId = some (s, k)) : s.id = stepId := by
  obtain ⟨hp, hs⟩ := getStep_eq_some.1 h
  obtain ⟨hlt, hid, -⟩ := List.findIdx?_eq_some_iff_getElem.1 hp
  obtain ⟨hlt', rfl⟩ := List.getElem?_eq_some_iff.1 hs
  simpa using hid

/-- Places depend on the ids alone. -/
theorem placeOf_set {m m' : Mission} {k : ℕ} {s s' : MissionStep} (hs : m.steps[k]? = some s)
    (hid : s'.id = s.id) (h : m'.steps = m.steps.set k s') (stepId : String) :
    m'.placeOf stepId = m.placeOf stepId := by
  have hget : (m.steps.map fun s => s.id)[k]? = some s'.id := by
    rw [List.getElem?_map, hs, hid]
    rfl
  obtain ⟨hlt, hget⟩ := List.getElem?_eq_some_iff.1 hget
  rw [Mission.placeOf, Mission.placeOf, h, List.map_set, ← hget, List.set_getElem_self]

theorem updateStep_eq_ok {files files' : Missions} {now missionId stepId : String} {u : StepUpdate}
    {r : Option MissionStep} (h : updateStep H files now missionId stepId u = .ok (files', r)) :
    files' = files ∧ r = none ∨ ∃ m s k, getMission H files missionId = some m ∧
      m.getStep stepId = some (s, k) ∧ u.check H stepId s = .ok () ∧ r = some (u.apply now s) ∧
      files' = saveUnlocked H files now
        ({ m with steps := m.steps.set k (u.apply now s) }.settle now) := by
  rw [updateStep] at h
  cases hm : getMission H files missionId with
  | none =>
    rw [hm] at h
    cases h
    exact .inl ⟨rfl, rfl⟩
  | some m =>
    rw [hm] at h
    cases hs : m.getStep stepId with
    | none =>
      simp only [hs] at h
      cases h
      exact .inl ⟨rfl, rfl⟩
    | some sk =>
      obtain ⟨s, k⟩ := sk
      simp only [hs, unit_bind_eq_ok, pure_eq_ok, Prod.mk.injEq] at h
      obtain ⟨hc, rfl, rfl⟩ := h
      exact .inr ⟨m, s, k, rfl, hs, hc, rfl, rfl⟩

theorem checkClaim_eq_ok {stepId agentId : String} {capabilities : Option (List String)}
    {s : MissionStep} : checkClaim H stepId agentId capabilities s = .ok () ↔
      s.isClaimable = true ∧ (s.holder = "" ∨ s.holder = agentId) ∧
        hasCapabilities s.requiredCapabilities capabilities = true := by
  simp [checkClaim, require_bind_eq_ok]

theorem tryClaim_eq_ok {files files' : Missions} {now missionId stepId agentId : String}
    {capabilities : Option (List String)} {s' : MissionStep}
    (h : tryClaim H files now missionId stepId agentId capabilities = .ok (files', s')) :
    ∃ m s k, getMission H files missionId = some m ∧ m.getStep stepId = some (s, k) ∧
      checkClaim H stepId agentId capabilities s = .ok () ∧
      s' = s.claimedBy H now agentId capabilities ∧
      files' = saveUnlocked H files now { m with
        status := if m.status = .planning then .active else m.status
        steps := m.steps.set k s' } := by
  simp only [tryClaim, expect_bind_eq_ok, unit_bind_eq_ok, pure_eq_ok, Prod.mk.injEq,
    Prod.exists] at h
  obtain ⟨m, hm, s, k, hs, hc, rfl, rfl⟩ := h
  exact ⟨m, s, k, hm, hs, hc, rfl, rfl⟩

theorem updateStep_of {files : Missions} {now missionId stepId : String} {u : StepUpdate}
    {m : Mission} {s : MissionStep} {k : ℕ} (hm : getMission H files missionId = some m)
    (hs : m.getStep stepId = some (s, k)) (hc : u.check H stepId s = .ok ()) :
    updateStep H files now missionId stepId u = .ok (saveUnlocked H files now
      ({ m with steps := m.steps.set k (u.apply now s) }.settle now), some (u.apply now s)) := by
  simp only [updateStep, hm, hs, unit_bind_eq_ok, pure_eq_ok]
  exact ⟨hc, trivial⟩

/-- A claim is accepted where the checks pass. -/
theorem tryClaim_of {files : Missions} {now missionId stepId agentId : String}
    {capabilities : Option (List String)} {m : Mission} {s : MissionStep} {k : ℕ}
    (hm : getMission H files missionId = some m) (hs : m.getStep stepId = some (s, k))
    (hc : checkClaim H stepId agentId capabilities s = .ok ()) :
    tryClaim H files now missionId stepId agentId capabilities = .ok (saveUnlocked H files now
      { m with
        status := if m.status = .planning then .active else m.status
        steps := m.steps.set k (s.claimedBy H now agentId capabilities) },
      s.claimedBy H now agentId capabilities) := by
  simp only [tryClaim, expect_bind_eq_ok, unit_bind_eq_ok, pure_eq_ok, Prod.mk.injEq, Prod.exists]
  exact ⟨m, hm, s, k, hs, hc, rfl, rfl⟩

/-! ## Missions after a change -/

theorem steps_settle (m : Mission) (now : String) : (m.settle now).steps = m.steps := by
  unfold Mission.settle
  split_ifs <;> rfl

theorem id_settle (m : Mission) (now : String) : (m.settle now).id = m.id := by
  unfold Mission.settle
  split_ifs <;> rfl

theorem isFinished_congr {m m' : Mission} (h : m'.steps = m.steps) :
    m'.isFinished = m.isFinished := by
  rw [Mission.isFinished, Mission.isFinished, h]

theorem nextActionable_congr {m m' : Mission} (h : m'.steps = m.steps) (lower : String → String)
    (p : Profile) : m'.nextActionable lower p = m.nextActionable lower p := by
  simp only [Mission.nextActionable, Mission.completedStepIds, h]

theorem isDead_congr {m m' : Mission} (h : m'.steps = m.steps) : m'.isDead = m.isDead := by
  rw [Mission.isDead, Mission.isDead, h, nextActionable_congr h]

/-- How the status of a mission moves. -/
def StatusMoves (m m' : Mission) : Prop :=
  m'.status = m.status ∨ m'.status = .active ∨ m'.status = .completed ∧ m'.isFinished = true ∨
    m'.status = .failed ∧ m'.isDead = true

theorem statusMoves_settle (m : Mission) (now : String) : StatusMoves m (m.settle now) := by
  by_cases hf : m.isFinished = true
  · refine .inr (.inr (.inl ⟨by rw [Mission.settle, if_pos hf], ?_⟩))
    rw [isFinished_congr (steps_settle m now), hf]
  by_cases hd : m.isDead = true
  · refine .inr (.inr (.inr ⟨by rw [Mission.settle, if_neg hf, if_pos hd], ?_⟩))
    rw [isDead_congr (steps_settle m now), hd]
  · rw [Mission.settle, if_neg hf, if_neg hd]
    split_ifs
    · exact .inr (.inl rfl)
    · exact .inl rfl

variable (H) in
/-- Every file has the mission that it is named after. -/
def Filed (files : Missions) : Prop := ∀ file m, files.get file = some m → pathFor H m.id = file

variable (H) in
/-- One step of one mission has been changed by `f`. -/
inductive Changed (files : Missions) (missionId stepId : String) (f : MissionStep → MissionStep) :
    Missions → Prop
  | mk {m m' : Mission} {s : MissionStep} {k : ℕ} : getMission H files missionId = some m →
      m.getStep stepId = some (s, k) → m'.id = m.id → m'.steps = m.steps.set k (f s) →
      StatusMoves m m' → Changed files missionId stepId f (files.set (pathFor H missionId) m')

theorem updateStep_changed {files files' : Missions} (hf : Filed H files)
    {now missionId stepId : String} {u : StepUpdate} {r : Option MissionStep}
    (h : updateStep H files now missionId stepId u = .ok (files', r)) :
    files' = files ∨ Changed H files missionId stepId (u.apply now) files' ∧
      ∃ m s k, getMission H files missionId = some m ∧ m.getStep stepId = some (s, k) ∧
        u.check H stepId s = .ok () := by
  obtain ⟨rfl, -⟩ | ⟨m, s, k, hm, hs, hc, -, rfl⟩ := updateStep_eq_ok h
  · exact .inl rfl
  · refine .inr ⟨?_, m, s, k, hm, hs, hc⟩
    rw [saveUnlocked, id_settle, hf _ _ hm]
    let m₁ := { m with steps := m.steps.set k (u.apply now s) }
    exact .mk hm hs rfl (steps_settle m₁ now) (statusMoves_settle m₁ now)

theorem tryClaim_changed {files files' : Missions} (hf : Filed H files)
    {now missionId stepId agentId : String} {capabilities : Option (List String)} {s' : MissionStep}
    (h : tryClaim H files now missionId stepId agentId capabilities = .ok (files', s')) :
    Changed H files missionId stepId (fun s => s.claimedBy H now agentId capabilities) files' ∧
      ∃ m s k, getMission H files missionId = some m ∧ m.getStep stepId = some (s, k) ∧
        checkClaim H stepId agentId capabilities s = .ok () := by
  obtain ⟨m, s, k, hm, hs, hc, rfl, rfl⟩ := tryClaim_eq_ok h
  refine ⟨?_, m, s, k, hm, hs, hc⟩
  rw [saveUnlocked, hf _ _ hm]
  refine .mk hm hs rfl rfl ?_
  by_cases hp : m.status = .planning
  · exact .inr (.inl (if_pos hp))
  · exact .inl (if_neg hp)

/-! ## The fields of a changed step -/

section
variable (u : StepUpdate) (now : String) (s : MissionStep)

@[simp] theorem apply_id : (u.apply now s).id = s.id := by
  unfold StepUpdate.apply
  split_ifs <;> rfl

@[simp] theorem apply_status : (u.apply now s).status = u.status.getD s.status := by
  simp only [StepUpdate.apply]
  split <;> rfl

@[simp] theorem apply_assignee : (u.apply now s).assignee = u.assignee.or s.assignee := by
  simp only [StepUpdate.apply]
  split <;> rfl

@[simp] theorem apply_output : (u.apply now s).output = u.output.or s.output := by
  simp only [StepUpdate.apply]
  split <;> rfl

@[simp] theorem apply_dependsOn : (u.apply now s).dependsOn = s.dependsOn := by
  simp only [StepUpdate.apply]
  split <;> rfl

end

end NthDao.Orchestration
