/-
  Agents at work on missions (`nth_dao/orchestration/mission_runner.py`).

  * `listForAgent` and `MissionRunner.findWork`: what an agent is offered;
  * `claim`, `complete`, `handoff`, `fail`, `block`: the calls of an agent.
    `complete` judges the output first and takes the lock afterwards, so it has
    two parts;
  * `World.step`: the calls of any number of agents on the missions of a store;
  * `step_cases`: a call makes one change of one step, or none.
-/
import NthDao.Orchestration.Mission
import NthDao.Reach

namespace NthDao.Orchestration

open Py Runs

variable (H : Host)

/-! ## Agents -/

/-- What the registry knows of an agent. -/
structure Registered where
  alive : Bool
  lastSeen : String

structure MissionRunner where
  agentId : String
  capabilities : List String := []
  platform : Option String := none
  runtime : Option String := none
  registry : Option (String → Option Registered) := none

structure RunnerOutcome where
  success : Bool
  missionId : String
  stepId : String
  note : String := ""
  output : Option Json := none

/-- What a runner brings along. -/
def MissionRunner.profile (r : MissionRunner) : Profile where
  capabilities := some r.capabilities
  platform := r.platform
  runtime := r.runtime

/-! ## Finding work -/

/-- `list_all`: the files in the order of their names. -/
def listAll (files : Missions) : List Mission :=
  (files.insertionSort fun p q => p.1 ≤ q.1).map Prod.snd

/-- `list_active`. -/
def listActive (files : Missions) : List Mission :=
  (listAll files).filter fun m => m.status == .active || m.status == .planning

/-- `list_for_agent`, with the team's missions. -/
def listForAgent (lower : String → String) (files : Missions) (r : MissionRunner) : List Mission :=
  (listActive files).filter fun m => m.owner == r.agentId ||
    m.steps.any (fun s => s.assignee == some r.agentId) ||
    m.scope == "shared" && !(m.nextActionable lower r.profile).isEmpty

/-- The first step that has been handed to the agent. -/
def MissionRunner.handedTo (r : MissionRunner) (m : Mission) : Option MissionStep :=
  m.steps.find? fun s => s.status == .handedOff && s.assignee == some r.agentId

/-- The first step that the agent can start. -/
def MissionRunner.startable (lower : String → String) (r : MissionRunner) (m : Mission) :
    Option MissionStep :=
  (m.nextActionable lower r.profile).head?

/-- `find_work`. -/
def MissionRunner.findWork (lower : String → String) (files : Missions) (r : MissionRunner)
    (preferMissionId : Option String) (preferHandoffToMe : Bool) : Option (Mission × MissionStep) :=
  let relevant := listForAgent lower files r
  let handed := relevant.findSome? fun m => (r.handedTo m).map fun s => (m, s)
  let preferred := (preferMissionId.filter (· != "")).bind fun id =>
    (getMission H files id).bind fun m => (r.startable lower m).map fun s => (m, s)
  let offered := relevant.findSome? fun m => (r.startable lower m).map fun s => (m, s)
  (if preferHandoffToMe then handed else none).or (preferred.or offered)

/-! ## Calls -/

namespace MissionRunner

variable (r : MissionRunner) (files : Missions)

/-- `claim`: `None` where the step is taken. -/
def claim (now missionId stepId : String) : Except StoreError (Missions × Option MissionStep) :=
  match tryClaim H files now missionId stepId r.agentId (some r.capabilities) with
  | .ok (files', s) => .ok (files', some s)
  | .error (.claimConflict _) => .ok (files, none)
  | .error e => .error e

/-- A `complete` whose output has been judged. -/
structure Submission where
  agentId : String
  missionId : String
  stepId : String
  output : Option Json
  note : String
  /-- why the output is not accepted, and when that was found -/
  refused : Option (String × String)

/-- The first part of `complete`: the step is read and the output judged. -/
def complete (registry : List (String × Checker)) (now missionId stepId : String)
    (output : Option Json) (note : String) : Except String Submission := do
  let passed ← match (getMission H files missionId).bind (·.getStep stepId) with
    | some (s, _) => s.evaluate H registry output
    | none => .ok (true, "")
  return { agentId := r.agentId, missionId, stepId, output, note,
           refused := if passed.1 then none else some (passed.2, now) }

/-- The change that a submission asks for. -/
def Submission.update (c : Submission) : StepUpdate :=
  match c.refused with
  | some (reason, ts) =>
    { status := some .needsReview, output := c.output, note := "acceptance failed: " ++ reason,
      noteAuthor := c.agentId,
      appendReviewTrail := some (.obj [("ts", .str ts), ("by", .str c.agentId),
        ("output", c.output.getD .null), ("reason", .str reason)]) }
  | none =>
    { status := some .done, output := c.output,
      note := if c.note = "" then "completed" else c.note, noteAuthor := c.agentId }

/-- The second part of `complete`. -/
def Submission.submit (c : Submission) (files : Missions) (now : String) :
    Except StoreError (Missions × RunnerOutcome) := do
  let (files', s) ← updateStep H files now c.missionId c.stepId c.update
  return (files', match c.refused with
    | some (reason, _) => ⟨false, c.missionId, c.stepId, "needs_review: " ++ reason, c.output⟩
    | none => ⟨s.isSome, c.missionId, c.stepId, c.note, c.output⟩)

/-- Why a hand-off is refused before the store is asked: the registry does not
    know the target, or not as alive. -/
def targetRefused (toAgentId : String) (requireAlive : Bool) : Option String :=
  match requireAlive, r.registry with
  | true, some registry =>
    match registry toAgentId with
    | none => some ("handoff refused: target '" ++ toAgentId ++ "' not registered")
    | some target =>
      if target.alive then none
      else some ("handoff refused: target '" ++ toAgentId ++ "' not alive (last_seen=" ++
        target.lastSeen ++ ")")
  | _, _ => none

/-- The change that a hand-off asks for. -/
def handoffUpdate (toAgentId note : String) : StepUpdate where
  status := some .handedOff
  assignee := some toAgentId
  note := if note = "" then "handed off from " ++ r.agentId ++ " to " ++ toAgentId else note
  noteAuthor := r.agentId
  expectAssigneeIn := some [r.agentId]

/-- `handoff`, an error where it raises `ValueError`. -/
def handoff (now missionId stepId toAgentId note : String) (requireAlive : Bool) :
    Except String (Missions × RunnerOutcome) :=
  if toAgentId = "" then .error "handoff requires a non-empty to_agent_id"
  else if toAgentId = r.agentId then .error "cannot handoff to yourself"
  else
    match r.targetRefused toAgentId requireAlive with
    | some reason => .ok (files, ⟨false, missionId, stepId, reason, none⟩)
    | none =>
      match updateStep H files now missionId stepId (r.handoffUpdate toAgentId note) with
      | .ok (files', s) =>
        .ok (files', ⟨s.isSome, missionId, stepId, (r.handoffUpdate toAgentId note).note, none⟩)
      | .error (.claimConflict e) =>
        .ok (files, ⟨false, missionId, stepId, "handoff refused: " ++ e, none⟩)
      | .error _ => .ok (files, ⟨false, missionId, stepId, "", none⟩)

/-- The changes that `fail` and `block` ask for. -/
def markUpdate (status : StepStatus) (label reason : String) : StepUpdate where
  status := some status
  note := label ++ reason
  noteAuthor := r.agentId

/-- `fail`. -/
def fail (now missionId stepId reason : String) : Except StoreError (Missions × RunnerOutcome) := do
  let (files', _) ← updateStep H files now missionId stepId (r.markUpdate .failed "FAILED: " reason)
  return (files', ⟨false, missionId, stepId, reason, none⟩)

/-- `block`. -/
def block (now missionId stepId reason : String) : Except StoreError (Missions × RunnerOutcome) := do
  let (files', s) ←
    updateStep H files now missionId stepId (r.markUpdate .blocked "BLOCKED: " reason)
  return (files', ⟨s.isSome, missionId, stepId, reason, none⟩)

end MissionRunner

/-! ## Runs -/

/-- An accepted claim. -/
structure Claimed where
  file : String
  stepId : String
  agentId : String
  deriving DecidableEq

/-- The files, the submissions on their way, and the claims that were accepted. -/
structure World where
  files : Missions := []
  submissions : List MissionRunner.Submission := []
  claims : List Claimed := []

inductive Action where
  /-- `create` of a mission whose steps are new -/
  | create (now : String) (m : Mission)
  | claim (r : MissionRunner) (now missionId stepId : String)
  | complete (r : MissionRunner) (now missionId stepId : String) (output : Option Json)
      (note : String)
  | submit (n : ℕ) (now : String)
  | handoff (r : MissionRunner) (now missionId stepId toAgentId note : String) (requireAlive : Bool)
  | fail (r : MissionRunner) (now missionId stepId reason : String)
  | block (r : MissionRunner) (now missionId stepId reason : String)

/-- A step as `Mission.new` makes it. -/
def MissionStep.isNew (s : MissionStep) : Bool := s.status == .todo && s.assignee.isNone

namespace World

variable (w : World)

/-- The world after a change of the files, or the same where the call raises. -/
def put {ε α : Type} : Except ε (Missions × α) → World
  | .ok (files, _) => { w with files }
  | .error _ => w

/-- One call; `none` where there is nothing to go on with. -/
def step (registry : List (String × Checker)) : Action → Option World
  | .create now m =>
    if w.files.has (pathFor H m.id) || !m.steps.all MissionStep.isNew then some w
    else some { w with files := saveUnlocked H w.files now m }
  | .claim r now missionId stepId =>
    match r.claim H w.files now missionId stepId with
    | .ok (files, some _) =>
      some { w with files, claims := w.claims ++ [⟨pathFor H missionId, stepId, r.agentId⟩] }
    | _ => some w
  | .complete r now missionId stepId output note =>
    match r.complete H w.files registry now missionId stepId output note with
    | .ok c => some { w with submissions := w.submissions ++ [c] }
    | .error _ => some w
  | .submit n now => do
    let c ← w.submissions[n]?
    return { w.put (c.submit H w.files now) with submissions := w.submissions.eraseIdx n }
  | .handoff r now missionId stepId toAgentId note requireAlive =>
    some (w.put (r.handoff H w.files now missionId stepId toAgentId note requireAlive))
  | .fail r now missionId stepId reason => some (w.put (r.fail H w.files now missionId stepId reason))
  | .block r now missionId stepId reason =>
    some (w.put (r.block H w.files now missionId stepId reason))

end World

end NthDao.Orchestration
