/-
  Whether work is lost.

  * `isFinished_iff`, `isDead_iff`: what completes a mission and what fails it;
  * `find_handed`: who is offered work gets a step that was handed to it, if
    there is one;
  * `stored_of_find`: an offered step is one of a stored mission;
  * `work_offered`: in every run a mission is completed by steps that are done or
    handed off, it fails by a failed step where no open step can start, and the
    step that an agent is offered is one that it can claim;
  * `work_unseen`: the step that was handed off last is not offered, a step under
    review is offered and cannot be claimed, and a failed mission has a step that
    can be.
-/
import NthDao.Orchestration.Exclusive

namespace NthDao.Orchestration

open Py Runs MissionRunner

variable {H : Host} {registry : List (String × Checker)} {lower : String → String} {w w' : World}

/-! ## Completed and failed missions -/

theorem isFinished_iff {m : Mission} : m.isFinished = true ↔
    m.steps ≠ [] ∧ ∀ s ∈ m.steps, s.status = .done ∨ s.status = .handedOff := by
  simp [Mission.isFinished]

/-- The open steps whose dependencies are done. -/
def Mission.Startable (m : Mission) (s : MissionStep) : Prop :=
  s ∈ m.steps ∧ s.isOpen = true ∧ ∀ id ∈ s.dependsOn, ∃ t ∈ m.steps, t.id = id ∧ t.status = .done

theorem canStart_iff {m : Mission} {s : MissionStep} : s.canStart m.completedStepIds = true ↔
    ∀ id ∈ s.dependsOn, ∃ t ∈ m.steps, t.id = id ∧ t.status = .done := by
  simp only [MissionStep.canStart, Mission.completedStepIds, List.all_eq_true, List.contains_eq_mem,
    decide_eq_true_eq, List.mem_map, List.mem_filter, beq_iff_eq]
  refine forall₂_congr fun id _ => exists_congr fun t => ?_
  constructor
  · rintro ⟨⟨ht, hs⟩, hid⟩
    exact ⟨ht, hid, hs⟩
  · rintro ⟨ht, hid, hs⟩
    exact ⟨⟨ht, hs⟩, hid⟩

/-- Without a profile, every step that can start is actionable. -/
theorem mem_nextActionable_none {m : Mission} {s : MissionStep} :
    s ∈ m.nextActionable (fun text => text) {} ↔ m.Startable s := by
  simp [Mission.nextActionable, Mission.Startable, hasCapabilities, isAllowed, canStart_iff]

theorem isDead_iff {m : Mission} : m.isDead = true ↔
    (∃ s ∈ m.steps, s.status = .failed) ∧ ∀ s, ¬ m.Startable s := by
  simp [Mission.isDead, List.eq_nil_iff_forall_not_mem, mem_nextActionable_none]

/-! ## What is offered -/

theorem mem_listAll {files : Missions} {m : Mission} :
    m ∈ listAll files ↔ ∃ file, (file, m) ∈ files := by
  simp only [listAll, List.mem_map, List.mem_insertionSort, Prod.exists, exists_eq_right]

/-- An agent is asked about each mission that has a step for it. -/
theorem mem_listForAgent {files : Missions} {file : String} {m : Mission} {r : MissionRunner}
    {s : MissionStep} (hm : files.get file = some m) (hopen : m.status = .active ∨ m.status = .planning)
    (hs : s ∈ m.steps) (ha : s.assignee = some r.agentId) : m ∈ listForAgent lower files r := by
  have hany : m.steps.any (fun s => s.assignee == some r.agentId) = true :=
    List.any_eq_true.2 ⟨s, hs, by simp [ha]⟩
  simp only [listForAgent, listActive, List.mem_filter, Bool.or_eq_true, beq_iff_eq, hany]
  exact ⟨⟨mem_listAll.2 ⟨file, Dict.mem_of_get hm⟩, hopen⟩, .inl (.inr trivial)⟩

/-- A step that has been handed to an agent. -/
def MissionStep.HandedTo (s : MissionStep) (agentId : String) : Prop :=
  s.status = .handedOff ∧ s.assignee = some agentId

theorem handedTo_eq_some {r : MissionRunner} {m : Mission} {s : MissionStep}
    (h : r.handedTo m = some s) : s ∈ m.steps ∧ s.HandedTo r.agentId := by
  have hp := List.find?_some h
  rw [Bool.and_eq_true, beq_iff_eq, beq_iff_eq] at hp
  exact ⟨List.mem_of_find?_eq_some h, hp⟩

theorem startable_eq_some {r : MissionRunner} {m : Mission} {s : MissionStep}
    (h : r.startable lower m = some s) : s ∈ m.steps ∧ s.isOpen = true := by
  have hmem := List.mem_of_head? h
  simp only [Mission.nextActionable, List.mem_filter, Bool.and_eq_true] at hmem
  exact ⟨hmem.1, hmem.2.1.1.1.1⟩

/-- The agent is offered a step that has been handed to it, if there is one. -/
theorem find_handed {files : Missions} {file : String} {m : Mission} {r : MissionRunner}
    {s : MissionStep} (hm : files.get file = some m) (hopen : m.status = .active ∨ m.status = .planning)
    (hs : s ∈ m.steps) (hh : s.HandedTo r.agentId) (prefer : Option String) :
    ∃ m' s', r.findWork H lower files prefer true = some (m', s') ∧ s' ∈ m'.steps ∧
      s'.HandedTo r.agentId := by
  have hrel : m ∈ listForAgent lower files r := mem_listForAgent hm hopen hs hh.2
  let first := (listForAgent lower files r).findSome? fun m => (r.handedTo m).map fun s => (m, s)
  have hsome : first.isSome = true := by
    refine List.findSome?_isSome_iff.2 ⟨m, hrel, ?_⟩
    rw [Option.isSome_map, MissionRunner.handedTo, List.find?_isSome]
    exact ⟨s, hs, by simp [hh.1, hh.2]⟩
  obtain ⟨⟨m', s'⟩, hfirst⟩ := Option.isSome_iff_exists.1 hsome
  obtain ⟨m₁, -, h₁⟩ := List.exists_of_findSome?_eq_some hfirst
  obtain ⟨s₁, hs₁, he⟩ := Option.map_eq_some_iff.1 h₁
  cases he
  refine ⟨m', s', ?_, handedTo_eq_some hs₁⟩
  show (first.or _) = _
  rw [hfirst, Option.some_or]

variable (H) in
/-- Each mission is stored once, in the file that is named after it. -/
structure Kept (files : Missions) : Prop where
  filed : Filed H files
  once : (files.map Prod.fst).Nodup

theorem Kept.effect (h : Kept H w.files) {a : Action} {files : Missions}
    (he : Effect H w a files) : Kept H files := by
  refine ⟨h.filed.effect he, ?_⟩
  cases he with
  | none => exact h.once
  | create _ _ _ => exact Dict.nodup_set h.once _ _
  | move _ _ _ _ hc =>
    cases hc with
    | mk _ _ _ _ _ => exact Dict.nodup_set h.once _ _

theorem kept_of_reach {cond : World → Action → Prop}
    (h : Reach (fun w : World => w.step H registry) cond {} w) : Kept H w.files :=
  Reach.invariant (P := fun w : World => Kept H w.files) h
    ⟨fun _ _ h => (nomatch h), List.nodup_nil⟩ fun _ _ _ hw _ hs => hw.effect (step_effect hw.filed hs)

theorem Kept.getMission {files : Missions} (h : Kept H files) {file : String} {m : Mission}
    (hm : files.get file = some m) : getMission H files m.id = some m := by
  rw [Orchestration.getMission, h.filed file m hm, hm]

/-- An offered step is an open step of a stored mission. -/
theorem stored_of_find {files : Missions} (h : Kept H files) {r : MissionRunner}
    {prefer : Option String} {preferHandoffToMe : Bool} {m : Mission} {s : MissionStep}
    (hf : r.findWork H lower files prefer preferHandoffToMe = some (m, s)) :
    getMission H files m.id = some m ∧ s ∈ m.steps ∧ s.isOpen = true := by
  have hall : ∀ m, m ∈ listForAgent lower files r → getMission H files m.id = some m := by
    intro m hm
    obtain ⟨file, hmem⟩ := mem_listAll.1 (List.mem_of_mem_filter (List.mem_of_mem_filter hm))
    exact h.getMission (Dict.get_of_mem h.once hmem)
  have hstart : ∀ m₁, r.startable lower m₁ = some s → s ∈ m₁.steps ∧ s.isOpen = true :=
    fun _ => startable_eq_some
  simp only [MissionRunner.findWork, Option.or_eq_some_iff] at hf
  rcases hf with hf | ⟨-, hf | ⟨-, hf⟩⟩
  · -- a step that was handed over
    rw [Option.ite_none_right_eq_some] at hf
    obtain ⟨m₁, hm₁, h₁⟩ := List.exists_of_findSome?_eq_some hf.2
    obtain ⟨s₁, hs₁, he⟩ := Option.map_eq_some_iff.1 h₁
    cases he
    obtain ⟨hmem, hstatus, -⟩ := handedTo_eq_some hs₁
    exact ⟨hall m hm₁, hmem, by simp [MissionStep.isOpen, hstatus]⟩
  · -- a step of the mission that was asked for
    obtain ⟨id, -, hf⟩ := Option.bind_eq_some_iff.1 hf
    obtain ⟨m₁, hm₁, hf⟩ := Option.bind_eq_some_iff.1 hf
    obtain ⟨s₁, hs₁, he⟩ := Option.map_eq_some_iff.1 hf
    cases he
    exact ⟨h.getMission hm₁, hstart m hs₁⟩
  · obtain ⟨m₁, hm₁, h₁⟩ := List.exists_of_findSome?_eq_some hf
    obtain ⟨s₁, hs₁, he⟩ := Option.map_eq_some_iff.1 h₁
    cases he
    exact ⟨hall m hm₁, hstart m hs₁⟩

/-- Where the ids differ, each step is found by its id. -/
theorem getStep_of_nodup {m : Mission} (hn : (m.steps.map fun s => s.id).Nodup) {s : MissionStep}
    (hs : s ∈ m.steps) : ∃ k, m.getStep s.id = some (s, k) := by
  obtain ⟨k, hk, rfl⟩ := List.mem_iff_getElem.1 hs
  refine ⟨k, getStep_eq_some.2 ⟨?_, List.getElem?_eq_getElem hk⟩⟩
  rw [Mission.placeOf, List.findIdx?_eq_some_iff_getElem]
  refine ⟨by simpa using hk, by simp, fun j hj hid => ?_⟩
  have hlt : k < (m.steps.map fun s => s.id).length := by simpa using hk
  have he : (m.steps.map fun s => s.id)[j] = (m.steps.map fun s => s.id)[k] := by
    rw [beq_iff_eq.1 hid, List.getElem_map]
  have := hn.getElem_inj_iff.1 he
  omega

/-- What an agent is offered can be claimed. -/
theorem claim_of_find {files : Missions} (h : Kept H files) {r : MissionRunner}
    {prefer : Option String} {preferHandoffToMe : Bool} {m : Mission} {s : MissionStep}
    (hf : r.findWork H lower files prefer preferHandoffToMe = some (m, s))
    (hn : (m.steps.map fun s => s.id).Nodup) (hreview : s.status ≠ .needsReview)
    (hholder : s.holder = "" ∨ s.holder = r.agentId)
    (hcaps : hasCapabilities s.requiredCapabilities (some r.capabilities) = true) (now : String) :
    ∃ files' s', r.claim H files now m.id s.id = .ok (files', some s') := by
  obtain ⟨hm, hs, hopen⟩ := stored_of_find h hf
  obtain ⟨k, hk⟩ := getStep_of_nodup hn hs
  refine (claim_accepted hm hk).2 ⟨?_, hholder, hcaps⟩
  simpa [MissionStep.isOpen, MissionStep.isClaimable, hreview] using hopen

/-! ## Runs -/

/-- **Work is offered**: in every run, a call completes a mission only with steps
    that are done or handed off, and fails it only with a failed step and without
    an open step whose dependencies are done; an agent is offered a step handed to
    it in an open mission; and a step that is offered and not under review, not
    held by another and within the agent's capabilities can be claimed. -/
theorem work_offered (h : Reach (fun w : World => w.step H registry) (fun _ _ => True) {} w) :
    (∀ a w', w.step H registry a = some w' → ∀ file, ∀ m : Mission, w.files.get file = some m →
      ∃ m', w'.files.get file = some m' ∧
        (m'.status = .completed → m.status ≠ .completed →
          m'.steps ≠ [] ∧ ∀ s ∈ m'.steps, s.status = .done ∨ s.status = .handedOff) ∧
        (m'.status = .failed → m.status ≠ .failed →
          (∃ s ∈ m'.steps, s.status = .failed) ∧ ∀ s, ¬ m'.Startable s)) ∧
    (∀ r : MissionRunner, ∀ file, ∀ m : Mission, ∀ s ∈ m.steps, w.files.get file = some m →
      m.status = .active ∨ m.status = .planning → s.HandedTo r.agentId →
      ∀ prefer, ∃ m' s', r.findWork H lower w.files prefer true = some (m', s') ∧
        s' ∈ m'.steps ∧ s'.HandedTo r.agentId) ∧
    ∀ r : MissionRunner, ∀ prefer preferHandoffToMe m s,
      r.findWork H lower w.files prefer preferHandoffToMe = some (m, s) →
      (m.steps.map fun s => s.id).Nodup → s.status ≠ .needsReview →
      (s.holder = "" ∨ s.holder = r.agentId) →
      hasCapabilities s.requiredCapabilities (some r.capabilities) = true →
      ∀ now, ∃ files' s', r.claim H w.files now m.id s.id = .ok (files', some s') := by
  have hw := kept_of_reach h
  refine ⟨?_, fun r file m s hs hm hopen hh prefer => find_handed hm hopen hs hh prefer,
    fun r prefer flag m s hf hn hreview hholder hcaps => claim_of_find hw hf hn hreview hholder hcaps⟩
  intro a w' hstep file m hm
  obtain ⟨m', hm', hstatus, -⟩ := (step_effect hw.filed hstep).moves hm
  refine ⟨m', hm', fun hc hne => ?_, fun hc hne => ?_⟩
  · rcases hstatus with he | he | ⟨-, hf⟩ | ⟨he, -⟩
    · exact absurd (he.symm.trans hc) hne
    · rw [hc] at he
      cases he
    · exact isFinished_iff.1 hf
    · rw [hc] at he
      cases he
  · rcases hstatus with he | he | ⟨he, -⟩ | ⟨-, hd⟩
    · exact absurd (he.symm.trans hc) hne
    · rw [hc] at he
      cases he
    · rw [hc] at he
      cases he
    · exact isDead_iff.1 hd

/-! ## Samples -/

/-- One step; it passes a review only with an output. -/
def reviewedMission : Mission where
  id := "m1"
  steps := [{ id := "draft", acceptanceCriteria := some [] }]

/-- Alice has the step. -/
def claimDraft : List Action := [.create "t0" reviewedMission, .claim alice "t1" "m1" "draft"]

/-- The status of the mission, the step that an agent is offered and its status,
    and whether the agent can claim a step. -/
def workAfter (actions : List Action) (r : MissionRunner) (stepId : String) :
    Option (MissionStatus × Option (String × StepStatus) × Bool) := do
  let w ← run (fun w : World => w.step checksumHost []) {} actions
  let m ← getMission checksumHost w.files "m1"
  let offered := r.findWork checksumHost (fun text => text) w.files none true
  let claimed := match r.claim checksumHost w.files "t9" "m1" stepId with
    | .ok (_, some _) => true
    | _ => false
  return (m.status, offered.map fun p => (p.2.id, p.2.status), claimed)

/-- Handed to Bob, the last step completes the mission and is not offered to him;
    after a review Alice is offered the step that she cannot claim; and the step
    after a failed one can still be claimed in the failed mission. -/
theorem work_unseen :
    workAfter (claimDraft ++ [.handoff alice "t2" "m1" "draft" "bob" "" true]) bob "draft" =
        some (.completed, none, true) ∧
      workAfter (claimDraft ++ [.complete alice "t2" "m1" "draft" none "", .submit 0 "t3"]) alice
        "draft" = some (.active, some ("draft", .needsReview), false) ∧
      workAfter [.create "t0" sampleMission, .claim alice "t1" "m1" "design",
        .fail alice "t2" "m1" "design" "late"] bob "build" = some (.failed, none, true) :=
  ⟨by decide +kernel, by decide +kernel, by decide +kernel⟩

/-- Alice keeps the step of two that Bob is to have. -/
theorem work_offered_run : ∃ w : World, ∃ m' s',
    bob.findWork checksumHost (fun text => text) w.files none true = some (m', s') ∧
      s' ∈ m'.steps ∧ s'.HandedTo "bob" := by
  obtain ⟨w, hw, hc⟩ := (Option.any_eq_true _ _).1 (show
    (run (fun w : World => w.step checksumHost []) {} [.create "t0" sampleMission,
      .claim alice "t1" "m1" "design", .handoff alice "t2" "m1" "design" "bob" "" true]).any
      (fun w => (w.files.get "m1.json").any fun m =>
        m.status == .active && m.steps[0]?.any fun s =>
          s.status == .handedOff && s.assignee == some "bob") = true by decide)
  obtain ⟨m, hm, hc⟩ := (Option.any_eq_true _ _).1 hc
  rw [Bool.and_eq_true, beq_iff_eq] at hc
  obtain ⟨s, hs, hh⟩ := (Option.any_eq_true _ _).1 hc.2
  rw [Bool.and_eq_true, beq_iff_eq, beq_iff_eq] at hh
  have hreach := reach_of_run .start hw fun _ _ _ => trivial
  exact ⟨w, (work_offered hreach).2.1 bob _ m s (List.mem_of_getElem? hs) hm (.inl hc.1) hh none⟩

end NthDao.Orchestration
