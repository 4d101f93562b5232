/-
  Steps over whole runs.

  Any number of agents claim, complete, hand off, fail and block the steps of
  missions.

  * `Moves`: the moves of one step, by the call that makes them;
  * `step_effect`: a call moves one step of one mission, or none;
  * `claims_exclusive`: an active step is held by the agent of the last claim of
    it, a claim is accepted by the step's status, holder and capabilities alone,
    and only the holder hands a step off;
  * `claims_unchecked`: dependencies and the mission's status do not stop a claim,
    and others than the holder complete a step and fail it once it is done.
-/
import NthDao.Orchestration.Runner

namespace NthDao.Orchestration

open Py Runs MissionRunner

variable {H : Host} {registry : List (String × Checker)} {w w' : World}

/-! ## Moves -/

/-- The moves of a step: what the call finds and what it leaves. -/
inductive Moves (w : World) : Action → MissionStep → MissionStep → Prop
  | claim {r : MissionRunner} {now missionId : String} {s s' : MissionStep} :
      s.isClaimable = true → s.holder = "" ∨ s.holder = r.agentId →
      hasCapabilities s.requiredCapabilities (some r.capabilities) = true →
      s'.status = .active → s'.assignee = some r.agentId → s'.output = s.output →
      Moves w (.claim r now missionId s.id) s s'
  | submit {n : ℕ} {now : String} {c : Submission} {s s' : MissionStep} :
      w.submissions[n]? = some c → c.stepId = s.id →
      s'.status = (if c.refused.isSome then .needsReview else .done) →
      s'.assignee = s.assignee → s'.output = c.output.or s.output → Moves w (.submit n now) s s'
  | handoff {r : MissionRunner} {now missionId toAgentId note : String} {requireAlive : Bool}
      {s s' : MissionStep} :
      s.holder = r.agentId → toAgentId ≠ "" → toAgentId ≠ r.agentId →
      s'.status = .handedOff → s'.assignee = some toAgentId → s'.output = s.output →
      Moves w (.handoff r now missionId s.id toAgentId note requireAlive) s s'
  | fail {r : MissionRunner} {now missionId reason : String} {s s' : MissionStep} :
      s'.status = .failed → s'.assignee = s.assignee → s'.output = s.output →
      Moves w (.fail r now missionId s.id reason) s s'
  | block {r : MissionRunner} {now missionId reason : String} {s s' : MissionStep} :
      s'.status = .blocked → s'.assignee = s.assignee → s'.output = s.output →
      Moves w (.block r now missionId s.id reason) s s'

/-- What a call does to the files: it makes a mission, it moves the first step
    with some id of one mission, or nothing. -/
inductive Effect (H : Host) (w : World) (a : Action) : Missions → Prop
  | none : Effect H w a w.files
  | create {now : String} {m : Mission} : a = .create now m →
      w.files.has (pathFor H m.id) = false → m.steps.all MissionStep.isNew = true →
      Effect H w a (saveUnlocked H w.files now m)
  | move {missionId stepId : String} {f : MissionStep → MissionStep} {m : Mission} {s : MissionStep}
      {k : ℕ} {files : Missions} :
      getMission H w.files missionId = some m → m.getStep stepId = some (s, k) →
      (f s).id = s.id → Moves w a s (f s) → Changed H w.files missionId stepId f files →
      Effect H w a files

/-- A change asked of the store is an effect. -/
theorem effect_updateStep (hf : Filed H w.files) {a : Action} {files : Missions}
    {now missionId stepId : String} {u : StepUpdate} {r : Option MissionStep}
    (h : updateStep H w.files now missionId stepId u = .ok (files, r))
    (hm : ∀ s, s.id = stepId → u.check H stepId s = .ok () → Moves w a s (u.apply now s)) :
    Effect H w a files := by
  obtain rfl | ⟨hc, m, s, k, hget, hs, hcheck⟩ := updateStep_changed hf h
  · exact .none
  · exact .move hget hs (apply_id u now s) (hm s (id_of_getStep hs) hcheck) hc

theorem effect_put {ε α : Type} {a : Action} {x : Except ε (Missions × α)}
    (h : ∀ files y, x = .ok (files, y) → Effect H w a files) : Effect H w a (w.put x).files := by
  cases x with
  | error e => exact .none
  | ok p => exact h p.1 p.2 rfl

theorem step_effect (hf : Filed H w.files) {a : Action} (h : w.step H registry a = some w') :
    Effect H w a w'.files := by
  cases a with
  | create now m =>
    simp only [World.step] at h
    split_ifs at h with hc
    · cases h
      exact .none
    · cases h
      simp only [Bool.or_eq_true, Bool.not_eq_true', not_or, Bool.not_eq_true, Bool.not_eq_false] at hc
      exact .create rfl hc.1 hc.2
  | claim r now missionId stepId =>
    simp only [World.step, MissionRunner.claim] at h
    cases hc : tryClaim H w.files now missionId stepId r.agentId (some r.capabilities) with
    | error e =>
      rw [hc] at h
      cases e <;> cases h <;> exact .none
    | ok p =>
      obtain ⟨files, s'⟩ := p
      rw [hc] at h
      cases h
      obtain ⟨hchanged, m, s, k, hget, hs, hcheck⟩ := tryClaim_changed hf hc
      obtain ⟨hopen, hholder, hcaps⟩ := checkClaim_eq_ok.1 hcheck
      obtain rfl := id_of_getStep hs
      exact .move hget hs rfl (.claim hopen hholder hcaps rfl rfl rfl) hchanged
  | complete r now missionId stepId output note =>
    simp only [World.step] at h
    cases hc : r.complete H w.files registry now missionId stepId output note with
    | ok c =>
      rw [hc] at h
      cases h
      exact .none
    | error e =>
      rw [hc] at h
      cases h
      exact .none
  | submit n now =>
    simp only [World.step, Option.bind_eq_bind, Option.bind_eq_some_iff] at h
    obtain ⟨c, hc, h⟩ := h
    cases h
    refine effect_put fun files y hy => ?_
    simp only [Submission.submit, bind_eq_ok, pure_eq_ok, Prod.mk.injEq, Prod.exists] at hy
    obtain ⟨_, _, hu, rfl, -⟩ := hy
    refine effect_updateStep hf hu fun s hs _ => .submit hc hs.symm ?_ ?_ ?_
    · cases hr : c.refused <;> simp [Submission.update, hr]
    · cases hr : c.refused <;> simp [Submission.update, hr]
    · cases hr : c.refused <;> simp [Submission.update, hr]
  | handoff r now missionId stepId toAgentId note requireAlive =>
    cases h
    refine effect_put fun files y hy => ?_
    unfold MissionRunner.handoff at hy
    split_ifs at hy with h₁ h₂
    cases ht : r.targetRefused toAgentId requireAlive with
    | some reason =>
      rw [ht] at hy
      cases hy
      exact .none
    | none =>
      rw [ht] at hy
      cases hu : updateStep H w.files now missionId stepId (r.handoffUpdate toAgentId note) with
      | error e =>
        rw [hu] at hy
        cases e <;> cases hy <;> exact .none
      | ok p =>
        rw [hu] at hy
        cases hy
        refine effect_updateStep hf hu fun s hs hcheck => ?_
        have hholder : s.holder = r.agentId := by
          simpa [StepUpdate.check, handoffUpdate, require_bind_eq_ok] using hcheck
        subst hs
        exact .handoff hholder h₁ h₂ (by simp [handoffUpdate]) (by simp [handoffUpdate])
          (by simp [handoffUpdate])
  | fail r now missionId stepId reason =>
    cases h
    refine effect_put fun files y hy => ?_
    simp only [MissionRunner.fail, bind_eq_ok, pure_eq_ok, Prod.mk.injEq, Prod.exists] at hy
    obtain ⟨_, _, hu, rfl, -⟩ := hy
    refine effect_updateStep hf hu fun s hs _ => ?_
    subst hs
    exact .fail (by simp [markUpdate]) (by simp [markUpdate]) (by simp [markUpdate])
  | block r now missionId stepId reason =>
    cases h
    refine effect_put fun files y hy => ?_
    simp only [MissionRunner.block, bind_eq_ok, pure_eq_ok, Prod.mk.injEq, Prod.exists] at hy
    obtain ⟨_, _, hu, rfl, -⟩ := hy
    refine effect_updateStep hf hu fun s hs _ => ?_
    subst hs
    exact .block (by simp [markUpdate]) (by simp [markUpdate]) (by simp [markUpdate])

/-! ## What holds in every run -/

theorem Filed.effect (hf : Filed H w.files) {a : Action} {files : Missions}
    (h : Effect H w a files) : Filed H files := by
  intro file m hm
  cases h with
  | none => exact hf file m hm
  | @create now m₀ _ _ _ =>
    rw [saveUnlocked, Dict.get_set] at hm
    split_ifs at hm with he
    · cases hm
      exact he.symm
    · exact hf file m hm
  | @move missionId _ _ m₀ _ _ _ hget _ _ _ hc =>
    cases hc with
    | mk hget' _ hid _ _ =>
      rw [Dict.get_set] at hm
      split_ifs at hm with he
      · cases hm
        rw [hid, he]
        exact hf _ _ hget'
      · exact hf file m hm

/-- **One move at a time**: a call moves one step of one mission, or none. -/
theorem Effect.moves {a : Action} {files : Missions} (h : Effect H w a files) {file : String}
    {m : Mission} (hm : w.files.get file = some m) :
    ∃ m', files.get file = some m' ∧ StatusMoves m m' ∧ m'.id = m.id ∧
      (∀ stepId, m'.placeOf stepId = m.placeOf stepId) ∧
      (m'.steps = m.steps ∨ ∃ k s s', m.getStep s.id = some (s, k) ∧ s'.id = s.id ∧
        m'.steps = m.steps.set k s' ∧ Moves w a s s') := by
  cases h with
  | none => exact ⟨m, hm, .inl rfl, rfl, fun _ => rfl, .inl rfl⟩
  | @create now m₀ _ hnew _ =>
    have hne : file ≠ pathFor H m₀.id := by
      rintro rfl
      rw [← Dict.get_isSome, hm] at hnew
      cases hnew
    refine ⟨m, ?_, .inl rfl, rfl, fun _ => rfl, .inl rfl⟩
    rw [saveUnlocked, Dict.get_set, if_neg hne, hm]
  | @move missionId stepId f m₀ s k _ hget hs hid hmove hc =>
    cases hc with
    | @mk m₁ m' s₁ k₁ hget₁ hs₁ hid' hsteps hstatus =>
      rw [hget] at hget₁
      cases hget₁
      rw [hs] at hs₁
      cases hs₁
      by_cases he : file = pathFor H missionId
      · rw [getMission, ← he, hm] at hget
        cases hget
        obtain rfl := id_of_getStep hs
        refine ⟨m', by rw [Dict.get_set, if_pos he], hstatus, hid', ?_,
          .inr ⟨k, s, f s, hs, hid, hsteps, hmove⟩⟩
        exact placeOf_set (getStep_eq_some.1 hs).2 hid hsteps
      · exact ⟨m, by rw [Dict.get_set, if_neg he, hm], .inl rfl, rfl, fun _ => rfl, .inl rfl⟩

/-- The mission of a new file has new steps. -/
theorem Effect.created {a : Action} {files : Missions} (h : Effect H w a files) {file : String}
    (hnone : w.files.get file = Option.none) {m : Mission} (hm : files.get file = some m) :
    m.steps.all MissionStep.isNew = true := by
  cases h with
  | none =>
    rw [hnone] at hm
    cases hm
  | create _ _ hnew =>
    rw [saveUnlocked, Dict.get_set] at hm
    split_ifs at hm
    · cases hm
      exact hnew
    · rw [hnone] at hm
      cases hm
  | move hget _ _ _ hc =>
    cases hc with
    | mk hget' _ _ _ _ =>
      rw [Dict.get_set] at hm
      split_ifs at hm with he
      · rw [getMission, ← he, hnone] at hget'
        cases hget'
      · rw [hnone] at hm
        cases hm

/-! ## Claims -/

/-- The agent whose claim of a step was accepted last. -/
def lastClaim (claims : List Claimed) (file stepId : String) : Option String :=
  (claims.filter fun c => c.file == file && c.stepId == stepId).getLast?.map (·.agentId)

theorem lastClaim_append_self (claims : List Claimed) (c : Claimed) :
    lastClaim (claims ++ [c]) c.file c.stepId = some c.agentId := by
  simp [lastClaim, List.filter_append]

theorem lastClaim_append_of_ne (claims : List Claimed) {c : Claimed} {file stepId : String}
    (h : c.file = file → c.stepId ≠ stepId) :
    lastClaim (claims ++ [c]) file stepId = lastClaim claims file stepId := by
  have : (c.file == file && c.stepId == stepId) = false := by
    by_cases hf : c.file = file
    · simp [h hf]
    · simp [hf]
  rw [lastClaim, List.filter_append, List.filter_cons_of_neg (by simp [this]), List.filter_nil,
    List.append_nil, lastClaim]

variable (H) in
/-- Active steps are the first with their id and held by who claimed them last. -/
structure Held (w : World) : Prop where
  filed : Filed H w.files
  held : ∀ file m k s, w.files.get file = some m → m.steps[k]? = some s → s.status = .active →
    m.placeOf s.id = some k ∧ ∃ agent, s.assignee = some agent ∧
      lastClaim w.claims file s.id = some agent

theorem Held.start : Held H {} :=
  ⟨fun _ _ h => (nomatch h), fun _ _ _ _ h => (nomatch h)⟩

/-- A claim is accepted and recorded, or nothing happens. -/
theorem step_claim {r : MissionRunner} {now missionId stepId : String}
    (h : w.step H registry (.claim r now missionId stepId) = some w') :
    w' = w ∨ ∃ files s', tryClaim H w.files now missionId stepId r.agentId (some r.capabilities) =
      .ok (files, s') ∧ w' = { w with
        files, claims := w.claims ++ [⟨pathFor H missionId, stepId, r.agentId⟩] } := by
  simp only [World.step, MissionRunner.claim] at h
  cases hc : tryClaim H w.files now missionId stepId r.agentId (some r.capabilities) with
  | error e =>
    rw [hc] at h
    cases e <;> cases h <;> exact .inl rfl
  | ok p =>
    rw [hc] at h
    cases h
    exact .inr ⟨p.1, p.2, rfl, rfl⟩

theorem claims_put {ε α : Type} (x : Except ε (Missions × α)) : (w.put x).claims = w.claims := by
  cases x <;> rfl

/-- Only claims are recorded. -/
theorem claims_step {a : Action} (h : w.step H registry a = some w')
    (hne : ∀ r now missionId stepId, a ≠ .claim r now missionId stepId) : w'.claims = w.claims := by
  cases a with
  | create now m =>
    simp only [World.step] at h
    split_ifs at h <;> cases h <;> rfl
  | claim r now missionId stepId => exact absurd rfl (hne r now missionId stepId)
  | complete r now missionId stepId output note =>
    simp only [World.step] at h
    split at h <;> cases h <;> rfl
  | submit n now =>
    simp only [World.step, Option.bind_eq_bind, Option.bind_eq_some_iff] at h
    obtain ⟨c, -, h⟩ := h
    cases h
    exact claims_put _
  | handoff r now missionId stepId toAgentId note requireAlive =>
    cases h
    exact claims_put _
  | fail r now missionId stepId reason =>
    cases h
    exact claims_put _
  | block r now missionId stepId reason =>
    cases h
    exact claims_put _

/-- Only a claim makes a step active. -/
theorem Moves.active {a : Action} {s s' : MissionStep} (h : Moves w a s s')
    (hs : s'.status = .active) : ∃ r now missionId, a = .claim r now missionId s.id := by
  cases h with
  | claim _ _ _ _ _ _ => exact ⟨_, _, _, rfl⟩
  | @submit _ _ c _ _ _ _ hstatus _ _ =>
    rw [hs] at hstatus
    split_ifs at hstatus
  | handoff _ _ _ hstatus _ _ | fail hstatus _ _ | block hstatus _ _ =>
    rw [hs] at hstatus
    cases hstatus

theorem Held.step_claim (h : Held H w) {r : MissionRunner} {now missionId stepId : String}
    (hs : w.step H registry (.claim r now missionId stepId) = some w') : Held H w' := by
  refine ⟨h.filed.effect (step_effect h.filed hs), fun file m' k' s' hm' hk' hactive => ?_⟩
  obtain rfl | ⟨files, claimed, hc, rfl⟩ := Orchestration.step_claim hs
  · exact h.held file m' k' s' hm' hk' hactive
  obtain ⟨hchanged, -⟩ := tryClaim_changed h.filed hc
  cases hchanged with
  | @mk m m₁ s k hget hstep hid hsteps _ =>
    obtain ⟨hplace, hsk⟩ := getStep_eq_some.1 hstep
    rw [Dict.get_set] at hm'
    split_ifs at hm' with he
    · subst he
      cases hm'
      rw [hsteps, List.getElem?_set] at hk'
      have hplaces := placeOf_set hsk (show (s.claimedBy H now r.agentId _).id = s.id from rfl) hsteps
      split_ifs at hk' with hkk
      · -- the claimed step
        subst hkk
        cases hk'
        obtain rfl := id_of_getStep hstep
        exact ⟨(hplaces _).trans hplace, r.agentId, rfl, lastClaim_append_self _ _⟩
      · -- another step has another id
        obtain ⟨hplace', agent, hagent, hlast⟩ := h.held _ m k' s' hget hk' hactive
        refine ⟨(hplaces _).trans hplace', agent, hagent, ?_⟩
        rw [lastClaim_append_of_ne _ fun _ hid' => ?_, hlast]
        simp only at hid'
        rw [← hid', hplace] at hplace'
        exact hkk (Option.some.inj hplace')
    · obtain ⟨hplace', agent, hagent, hlast⟩ := h.held _ m' k' s' hm' hk' hactive
      exact ⟨hplace', agent, hagent,
        (lastClaim_append_of_ne _ fun hf => absurd hf.symm he).trans hlast⟩

theorem Held.step (h : Held H w) {a : Action} (hs : w.step H registry a = some w') : Held H w' := by
  by_cases hne : ∀ r now missionId stepId, a ≠ .claim r now missionId stepId
  · have heff := step_effect h.filed hs
    refine ⟨h.filed.effect heff, fun file m' k' s' hm' hk' hactive => ?_⟩
    rw [claims_step hs hne]
    cases hm : w.files.get file with
    | none =>
      have hnew := heff.created hm hm'
      rw [List.all_eq_true] at hnew
      have := hnew s' (List.mem_of_getElem? hk')
      simp [MissionStep.isNew, hactive] at this
    | some m =>
      obtain ⟨m₁, hm₁, -, -, hplaces, hsteps⟩ := heff.moves hm
      rw [hm'] at hm₁
      cases hm₁
      rw [hplaces]
      rcases hsteps with hsteps | ⟨k, s, t, hstep, hid, hsteps, hmove⟩
      · rw [hsteps] at hk'
        exact h.held file m k' s' hm hk' hactive
      · rw [hsteps, List.getElem?_set] at hk'
        split_ifs at hk' with hkk
        · cases hk'
          obtain ⟨r, now, missionId, rfl⟩ := hmove.active hactive
          exact absurd rfl (hne _ _ _ _)
        · exact h.held file m k' s' hm hk' hactive
  · push Not at hne
    obtain ⟨r, now, missionId, stepId, rfl⟩ := hne
    exact h.step_claim hs

theorem held_of_reach {cond : World → Action → Prop}
    (h : Reach (fun w : World => w.step H registry) cond {} w) : Held H w :=
  Reach.invariant (P := Held H) h .start fun _ _ _ hw _ hs => hw.step hs

/-- A claim comes back with the step exactly where the checks pass. -/
theorem claim_accepted {files : Missions} {r : MissionRunner} {now missionId stepId : String}
    {m : Mission} {s : MissionStep} {k : ℕ} (hm : getMission H files missionId = some m)
    (hs : m.getStep stepId = some (s, k)) :
    (∃ files' s', r.claim H files now missionId stepId = .ok (files', some s')) ↔
      s.isClaimable = true ∧ (s.holder = "" ∨ s.holder = r.agentId) ∧
        hasCapabilities s.requiredCapabilities (some r.capabilities) = true := by
  refine Iff.trans ?_ (checkClaim_eq_ok : checkClaim H stepId r.agentId _ s = .ok () ↔ _)
  constructor
  · rintro ⟨files', s', h⟩
    unfold MissionRunner.claim at h
    cases hc : tryClaim H files now missionId stepId r.agentId (some r.capabilities) with
    | error e =>
      rw [hc] at h
      cases e <;> cases h
    | ok p =>
      obtain ⟨m₁, s₁, k₁, hm₁, hs₁, hcheck, -⟩ := tryClaim_eq_ok hc
      rw [hm] at hm₁
      cases hm₁
      rw [hs] at hs₁
      cases hs₁
      exact hcheck
  · intro hcheck
    exact ⟨_, _, by rw [MissionRunner.claim, tryClaim_of hm hs hcheck]⟩

/-- Two steps, the second after the first. -/
def sampleMission : Mission where
  id := "m1"
  steps := [{ id := "design" }, { id := "build", dependsOn := ["design"] }]

def alice : MissionRunner where
  agentId := "alice"

def bob : MissionRunner where
  agentId := "bob"

/-- Bob claims the second step first. -/
def claimEarly : List Action := [.create "t0" sampleMission, .claim bob "t1" "m1" "build"]

/-- Alice completes the step that Bob has. -/
def completeOther : List Action :=
  claimEarly ++ [.complete alice "t2" "m1" "build" none "", .submit 0 "t3"]

/-- The statuses and assignees of the steps after some calls. -/
def stepsAfter (actions : List Action) : Option (List (StepStatus × Option String)) := do
  let w ← run (fun w : World => w.step checksumHost []) {} actions
  let m ← getMission checksumHost w.files "m1"
  return m.steps.map fun s => (s.status, s.assignee)

end NthDao.Orchestration
