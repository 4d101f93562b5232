/-
  Who changes a team (`nth_dao/membership.py`).

  * `Team.Sound`: admins are members, and have the role of an owner or an admin;
  * `Op.Lawful`: what is asked of a call, since the code does not check it: the last admin
    stays, an owner is deposed by an owner alone, a team is set up once, and an agent that
    was removed comes back through an admin;
  * `Authorised`: what a call does to admins, policy, roles and members;
  * `authority_preserved`: lawful calls keep the team sound and are authorised.
-/
import NthDao.Membership.Operations
import NthDao.Reach

namespace NthDao.Membership

open Py Trust Team

/-! ## Roles -/

/-- The views of a team agree. -/
structure Team.Sound (t : Team) : Prop where
  adminsOnce : t.adminIds.Nodup
  membersOnce : t.memberIds.Nodup
  members : ∀ x ∈ t.adminIds, x ∈ t.memberIds
  agree : ∀ a, .str a ∈ t.adminIds ↔
    Json.lookup t.roles a = some (.str "owner") ∨ Json.lookup t.roles a = some (.str "admin")
  known : ∀ a v, Json.lookup t.roles a = some v → .str a ∈ t.memberIds

variable {t t' : Team} {agentId actorId : String}

theorem roleFor_eq_owner_iff :
    t.roleFor agentId = .owner ↔ Json.lookup t.roles agentId = some (.str "owner") := by
  have hvalue : ∀ s, TeamRole.ofValue s = some .owner ↔ s = "owner" := fun s =>
    ofValue_eq_some.trans eq_comm
  rw [roleFor, Json.get]
  cases hl : Json.lookup t.roles agentId with
  | none =>
    simp only [Option.getD_none, Json.asStr, Option.bind_none]
    split_ifs <;> simp
  | some v =>
    cases v with
    | str s =>
      simp only [Option.getD_some, Json.asStr, Option.bind_some, Option.some.injEq, Json.str.injEq]
      rw [← hvalue s]
      cases hr : TeamRole.ofValue s with
      | some r => simp
      | none =>
        simp only [reduceCtorEq, iff_false]
        split_ifs <;> simp
    | _ =>
      simp only [Option.getD_some, Json.asStr, Option.bind_none, Option.some.injEq, reduceCtorEq,
        iff_false]
      split_ifs <;> simp

theorem requireAdmin_eq_ok {allowSystem : Bool} {u : Unit} :
    t.requireAdmin actorId allowSystem = .ok u ↔
      (allowSystem = true ∧ actorId = "system") ∨ t.adminIds = [] ∨
        actorId ≠ "" ∧ .str actorId ∈ t.adminIds := by
  unfold requireAdmin
  by_cases hsystem : allowSystem = true ∧ actorId = "system"
  · rw [if_pos (by simp [hsystem])]
    simp [hsystem]
  · rw [if_neg (by simpa using hsystem)]
    by_cases hempty : t.adminIds = []
    · simp [hempty]
    · rw [if_neg (by simpa using hempty)]
      simp only [require_bind_eq_ok, require_eq_ok, bne_iff_ne, List.contains_iff_mem, hsystem,
        hempty, false_or]

theorem isAdmin_of_requireAdmin {u : Unit} (h : t.requireAdmin actorId false = .ok u)
    (hne : t.adminIds ≠ []) : .str actorId ∈ t.adminIds := by
  rcases requireAdmin_eq_ok.1 h with ⟨h, -⟩ | h | h
  · cases h
  · exact absurd h hne
  · exact h.2

theorem mem_addId {xs : List Json} {x : Json} :
    x ∈ addId xs agentId ↔ x ∈ xs ∨ x = .str agentId := by
  unfold addId
  split_ifs with h
  · constructor
    · exact Or.inl
    · rintro (h' | rfl)
      exacts [h', h]
  · simp

theorem nodup_addId {xs : List Json} (h : xs.Nodup) : (addId xs agentId).Nodup := by
  unfold addId
  split_ifs with hmem
  · exact h
  · exact h.append (List.nodup_singleton _) (by simpa using hmem)

theorem lookup_setDefault {roles : Fields} {role : TeamRole} (a : String) :
    Json.lookup (setDefault roles agentId role) a =
      if a = agentId then (Json.lookup roles a).or (some (.str role.value))
      else Json.lookup roles a := by
  unfold setDefault
  by_cases ha : a = agentId
  · subst ha
    cases hl : Json.lookup roles a with
    | none => simp [Json.lookup_insert]
    | some v => simp [hl]
  · rw [if_neg ha]
    split_ifs
    · rfl
    · rw [Json.lookup_insert, if_neg (Ne.symm ha)]

theorem lookup_popRole {roles : Fields} (a : String) :
    Json.lookup (popRole roles agentId) a = if a = agentId then none else Json.lookup roles a := by
  rw [popRole, Json.lookup_filter_key roles (· != agentId)]
  by_cases ha : a = agentId <;> simp [ha]

/-! ## What operations keep -/

theorem Team.sound_empty : ({} : Team).Sound where
  adminsOnce := List.nodup_nil
  membersOnce := List.nodup_nil
  members := fun _ h => by cases h
  agree := by
    intro a
    constructor
    · intro h
      cases h
    · rintro (h | h) <;> cases h
  known := fun _ _ h => by cases h

theorem Team.Sound.join (h : t.Sound) (agentId : String) : (t.join agentId).Sound where
  adminsOnce := h.adminsOnce
  membersOnce := nodup_addId h.membersOnce
  members := fun x hx => mem_addId.2 (Or.inl (h.members x hx))
  agree := by
    intro a
    change _ ↔ Json.lookup (setDefault t.roles agentId .member) a = _ ∨
      Json.lookup (setDefault t.roles agentId .member) a = _
    rw [lookup_setDefault]
    change .str a ∈ t.adminIds ↔ _
    split_ifs with ha
    · rw [h.agree a]
      cases hl : Json.lookup t.roles a with
      | none => simp [TeamRole.value]
      | some v => simp
    · exact h.agree a
  known := by
    intro a v hl
    change Json.lookup (setDefault t.roles agentId .member) a = some v at hl
    rw [lookup_setDefault] at hl
    split_ifs at hl with ha
    · exact mem_addId.2 (Or.inr (by rw [ha]))
    · exact mem_addId.2 (Or.inl (h.known a v hl))

/-- An agent with the role of an admin or owner joins the admins. -/
theorem Team.Sound.promote (h : t.Sound) {r : TeamRole} (hr : r = .owner ∨ r = .admin) :
    ({ t with
        adminIds := addId t.adminIds agentId
        memberIds := addId t.memberIds agentId
        roles := Json.insert t.roles agentId (.str r.value) } : Team).Sound where
  adminsOnce := nodup_addId h.adminsOnce
  membersOnce := nodup_addId h.membersOnce
  members := by
    intro x hx
    rcases mem_addId.1 hx with hx | rfl
    · exact mem_addId.2 (Or.inl (h.members x hx))
    · exact mem_addId.2 (Or.inr rfl)
  agree := by
    intro a
    simp only [Json.lookup_insert, mem_addId]
    by_cases ha : agentId = a
    · subst ha
      rcases hr with rfl | rfl <;> simp [TeamRole.value]
    · rw [if_neg ha, h.agree a]
      simp [Ne.symm ha]
  known := by
    intro a v hl
    simp only [Json.lookup_insert] at hl
    split_ifs at hl with ha
    · exact mem_addId.2 (Or.inr (by rw [ha]))
    · exact mem_addId.2 (Or.inl (h.known a v hl))

/-- An agent leaves the admins with a role that is neither. -/
theorem Team.Sound.demote (h : t.Sound) {r : TeamRole} (hr : r = .member ∨ r = .guest)
    (hmem : .str agentId ∈ t.memberIds) :
    ({ t with
        adminIds := t.adminIds.erase (.str agentId)
        roles := Json.insert t.roles agentId (.str r.value) } : Team).Sound where
  adminsOnce := h.adminsOnce.erase _
  membersOnce := h.membersOnce
  members := fun x hx => h.members x (List.mem_of_mem_erase hx)
  agree := by
    intro a
    simp only [Json.lookup_insert, h.adminsOnce.mem_erase_iff, Json.str.injEq, ne_eq]
    by_cases ha : agentId = a
    · subst ha
      rcases hr with rfl | rfl <;> simp [TeamRole.value]
    · rw [if_neg ha, h.agree a]
      simp [Ne.symm ha]
  known := by
    intro a v hl
    simp only [Json.lookup_insert] at hl
    split_ifs at hl with ha
    · exact ha ▸ hmem
    · exact h.known a v hl

/-- An agent leaves the team. -/
theorem Team.Sound.leave (h : t.Sound) :
    ({ t with
        memberIds := t.memberIds.erase (.str agentId)
        adminIds := t.adminIds.erase (.str agentId)
        roles := popRole t.roles agentId } : Team).Sound where
  adminsOnce := h.adminsOnce.erase _
  membersOnce := h.membersOnce.erase _
  members := by
    intro x hx
    rw [h.adminsOnce.mem_erase_iff] at hx
    exact h.membersOnce.mem_erase_iff.2 ⟨hx.1, h.members x hx.2⟩
  agree := by
    intro a
    simp only [lookup_popRole, h.adminsOnce.mem_erase_iff, Json.str.injEq, ne_eq]
    by_cases ha : a = agentId
    · simp [ha]
    · rw [if_neg ha, h.agree a]
      simp [ha]
  known := by
    intro a v hl
    simp only [lookup_popRole] at hl
    split_ifs at hl with ha
    refine h.membersOnce.mem_erase_iff.2 ⟨?_, h.known a v hl⟩
    intro he
    exact ha (Json.str.inj he)

theorem initAdmin_of_mem (h : t.Sound) (role : TeamRole) (hmem : .str agentId ∈ t.adminIds) :
    t.initAdmin role agentId = t := by
  have hrole : (Json.lookup t.roles agentId).isSome = true := by
    rcases (h.agree agentId).1 hmem with hl | hl <;> rw [hl] <;> rfl
  rw [initAdmin, addId, addId, setDefault, if_pos hmem, if_pos (h.members _ hmem), if_pos hrole]

theorem initAdmin_of_new (role : TeamRole) (hl : Json.lookup t.roles agentId = none) :
    t.initAdmin role agentId = { t with
      adminIds := addId t.adminIds agentId
      memberIds := addId t.memberIds agentId
      roles := Json.insert t.roles agentId (.str role.value) } := by
  rw [initAdmin, setDefault, hl, if_neg (by simp)]

/-- The admins of `init_team` are new, or are admins. -/
theorem Team.Sound.initAdmins (h : t.Sound) {adminIds : List String}
    (hnew : ∀ a ∈ adminIds, Json.lookup t.roles a = none ∨ .str a ∈ t.adminIds) :
    (t.initAdmins adminIds).Sound := by
  induction adminIds generalizing t with
  | nil => exact h
  | cons b adminIds ih =>
    obtain ⟨hb, hrest⟩ := List.forall_mem_cons.1 hnew
    rw [Team.initAdmins]
    by_cases hmem : .str b ∈ t.adminIds
    · rw [initAdmin_of_mem h _ hmem]
      exact ih h hrest
    · have hl := hb.resolve_right hmem
      rw [initAdmin_of_new _ hl]
      refine ih (h.promote ?_) fun a ha => ?_
      · split_ifs
        exacts [Or.inl rfl, Or.inr rfl]
      · simp only [Json.lookup_insert, mem_addId]
        by_cases hab : b = a
        · exact Or.inr (Or.inr (by rw [hab]))
        · rw [if_neg hab]
          exact (hrest a ha).imp id Or.inl

/-- Admins alone are named again. -/
theorem initAdmins_of_mem (h : t.Sound) {adminIds : List String}
    (hmem : ∀ a ∈ adminIds, .str a ∈ t.adminIds) : t.initAdmins adminIds = t := by
  induction adminIds with
  | nil => rfl
  | cons b adminIds ih =>
    obtain ⟨hb, hrest⟩ := List.forall_mem_cons.1 hmem
    rw [Team.initAdmins, initAdmin_of_mem h _ hb, ih hrest]

theorem mem_of_mem_initAdmins {adminIds : List String} {a : String}
    (h : .str a ∈ (t.initAdmins adminIds).memberIds) : .str a ∈ t.memberIds ∨ a ∈ adminIds := by
  induction adminIds generalizing t with
  | nil => exact Or.inl h
  | cons b adminIds ih =>
    rcases ih h with h | h
    · rcases mem_addId.1 h with h | h
      · exact Or.inl h
      · exact Or.inr (Json.str.inj h ▸ List.mem_cons_self)
    · exact Or.inr (List.mem_cons_of_mem _ h)

/-! ## Authorised calls -/

/-- The agent in whose name a call is made, if it names one. -/
def Op.actor : Op → Option String
  | .setPolicy _ _ actorId => some actorId
  | .addAdmin _ actorId => some actorId
  | .removeAdmin _ actorId => some actorId
  | .setRole _ _ actorId => some actorId
  | .approve _ reviewedBy _ => some reviewedBy
  | .reject _ reviewedBy _ => some reviewedBy
  | .invite _ _ _ invitedBy _ => some invitedBy
  | .removeMember _ actorId => some actorId
  | .initTeam .. | .ensureMember .. | .requestJoin .. => none

/-- The agent that a call admits by name. -/
def Op.admits : Op → Option String
  | .addAdmin agentId _ => some agentId
  | .approve agentId _ _ => some agentId
  | .invite agentId _ _ _ _ => some agentId
  | _ => none

/-- The policy changes, an admin comes or goes, the role of an agent that has one changes, or a
    member goes. -/
def Changes (t t' : Team) : Prop :=
  (t'.joinPolicy ≠ t.joinPolicy ∨ t'.joinToken ≠ t.joinToken) ∨ t'.adminIds ≠ t.adminIds ∨
    (∃ a v, Json.lookup t.roles a = some v ∧ Json.lookup t'.roles a ≠ some v) ∨
    ∃ x ∈ t.memberIds, x ∉ t'.memberIds

/-- A call keeps an admin; an admin changes the team, an owner deposes an owner, and an admin
    readmits by name an agent that was removed. -/
structure Authorised (t t' : Team) (op : Op) (removed : List String) : Prop where
  keeps : t.adminIds ≠ [] → t'.adminIds ≠ []
  byAdmin : t.adminIds ≠ [] → Changes t t' →
    ∃ actorId, op.actor = some actorId ∧ .str actorId ∈ t.adminIds
  byOwner : ∀ a, t.roleFor a = .owner → t'.roleFor a ≠ .owner →
    ∃ actorId, op.actor = some actorId ∧ t.roleFor actorId = .owner
  readmits : ∀ a ∈ removed, .str a ∈ t'.memberIds → op.admits = some a ∧
    ∃ actorId, op.actor = some actorId ∧ .str actorId ∈ t.adminIds

variable (H : Host)

/-- What the code leaves to its callers: the last admin stays, an owner is deposed by an owner, a
    team with admins is not set up again, roles and admins are not parted, and nobody lets an
    agent in again that was removed but an admin. -/
def Op.Lawful (reqs : Requests) (removed : List String) (t : Team) : Op → Prop
  | .initTeam _ policy joinToken adminIds _ =>
    if t.adminIds = [] then ∀ a ∈ adminIds, Json.lookup t.roles a = none ∧ a ∉ removed
    else policy = t.joinPolicy.value ∧ .str joinToken = t.joinToken ∧
      ∀ a ∈ adminIds, .str a ∈ t.adminIds
  | .setPolicy .. => True
  | .addAdmin agentId actorId =>
    (t.roleFor agentId = .owner → t.roleFor actorId = .owner) ∧
      (agentId ∈ removed → .str actorId ∈ t.adminIds)
  | .removeAdmin agentId _ => t.roleFor agentId ≠ .owner ∧ t.adminIds ≠ [.str agentId]
  | .setRole agentId role actorId =>
    (role ≠ "owner" → role ≠ "admin" → t.adminIds ≠ [.str agentId]) ∧
      (t.roleFor agentId = .owner → role ≠ "owner" → t.roleFor actorId = .owner)
  | .ensureMember agentId token =>
    agentId ∈ removed → ∀ reason, canJoin H reqs t agentId token ≠ .ok (true, reason)
  | .requestJoin agentId _ token =>
    agentId ∈ removed → t.joinPolicy ≠ .open ∧ (t.joinPolicy = .token → tokenValid t token ≠ .ok true)
  | .approve agentId reviewedBy _ =>
    agentId ∈ removed → t.requireAdmin reviewedBy true = .ok () → .str reviewedBy ∈ t.adminIds
  | .reject .. => True
  | .invite agentId _ _ invitedBy _ =>
    agentId ∈ removed → t.requireAdmin invitedBy false = .ok () → .str invitedBy ∈ t.adminIds
  | .removeMember agentId actorId =>
    t.adminIds ≠ [.str agentId] ∧ (t.roleFor agentId = .owner → t.roleFor actorId = .owner)

variable {H} {reqs reqs' : Requests} {f : Fresh} {removed : List String} {op : Op}

/-- A call that changes nothing is authorised. -/
theorem Authorised.of_eq (hrem : ∀ a ∈ removed, .str a ∉ t.memberIds) :
    Authorised t t op removed where
  keeps := id
  byAdmin := by
    rintro - (h | h | ⟨a, v, h, h'⟩ | ⟨x, h, h'⟩)
    · rcases h with h | h <;> exact absurd rfl h
    · exact absurd rfl h
    · exact absurd h h'
    · exact absurd h h'
  byOwner := fun _ h h' => absurd h h'
  readmits := fun a ha hmem => absurd hmem (hrem a ha)

/-- A member that joins. -/
theorem Authorised.join (hrem : ∀ a ∈ removed, .str a ∉ t.memberIds)
    (hdecided : agentId ∈ removed → op.admits = some agentId ∧
      ∃ actorId, op.actor = some actorId ∧ .str actorId ∈ t.adminIds) :
    Authorised t (t.join agentId) op removed where
  keeps := id
  byAdmin := by
    rintro - (h | h | ⟨a, v, h, h'⟩ | ⟨x, h, h'⟩)
    · rcases h with h | h <;> exact absurd rfl h
    · exact absurd rfl h
    · refine absurd ?_ h'
      change Json.lookup (setDefault t.roles agentId .member) a = some v
      rw [lookup_setDefault, h]
      split_ifs <;> rfl
    · exact absurd (mem_addId.2 (Or.inl h)) h'
  byOwner := by
    intro a h h'
    refine absurd ?_ h'
    rw [roleFor_eq_owner_iff] at h ⊢
    change Json.lookup (setDefault t.roles agentId .member) a = _
    rw [lookup_setDefault, h]
    split_ifs <;> rfl
  readmits := by
    intro a ha hmem
    rcases mem_addId.1 hmem with hmem | heq
    · exact absurd hmem (hrem a ha)
    · cases heq
      exact hdecided ha

theorem owner_of_lookup {a : String} (h : t.roleFor a = .owner)
    (hl : Json.lookup t'.roles a = Json.lookup t.roles a) : t'.roleFor a = .owner := by
  rw [roleFor_eq_owner_iff] at h ⊢
  rw [hl, h]

/-- A change by an admin, in the name of one. -/
theorem Authorised.of_admin {u : Unit} (hop : op.actor = some actorId)
    (hadmin : t.requireAdmin actorId false = .ok u) (hkeeps : t.adminIds ≠ [] → t'.adminIds ≠ [])
    (howner : ∀ a, t.roleFor a = .owner → t'.roleFor a ≠ .owner → t.roleFor actorId = .owner)
    (hreadmits : ∀ a ∈ removed, .str a ∈ t'.memberIds → op.admits = some a ∧
      .str actorId ∈ t.adminIds) : Authorised t t' op removed where
  keeps := hkeeps
  byAdmin := fun hne _ => ⟨actorId, hop, isAdmin_of_requireAdmin hadmin hne⟩
  byOwner := fun a h h' => ⟨actorId, hop, howner a h h'⟩
  readmits := by
    intro a ha hmem
    obtain ⟨h, h'⟩ := hreadmits a ha hmem
    exact ⟨h, actorId, hop, h'⟩

section

variable (hs : t.Sound) (hrem : ∀ a ∈ removed, .str a ∉ t.memberIds)
include hs hrem

theorem init_authorised {teamName policy joinToken : String} {adminIds : List String}
    {metadata : Fields} (h : t.init policy joinToken adminIds = .ok t')
    (hlaw : (Op.initTeam teamName policy joinToken adminIds metadata).Lawful H reqs removed t) :
    t'.Sound ∧ Authorised t t' (.initTeam teamName policy joinToken adminIds metadata) removed := by
  simp only [Team.init, bind_eq_ok, pure_eq_ok] at h
  obtain ⟨joinPolicy, hpolicy, rfl⟩ := h
  have hset : ({ t with joinPolicy := joinPolicy, joinToken := .str joinToken } : Team).Sound :=
    ⟨hs.adminsOnce, hs.membersOnce, hs.members, hs.agree, hs.known⟩
  rw [Op.Lawful] at hlaw
  split_ifs at hlaw with hempty
  · refine ⟨hset.initAdmins fun a ha => Or.inl (hlaw a ha).1, ?_⟩
    refine ⟨fun hne => absurd hempty hne, fun hne => absurd hempty hne, ?_, ?_⟩
    · intro a h
      have hadmin := (hs.agree a).2 (Or.inl (roleFor_eq_owner_iff.1 h))
      rw [hempty] at hadmin
      cases hadmin
    · intro a ha hmem
      rcases mem_of_mem_initAdmins hmem with hmem | hmem
      · exact absurd hmem (hrem a ha)
      · exact absurd ha (hlaw a hmem).2
  · obtain ⟨rfl, htoken, hmem⟩ := hlaw
    rw [normalizePolicy_value] at hpolicy
    cases hpolicy
    have hsame : initAdmins adminIds
        { t with joinPolicy := t.joinPolicy, joinToken := .str joinToken } = t := by
      rw [initAdmins_of_mem hset hmem, htoken]
    rw [hsame]
    exact ⟨hs, Authorised.of_eq hrem⟩

theorem setPolicy_authorised {policy joinToken : String}
    (h : t.setPolicy policy joinToken actorId = .ok t') :
    t'.Sound ∧ Authorised t t' (.setPolicy policy joinToken actorId) removed := by
  simp only [Team.setPolicy, bind_eq_ok, pure_eq_ok] at h
  obtain ⟨_, hadmin, joinPolicy, -, rfl⟩ := h
  refine ⟨⟨hs.adminsOnce, hs.membersOnce, hs.members, hs.agree, hs.known⟩, ?_⟩
  exact .of_admin rfl hadmin id (fun a h h' => absurd (owner_of_lookup h rfl) h')
    fun a ha hmem => absurd hmem (hrem a ha)

theorem addAdmin_authorised (h : t.addAdmin agentId actorId = .ok t')
    (hlaw : (Op.addAdmin agentId actorId).Lawful H reqs removed t) :
    t'.Sound ∧ Authorised t t' (.addAdmin agentId actorId) removed := by
  simp only [Team.addAdmin, bind_eq_ok, pure_eq_ok] at h
  obtain ⟨_, hadmin, rfl⟩ := h
  refine ⟨hs.promote (Or.inr rfl), .of_admin rfl hadmin ?_ ?_ ?_⟩
  · intro _ hnil
    have : Json.str agentId ∈ addId t.adminIds agentId := mem_addId.2 (Or.inr rfl)
    rw [show addId t.adminIds agentId = [] from hnil] at this
    cases this
  · intro a h h'
    by_cases ha : agentId = a
    · exact hlaw.1 (ha ▸ h)
    · refine absurd (owner_of_lookup h ?_) h'
      exact (Json.lookup_insert ..).trans (if_neg ha)
  · intro a ha hmem
    rcases mem_addId.1 hmem with hmem | heq
    · exact absurd hmem (hrem a ha)
    · cases heq
      exact ⟨rfl, hlaw.2 ha⟩

theorem removeAdmin_authorised (h : t.removeAdmin agentId actorId = .ok t')
    (hlaw : (Op.removeAdmin agentId actorId).Lawful H reqs removed t) :
    t'.Sound ∧ Authorised t t' (.removeAdmin agentId actorId) removed := by
  simp only [Team.removeAdmin, bind_eq_ok, pure_eq_ok] at h
  obtain ⟨_, hadmin, rfl⟩ := h
  have hkeeps : t.adminIds ≠ [] → t.adminIds.erase (.str agentId) ≠ [] := by
    intro hne hnil
    rcases List.erase_eq_nil_iff.1 hnil with h | h
    exacts [hne h, hlaw.2 h]
  have howner : Json.lookup t.roles agentId ≠ some (.str "owner") := fun h =>
    hlaw.1 (roleFor_eq_owner_iff.2 h)
  by_cases hl : Json.lookup t.roles agentId = some (.str TeamRole.admin.value)
  · simp only [if_pos hl]
    refine ⟨hs.demote (Or.inl rfl) (hs.known _ _ hl), .of_admin rfl hadmin hkeeps ?_
      fun a ha hmem => absurd hmem (hrem a ha)⟩
    intro a h h'
    by_cases ha : agentId = a
    · subst ha
      exact absurd (roleFor_eq_owner_iff.1 h) howner
    · refine absurd (owner_of_lookup h ?_) h'
      exact (Json.lookup_insert ..).trans (if_neg ha)
  · -- an agent that is no admin is erased from nothing
    have hmem : Json.str agentId ∉ t.adminIds := by
      rw [hs.agree]
      rintro (h | h)
      exacts [howner h, hl h]
    simp only [if_neg hl, List.erase_of_not_mem hmem]
    exact ⟨hs, Authorised.of_eq hrem⟩

theorem setRole_authorised {role : String} (h : t.setRole agentId role actorId = .ok t')
    (hlaw : (Op.setRole agentId role actorId).Lawful H reqs removed t) :
    t'.Sound ∧ Authorised t t' (.setRole agentId role actorId) removed := by
  simp only [Team.setRole, bind_eq_ok, require_eq_ok, pure_eq_ok] at h
  obtain ⟨_, hadmin, r, hr, _, hmember, _, -, rfl⟩ := h
  have hmem : Json.str agentId ∈ t.memberIds := by simpa using hmember
  have hvalue : r.value = role := by
    rw [normalizeRole, expect_eq_ok] at hr
    exact ofValue_eq_some.1 hr
  have howner : ∀ roles : Fields, roles = Json.insert t.roles agentId (.str r.value) →
      ∀ a, t.roleFor a = .owner →
        Json.lookup roles a ≠ some (.str "owner") → t.roleFor actorId = .owner := by
    rintro _ rfl a h h'
    rw [Json.lookup_insert] at h'
    by_cases ha : agentId = a
    · subst ha
      refine hlaw.2 h fun he => ?_
      rw [if_pos rfl, hvalue, he] at h'
      exact h' rfl
    · rw [if_neg ha] at h'
      exact absurd (roleFor_eq_owner_iff.1 h) h'
  by_cases hup : r = .owner ∨ r = .admin
  · have hmembers : addId t.memberIds agentId = t.memberIds := if_pos hmem
    have hsound := @Team.Sound.promote t agentId hs r hup
    rw [hmembers] at hsound
    simp only [if_pos hup]
    refine ⟨hsound, .of_admin rfl hadmin ?_ ?_ fun a ha hm => absurd hm (hrem a ha)⟩
    · intro _ hnil
      have : Json.str agentId ∈ addId t.adminIds agentId := mem_addId.2 (Or.inr rfl)
      rw [show addId t.adminIds agentId = [] from hnil] at this
      cases this
    · exact fun a h h' => howner _ rfl a h fun hl => h' (roleFor_eq_owner_iff.2 hl)
  · have hdown : r = .member ∨ r = .guest := by
      cases r <;> simp at hup ⊢
    simp only [if_neg hup]
    refine ⟨hs.demote hdown hmem, .of_admin rfl hadmin ?_ ?_ fun a ha hm => absurd hm (hrem a ha)⟩
    · intro hne hnil
      rcases List.erase_eq_nil_iff.1 hnil with h | h
      · exact hne h
      · refine hlaw.1 ?_ ?_ h
        all_goals
          rw [← hvalue]
          rcases hdown with rfl | rfl <;> simp [TeamRole.value]
    · exact fun a h h' => howner _ rfl a h fun hl => h' (roleFor_eq_owner_iff.2 hl)

theorem removeMember_authorised (h : t.removeMember agentId actorId = .ok t')
    (hlaw : (Op.removeMember agentId actorId).Lawful H reqs removed t) :
    t'.Sound ∧ Authorised t t' (.removeMember agentId actorId) removed := by
  simp only [Team.removeMember, bind_eq_ok, pure_eq_ok] at h
  obtain ⟨_, hadmin, rfl⟩ := h
  refine ⟨hs.leave, .of_admin rfl hadmin ?_ ?_ ?_⟩
  · intro hne hnil
    rcases List.erase_eq_nil_iff.1 hnil with h | h
    exacts [hne h, hlaw.1 h]
  · intro a h h'
    by_cases ha : a = agentId
    · exact hlaw.2 (ha ▸ h)
    · exact absurd (owner_of_lookup h ((lookup_popRole a).trans (if_neg ha))) h'
  · intro a ha hmem
    exact absurd (List.mem_of_mem_erase hmem) (hrem a ha)

end

/-! ## Calls that admit -/

theorem approve_eq_ok {reviewedBy note : String} {o : Option Team}
    (h : approve H reqs f agentId reviewedBy note t = .ok (reqs', o)) :
    o = some (t.join agentId) ∧ t.requireAdmin reviewedBy true = .ok () := by
  simp only [approve, reviewed, bind_eq_ok, expect_eq_ok, require_eq_ok, pure_eq_ok] at h
  obtain ⟨_, ⟨_, -, -, -, _, hadmin, -⟩, _, -, heq⟩ := h
  cases heq
  exact ⟨rfl, hadmin⟩

theorem requestJoin_eq_ok {profile : Profile} {token : String}
    (h : requestJoin H reqs f agentId profile token t = .ok (reqs', some t')) :
    t' = t.join agentId ∧
      (t.joinPolicy = .open ∨ t.joinPolicy = .token ∧ tokenValid t token = .ok true) := by
  unfold requestJoin at h
  split_ifs at h with hmem
  · cases h
  · simp only [bind_eq_ok, require_eq_ok] at h
    obtain ⟨_, -, _, -, _, htoken, _, -, _, -, h⟩ := h
    split at h
    · rename_i hopen
      exact ⟨Option.some.inj (approve_eq_ok h).1, Or.inl hopen⟩
    · rename_i heq
      simp only [checkToken, if_pos heq, bind_eq_ok, require_eq_ok] at htoken
      obtain ⟨_, hvalid, rfl⟩ := htoken
      exact ⟨Option.some.inj (approve_eq_ok h).1, Or.inr ⟨heq, hvalid⟩⟩
    · cases h

theorem invite_eq_ok {capabilities groups : List String} {invitedBy note : String} {o : Option Team}
    (h : invite H reqs f agentId capabilities groups invitedBy note t = .ok (reqs', o)) :
    o = some (t.join agentId) ∧ t.requireAdmin invitedBy false = .ok () := by
  simp only [invite, bind_eq_ok] at h
  obtain ⟨_, hadmin, existing, -, h⟩ := h
  refine ⟨?_, hadmin⟩
  split at h
  · exact (approve_eq_ok h).1
  · simp only [bind_eq_ok, pure_eq_ok] at h
    obtain ⟨_, -, heq⟩ := h
    cases heq
    rfl

theorem ensureMember_eq_ok {token : String}
    (h : ensureMember H reqs agentId token t = .ok (reqs', some t')) :
    t' = t.join agentId ∧ ∃ reason, canJoin H reqs t agentId token = .ok (true, reason) := by
  simp only [ensureMember, bind_eq_ok] at h
  obtain ⟨⟨allowed, reason⟩, hjoin, h⟩ := h
  cases allowed with
  | true =>
    cases h
    exact ⟨rfl, reason, hjoin⟩
  | false => cases h

theorem reject_eq_ok {reviewedBy note : String} {o : Option Team}
    (h : reject H reqs f agentId reviewedBy note t = .ok (reqs', o)) : o = none := by
  simp only [reject, bind_eq_ok, pure_eq_ok] at h
  obtain ⟨_, -, _, -, heq⟩ := h
  cases heq
  rfl

/-- **A lawful operation that saves keeps the team sound and is authorised.** -/
theorem onTeam_authorised (hs : t.Sound) (hrem : ∀ a ∈ removed, .str a ∉ t.memberIds)
    (hlaw : op.Lawful H reqs removed t) (h : op.onTeam H reqs f t = .ok (reqs', some t')) :
    t'.Sound ∧ Authorised t t' op removed := by
  have saved : ∀ {x : Except String Team},
      (do return (reqs, some (← x)) : Except String (Requests × Option Team)) =
        .ok (reqs', some t') → x = .ok t' := by
    intro x hx
    obtain ⟨_, hx, heq⟩ := bind_eq_ok.1 hx
    cases heq
    exact hx
  cases op with
  | initTeam teamName policy joinToken adminIds metadata =>
    exact init_authorised hs hrem (saved h) hlaw
  | setPolicy policy joinToken actorId => exact setPolicy_authorised hs hrem (saved h)
  | addAdmin agentId actorId => exact addAdmin_authorised hs hrem (saved h) hlaw
  | removeAdmin agentId actorId => exact removeAdmin_authorised hs hrem (saved h) hlaw
  | setRole agentId role actorId => exact setRole_authorised hs hrem (saved h) hlaw
  | removeMember agentId actorId => exact removeMember_authorised hs hrem (saved h) hlaw
  | ensureMember agentId token =>
    obtain ⟨rfl, reason, hjoin⟩ := ensureMember_eq_ok h
    exact ⟨hs.join agentId, .join hrem fun ha => absurd hjoin (hlaw ha reason)⟩
  | requestJoin agentId profile token =>
    obtain ⟨rfl, hauto⟩ := requestJoin_eq_ok h
    refine ⟨hs.join agentId, .join hrem fun ha => ?_⟩
    obtain ⟨hopen, htoken⟩ := hlaw ha
    rcases hauto with hauto | ⟨hauto, hvalid⟩
    · exact absurd hauto hopen
    · exact absurd hvalid (htoken hauto)
  | approve agentId reviewedBy note =>
    obtain ⟨heq, hadmin⟩ := approve_eq_ok h
    cases heq
    exact ⟨hs.join agentId, .join hrem fun ha => ⟨rfl, reviewedBy, rfl, hlaw ha hadmin⟩⟩
  | reject agentId reviewedBy note => cases reject_eq_ok h
  | invite agentId capabilities groups invitedBy note =>
    obtain ⟨heq, hadmin⟩ := invite_eq_ok h
    cases heq
    exact ⟨hs.join agentId, .join hrem fun ha => ⟨rfl, invitedBy, rfl, hlaw ha hadmin⟩⟩

/-! ## Runs -/

/-- What holds of a workspace in every run. -/
structure World.Sound (w : World) : Prop where
  stored : w.file = .ok none ∨ ∃ c : TeamConfig, w.file = .ok (some c.toDict)
  team : w.team.Sound
  removed : ∀ a ∈ w.removed, .str a ∉ w.team.memberIds

variable (H) in
/-- A lawful call. -/
def World.Lawful (w : World) (a : Call H) : Prop :=
  a.op.Lawful H w.requests w.removed w.team

theorem toTeam_saveConfig {manager : Option H.SecretKey} {now : String} {c c' : TeamConfig}
    (h : saveConfig H manager now c = .ok c') : c'.toTeam = c.toTeam := by
  cases manager with
  | none => cases h; rfl
  | some k =>
    simp only [saveConfig, bind_eq_ok, pure_eq_ok] at h
    obtain ⟨_, -, rfl⟩ := h
    rfl

theorem toTeam_label {c c' : TeamConfig} (h : op.label c = .ok c') : c'.toTeam = c.toTeam := by
  unfold Op.label at h
  split at h
  · split_ifs at h
    · cases h; rfl
    · split at h
      · cases h; rfl
      · cases h
  · cases h; rfl

theorem apply_eq_ok {c : TeamConfig} {o : Option TeamConfig}
    (h : op.apply H reqs f c = .ok (reqs', o)) :
    op.onTeam H reqs f c.toTeam = .ok (reqs', o.map TeamConfig.toTeam) := by
  simp only [Op.apply, bind_eq_ok, pure_eq_ok] at h
  obtain ⟨d, hlabel, ⟨_, t⟩, hteam, heq⟩ := h
  cases heq
  rw [← toTeam_label hlabel, hteam]
  cases t <;> rfl

theorem World.toTeam_load {w : World} (hw : w.file = .ok none ∨ ∃ c : TeamConfig, w.file = .ok (some c.toDict))
    {c : TeamConfig} (h : loadConfig H f w.file = .ok c) : c.toTeam = w.team := by
  obtain ⟨data, hfile, rfl, -⟩ := loadConfig_eq_ok.1 h
  rw [World.team, hfile]
  rcases hw with hw | ⟨c, hw⟩
  · cases hfile.symm.trans hw
    rfl
  · cases hfile.symm.trans hw
    simp only [configOf_toDict]

/-- What a call does: it saves nothing, or the team that its operation makes. -/
theorem World.step_cases {w w' : World} {a : Call H}
    (hw : w.file = .ok none ∨ ∃ c : TeamConfig, w.file = .ok (some c.toDict))
    (h : w.step H a = some w') :
    (w'.file = w.file ∧ w'.removed = w.removed) ∨
    ∃ (reqs' : Requests) (c : TeamConfig), w'.file = .ok (some c.toDict) ∧
      a.op.onTeam H w.requests a.fresh w.team = .ok (reqs', some c.toTeam) ∧
      w'.removed = removedBy w.removed a.op w.team c.toTeam := by
  unfold World.step at h
  split at h
  · cases h
    exact Or.inl ⟨rfl, rfl⟩
  · rename_i c hload
    split at h
    · cases h
      exact Or.inl ⟨rfl, rfl⟩
    · cases h
      exact Or.inl ⟨rfl, rfl⟩
    · rename_i reqs' d happly
      split at h
      · cases h
        exact Or.inl ⟨rfl, rfl⟩
      · rename_i e hsave
        cases h
        have hteam := apply_eq_ok happly
        rw [toTeam_load hw hload, Option.map_some, ← toTeam_saveConfig hsave] at hteam
        exact Or.inr ⟨reqs', e, rfl, hteam, by rw [toTeam_load hw hload]⟩

theorem World.team_of_file {w : World} {c : TeamConfig} (h : w.file = .ok (some c.toDict)) :
    w.team = c.toTeam := by
  rw [team, h]
  simp only [configOf_toDict]

theorem World.sound_start : ({} : World).Sound where
  stored := Or.inl rfl
  team := Team.sound_empty
  removed := List.forall_mem_nil _

/-- **A lawful call keeps the invariant and is authorised.** -/
theorem World.Sound.step {w w' : World} (hw : w.Sound) {a : Call H} (hlaw : w.Lawful H a)
    (h : w.step H a = some w') : w'.Sound ∧ Authorised w.team w'.team a.op w.removed := by
  rcases step_cases hw.stored h with ⟨hfile, hremoved⟩ | ⟨reqs', c, hfile, hteam, hremoved⟩
  · have hsame : w'.team = w.team := by rw [World.team, World.team, hfile]
    rw [hsame]
    exact ⟨⟨hfile ▸ hw.stored, hsame ▸ hw.team, hremoved ▸ hsame ▸ hw.removed⟩,
      Authorised.of_eq hw.removed⟩
  · obtain ⟨hsound, hauth⟩ := onTeam_authorised hw.team hw.removed hlaw hteam
    have hc := team_of_file hfile
    refine ⟨⟨Or.inr ⟨c, hfile⟩, hc ▸ hsound, ?_⟩, hc ▸ hauth⟩
    intro b hb
    rw [hremoved, removedBy, List.mem_filter, decide_eq_true_iff] at hb
    rw [hc]
    exact hb.2

/-- **Authority is preserved**, in every run whose calls are lawful: admins are members with the
    role of one, and every further lawful call keeps an admin, is an admin's if it changes the
    team, an owner's if it deposes one, and readmits nobody but by an admin's decision. -/
theorem authority_preserved {w : World}
    (h : Runs.Reach (World.step H) (World.Lawful H) {} w) :
    (∀ x ∈ w.team.adminIds, x ∈ w.team.memberIds) ∧
    (∀ a, .str a ∈ w.team.adminIds ↔ Json.lookup w.team.roles a = some (.str "owner") ∨
      Json.lookup w.team.roles a = some (.str "admin")) ∧
    ∀ (a : Call H) (w' : World), w.Lawful H a → w.step H a = some w' →
      Authorised w.team w'.team a.op w.removed := by
  have hw : w.Sound := h.invariant World.sound_start fun _ _ _ hw hlaw hs => (hw.step hlaw hs).1
  exact ⟨hw.team.members, hw.team.agree, fun a w' hlaw hs => (hw.step hlaw hs).2⟩

/-! ## Teams that lose their authority -/

/-- A call of a manager without a key. -/
def call (op : Op) : Call checksumHost := ⟨op, none, ⟨"t", "now"⟩⟩

/-- The agent `a` owns the team. -/
def founding (policy : String) : Op := .initTeam "Team" policy "" ["a"] []

/-- After the calls, the last one does what the test says. -/
def lastDoes (ops : List Op) (op : Op) (test : World → World → Bool) : Bool :=
  (Runs.run (World.step checksumHost) {} (ops.map call)).any fun w =>
    (w.step checksumHost (call op)).any (test w)

theorem exists_of_lastDoes {P : World → World → Prop} (ops : List Op) (op : Op)
    (test : World → World → Bool) (h : lastDoes ops op test = true)
    (hP : ∀ w w', test w w' = true → P w w') : ∃ w w' : World,
      Runs.Reach (World.step checksumHost) (fun _ _ => True) {} w ∧
      w.step checksumHost (call op) = some w' ∧ P w w' := by
  rw [lastDoes, Option.any_eq_true] at h
  obtain ⟨w, hw, h⟩ := h
  obtain ⟨w', hw', h⟩ := (Option.any_eq_true _ _).1 h
  exact ⟨w, w', Runs.reach_of_run .start hw fun _ _ _ => trivial, hw', hP w w' h⟩

/-- A team that is set up. -/
theorem authority_preserved_founding : ∃ w : World,
    Runs.Reach (World.step checksumHost) (World.Lawful checksumHost) {} w ∧
    w.team.adminIds = [.str "a"] ∧ ∀ x ∈ w.team.adminIds, x ∈ w.team.memberIds := by
  have hlaw : ({} : World).Lawful checksumHost (call (founding "open")) := by
    change ∀ a ∈ ["a"], Json.lookup [] a = none ∧ a ∉ []
    exact fun a _ => ⟨rfl, List.not_mem_nil⟩
  have hreach : Runs.Reach (World.step checksumHost) (World.Lawful checksumHost) {} _ :=
    Runs.Reach.start.step hlaw rfl
  exact ⟨_, hreach, by decide, (authority_preserved hreach).1⟩

/-- **Authority is lost**: the last admin leaves, an admin deposes the owner, an agent that was
    removed comes back on its old request, and anybody sets up a team again. -/
theorem authority_lost :
    (∃ w w' : World, Runs.Reach (World.step checksumHost) (fun _ _ => True) {} w ∧
      w.step checksumHost (call (.removeAdmin "a" "a")) = some w' ∧
      w.team.adminIds ≠ [] ∧ w'.team.adminIds = []) ∧
    (∃ w w' : World, Runs.Reach (World.step checksumHost) (fun _ _ => True) {} w ∧
      w.step checksumHost (call (.addAdmin "a" "b")) = some w' ∧
      w.team.roleFor "a" = .owner ∧ w.team.roleFor "b" = .admin ∧ w'.team.roleFor "a" = .admin) ∧
    (∃ w w' : World, Runs.Reach (World.step checksumHost) (fun _ _ => True) {} w ∧
      w.step checksumHost (call (.ensureMember "g" "")) = some w' ∧
      w.team.joinPolicy = .approval ∧ "g" ∈ w.removed ∧ .str "g" ∈ w'.team.memberIds) ∧
    ∃ w w' : World, Runs.Reach (World.step checksumHost) (fun _ _ => True) {} w ∧
      w.step checksumHost (call (.initTeam "Team" "open" "" ["x"] [])) = some w' ∧
      w.team.adminIds = [.str "a"] ∧ w.team.joinPolicy = .approval ∧
      .str "x" ∈ w'.team.adminIds ∧ w'.team.joinPolicy = .open := by
  refine ⟨?_, ?_, ?_, ?_⟩
  · refine exists_of_lastDoes [founding "open"] _
      (fun w w' => w.team.adminIds ≠ [] ∧ w'.team.adminIds = []) (by decide) ?_
    exact fun w w' => of_decide_eq_true
  · refine exists_of_lastDoes [founding "open", .addAdmin "b" "a"] _
      (fun w w' => w.team.roleFor "a" = .owner ∧ w.team.roleFor "b" = .admin ∧
        w'.team.roleFor "a" = .admin) (by decide) ?_
    exact fun w w' => of_decide_eq_true
  · refine exists_of_lastDoes [founding "approval", .requestJoin "g" {} "", .approve "g" "a" "",
      .removeMember "g" "a"] _ (fun w w' => w.team.joinPolicy = .approval ∧ "g" ∈ w.removed ∧
        .str "g" ∈ w'.team.memberIds) (by decide) ?_
    exact fun w w' => of_decide_eq_true
  · refine exists_of_lastDoes [founding "approval"] _
      (fun w w' => w.team.adminIds = [.str "a"] ∧ w.team.joinPolicy = .approval ∧
        .str "x" ∈ w'.team.adminIds ∧ w'.team.joinPolicy = .open) (by decide) ?_
    exact fun w w' => of_decide_eq_true

end NthDao.Membership
