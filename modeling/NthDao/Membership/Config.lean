/-
  Team configurations and join requests (`nth_dao/membership.py`).

  * `TeamConfig`, read by `fromDict` from any JSON value and written by `toDict`;
    `fromDict_toDict`: what is written is read back;
  * `loadConfig` and `saveConfig`, with the signature of the owner;
  * `Team`: what the operations of a manager read and change, and the operations that change
    nothing else.

  The admins and members are what `list` makes of the value in the file, so that they can be
  values of any type; an operation adds texts.
-/
import NthDao.Trust.Endorsement

namespace NthDao.Membership

open Py Trust

/-! ## Policies and roles -/

/-- `JoinPolicy`. -/
inductive JoinPolicy where
  | «open»
  | approval
  | inviteOnly
  | token
  deriving DecidableEq

def JoinPolicy.value : JoinPolicy → String
  | .open => "open"
  | .approval => "approval"
  | .inviteOnly => "invite_only"
  | .token => "token"

/-- `TeamRole`. -/
inductive TeamRole where
  | owner
  | admin
  | member
  | guest
  deriving DecidableEq

def TeamRole.value : TeamRole → String
  | .owner => "owner"
  | .admin => "admin"
  | .member => "member"
  | .guest => "guest"

/-- `RequestStatus`. -/
inductive RequestStatus where
  | pending
  | approved
  | rejected
  | expired
  deriving DecidableEq

/-- `normalize_policy`. -/
def normalizePolicy (policy : String) : Except String JoinPolicy :=
  expect ([JoinPolicy.open, .approval, .inviteOnly, .token].find? fun p => p.value == policy)
    ("Unknown join_policy '" ++ policy ++
      "'. Expected one of: open, approval, invite_only, token")

/-- `TeamRole(value)`. -/
def TeamRole.ofValue (value : String) : Option TeamRole :=
  [TeamRole.owner, .admin, .member, .guest].find? fun r => r.value == value

/-- `_normalize_role`. -/
def normalizeRole (role : String) : Except String TeamRole :=
  expect (TeamRole.ofValue role)
    ("Unknown team role '" ++ role ++ "'. Expected one of: owner, admin, member, guest")

theorem normalizePolicy_value (p : JoinPolicy) : normalizePolicy p.value = .ok p := by
  cases p <;> rfl

theorem ofValue_value (r : TeamRole) : TeamRole.ofValue r.value = some r := by
  cases r <;> rfl

theorem ofValue_eq_some {value : String} {r : TeamRole} :
    TeamRole.ofValue value = some r ↔ r.value = value := by
  constructor
  · intro h
    have := List.find?_some h
    exact beq_iff_eq.1 this
  · rintro rfl
    exact ofValue_value r

/-! ## Configurations -/

/-- Policy, admins, members and roles of a team. -/
structure Team where
  joinPolicy : JoinPolicy := .open
  joinToken : Json := .str ""
  adminIds : List Json := []
  memberIds : List Json := []
  roles : Fields := []

/-- `TeamConfig`. -/
structure TeamConfig extends Team where
  teamId : Json
  teamName : Json := .str "Unnamed Team"
  createdAt : Json
  metadata : Json := .obj []
  ownerPubkey : Json := .str ""
  ownerSig : Json := .str ""
  sigUpdatedAt : Json := .str ""

/-- A fresh id, and the time. -/
structure Fresh where
  id : String
  now : String

/-- `list(v)`. -/
def listOf : Json → Option (List Json)
  | .arr xs => some xs
  | .obj kvs => some (kvs.map fun p => .str p.1)
  | .str s => some ((chars s).map fun c => .str (String.singleton c))
  | _ => none

/-- A pair that `dict` takes from a list; its key is a text. -/
def pairOf (v : Json) : Option (String × Json) :=
  match listOf v with
  | some [.str k, w] => some (k, w)
  | _ => none

/-- `dict(v)`. -/
def dictValue : Json → Option Fields
  | .obj kvs => some kvs
  | v => do return dictOf (← (← listOf v).mapM pairOf)

namespace TeamConfig

/-- `TeamConfig()`. -/
def fresh (f : Fresh) : TeamConfig where
  teamId := .str f.id
  createdAt := .str f.now

/-- `signable_dict`. -/
def signableDict (c : TeamConfig) : Json := .obj
  [("team_id", c.teamId), ("team_name", c.teamName), ("join_policy", .str c.joinPolicy.value),
    ("join_token", c.joinToken), ("admin_ids", .arr c.adminIds), ("member_ids", .arr c.memberIds),
    ("roles", .obj c.roles), ("created_at", c.createdAt), ("metadata", c.metadata),
    ("owner_pubkey", c.ownerPubkey), ("sig_updated_at", c.sigUpdatedAt)]

/-- `to_dict`. -/
def toDict (c : TeamConfig) : Json := .obj
  [("team_id", c.teamId), ("team_name", c.teamName), ("join_policy", .str c.joinPolicy.value),
    ("join_token", c.joinToken), ("admin_ids", .arr c.adminIds), ("member_ids", .arr c.memberIds),
    ("roles", .obj c.roles), ("created_at", c.createdAt), ("metadata", c.metadata),
    ("owner_pubkey", c.ownerPubkey), ("owner_sig", c.ownerSig),
    ("sig_updated_at", c.sigUpdatedAt)]

/-- `from_dict`, none where it raises. -/
def fromDict (f : Fresh) : Json → Option TeamConfig
  | .obj data => do
    let .str policy := Json.getD data "join_policy" (.str "open") | none
    let joinPolicy ← (normalizePolicy policy).toOption
    let adminIds ← listOf (Json.getD data "admin_ids" (.arr []))
    let memberIds ← listOf (Json.getD data "member_ids" (.arr []))
    let roles ← dictValue (Json.getD data "roles" (.obj []))
    return {
      teamId := Json.getD data "team_id" (.str f.id)
      teamName := Json.getD data "team_name" (.str "Unnamed Team")
      joinPolicy := joinPolicy
      joinToken := Json.getD data "join_token" (.str "")
      adminIds := adminIds
      memberIds := memberIds
      roles := roles
      createdAt := Json.getD data "created_at" (.str f.now)
      metadata := Json.getD data "metadata" (.obj [])
      ownerPubkey := Json.getD data "owner_pubkey" (.str "")
      ownerSig := Json.getD data "owner_sig" (.str "")
      sigUpdatedAt := Json.getD data "sig_updated_at" (.str "") }
  | _ => none

/-- **What is written is read back.** -/
theorem fromDict_toDict (f : Fresh) (c : TeamConfig) : fromDict f c.toDict = some c := by
  obtain ⟨⟨policy, -, -, -, -⟩, -, -, -, -, -, -, -⟩ := c
  cases policy <;> rfl

end TeamConfig

/-! ## Load and save -/

variable (H : Host)

/-- What `safe_load_json` returns of `team.json`, none for a file that is missing or no JSON,
    or raises for one that is no text. -/
abbrev TeamFile := Except String (Option Json)

/-- `_verify_config_signature`, false where it raises. -/
def verifyConfigSignature (c : TeamConfig) : Bool :=
  match c.ownerPubkey, c.ownerSig with
  | .str pubkey, .str sig => verifyHex H pubkey (canonicalJson c.signableDict) sig
  | _, _ => false

/-- What `load_config` takes from the file. -/
def configOf (f : Fresh) (file : Option Json) : TeamConfig :=
  (file.bind (TeamConfig.fromDict f)).getD (TeamConfig.fresh f)

/-- `load_config`. -/
def loadConfig (f : Fresh) (file : TeamFile) : Except String TeamConfig := do
  let c := configOf f (← file)
  require (!truthy c.ownerPubkey || (truthy c.ownerSig && verifyConfigSignature H c))
    "team config has invalid owner signature"
  return c

/-- `save_config` of a manager that has no key, or one: what it writes. -/
def saveConfig (manager : Option H.SecretKey) (now : String) (c : TeamConfig) :
    Except String TeamConfig :=
  match manager with
  | none => .ok c
  | some k => do
    let c := { c with
      ownerPubkey := .str (hex (H.pubkey k))
      sigUpdatedAt := .str now }
    let payload ← expect (canonicalJson c.signableDict) "not canonical JSON"
    return { c with ownerSig := .str (hex (H.sign k payload)) }

variable {H} {f : Fresh}

theorem configOf_toDict (c : TeamConfig) : configOf f (some c.toDict) = c := by
  rw [configOf, Option.bind_some, TeamConfig.fromDict_toDict, Option.getD_some]

theorem loadConfig_eq_ok {file : TeamFile} {c : TeamConfig} : loadConfig H f file = .ok c ↔
    ∃ data, file = .ok data ∧ c = configOf f data ∧
      (truthy c.ownerPubkey = true → truthy c.ownerSig = true ∧ verifyConfigSignature H c = true) := by
  simp only [loadConfig, bind_eq_ok, require_eq_ok, pure_eq_ok, Bool.or_eq_true, Bool.not_eq_true',
    Bool.and_eq_true]
  constructor
  · rintro ⟨data, hfile, _, hsig, rfl⟩
    refine ⟨data, hfile, rfl, fun h => hsig.resolve_left ?_⟩
    rw [h]
    exact Bool.noConfusion
  · rintro ⟨data, hfile, rfl, hsig⟩
    refine ⟨data, hfile, (), ?_, rfl⟩
    cases h : truthy (configOf f data).ownerPubkey with
    | false => exact Or.inl rfl
    | true => exact Or.inr (hsig h)

/-- **What a manager with a key saves is loaded.** -/
theorem loadConfig_saveConfig {k : H.SecretKey} {now : String} {c c' : TeamConfig}
    (h : saveConfig H (some k) now c = .ok c') : loadConfig H f (.ok (some c'.toDict)) = .ok c' := by
  simp only [saveConfig, bind_eq_ok, expect_eq_ok, pure_eq_ok] at h
  obtain ⟨payload, hpayload, rfl⟩ := h
  refine loadConfig_eq_ok.2 ⟨_, rfl, (configOf_toDict _).symm, fun _ => ⟨?_, ?_⟩⟩
  · exact bne_iff_ne.2 (hex_ne_empty (sign_ne_nil H k _))
  · exact verifyHex_sign H k hpayload

/-! ## Operations on a team -/

namespace Team

/-- `role_for`. -/
def roleFor (t : Team) (agentId : String) : TeamRole :=
  match (Json.get t.roles agentId).asStr.bind TeamRole.ofValue with
  | some r => r
  | none =>
    if .str agentId ∈ t.adminIds then .admin
    else if .str agentId ∈ t.memberIds then .member
    else .guest

/-- `_require_admin`. -/
def requireAdmin (t : Team) (actorId : String) (allowSystem : Bool) : Except String Unit :=
  if allowSystem && actorId == "system" then .ok ()
  else if t.adminIds.isEmpty then .ok ()
  else do
    require (actorId != "") "admin action requires actor_id/reviewed_by"
    require (t.adminIds.contains (.str actorId)) ("Agent '" ++ actorId ++ "' is not a team admin")

/-- `if agent_id not in xs: xs.append(agent_id)`. -/
def addId (xs : List Json) (agentId : String) : List Json :=
  if .str agentId ∈ xs then xs else xs ++ [.str agentId]

/-- `roles.setdefault(agent_id, role)`. -/
def setDefault (roles : Fields) (agentId : String) (role : TeamRole) : Fields :=
  if (Json.lookup roles agentId).isSome then roles
  else Json.insert roles agentId (.str role.value)

/-- `roles.pop(agent_id, None)`. -/
def popRole (roles : Fields) (agentId : String) : Fields := roles.filter fun p => p.1 != agentId

/-- A member joins: `approve`, `invite` and `ensure_member` end so. -/
def join (agentId : String) (t : Team) : Team :=
  { t with
    memberIds := addId t.memberIds agentId
    roles := setDefault t.roles agentId .member }

/-- One admin of `init_team`, with the role that is due. -/
def initAdmin (role : TeamRole) (adminId : String) (t : Team) : Team :=
  { t with
    adminIds := addId t.adminIds adminId
    memberIds := addId t.memberIds adminId
    roles := setDefault t.roles adminId role }

/-- The admins of `init_team`: the first of a team without admins is its owner. -/
def initAdmins : List String → Team → Team
  | [], t => t
  | adminId :: adminIds, t =>
    (initAdmin (if t.adminIds.isEmpty then .owner else .admin) adminId t).initAdmins adminIds

/-- `init_team`, on the team. -/
def init (policy joinToken : String) (adminIds : List String) (t : Team) : Except String Team := do
  let joinPolicy ← normalizePolicy policy
  return initAdmins adminIds { t with joinPolicy := joinPolicy, joinToken := .str joinToken }

/-- `set_policy`. -/
def setPolicy (policy joinToken actorId : String) (t : Team) : Except String Team := do
  t.requireAdmin actorId false
  let joinPolicy ← normalizePolicy policy
  return { t with
    joinPolicy := joinPolicy
    joinToken := if joinToken = "" then t.joinToken else .str joinToken }

/-- `add_admin`. -/
def addAdmin (agentId actorId : String) (t : Team) : Except String Team := do
  t.requireAdmin actorId false
  return { t with
    adminIds := addId t.adminIds agentId
    memberIds := addId t.memberIds agentId
    roles := Json.insert t.roles agentId (.str TeamRole.admin.value) }

/-- `remove_admin`. -/
def removeAdmin (agentId actorId : String) (t : Team) : Except String Team := do
  t.requireAdmin actorId false
  return { t with
    adminIds := t.adminIds.erase (.str agentId)
    roles := if Json.lookup t.roles agentId = some (.str TeamRole.admin.value) then
        Json.insert t.roles agentId (.str TeamRole.member.value)
      else t.roles }

/-- `set_role`. -/
def setRole (agentId role actorId : String) (t : Team) : Except String Team := do
  t.requireAdmin actorId false
  let r ← normalizeRole role
  require (t.memberIds.contains (.str agentId)) ("Agent '" ++ agentId ++ "' is not a team member")
  require (r != .owner || t.roleFor actorId == .owner) "owner role required"
  return { t with
    adminIds := if r = .owner ∨ r = .admin then addId t.adminIds agentId
      else t.adminIds.erase (.str agentId)
    roles := Json.insert t.roles agentId (.str r.value) }

/-- `remove_member`. -/
def removeMember (agentId actorId : String) (t : Team) : Except String Team := do
  t.requireAdmin actorId false
  return { t with
    memberIds := t.memberIds.erase (.str agentId)
    adminIds := t.adminIds.erase (.str agentId)
    roles := popRole t.roles agentId }

end Team

end NthDao.Membership
