/-
  Join requests and the operations of a manager (`nth_dao/membership.py`).

  * `canJoin`, `requestJoin`, `approve`, `reject`, `invite`: what they read of the requests,
    which lie under lossy file names;
  * `Op` and `Op.onTeam`: every operation, on the team and the requests;
  * `World.step`: a manager, with a key or without, loads the configuration, applies an
    operation and saves.

  `enable_signed_owner` saves what it loaded, as `set_policy` to the stored policy does with
  the key of the manager.
-/
import NthDao.Membership.Config
import NthDao.SafeId

namespace NthDao.Membership

open Py Trust

/-! ## Requests -/

/-- What an agent says of itself in a request. -/
structure Profile where
  capabilities : List String := []
  groups : List String := []
  backendId : String := "unknown"
  hostname : String := ""
  pid : ℤ := 0
  message : String := ""
  metadata : Fields := []

/-- `JoinRequest`. -/
structure JoinRequest where
  requestId : String
  agentId : String
  profile : Profile
  status : RequestStatus := .pending
  reviewedBy : String := ""
  reviewNote : String := ""
  submittedAt : String
  reviewedAt : String := ""

/-- The requests by file name. -/
abbrev Requests := String → Option JoinRequest

variable (H : Host)

/-- `_request_path_for`. -/
def requestPathFor (agentId : String) : Except String String := do
  require (agentId != "") "agent_id cannot be empty"
  return safeId H agentId

/-- `get_request`. -/
def getRequest (reqs : Requests) (agentId : String) : Except String (Option JoinRequest) := do
  return reqs (← requestPathFor H agentId)

/-- `_write_request`. -/
def writeRequest (reqs : Requests) (req : JoinRequest) : Except String Requests := do
  return Function.update reqs (← requestPathFor H req.agentId) (some req)

/-- `hmac.compare_digest` of two texts; it raises unless both are ASCII. -/
def compareDigest (a b : String) : Except String Bool := do
  require ((chars a ++ chars b).all fun c => c.toNat < 128)
    "comparing strings with non-ASCII characters is not supported"
  return a == b

/-- `join_token and token and compare_digest(token, join_token)`. -/
def tokenValid (t : Team) (token : String) : Except String Bool :=
  if !truthy t.joinToken || token == "" then .ok false
  else
    match t.joinToken with
    | .str joinToken => compareDigest token joinToken
    | _ => .error "unsupported operand types(s) or combination of types"

/-- `can_join`. -/
def canJoin (reqs : Requests) (t : Team) (agentId token : String) :
    Except String (Bool × String) :=
  if .str agentId ∈ t.memberIds then .ok (true, "already_member")
  else
    match t.joinPolicy with
    | .open => .ok (true, "open_policy")
    | .approval => do
      let existing ← getRequest H reqs agentId
      if existing.any fun req => req.status = .approved then return (true, "approved_request")
      else return (false, "approval_required")
    | .inviteOnly => .ok (false, "invite_only")
    | .token => do
      if ← tokenValid t token then return (true, "valid_token")
      else return (false, "invalid_or_missing_token")

/-- The pending request that `approve` and `reject` review. -/
def reviewed (reqs : Requests) (t : Team) (agentId reviewedBy : String) :
    Except String JoinRequest := do
  let req ← expect (← getRequest H reqs agentId) ("No join request found for '" ++ agentId ++ "'")
  t.requireAdmin reviewedBy true
  require (req.status = .pending) ("Request for '" ++ agentId ++ "' is already reviewed")
  return req

/-- `approve`. -/
def approve (reqs : Requests) (f : Fresh) (agentId reviewedBy note : String) (t : Team) :
    Except String (Requests × Option Team) := do
  let req ← reviewed H reqs t agentId reviewedBy
  let reqs ← writeRequest H reqs { req with
    status := .approved
    reviewedBy := reviewedBy
    reviewedAt := f.now
    reviewNote := if note = "" then "approved" else note }
  return (reqs, some (t.join agentId))

/-- `reject`. -/
def reject (reqs : Requests) (f : Fresh) (agentId reviewedBy note : String) (t : Team) :
    Except String (Requests × Option Team) := do
  let req ← reviewed H reqs t agentId reviewedBy
  let reqs ← writeRequest H reqs { req with
    status := .rejected
    reviewedBy := reviewedBy
    reviewedAt := f.now
    reviewNote := if note = "" then "rejected" else note }
  return (reqs, none)

/-- The token that `request_join` asks for. -/
def checkToken (t : Team) (token : String) : Except String Unit :=
  if t.joinPolicy = .token then do
    require (← tokenValid t token) "join_policy=token requires a valid join_token."
  else .ok ()

/-- `request_join`. -/
def requestJoin (reqs : Requests) (f : Fresh) (agentId : String) (profile : Profile)
    (token : String) (t : Team) : Except String (Requests × Option Team) := do
  if .str agentId ∈ t.memberIds then return (reqs, none)
  let existing ← getRequest H reqs agentId
  require (!existing.any fun req => req.status = .pending)
    ("Agent '" ++ agentId ++ "' already has a pending join request.")
  checkToken t token
  require (t.joinPolicy != .inviteOnly) "join_policy=invite_only."
  let reqs ← writeRequest H reqs
    { requestId := f.id, agentId := agentId, profile := profile, submittedAt := f.now }
  match t.joinPolicy with
  | .open => approve H reqs f agentId "system" "open policy" t
  | .token => approve H reqs f agentId "system" "token auto-approve" t
  | _ => return (reqs, none)

/-- `invite`. -/
def invite (reqs : Requests) (f : Fresh) (agentId : String) (capabilities groups : List String)
    (invitedBy note : String) (t : Team) : Except String (Requests × Option Team) := do
  t.requireAdmin invitedBy false
  let existing ← getRequest H reqs agentId
  if existing.any fun req => req.status = .pending then approve H reqs f agentId invitedBy note t
  else
    let reqs ← writeRequest H reqs
      { requestId := f.id
        agentId := agentId
        profile :=
          { capabilities := capabilities
            groups := groups
            message := "Invited by " ++ invitedBy ++ if note = "" then "" else ": " ++ note }
        status := .approved
        reviewedBy := invitedBy
        reviewNote := note
        submittedAt := f.now
        reviewedAt := f.now }
    return (reqs, some (t.join agentId))

/-- `ensure_member`. -/
def ensureMember (reqs : Requests) (agentId token : String) (t : Team) :
    Except String (Requests × Option Team) := do
  let (allowed, _) ← canJoin H reqs t agentId token
  if allowed then return (reqs, some (t.join agentId)) else return (reqs, none)

/-! ## Operations -/

/-- An operation of a manager. -/
inductive Op where
  | initTeam (teamName policy joinToken : String) (adminIds : List String) (metadata : Fields)
  | setPolicy (policy joinToken actorId : String)
  | addAdmin (agentId actorId : String)
  | removeAdmin (agentId actorId : String)
  | setRole (agentId role actorId : String)
  | ensureMember (agentId token : String)
  | requestJoin (agentId : String) (profile : Profile) (token : String)
  | approve (agentId reviewedBy note : String)
  | reject (agentId reviewedBy note : String)
  | invite (agentId : String) (capabilities groups : List String) (invitedBy note : String)
  | removeMember (agentId actorId : String)

/-- The operation on the team: the requests after it, and the team that is saved, if one is. -/
def Op.onTeam (reqs : Requests) (f : Fresh) (t : Team) : Op → Except String (Requests × Option Team)
  | .initTeam _ policy joinToken adminIds _ => do
    return (reqs, some (← t.init policy joinToken adminIds))
  | .setPolicy policy joinToken actorId => do
    return (reqs, some (← t.setPolicy policy joinToken actorId))
  | .addAdmin agentId actorId => do return (reqs, some (← t.addAdmin agentId actorId))
  | .removeAdmin agentId actorId => do return (reqs, some (← t.removeAdmin agentId actorId))
  | .setRole agentId role actorId => do return (reqs, some (← t.setRole agentId role actorId))
  | .ensureMember agentId token => Membership.ensureMember H reqs agentId token t
  | .requestJoin agentId profile token => Membership.requestJoin H reqs f agentId profile token t
  | .approve agentId reviewedBy note => Membership.approve H reqs f agentId reviewedBy note t
  | .reject agentId reviewedBy note => Membership.reject H reqs f agentId reviewedBy note t
  | .invite agentId capabilities groups invitedBy note =>
    Membership.invite H reqs f agentId capabilities groups invitedBy note t
  | .removeMember agentId actorId => do return (reqs, some (← t.removeMember agentId actorId))

/-- Name and metadata, which `init_team` alone changes. -/
def Op.label (c : TeamConfig) : Op → Except String TeamConfig
  | .initTeam teamName _ _ _ metadata =>
    if metadata.isEmpty then .ok { c with teamName := .str teamName }
    else
      match c.metadata with
      | .obj old => .ok { c with
          teamName := .str teamName
          metadata := .obj (metadata.foldl (fun kvs p => Json.insert kvs p.1 p.2) old) }
      | _ => .error "object has no attribute 'update'"
  | _ => .ok c

/-- The operation on the configuration that was loaded. -/
def Op.apply (reqs : Requests) (f : Fresh) (c : TeamConfig) (op : Op) :
    Except String (Requests × Option TeamConfig) := do
  let c ← op.label c
  let (reqs, t) ← op.onTeam H reqs f c.toTeam
  return (reqs, t.map fun t => { c with toTeam := t })

/-! ## Runs -/

/-- The workspace, with the agents that were removed under the approval policy and have not
    become members since. -/
structure World where
  file : TeamFile := .ok none
  requests : Requests := fun _ => none
  removed : List String := []

/-- The team that is stored. -/
def World.team (w : World) : Team :=
  match w.file with
  | .ok file => (configOf ⟨"", ""⟩ file).toTeam
  | .error _ => {}

/-- A call: the manager has a key or none, and is given fresh ids and the time. -/
structure Call (H : Host) where
  op : Op
  manager : Option H.SecretKey
  fresh : Fresh

/-- A member is removed under the approval policy. -/
def Op.removes (t : Team) : Op → Option String
  | .removeMember agentId _ =>
    if t.joinPolicy = .approval ∧ .str agentId ∈ t.memberIds then some agentId else none
  | _ => none

/-- The agents removed so far, without those that are members again. -/
def removedBy (removed : List String) (op : Op) (before after : Team) : List String :=
  ((op.removes before).toList ++ removed).filter fun agentId => .str agentId ∉ after.memberIds

/-- A call that returns or raises; `approve` writes the request before the configuration. -/
def World.step (w : World) (a : Call H) : Option World :=
  match loadConfig H a.fresh w.file with
  | .error _ => some w
  | .ok c =>
    match a.op.apply H w.requests a.fresh c with
    | .error _ => some w
    | .ok (reqs, none) => some { w with requests := reqs }
    | .ok (reqs, some c') =>
      match saveConfig H a.manager a.fresh.now c' with
      | .error _ => some { w with requests := reqs }
      | .ok c' => some {
          file := .ok (some c'.toDict)
          requests := reqs
          removed := removedBy w.removed a.op c.toTeam c'.toTeam }

end NthDao.Membership
