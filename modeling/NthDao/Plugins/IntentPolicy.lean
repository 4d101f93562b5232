/-
  Policies for accepting one reviewed draft (`nth_dao/plugins/intent_policy.py`,
  `nth_dao/plugins/intent_policy_store.py`).

  * `Policy`: a snapshot with its checks, and its content digest;
  * `Policy.resolve`: what a policy expects of the next envelope in a scope;
  * `PolicyStore`: the published policies, `current` and `requireTail`;
  * `resolve_next`: the revision that is expected is the one after the head.
-/
import NthDao.Plugins.IntentEnvelope

namespace NthDao

namespace Plugins

open Py MarketIndex

variable (V : IntentHost)

/-- The exceptions of an acceptance. -/
inductive Refusal where
  | envelope (text : String)
  | policy (text : String)
  | denied (text : String)
  | conflict (text : String)
  | capacity (text : String)
  | store (text : String)
  | unavailable (text : String)
  | value (text : String)
  deriving DecidableEq

/-- `IntentAcceptanceHead`. -/
structure Head where
  revision : ℤ
  digest : String
  deriving DecidableEq

def Head.genesis : Head := ⟨0, ""⟩

/-! ## Snapshots -/

def policyRoles : List String := ["admin", "member", "owner"]
def policyStatuses : List String := ["active", "revoked"]
def policyLevels : List String := ["A0", "A1"]
def policyMaxMembers : ℕ := 64
def policyMaxTtlMs : ℤ := 31 * 86400000
def policyMaxDocumentBytes : ℕ := 512 * 1024

/-- `_did`. -/
def isStrictDid (s : String) : Bool :=
  isBoundedDid s && (decodeDidKey s).any V.isPrimeOrder

/-- `IntentPolicyMember`. -/
structure Member where
  signerDid : String
  role : String
  status : String
  allowedSolverClasses : List String
  automationCeiling : String
  deriving DecidableEq

/-- `IntentPolicyMember.__post_init__`. -/
def Member.ok (m : Member) : Bool :=
  isStrictDid V m.signerDid && policyRoles.contains m.role && policyStatuses.contains m.status &&
    areSolverClasses m.allowedSolverClasses && policyLevels.contains m.automationCeiling

def Member.toDict (m : Member) : Json :=
  .obj [("signer_did", .str m.signerDid), ("role", .str m.role), ("status", .str m.status),
    ("allowed_solver_classes", .arr (m.allowedSolverClasses.map .str)),
    ("automation_ceiling", .str m.automationCeiling)]

/-- The fields of a policy that differ from one policy to another. -/
structure PolicyFields where
  audienceDid : String
  scopeId : String
  reviewedDraftDigest : String
  membershipDigest : String
  revocationDigest : String
  policyRevision : ℤ
  previousPolicyDigest : String
  issuedAtMs : ℤ
  expiresAtMs : ℤ
  allowedAcceptanceRoles : List String
  members : List Member
  deriving DecidableEq

/-- `IntentAcceptancePolicySnapshot.to_dict`. -/
def PolicyFields.toDict (p : PolicyFields) : Fields :=
  [("format", .str "org.nth-dao.intent-acceptance-policy-snapshot"), ("version", .str "1"),
    ("authority", .str "intent-draft-acceptance"), ("commit_authority", .bool false),
    ("executable", .bool false), ("audience_did", .str p.audienceDid), ("scope_id", .str p.scopeId),
    ("reviewed_draft_digest", .str p.reviewedDraftDigest),
    ("membership_digest", .str p.membershipDigest), ("revocation_digest", .str p.revocationDigest),
    ("policy_revision", .int p.policyRevision),
    ("previous_policy_digest", .str p.previousPolicyDigest), ("issued_at_ms", .int p.issuedAtMs),
    ("expires_at_ms", .int p.expiresAtMs),
    ("allowed_acceptance_roles", .arr (p.allowedAcceptanceRoles.map .str)),
    ("members", .arr (p.members.map Member.toDict))]

def isSafeInteger (minimum n : ℤ) : Bool := decide (minimum ≤ n) && decide (n ≤ maxSafeInteger)

/-- The checks of `IntentAcceptancePolicySnapshot.from_dict`. -/
def PolicyFields.ok (p : PolicyFields) : Bool :=
  decide (1 ≤ p.members.length) && decide (p.members.length ≤ policyMaxMembers) &&
    p.members.all (Member.ok V) &&
    p.members.map Member.signerDid == CapToken.sortedSet (p.members.map Member.signerDid) &&
    decide (1 ≤ p.allowedAcceptanceRoles.length) &&
    p.allowedAcceptanceRoles == CapToken.sortedSet p.allowedAcceptanceRoles &&
    p.allowedAcceptanceRoles.all policyRoles.contains &&
    isStrictDid V p.audienceDid && isExactId p.scopeId && isSha256 p.reviewedDraftDigest &&
    isSha256 p.membershipDigest && isSha256 p.revocationDigest && isSafeInteger 1 p.policyRevision &&
    (if p.policyRevision = 1 then p.previousPolicyDigest == ""
      else isSha256 p.previousPolicyDigest) &&
    isSafeInteger 0 p.issuedAtMs && isSafeInteger 0 p.expiresAtMs &&
    decide (p.issuedAtMs < p.expiresAtMs) &&
    decide (p.expiresAtMs - p.issuedAtMs ≤ policyMaxTtlMs) &&
    (canonicalJson (.obj p.toDict)).any fun b => decide (b.length ≤ policyMaxDocumentBytes)

/-- `IntentAcceptancePolicySnapshot`. -/
structure Policy extends PolicyFields where
  valid : toPolicyFields.ok V = true

namespace Policy

variable {V}

def digest (p : Policy V) : String := hashDocument V p.toDict

/-- `is_valid_at`, of a clock reading that is a safe integer. -/
def isValidAt (p : Policy V) (nowMs : ℤ) : Bool :=
  decide (p.issuedAtMs ≤ nowMs) && decide (nowMs < p.expiresAtMs)

/-- `resolve`. -/
def resolve (p : Policy V) (signerDid : String) (head : Head) (nowMs : ℤ) :
    Except Refusal Context := do
  require (isStrictDid V signerDid) (.policy "requested signer_did must be an Ed25519 did:key")
  require (isSafeInteger 0 nowMs) (.policy "now_ms must be a safe integer >= 0")
  require (p.isValidAt nowMs) (.denied "intent acceptance policy is not currently valid")
  let member ← expect (p.members.find? fun m => m.signerDid == signerDid)
    (.denied "signer is not a member of the current intent policy")
  require (member.status == "active") (.denied "signer is revoked by the current intent policy")
  require (p.allowedAcceptanceRoles.contains member.role)
    (.denied "member role may not accept this reviewed intent")
  expect (Expected.context
    { signerDid := member.signerDid
      audienceDid := p.audienceDid
      scopeId := p.scopeId
      draftDigest := p.reviewedDraftDigest
      revision := head.revision + 1
      previousDigest := head.digest
      allowedSolverClasses := member.allowedSolverClasses
      automationCeiling := member.automationCeiling
      authorizationDigest := p.digest }) (.envelope "invalid expected context")

theorem context_eq_some {e : Expected} {c : Context} (h : e.context = some c) :
    c.toExpected = e := by
  unfold Expected.context at h
  split_ifs at h
  cases h
  rfl

/-- The revision that a policy expects is the one after the head. -/
theorem resolve_next {p : Policy V} {signerDid : String} {head : Head} {nowMs : ℤ} {c : Context}
    (h : p.resolve signerDid head nowMs = .ok c) :
    c.revision = head.revision + 1 ∧ c.previousDigest = head.digest := by
  simp only [resolve, bind_eq_ok, expect_eq_ok, require_eq_ok] at h
  obtain ⟨_, -, _, -, _, -, member, -, _, -, _, -, hc⟩ := h
  rw [context_eq_some hc]
  exact ⟨rfl, rfl⟩

end Policy

/-! ## The store -/

/-- A published policy. -/
structure PolicyRecord where
  policy : Policy V
  auditDigest : String

/-- The records in the order of their publication, each verified. -/
abbrev PolicyStore := List (PolicyRecord V)

namespace PolicyStore

variable {V}

def tail (s : PolicyStore V) : String := (s.getLast?.map PolicyRecord.auditDigest).getD ""

/-- `_require_tail_unlocked`. -/
def requireTail (s : PolicyStore V) (expectedTailDigest : String) : Except Refusal Unit := do
  require (expectedTailDigest == "" || isSha256 expectedTailDigest)
    (.value "expected_tail_digest must be a content hash or empty genesis marker")
  require (s.tail == expectedTailDigest)
    (.unavailable "policy history does not match the retained tail")

/-- The later revision of two records. -/
def later (best : Option (PolicyRecord V)) (r : PolicyRecord V) : Option (PolicyRecord V) :=
  match best with
  | none => some r
  | some b => if b.policy.policyRevision < r.policy.policyRevision then some r else some b

/-- `_current_unlocked`. -/
def current (s : PolicyStore V) (audienceDid scopeId : String) : Option (Policy V) :=
  ((s.filter fun r => r.policy.audienceDid == audienceDid && r.policy.scopeId == scopeId).foldl later
    none).map PolicyRecord.policy

end PolicyStore

end Plugins

end NthDao
