/-
  Governance statements and the policy in force (`nth_dao/governance/statement.py`,
  `nth_dao/governance/projection.py`).

  A statement carries a whole policy and its signer's signature.  The projection
  folds the governance events of the spine: the first genesis establishes a
  policy, an amendment replaces it if its signer may amend.

  * `verifyGovernanceStatement`, `signGovernanceStatement`;
  * `PolicyProjection.apply` and its fold `replay`;
  * `Governed`: how a log of events makes the policy in force;
  * `replay_governed`: the fold returns where the policies have maps, what it
    returns is so made, and a statement that comes back counts again.
-/
import NthDao.Governance.Policy
import NthDao.Py.Norm
import NthDao.Spine.Event

namespace NthDao.Governance

open Py

variable (H : Host)

/-! ## Statements -/

/-- `GOVERNANCE_STATEMENT_KIND`. -/
def governanceStatementKind : String := "nth-governance-statement-v1"

/-- `_TYPES`. -/
def statementTypes : List String := ["genesis", "amend"]

/-- `_signing_body`. -/
def signingBody (stmt : Fields) : Json := .obj (stmt.filter fun p => p.1 != "sig")

/-- A `str` that is not empty. -/
def nonEmpty (v : Json) : Option String := v.asStr.filter (· != "")

/-- `verify_governance_statement`: the signer, or why not. -/
def verifyGovernanceStatement (stmt : Fields) : Except String String := do
  require ((Json.get stmt "kind").eqStr governanceStatementKind) "wrong kind"
  require (statementTypes.any (Json.get stmt "type").eqStr) "unknown type"
  require (Json.get stmt "policy").isObj "missing/invalid policy"
  let signer ← expect (nonEmpty (Json.get stmt "signer_did")) "missing/invalid signer_did"
  let sig ← expect (nonEmpty (Json.get stmt "sig")) "missing/invalid sig"
  let key ← expect (decodeDidKey signer) "bad encoding"
  let raw ← expect (b64uDecode sig) "bad encoding"
  let body ← expect (canonicalJson (signingBody stmt)) "bad encoding"
  require (raw.length == 64 && H.verify key body raw) "signature invalid"
  return signer

/-- `sign_governance_statement`; the clock is an argument. -/
def signGovernanceStatement (k : H.SecretKey) (statementType : String) (policy : Fields)
    (daoId : String) (issuedAtMs : ℤ) : Except String Fields := do
  require (statementTypes.contains statementType) "unknown governance statement type"
  let stmt : Fields :=
    [("kind", .str governanceStatementKind), ("type", .str statementType), ("dao_id", .str daoId),
      ("signer_did", .str (asDid H k)), ("issued_at_ms", .int issuedAtMs), ("policy", .obj policy)]
  let body ← expect (canonicalJson (.obj stmt)) "canonical_json"
  return stmt ++ [("sig", .str (signText H k body))]

/-! ## The policy in force -/

/-- `EVENT_GOV_GENESIS`. -/
def eventGovGenesis : String := "governance.genesis"

/-- `EVENT_GOV_AMEND`. -/
def eventGovAmend : String := "governance.amend"

structure PolicyProjection where
  policy : Policy := {}
  established : Bool := false
  founderDid : String := ""
  version : ℕ := 0
  history : List String := []
  deriving DecidableEq

/-- A genesis takes effect. -/
def PolicyProjection.found (policy : Policy) (signer : String) (p : PolicyProjection) :
    PolicyProjection :=
  { p with policy, established := true, founderDid := signer, version := 1,
           history := p.history ++ [signer] }

/-- An amendment takes effect. -/
def PolicyProjection.amend (policy : Policy) (signer : String) (p : PolicyProjection) :
    PolicyProjection :=
  { p with policy, version := p.version + 1, history := p.history ++ [signer] }

/-- `apply`: of the exceptions of the reader, `TypeError` is caught. -/
def PolicyProjection.apply (p : PolicyProjection) (event : SpineEvent) :
    Except Raised PolicyProjection :=
  if event.type ≠ eventGovGenesis ∧ event.type ≠ eventGovAmend then .ok p
  else
    match verifyGovernanceStatement H event.payload with
    | .error _ => .ok p
    | .ok signer =>
      match Policy.fromDict H (Json.get event.payload "policy") with
      | .error (.typeError _) => .ok p
      | .error e => .error e
      | .ok policy =>
        if event.type = eventGovGenesis then
          .ok (if p.established then p else p.found policy signer)
        else if p.established && (can H p.policy signer actionPolicyAmend).allowed then
          .ok (p.amend policy signer)
        else .ok p

/-- `replay` of a list of events on a new projection. -/
def replay (events : List SpineEvent) : Except Raised PolicyProjection :=
  events.foldlM (PolicyProjection.apply H) {}

/-! ## How a log makes the policy -/

/-- The event carries a verified statement of `signer` with a policy. -/
def States (event : SpineEvent) (signer : String) (policy : Policy) : Prop :=
  verifyGovernanceStatement H event.payload = .ok signer ∧
    Policy.fromDict H (Json.get event.payload "policy") = .ok policy

/-- An event takes effect: the first genesis, or an amendment by one whom the
    policy in force allows to amend. -/
inductive Effect (p : PolicyProjection) (event : SpineEvent) : PolicyProjection → Prop
  | found {signer : String} {policy : Policy} : event.type = eventGovGenesis →
      States H event signer policy → p.established = false → Effect p event (p.found policy signer)
  | amend {signer : String} {policy : Policy} : event.type = eventGovAmend →
      States H event signer policy → p.established = true →
      (can H p.policy signer actionPolicyAmend).allowed = true →
      Effect p event (p.amend policy signer)

/-- The policy in force after a list of events, and the events that took effect. -/
inductive Governed : List SpineEvent → PolicyProjection → List SpineEvent → Prop
  | start : Governed [] {} []
  | ignored {events applied : List SpineEvent} {p : PolicyProjection} {event : SpineEvent} :
      Governed events p applied → (∀ q, ¬ Effect H p event q) →
      Governed (events ++ [event]) p applied
  | applied {events applied : List SpineEvent} {p q : PolicyProjection} {event : SpineEvent} :
      Governed events p applied → Effect H p event q →
      Governed (events ++ [event]) q (applied ++ [event])

/-! ## Statements verify -/

/-- A signed statement verifies. -/
theorem verifyGovernanceStatement_sign {k : H.SecretKey} {statementType daoId : String}
    {policy stmt : Fields} {issuedAtMs : ℤ}
    (h : signGovernanceStatement H k statementType policy daoId issuedAtMs = .ok stmt) :
    verifyGovernanceStatement H stmt = .ok (asDid H k) := by
  simp only [signGovernanceStatement, require_bind_eq_ok, expect_bind_eq_ok, pure_eq_ok] at h
  obtain ⟨htype, body, hbody, rfl⟩ := h
  have hdid : asDid H k ≠ "" := by
    intro he
    have := isDidKey_asDid H k
    rw [he] at this
    exact absurd this (by decide)
  have hsig : signText H k body ≠ "" := by
    intro he
    have := length_signText H k body
    rw [he] at this
    exact absurd this (by decide)
  have hmem : statementType = "genesis" ∨ statementType = "amend" := by
    simpa [statementTypes] using htype
  have hstr {v : String} (hv : v ≠ "") : nonEmpty (.str v) = some v := by
    simp [nonEmpty, Json.asStr, Option.filter, hv]
  simp only [verifyGovernanceStatement, Json.get, Json.lookup_cons, Json.lookup_nil,
    List.cons_append, List.nil_append, String.reduceEq, if_true, if_false, Option.getD_some,
    require_bind_eq_ok, expect_bind_eq_ok, pure_eq_ok]
  refine ⟨by simp, by simpa [statementTypes] using hmem, rfl, asDid H k, hstr hdid,
    signText H k body, hstr hsig, H.pubkey k, decodeDidKey_asDid H k, H.sign k body,
    b64uDecode_b64uEncode _, body, ?_, ?_, rfl⟩
  · simpa [signingBody] using hbody
  · simp [H.sign_length, H.verify_sign]

/-! ## The fold -/

theorem replay_append (events : List SpineEvent) (event : SpineEvent) :
    replay H (events ++ [event]) = replay H events >>= fun p => p.apply H event := by
  simp [replay, List.foldlM_append]

variable {H} {p q : PolicyProjection} {event : SpineEvent}

theorem eventTypes_ne : eventGovGenesis ≠ eventGovAmend := by decide

/-- What `apply` returns: an effect, or the projection as it was. -/
theorem apply_eq_ok (h : p.apply H event = .ok q) :
    Effect H p event q ∨ q = p ∧ ∀ q, ¬ Effect H p event q := by
  rw [PolicyProjection.apply] at h
  by_cases htype : event.type ≠ eventGovGenesis ∧ event.type ≠ eventGovAmend
  · rw [if_pos htype, Except.ok.injEq] at h
    subst h
    refine .inr ⟨rfl, fun q hq => ?_⟩
    cases hq with
    | found hg _ _ => exact htype.1 hg
    | amend ha _ _ _ => exact htype.2 ha
  rw [if_neg htype] at h
  rw [not_and_or, not_not, not_not] at htype
  have ignored (hno : ∀ signer policy, ¬ States H event signer policy) (hq : p = q) :
      Effect H p event q ∨ q = p ∧ ∀ q, ¬ Effect H p event q := by
    refine .inr ⟨hq.symm, fun q hq => ?_⟩
    cases hq with
    | found _ hs _ => exact hno _ _ hs
    | amend _ hs _ _ => exact hno _ _ hs
  cases hv : verifyGovernanceStatement H event.payload with
  | error e =>
    rw [hv] at h
    exact ignored (fun _ _ hs => by rw [States, hv] at hs; cases hs.1) (Except.ok.inj h)
  | ok signer =>
    rw [hv] at h
    cases hp : Policy.fromDict H (Json.get event.payload "policy") with
    | error e =>
      rw [hp] at h
      cases e with
      | typeError m =>
        exact ignored (fun _ _ hs => by rw [States, hp] at hs; cases hs.2) (Except.ok.inj h)
      | attributeError m => cases h
    | ok policy =>
      rw [hp] at h
      have same {signer' : String} {policy' : Policy} (hs : States H event signer' policy') :
          signer = signer' ∧ policy = policy' := by
        rw [States, hv, hp] at hs
        exact ⟨Except.ok.inj hs.1, Except.ok.inj hs.2⟩
      by_cases hg : event.type = eventGovGenesis
      · simp only [hg, if_true, Except.ok.injEq] at h
        by_cases hest : p.established = true
        · rw [if_pos hest] at h
          refine .inr ⟨h.symm, fun q hq => ?_⟩
          cases hq with
          | found _ _ hno => simp [hest] at hno
          | amend ha _ _ _ => exact eventTypes_ne (hg.symm.trans ha)
        · rw [if_neg hest] at h
          exact .inl (h ▸ .found hg ⟨hv, hp⟩ (by simpa using hest))
      · simp only [hg, if_false] at h
        by_cases hcan : p.established = true ∧ (can H p.policy signer actionPolicyAmend).allowed = true
        · rw [if_pos (by simpa using hcan)] at h
          exact .inl (Except.ok.inj h ▸ .amend (htype.resolve_left hg) ⟨hv, hp⟩ hcan.1 hcan.2)
        · rw [if_neg (by simpa using hcan)] at h
          refine .inr ⟨(Except.ok.inj h).symm, fun q hq => ?_⟩
          cases hq with
          | found hg' _ _ => exact hg hg'
          | amend _ hs hest hallowed =>
            obtain ⟨rfl, rfl⟩ := same hs
            exact hcan ⟨hest, hallowed⟩

theorem apply_of_effect (h : Effect H p event q) : p.apply H event = .ok q := by
  cases h with
  | found htype hs hest =>
    simp [PolicyProjection.apply, htype, hs.1, hs.2, hest]
  | amend htype hs hest hcan =>
    simp [PolicyProjection.apply, htype, hs.1, hs.2, hest, hcan, eventTypes_ne.symm]

/-- An event whose policy has maps raises nothing. -/
theorem exists_apply (hm : ∀ signer, verifyGovernanceStatement H event.payload = .ok signer →
      Mapped (Json.get event.payload "policy").fields) (p : PolicyProjection) :
    ∃ q, p.apply H event = .ok q := by
  rw [PolicyProjection.apply]
  by_cases htype : event.type ≠ eventGovGenesis ∧ event.type ≠ eventGovAmend
  · rw [if_pos htype]
    exact ⟨_, rfl⟩
  rw [if_neg htype]
  cases hv : verifyGovernanceStatement H event.payload with
  | error _ => exact ⟨_, rfl⟩
  | ok signer =>
    cases hp : Policy.fromDict H (Json.get event.payload "policy") with
    | ok policy =>
      dsimp only
      split_ifs <;> exact ⟨_, rfl⟩
    | error e =>
      have hobj : (Json.get event.payload "policy").isObj = true := by
        simp only [verifyGovernanceStatement, require_bind_eq_ok] at hv
        exact hv.2.2.1
      rw [Json.eq_obj_of_isObj hobj] at hp
      obtain ⟨m, rfl⟩ := fromDict_mapped H (hm signer hv) hp
      exact ⟨_, rfl⟩

/-- The fold makes the policy in force. -/
theorem governed_of_replay {events : List SpineEvent} {p : PolicyProjection}
    (h : replay H events = .ok p) : ∃ applied, Governed H events p applied := by
  induction events using List.reverseRecOn generalizing p with
  | nil =>
    cases h
    exact ⟨[], .start⟩
  | append_singleton events event ih =>
    rw [replay_append, bind_eq_ok] at h
    obtain ⟨q, hq, hp⟩ := h
    obtain ⟨applied, ha⟩ := ih hq
    rcases apply_eq_ok hp with heff | ⟨rfl, hno⟩
    · exact ⟨_, ha.applied heff⟩
    · exact ⟨_, ha.ignored hno⟩

/-- The events that took effect: nothing, or a genesis and amendments after it. -/
theorem Governed.shape {events applied : List SpineEvent} (h : Governed H events p applied) :
    applied.Sublist events ∧ p.version = applied.length ∧ p.history.length = applied.length ∧
      ((p = {} ∧ applied = []) ∨ p.established = true ∧ ∃ first rest, applied = first :: rest ∧
        first.type = eventGovGenesis ∧ ∀ e ∈ rest, e.type = eventGovAmend) := by
  induction h with
  | start => exact ⟨.slnil, rfl, rfl, .inl ⟨rfl, rfl⟩⟩
  | ignored _ _ ih =>
    obtain ⟨hsub, hv, hh, hshape⟩ := ih
    exact ⟨hsub.trans (List.sublist_append_left _ _), hv, hh, hshape⟩
  | applied _ heff ih =>
    obtain ⟨hsub, hv, hh, hshape⟩ := ih
    cases heff with
    | found htype _ hest =>
      rcases hshape with ⟨rfl, rfl⟩ | ⟨hest', -⟩
      · exact ⟨List.sublist_append_right _ _, rfl, rfl, .inr ⟨rfl, _, [], rfl, htype, by simp⟩⟩
      · rw [hest] at hest'
        cases hest'
    | amend htype _ hest _ =>
      rcases hshape with ⟨rfl, rfl⟩ | ⟨_, first, rest, rfl, hfirst, hrest⟩
      · cases hest
      · refine ⟨hsub.append (.refl _), by simp [PolicyProjection.amend, hv],
          by simp [PolicyProjection.amend, hh], .inr ⟨hest, first, rest ++ [_], rfl, hfirst, ?_⟩⟩
        simpa [or_imp, forall_and, htype] using hrest

/-- **The policy in force is made by those who may.**  The fold returns where the
    policies have maps; what it returns is governed, its version counts the events
    that took effect, the first of them a genesis and the others amendments; and a
    statement that comes back as an amendment takes effect again if its signer may
    then amend. -/
theorem replay_governed (H : Host) (events : List SpineEvent) :
    ((∀ e ∈ events, ∀ signer, verifyGovernanceStatement H e.payload = .ok signer →
        Mapped (Json.get e.payload "policy").fields) → ∃ p, replay H events = .ok p) ∧
      ∀ p, replay H events = .ok p → ∃ applied, Governed H events p applied ∧
        p.version = applied.length ∧
        ((p = {} ∧ applied = []) ∨ p.established = true ∧ ∃ first rest, applied = first :: rest ∧
          first.type = eventGovGenesis ∧ ∀ e ∈ rest, e.type = eventGovAmend) ∧
        ∀ e ∈ applied, ∀ again : SpineEvent, again.payload = e.payload →
          again.type = eventGovAmend → ∀ signer policy, States H e signer policy →
            (can H p.policy signer actionPolicyAmend).allowed = true →
            replay H (events ++ [again]) = .ok (p.amend policy signer) := by
  refine ⟨fun hm => ?_, fun p h => ?_⟩
  · induction events using List.reverseRecOn with
    | nil => exact ⟨_, rfl⟩
    | append_singleton events event ih =>
      obtain ⟨q, hq⟩ := ih fun e he => hm e (List.mem_append_left _ he)
      rw [replay_append, hq, ok_bind]
      exact exists_apply (hm event (by simp)) q
  · obtain ⟨applied, ha⟩ := governed_of_replay h
    obtain ⟨-, hv, -, hshape⟩ := ha.shape
    refine ⟨applied, ha, hv, hshape, fun e he again hpay htype signer policy hs hcan => ?_⟩
    have hest : p.established = true := by
      rcases hshape with ⟨-, rfl⟩ | ⟨hest, -⟩
      · cases he
      · exact hest
    rw [replay_append, h, ok_bind]
    refine apply_of_effect (.amend htype ?_ hest hcan)
    rw [States, hpay]
    exact hs

/-! ## Samples -/

/-- A policy whose owner may do anything. -/
def ownedBy (owner : String) : Fields :=
  [("roles", .obj [(owner, .arr [.str "owner"])]), ("grants", .obj [("owner", .arr [.str "*"])]),
    ("constraints", .obj [])]

/-- The same with a second owner. -/
def ownedByBoth (owner other : String) : Fields :=
  [("roles", .obj [(owner, .arr [.str "owner"]), (other, .arr [.str "owner"])]),
    ("grants", .obj [("owner", .arr [.str "*"])]), ("constraints", .obj [])]

/-- An event with a payload. -/
def governanceEvent (type : String) (payload : Fields) : SpineEvent where
  seq := 0
  prevHash := genesisPrev
  type := type
  payload := payload
  authorDid := ""
  tsMs := 1

/-- The statement of the key of ones. -/
def statement (statementType : String) (policy : Fields) : Fields :=
  ((signGovernanceStatement checksumHost (1 : UInt8) statementType policy "" 1).toOption).getD []

/-- The owner founds, takes in a second owner and puts it out again. -/
def putOut : List SpineEvent :=
  let owner := asDid checksumHost (1 : UInt8)
  let other := asDid checksumHost (2 : UInt8)
  [governanceEvent eventGovGenesis (statement "genesis" (ownedBy owner)),
    governanceEvent eventGovAmend (statement "amend" (ownedByBoth owner other)),
    governanceEvent eventGovAmend (statement "amend" (ownedBy owner))]

/-- The second owner may amend. -/
def otherMayAmend (p : PolicyProjection) : Bool :=
  (can checksumHost p.policy (asDid checksumHost (2 : UInt8)) actionPolicyAmend).allowed

/-- The second owner is put out. -/
def putOutReplay : PLift ((replay checksumHost putOut).toOption.any (fun p => !otherMayAmend p) = true) := ⟨by decide +kernel⟩

/-- The old amendment takes the second owner in again. -/
def rolledBackReplay : PLift ((replay checksumHost (putOut ++ putOut[1]?.toList)).toOption.any
    (fun p => p.version == 4 && otherMayAmend p) = true) := ⟨by decide +kernel⟩

/-- An amendment founds. -/
def foundedReplay : PLift ((replay checksumHost [governanceEvent eventGovGenesis
    (statement "amend" (ownedBy "did:key:z"))]).toOption.any (fun p => p.established) = true) := ⟨by decide +kernel⟩

/-- **An old amendment rolls the policy back**: the statement that took the second
    owner in takes effect again after it has been put out.  A policy whose `roles`
    is a text makes the fold raise, and a statement signed as an amendment founds. -/
theorem replay_rolls_back :
    (∃ p, replay checksumHost putOut = .ok p ∧ otherMayAmend p = false) ∧
    (∃ p, replay checksumHost (putOut ++ putOut[1]?.toList) = .ok p ∧ p.version = 4 ∧
      otherMayAmend p = true) ∧
    replay checksumHost [governanceEvent eventGovGenesis
      (statement "genesis" [("roles", .str "owner")])] =
        .error (.attributeError "object has no attribute 'items'") ∧
    ∃ p, replay checksumHost [governanceEvent eventGovGenesis
      (statement "amend" (ownedBy "did:key:z"))] = .ok p ∧ p.established = true := by
  have hout := putOutReplay.down
  have hback := rolledBackReplay.down
  have hfound := foundedReplay.down
  obtain ⟨p, hp, hno⟩ := ok_of_any hout
  obtain ⟨q, hq, hagain⟩ := ok_of_any hback
  obtain ⟨r, hr, hest⟩ := ok_of_any hfound
  simp only [Bool.and_eq_true, beq_iff_eq] at hagain
  refine ⟨⟨p, hp, by simpa using hno⟩, ⟨q, hq, hagain⟩, by decide +kernel, r, hr, hest⟩

end NthDao.Governance
