/-
  Votes on changes of a group (`nth_dao/group_registry.py`).

  * `countYesVotes`, `resolveProposal` and `applyProposal`: a proposal passes when more
    than half of the members signed a yes vote;
  * `Authorised`: what a passed vote is to mean, and `Binds`: a vote for one change only;
  * `votes_carry_any_change`: a vote signs the identifier of a proposal alone, so the votes
    of a proposal that passes carry any other change with them.

  `fromisoformat` is what `datetime.fromisoformat` reads, `now` and `stamp` are the clock.
-/
import NthDao.Groups.Record

namespace NthDao.Groups

open Py Trust

variable (H : Host)

/-! ## Proposals -/

/-- `PolicyChangeProposal`. -/
structure PolicyChangeProposal where
  proposalId : String
  groupId : String
  proposerPubkey : String
  proposedPolicy : GroupPolicy
  proposedAddMembers : List String
  proposedRemoveMembers : List String
  proposedDisplayName : Option String
  rationale : String
  createdAt : String
  expiresAt : String
  votes : List Fields
  proposerSig : String

namespace PolicyChangeProposal

variable (p : PolicyChangeProposal)

/-- `signable_dict`: the votes and the signature are left out. -/
def signableDict : Json := .obj
  [("proposal_id", .str p.proposalId), ("group_id", .str p.groupId),
    ("proposer_pubkey", .str p.proposerPubkey), ("proposed_policy", .str p.proposedPolicy.wire),
    ("proposed_add_members", .arr (p.proposedAddMembers.map .str)),
    ("proposed_remove_members", .arr (p.proposedRemoveMembers.map .str)),
    ("proposed_display_name", (p.proposedDisplayName.map Json.str).getD .null),
    ("rationale", .str p.rationale), ("created_at", .str p.createdAt),
    ("expires_at", .str p.expiresAt)]

/-- `verify_proposer_signature`. -/
def verifyProposerSignature : Bool :=
  p.proposerSig != "" && p.proposerPubkey != "" &&
    verifyHex H p.proposerPubkey (canonicalJson p.signableDict) p.proposerSig

end PolicyChangeProposal

/-! ## Votes -/

/-- The payload of a vote. -/
def votePayload (proposalId : String) (choice votedAt : Json) : Json := .obj
  [("proposal_id", .str proposalId), ("choice", choice), ("voted_at", votedAt)]

/-- `v.get(name, "")`. -/
def voteField (v : Fields) (name : String) : Json := (Json.lookup v name).getD (.str "")

/-- The vote is a yes of the key, signed for the proposal. -/
def votesYes (proposalId : String) (v : Fields) (voter : String) : Bool :=
  (Json.get v "choice").eqStr "yes" &&
    match voteField v "sig" with
    | .str sig =>
      verifyHex H voter
        (canonicalJson (votePayload proposalId (.str "yes") (voteField v "voted_at"))) sig
    | _ => false

/-- One vote in the loop of `count_yes_votes`. -/
def countVote (proposalId : String) (eligible seen : List String) (v : Fields) :
    Except String (List String) :=
  match voteField v "voter_pubkey" with
  | .str voter =>
    if seen.contains voter || !eligible.contains voter then return seen
    else if votesYes H proposalId v voter then return seen ++ [voter]
    else return seen
  | .arr _ | .obj _ => throw "unhashable type"
  | _ => return seen

/-- The members whose yes votes count. -/
def yesVoters (p : PolicyChangeProposal) (eligible : List String) : Except String (List String) :=
  p.votes.foldlM (countVote H p.proposalId eligible) []

/-- `count_yes_votes`. -/
def countYesVotes (p : PolicyChangeProposal) (eligible : List String) : Except String ℕ := do
  let seen ← yesVoters H p eligible
  return seen.length

/-- `cast_vote`. -/
def castVote (voter : H.SecretKey) (p : PolicyChangeProposal) (choice votedAt : String) :
    Except String Fields := do
  require (["yes", "no", "abstain"].contains choice) "choice must be yes / no / abstain"
  let payload ← expect (canonicalJson (votePayload p.proposalId (.str choice) (.str votedAt)))
    "canonical_json"
  return [("voter_pubkey", .str (hex (H.pubkey voter))), ("choice", .str choice),
    ("voted_at", .str votedAt), ("sig", .str (hex (H.sign voter payload)))]

/-! ## Resolution -/

variable (fromisoformat : String → Option Stamp)

/-- Whether the proposal has expired; a time with an offset does not compare. -/
def expired (now : ℤ) (p : PolicyChangeProposal) : Except String Bool :=
  if p.expiresAt == "" then .ok false
  else
    match fromisoformat p.expiresAt with
    | some (.naive t) => .ok (t < now)
    | some .aware => .error "can't compare offset-naive and offset-aware datetimes"
    | none => .ok false

/-- `resolve_proposal`. -/
def resolveProposal (now : ℤ) (p : PolicyChangeProposal) (g : GroupRecord) :
    Except String (Bool × String) := do
  if !p.verifyProposerSignature H then return (false, "proposer signature invalid")
  if ← expired fromisoformat now p then return (false, "proposal expired")
  let yes ← countYesVotes H p g.memberPubkeys
  let need := g.memberPubkeys.length / 2 + 1
  if need ≤ yes then
    return (true, "passed (" ++ toString yes ++ "/" ++ toString g.memberPubkeys.length ++
      " yes; need " ++ toString need ++ ")")
  return (false, "insufficient yes votes (" ++ toString yes ++ "/" ++
    toString g.memberPubkeys.length ++ "; need " ++ toString need ++ ")")

/-- The members after the proposal, sorted. -/
def newMembers (p : PolicyChangeProposal) (g : GroupRecord) : List String :=
  CapToken.sortedSet ((g.memberPubkeys ++ p.proposedAddMembers).filter fun pk =>
    !p.proposedRemoveMembers.contains pk)

/-- The record that a passed proposal makes, unsigned. -/
def updatedRecord (signer stamp : String) (p : PolicyChangeProposal) (g : GroupRecord) :
    GroupRecord :=
  { g with
    displayName := p.proposedDisplayName.getD g.displayName
    policy := p.proposedPolicy
    memberPubkeys := newMembers p g
    updatedAt := stamp
    signerPubkey := signer
    sig := "" }

/-- `apply_proposal`. -/
def applyProposal (now : ℤ) (stamp : String) (signer : H.SecretKey) (p : PolicyChangeProposal)
    (g : GroupRecord) : Except String GroupRecord := do
  let (passed, reason) ← resolveProposal H fromisoformat now p g
  require passed ("proposal not passed: " ++ reason)
  require (g.adminPubkeys.contains (hex (H.pubkey signer)))
    "only an admin may apply a passed proposal"
  let updated := updatedRecord (hex (H.pubkey signer)) stamp p g
  let payload ← expect (canonicalJson updated.signableDict) "canonical_json"
  return { updated with sig := hex (H.sign signer payload) }

/-! ## What passes -/

variable {H fromisoformat} {p : PolicyChangeProposal} {g record : GroupRecord} {now : ℤ}
  {stamp : String} {signer : H.SecretKey}

variable (H fromisoformat) in
/-- The proposal passes. -/
structure Passes (now : ℤ) (p : PolicyChangeProposal) (g : GroupRecord) : Prop where
  signed : p.verifyProposerSignature H = true
  live : expired fromisoformat now p = .ok false
  voters : ∃ seen, yesVoters H p g.memberPubkeys = .ok seen ∧
    g.memberPubkeys.length / 2 + 1 ≤ seen.length

theorem resolveProposal_passes :
    (∃ reason, resolveProposal H fromisoformat now p g = .ok (true, reason)) ↔
      Passes H fromisoformat now p g := by
  constructor
  · rintro ⟨reason, h⟩
    unfold resolveProposal at h
    split at h
    · cases h
    · rename_i hsig
      simp only [bind_eq_ok, countYesVotes] at h
      obtain ⟨e, he, h⟩ := h
      split at h
      · cases h
      · rename_i hlive
        simp only [bind_eq_ok, pure_eq_ok] at h
        obtain ⟨_, ⟨seen, hseen, rfl⟩, h⟩ := h
        split at h
        · rename_i hneed
          exact ⟨by simpa using hsig, by rw [he, Bool.eq_false_iff.2 hlive], seen, hseen, hneed⟩
        · cases h
  · rintro ⟨hsig, hlive, seen, hseen, hneed⟩
    simp only [resolveProposal, hsig, hlive, countYesVotes, hseen]
    exact ⟨_, if_pos hneed⟩

theorem applyProposal_eq_ok : applyProposal H fromisoformat now stamp signer p g = .ok record ↔
    Passes H fromisoformat now p g ∧ hex (H.pubkey signer) ∈ g.adminPubkeys ∧
      ∃ payload, canonicalJson (updatedRecord (hex (H.pubkey signer)) stamp p g).signableDict =
        some payload ∧
        record = { updatedRecord (hex (H.pubkey signer)) stamp p g with
          sig := hex (H.sign signer payload) } := by
  simp only [applyProposal, bind_eq_ok]
  constructor
  · rintro ⟨⟨passed, reason⟩, hres, _, hp, _, hadm, payload, hpay, hrec⟩
    rw [require_eq_ok] at hp hadm
    cases hp
    exact ⟨resolveProposal_passes.1 ⟨reason, hres⟩, List.contains_iff_mem.1 hadm, payload,
      expect_eq_ok.1 hpay, (pure_eq_ok.1 hrec).symm⟩
  · rintro ⟨hp, hadm, payload, hpay, rfl⟩
    obtain ⟨reason, hres⟩ := resolveProposal_passes.2 hp
    exact ⟨_, hres, (), require_eq_ok.2 rfl, (), require_eq_ok.2 (List.contains_iff_mem.2 hadm),
      payload, expect_eq_ok.2 hpay, rfl⟩

/-! ## What a vote binds -/

/-- What a proposal changes. -/
structure Change where
  policy : GroupPolicy
  addMembers : List String
  removeMembers : List String
  displayName : Option String
  deriving DecidableEq

/-- The change of a proposal. -/
def PolicyChangeProposal.change (p : PolicyChangeProposal) : Change :=
  ⟨p.proposedPolicy, p.proposedAddMembers, p.proposedRemoveMembers, p.proposedDisplayName⟩

/-- A yes vote that counts for the proposal, and for none with another change. -/
def Binds (H : Host) (p : PolicyChangeProposal) (v : Fields) (voter : String) : Prop :=
  votesYes H p.proposalId v voter = true ∧
    ∀ q : PolicyChangeProposal, votesYes H q.proposalId v voter = true → q.change = p.change

/-- The keys of the members. -/
def memberKeys (g : GroupRecord) : List Bytes := (g.memberPubkeys.filterMap fromhex).dedup

/-- What a passed vote is to mean: the proposal names the group, its proposer is a member, and
    more than half of the keys of the members signed a vote that binds the change. -/
structure Authorised (H : Host) (p : PolicyChangeProposal) (g : GroupRecord) : Prop where
  group : p.groupId = g.groupId
  proposer : ∃ k, fromhex p.proposerPubkey = some k ∧ k ∈ memberKeys g
  majority : ∃ keys : List Bytes, keys.Nodup ∧ (memberKeys g).length < 2 * keys.length ∧
    ∀ k ∈ keys, ∃ pk ∈ g.memberPubkeys, fromhex pk = some k ∧
      ∃ v ∈ p.votes, voteField v "voter_pubkey" = .str pk ∧ Binds H p v pk

/-- A text that is longer than another. -/
theorem append_mark_ne (s : String) : s ++ "!" ≠ s := by
  intro h
  have := congrArg String.length h
  rw [String.length_append] at this
  exact absurd this (by simp)

/-- **No vote binds a change.** -/
theorem not_binds (v : Fields) (voter : String) : ¬ Binds H p v voter := by
  rintro ⟨hv, hbind⟩
  have := congrArg Change.displayName
    (hbind { p with proposedDisplayName := some (p.proposedDisplayName.getD "" ++ "!") } hv)
  cases hname : p.proposedDisplayName with
  | none =>
    rw [PolicyChangeProposal.change, PolicyChangeProposal.change, hname] at this
    cases this
  | some name =>
    rw [PolicyChangeProposal.change, PolicyChangeProposal.change, hname] at this
    exact append_mark_ne name (Option.some.inj this)

theorem not_authorised : ¬ Authorised H p g := by
  rintro ⟨-, -, keys, -, hlen, hkeys⟩
  obtain ⟨k, hk⟩ := List.exists_mem_of_length_pos (by omega : 0 < keys.length)
  obtain ⟨pk, -, -, v, -, -, hbind⟩ := hkeys k hk
  exact not_binds v pk hbind

/-! ## Another proposal on the same votes -/

/-- A proposal of the key with the given change and group, on the votes of another one. -/
def unsignedOn (p : PolicyChangeProposal) (c : Change) (groupId proposer : String) :
    PolicyChangeProposal where
  proposalId := p.proposalId
  groupId := groupId
  proposerPubkey := proposer
  proposedPolicy := c.policy
  proposedAddMembers := c.addMembers
  proposedRemoveMembers := c.removeMembers
  proposedDisplayName := c.displayName
  rationale := ""
  createdAt := ""
  expiresAt := ""
  votes := p.votes
  proposerSig := ""

/-- The key signs a proposal. -/
def PolicyChangeProposal.signedBy (H : Host) (k : H.SecretKey) (p : PolicyChangeProposal) :
    PolicyChangeProposal :=
  { p with
    proposerPubkey := hex (H.pubkey k)
    proposerSig := hex (H.sign k ((canonicalJson
      { p with proposerPubkey := hex (H.pubkey k) }.signableDict).getD [])) }

theorem encodable_proposal : p.signableDict.encodable = true := by
  have hstr : ∀ l : List String, (Json.arr (l.map .str)).encodable = true := by
    intro l
    rw [Json.encodable_arr]
    intro j hj
    obtain ⟨s, -, rfl⟩ := List.mem_map.1 hj
    rfl
  rw [PolicyChangeProposal.signableDict, Json.encodable_obj]
  intro q hq
  simp only [List.mem_cons, List.not_mem_nil, or_false] at hq
  rcases hq with rfl | rfl | rfl | rfl | rfl | rfl | rfl | rfl | rfl | rfl
  case inr.inr.inr.inr.inr.inr.inl => cases p.proposedDisplayName <;> rfl
  all_goals first | rfl | exact hstr _

/-- What a key signs verifies. -/
theorem verify_signedBy (k : H.SecretKey) : (p.signedBy H k).verifyProposerSignature H = true := by
  simp only [PolicyChangeProposal.verifyProposerSignature, Bool.and_eq_true, bne_iff_ne, ne_eq]
  exact ⟨⟨hex_ne_empty (sign_ne_nil H k _), hex_ne_empty (pubkey_ne_nil H k)⟩,
    verifyHex_canonicalJson H k (canonicalJson_of_encodable
      (encodable_proposal (p := { p with proposerPubkey := hex (H.pubkey k) })))⟩

/-- **The votes of a proposal that passes carry any other change**, for a proposer of any key
    that names any group. -/
theorem passes_on_same_votes (h : Passes H fromisoformat now p g) (c : Change) (groupId : String)
    (k : H.SecretKey) :
    Passes H fromisoformat now ((unsignedOn p c groupId "").signedBy H k) g := by
  obtain ⟨seen, hseen, hneed⟩ := h.voters
  exact ⟨verify_signedBy k, rfl, seen, hseen, hneed⟩

/-- The other proposal is applied as well. -/
theorem apply_on_same_votes (h : applyProposal H fromisoformat now stamp signer p g = .ok record)
    (c : Change) (groupId : String) (k : H.SecretKey) :
    ∃ record', applyProposal H fromisoformat now stamp signer
      ((unsignedOn p c groupId "").signedBy H k) g = .ok record' ∧
      record'.policy = c.policy ∧ record'.displayName = c.displayName.getD g.displayName ∧
      record'.memberPubkeys = newMembers ((unsignedOn p c groupId "").signedBy H k) g := by
  obtain ⟨hp, hadm, payload, hpay, -⟩ := applyProposal_eq_ok.1 h
  have henc : (Json.obj g.metadata).encodable = true := by
    have := (canonicalJson_eq_some hpay).1
    rwa [GroupRecord.encodable_signableDict] at this
  obtain ⟨payload', hpay'⟩ : ∃ b, canonicalJson (updatedRecord (hex (H.pubkey signer)) stamp
      ((unsignedOn p c groupId "").signedBy H k) g).signableDict = some b := by
    refine canonicalJson_of_encodable ?_
    exact (GroupRecord.encodable_signableDict).trans henc
  exact ⟨_, applyProposal_eq_ok.2 ⟨passes_on_same_votes hp c groupId k, hadm, payload', hpay', rfl⟩,
    rfl, rfl, rfl⟩

/-- **A vote authorises no change**: whenever a proposal is applied, its votes were not for
    its change, and a holder of any key has every other change applied on the same votes. -/
theorem votes_carry_any_change
    (h : applyProposal H fromisoformat now stamp signer p g = .ok record) :
    ¬ Authorised H p g ∧ ∀ (c : Change) (groupId : String) (k : H.SecretKey),
      ∃ (q : PolicyChangeProposal) (record' : GroupRecord),
        q.proposalId = p.proposalId ∧ q.votes = p.votes ∧ q.change = c ∧ q.groupId = groupId ∧
        q.proposerPubkey = hex (H.pubkey k) ∧
        applyProposal H fromisoformat now stamp signer q g = .ok record' ∧
        record'.policy = c.policy ∧ record'.displayName = c.displayName.getD g.displayName ∧
        record'.memberPubkeys = newMembers q g := by
  refine ⟨not_authorised, fun c groupId k => ?_⟩
  obtain ⟨record', hrec⟩ := apply_on_same_votes h c groupId k
  exact ⟨(unsignedOn p c groupId "").signedBy H k, record', rfl, rfl, rfl, rfl, rfl, hrec⟩

/-! ## A group of one member -/

/-- A group of one key. -/
def soleGroup (H : Host) (k : H.SecretKey) : GroupRecord where
  groupId := "g"
  slug := "dao"
  displayName := "DAO"
  description := ""
  policy := .voted
  founderPubkey := hex (H.pubkey k)
  memberPubkeys := [hex (H.pubkey k)]
  adminPubkeys := [hex (H.pubkey k)]
  createdAt := ""
  updatedAt := ""
  metadata := []
  signerPubkey := hex (H.pubkey k)

/-- The yes of the key. -/
def soleVote (H : Host) (k : H.SecretKey) (proposalId : String) : Fields :=
  [("voter_pubkey", .str (hex (H.pubkey k))), ("choice", .str "yes"), ("voted_at", .str ""),
    ("sig", .str (hex (H.sign k
      ((canonicalJson (votePayload proposalId (.str "yes") (.str ""))).getD []))))]

/-- Its proposal to close the group. -/
def soleProposal (H : Host) (k : H.SecretKey) : PolicyChangeProposal :=
  PolicyChangeProposal.signedBy H k
    { proposalId := "p", groupId := "g", proposerPubkey := "", proposedPolicy := .closed,
      proposedAddMembers := [], proposedRemoveMembers := [], proposedDisplayName := none,
      rationale := "", createdAt := "", expiresAt := "", votes := [soleVote H k "p"],
      proposerSig := "" }

theorem isPubkeyHex_hex (k : H.SecretKey) : isPubkeyHex (hex (H.pubkey k)) = true := by
  have hlen : ∀ b : Bytes, (b.flatMap fun x => hexDigits 2 x.toNat).length = 2 * b.length := by
    intro b
    induction b with
    | nil => rfl
    | cons x b ih =>
      rw [List.flatMap_cons, List.length_append, length_hexDigits, ih, List.length_cons]
      omega
  rw [isPubkeyHex, fromhex_hex, len_eq, hex, String.length_ofList, hlen, H.pubkey_length]
  rfl

theorem normalizeGroupName_dao : normalizeGroupName H id "dao" = .ok "dao" := by
  have hslug : stripDashes (dashRuns (· == '-') (dashRuns (fun c => !isSlugChar c)
      (chars (id (CapToken.stripSpace "dao"))))) = ['d', 'a', 'o'] := by decide
  simp only [normalizeGroupName, hslug]
  rfl

theorem soleGroup_wellFormed (k : H.SecretKey) : (soleGroup H k).WellFormed H id where
  id := by simp [soleGroup]
  slugNonempty := by simp [soleGroup]
  normal := normalizeGroupName_dao
  founderNonempty := hex_ne_empty (pubkey_ne_nil H k)
  founderMember := List.mem_singleton_self _
  founderAdmin := List.mem_singleton_self _
  signerAdmin := List.mem_singleton_self _
  membersOnce := List.nodup_singleton _
  adminsOnce := List.nodup_singleton _
  adminMembers := fun _ h => h
  keys := by
    intro pk hpk
    rw [List.mem_singleton.1 hpk]
    exact isPubkeyHex_hex k

theorem votesYes_soleVote (k : H.SecretKey) (proposalId : String) :
    votesYes H proposalId (soleVote H k proposalId) (hex (H.pubkey k)) = true := by
  have henc : (votePayload proposalId (.str "yes") (.str "")).encodable = true := rfl
  exact verifyHex_canonicalJson H k (canonicalJson_of_encodable henc)

theorem soleProposal_passes (k : H.SecretKey) :
    Passes H fromisoformat now (soleProposal H k) (soleGroup H k) where
  signed := verify_signedBy k
  live := rfl
  voters := by
    refine ⟨[hex (H.pubkey k)], ?_, by simp [soleGroup]⟩
    have hcount : countVote H "p" [hex (H.pubkey k)] [] (soleVote H k "p") =
        .ok [hex (H.pubkey k)] := by
      have hfield : voteField (soleVote H k "p") "voter_pubkey" = .str (hex (H.pubkey k)) := rfl
      rw [countVote, hfield]
      simp only [votesYes_soleVote]
      simp
    change [soleVote H k "p"].foldlM (countVote H "p" [hex (H.pubkey k)]) [] = _
    rw [List.foldlM_cons, hcount]
    rfl

theorem exists_soleRecord (k : H.SecretKey) : ∃ record,
    applyProposal H (fun _ => none) 0 "" k (soleProposal H k) (soleGroup H k) = .ok record := by
  obtain ⟨payload, hpay⟩ : ∃ b, canonicalJson (updatedRecord (hex (H.pubkey k)) ""
      (soleProposal H k) (soleGroup H k)).signableDict = some b := by
    refine canonicalJson_of_encodable ?_
    exact GroupRecord.encodable_signableDict.trans rfl
  exact ⟨_, applyProposal_eq_ok.2
    ⟨soleProposal_passes k, List.mem_singleton_self _, payload, hpay, rfl⟩⟩

/-- The theorem on a group of one member. -/
theorem votes_carry_any_change_sole : ∃ record,
    applyProposal checksumHost (fun _ => none) 0 "" (1 : UInt8) (soleProposal checksumHost (1 : UInt8))
      (soleGroup checksumHost (1 : UInt8)) = .ok record ∧
    ¬ Authorised checksumHost (soleProposal checksumHost (1 : UInt8))
      (soleGroup checksumHost (1 : UInt8)) := by
  obtain ⟨record, happly⟩ := exists_soleRecord (H := checksumHost) (1 : UInt8)
  exact ⟨record, happly, (votes_carry_any_change happly).1⟩

/-- **An outsider takes over a group**: on the one vote to close the group, the key 2, which is
    no member, has a proposal for another group applied that makes it the only member. -/
theorem outsider_takes_over : ∃ (q : PolicyChangeProposal) (record record' : GroupRecord),
    (soleGroup checksumHost (1 : UInt8)).WellFormed checksumHost id ∧
    applyProposal checksumHost (fun _ => none) 0 "" (1 : UInt8) (soleProposal checksumHost (1 : UInt8))
      (soleGroup checksumHost (1 : UInt8)) = .ok record ∧ record.policy = .closed ∧
    applyProposal checksumHost (fun _ => none) 0 "" (1 : UInt8) q
      (soleGroup checksumHost (1 : UInt8)) = .ok record' ∧
    q.votes = (soleProposal checksumHost (1 : UInt8)).votes ∧
    q.groupId ≠ (soleGroup checksumHost (1 : UInt8)).groupId ∧
    q.proposerPubkey ∉ (soleGroup checksumHost (1 : UInt8)).memberPubkeys ∧
    record'.memberPubkeys = [hex (checksumHost.pubkey (2 : UInt8))] ∧
    ¬ Authorised checksumHost q (soleGroup checksumHost (1 : UInt8)) := by
  obtain ⟨record, happly⟩ := exists_soleRecord (H := checksumHost) (1 : UInt8)
  have hpolicy : record.policy = .closed := by
    obtain ⟨-, -, _, -, rfl⟩ := applyProposal_eq_ok.1 happly
    rfl
  obtain ⟨record', happly', -, -, hmembers⟩ := apply_on_same_votes happly
    ⟨.open, [hex (checksumHost.pubkey (2 : UInt8))], [hex (checksumHost.pubkey (1 : UInt8))], none⟩
    "other" (2 : UInt8)
  have hne : hex (checksumHost.pubkey (2 : UInt8)) ≠ hex (checksumHost.pubkey (1 : UInt8)) :=
    fun h => absurd (hex_injective h) (by decide)
  refine ⟨_, record, record', soleGroup_wellFormed _, happly, hpolicy, happly', rfl, by
    simp [PolicyChangeProposal.signedBy, unsignedOn, soleGroup], ?_, ?_, not_authorised⟩
  · exact fun h => hne (List.mem_singleton.1 h)
  · rw [hmembers]
    simp [newMembers, CapToken.sortedSet, PolicyChangeProposal.signedBy, unsignedOn, soleGroup, hne]

end NthDao.Groups
