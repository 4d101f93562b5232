/-
  The registry of signed groups (`nth_dao/group_registry.py`).

  * `publish` stores a record; `publish_eq_ok` says when it does;
  * `Keeps`: a proposal that removes no admin and adds 64-digit keys alone;
    `publish_applied_iff`: the record that a passed proposal makes is stored iff it keeps;
  * `World` and `Act`: publications, direct or of what `apply_proposal` returns, with the
    changes of policy and members that they make;
  * `registry_governed`: while nobody changes policy or members directly and no proposal is
    enacted twice, each change is that of a passed proposal, and some admin can enact
    every proposal that keeps.

  `propose_policy_change`, `cast_vote` and `apply_proposal` return values and leave the
  store as it is.
-/
import NthDao.Groups.Votes
import NthDao.Reach

namespace NthDao.Groups

open Py Trust

variable (H : Host) (lower : String → String)

/-! ## Publication -/

/-- The records by file name. -/
abbrev Store := String → Option GroupRecord

/-- `_path_for_slug`. -/
def pathForSlug (slug : String) : String := safeId H slug

/-- What `publish` checks of the record alone. -/
def checkRecord (record : GroupRecord) : Except String Unit := do
  let wellFormed ← record.isWellFormed H lower
  require wellFormed "refuse to publish: group record malformed"
  require (record.verifySignature H) "refuse to publish: signature invalid"

/-- What `publish` checks against the record that is stored. -/
def checkPrior (record prior : GroupRecord) : Except String Unit := do
  require (prior.groupId == record.groupId) ("slug " ++
    String.ofList (reprStr H.isprintable record.slug) ++ " already taken by another group (group_id=" ++
    prior.groupId ++ ")")
  require (prior.adminPubkeys.contains record.signerPubkey)
    "only current group admins may update a group"
  require (record.founderPubkey == prior.founderPubkey) "founder_pubkey cannot change"
  require (record.slug == prior.slug) "group slug cannot change"

/-- `publish`. -/
def publish (s : Store) (record : GroupRecord) : Except String Store := do
  checkRecord H lower record
  match s (pathForSlug H record.slug) with
  | none => return Function.update s (pathForSlug H record.slug) (some record)
  | some prior => do
    checkPrior H record prior
    return Function.update s (pathForSlug H record.slug) (some record)

variable {H lower}

theorem checkRecord_eq_ok {record : GroupRecord} {u : Unit} :
    checkRecord H lower record = .ok u ↔
      record.WellFormed H lower ∧ record.verifySignature H = true := by
  simp only [checkRecord, bind_eq_ok]
  constructor
  · rintro ⟨wf, hwf, _, hw, hs⟩
    rw [require_eq_ok] at hw hs
    cases hw
    exact ⟨GroupRecord.isWellFormed_iff.1 hwf, hs⟩
  · rintro ⟨hwf, hs⟩
    exact ⟨true, GroupRecord.isWellFormed_iff.2 hwf, (), require_eq_ok.2 rfl, require_eq_ok.2 hs⟩

/-- What an update keeps of the record that is stored. -/
structure Updates (record prior : GroupRecord) : Prop where
  id : prior.groupId = record.groupId
  signer : record.signerPubkey ∈ prior.adminPubkeys
  founder : record.founderPubkey = prior.founderPubkey
  slug : record.slug = prior.slug

theorem checkPrior_eq_ok {record prior : GroupRecord} {u : Unit} :
    checkPrior H record prior = .ok u ↔ Updates record prior := by
  simp only [checkPrior, bind_eq_ok, require_eq_ok, beq_iff_eq, List.contains_iff_mem]
  constructor
  · rintro ⟨_, hid, _, hsig, _, hf, hs⟩
    exact ⟨hid, hsig, hf, hs⟩
  · rintro ⟨hid, hsig, hf, hs⟩
    exact ⟨(), hid, (), hsig, (), hf, hs⟩

theorem publish_eq_ok {s s' : Store} {record : GroupRecord} :
    publish H lower s record = .ok s' ↔
      record.WellFormed H lower ∧ record.verifySignature H = true ∧
      (∀ prior, s (pathForSlug H record.slug) = some prior → Updates record prior) ∧
      s' = Function.update s (pathForSlug H record.slug) (some record) := by
  simp only [publish, bind_eq_ok, checkRecord_eq_ok]
  cases hs : s (pathForSlug H record.slug) with
  | none =>
    constructor
    · rintro ⟨_, ⟨hwf, hv⟩, h⟩
      exact ⟨hwf, hv, nofun, (pure_eq_ok.1 h).symm⟩
    · rintro ⟨hwf, hv, -, rfl⟩
      exact ⟨(), ⟨hwf, hv⟩, rfl⟩
  | some prior =>
    simp only [bind_eq_ok, checkPrior_eq_ok, Option.some.injEq, forall_eq']
    constructor
    · rintro ⟨_, ⟨hwf, hv⟩, _, hu, h⟩
      exact ⟨hwf, hv, hu, (pure_eq_ok.1 h).symm⟩
    · rintro ⟨hwf, hv, hu, rfl⟩
      exact ⟨(), ⟨hwf, hv⟩, (), hu, rfl⟩

/-! ## What a passed proposal makes -/

variable {fromisoformat : String → Option Stamp} {p : PolicyChangeProposal} {g record : GroupRecord}
  {now : ℤ} {stamp : String} {signer : H.SecretKey}

/-- The proposal removes no admin and adds keys of 64 digits alone. -/
structure Keeps (p : PolicyChangeProposal) (g : GroupRecord) : Prop where
  admins : ∀ pk ∈ p.proposedRemoveMembers, pk ∉ g.adminPubkeys
  keys : ∀ pk ∈ p.proposedAddMembers, pk ∈ p.proposedRemoveMembers ∨ isPubkeyHex pk = true

theorem mem_newMembers {pk : String} : pk ∈ newMembers p g ↔
    (pk ∈ g.memberPubkeys ∨ pk ∈ p.proposedAddMembers) ∧ pk ∉ p.proposedRemoveMembers := by
  simp [newMembers, CapToken.mem_sortedSet, or_and_right]

theorem nodup_newMembers : (newMembers p g).Nodup := by
  rw [newMembers, CapToken.sortedSet]
  exact (List.perm_insertionSort _ _).nodup_iff.2 (List.nodup_dedup _)

/-- The signature that `apply_proposal` makes verifies. -/
theorem verifySignature_applied
    (h : applyProposal H fromisoformat now stamp signer p g = .ok record) :
    record.verifySignature H = true := by
  obtain ⟨-, -, payload, hpay, rfl⟩ := applyProposal_eq_ok.1 h
  simp only [GroupRecord.verifySignature, Bool.and_eq_true, bne_iff_ne, ne_eq]
  exact ⟨⟨hex_ne_empty (sign_ne_nil H signer _), hex_ne_empty (pubkey_ne_nil H signer)⟩,
    verifyHex_sign H signer hpay⟩

/-- **`apply_proposal` keeps a record well formed iff the proposal keeps.** -/
theorem wellFormed_applied_iff (hg : g.WellFormed H lower)
    (h : applyProposal H fromisoformat now stamp signer p g = .ok record) :
    record.WellFormed H lower ↔ Keeps p g := by
  obtain ⟨-, hadm, payload, -, rfl⟩ := applyProposal_eq_ok.1 h
  constructor
  · intro hr
    constructor
    · intro pk hpk hmem
      exact (mem_newMembers.1 (hr.adminMembers pk hmem)).2 hpk
    · intro pk hpk
      by_cases hrem : pk ∈ p.proposedRemoveMembers
      · exact Or.inl hrem
      · exact Or.inr (hr.keys pk (mem_newMembers.2 ⟨Or.inr hpk, hrem⟩))
  · intro hk
    have hkept : ∀ pk ∈ g.adminPubkeys, pk ∈ newMembers p g := fun pk hpk =>
      mem_newMembers.2 ⟨Or.inl (hg.adminMembers pk hpk), fun hrem => hk.admins pk hrem hpk⟩
    exact {
      id := hg.id
      slugNonempty := hg.slugNonempty
      normal := hg.normal
      founderNonempty := hg.founderNonempty
      founderMember := hkept _ hg.founderAdmin
      founderAdmin := hg.founderAdmin
      signerAdmin := hadm
      membersOnce := nodup_newMembers
      adminsOnce := hg.adminsOnce
      adminMembers := hkept
      keys := by
        intro pk hpk
        obtain ⟨hpk | hpk, hrem⟩ := mem_newMembers.1 hpk
        · exact hg.keys pk hpk
        · exact (hk.keys pk hpk).resolve_left hrem }

/-- The record that a passed proposal makes of the stored one is stored iff it keeps. -/
theorem publish_applied_iff {s : Store} (hg : g.WellFormed H lower)
    (hs : s (pathForSlug H g.slug) = some g)
    (h : applyProposal H fromisoformat now stamp signer p g = .ok record) :
    (∃ s', publish H lower s record = .ok s') ↔ Keeps p g := by
  have hslug : record.slug = g.slug := by
    obtain ⟨-, -, -, -, rfl⟩ := applyProposal_eq_ok.1 h
    rfl
  rw [← wellFormed_applied_iff hg h]
  simp only [publish_eq_ok, hslug, hs, Option.some.injEq, forall_eq']
  constructor
  · rintro ⟨_, hwf, -⟩
    exact hwf
  · intro hwf
    refine ⟨_, hwf, verifySignature_applied h, ?_, rfl⟩
    obtain ⟨-, hadm, -, -, rfl⟩ := applyProposal_eq_ok.1 h
    exact ⟨rfl, hadm, rfl, rfl⟩

/-! ## Runs -/

/-- A change of policy or members of a stored record, with the proposal that was enacted. -/
structure Amendment where
  before : GroupRecord
  after : GroupRecord
  origin : Option PolicyChangeProposal

/-- Two records with one policy and the same members. -/
def SameRule (before after : GroupRecord) : Prop :=
  after.policy = before.policy ∧ (∀ pk ∈ after.memberPubkeys, pk ∈ before.memberPubkeys) ∧
    ∀ pk ∈ before.memberPubkeys, pk ∈ after.memberPubkeys

instance (before after : GroupRecord) : Decidable (SameRule before after) :=
  inferInstanceAs (Decidable (_ ∧ _ ∧ _))

/-- The registry, with the amendments of each file so far. -/
structure World where
  stored : Store := fun _ => none
  amendments : String → List Amendment := fun _ => []

/-- The calls that write. -/
inductive Act (H : Host) where
  /-- `publish` of any record -/
  | publish (record : GroupRecord)
  /-- `publish(apply_proposal(signer, p, g))` of the record `g` of a file -/
  | enact (file : String) (signer : H.SecretKey) (p : PolicyChangeProposal) (now : ℤ) (stamp : String)

variable (H lower fromisoformat)

/-- A record replaces that of its file. -/
def World.put (w : World) (record : GroupRecord) (s' : Store)
    (origin : Option PolicyChangeProposal) : World where
  stored := s'
  amendments :=
    match w.stored (pathForSlug H record.slug) with
    | none => w.amendments
    | some prior =>
      if SameRule prior record then w.amendments
      else Function.update w.amendments (pathForSlug H record.slug)
        (w.amendments (pathForSlug H record.slug) ++ [⟨prior, record, origin⟩])

/-- A call; one that raises leaves the registry as it is. -/
def World.step (w : World) : Act H → Option World
  | .publish record =>
    match publish H lower w.stored record with
    | .ok s' => some (w.put H record s' none)
    | .error _ => some w
  | .enact file signer p now stamp =>
    match w.stored file with
    | none => some w
    | some g =>
      match applyProposal H fromisoformat now stamp signer p g with
      | .error _ => some w
      | .ok record =>
        match publish H lower w.stored record with
        | .ok s' => some (w.put H record s' (some p))
        | .error _ => some w

/-- Each amendment of a file is the change of a proposal that passed, and none is enacted twice. -/
structure World.Governed (w : World) (file : String) : Prop where
  passed : ∀ a ∈ w.amendments file, ∃ p now stamp signer, a.origin = some p ∧
    applyProposal H fromisoformat now stamp signer p a.before = .ok a.after
  once : ((w.amendments file).map fun a => a.origin.map PolicyChangeProposal.proposalId).Nodup

/-- Some admin of the record can enact the proposal, at any time. -/
def Enactable (s : Store) (now : ℤ) (p : PolicyChangeProposal) (g : GroupRecord) : Prop :=
  ∃ signer, hex (H.pubkey signer) ∈ g.adminPubkeys ∧ ∀ stamp, ∃ record s',
    applyProposal H fromisoformat now stamp signer p g = .ok record ∧
      publish H lower s record = .ok s'

variable {H}

/-- Records are signed by identities, a stored one is replaced by its own rule or enacted, and no
    proposal is enacted that was enacted before. -/
def World.Lawful (w : World) : Act H → Prop
  | .publish record => (∃ k, record.signerPubkey = hex (H.pubkey k)) ∧
      ∀ prior, w.stored (pathForSlug H record.slug) = some prior → SameRule prior record
  | .enact file _ p _ _ => ∀ a ∈ w.amendments file,
      a.origin.map PolicyChangeProposal.proposalId ≠ some p.proposalId

variable {lower fromisoformat}

/-- What holds of a registry in every run. -/
structure Sound (H : Host) (lower : String → String) (fromisoformat : String → Option Stamp)
    (w : World) : Prop where
  filed : ∀ file g, w.stored file = some g → pathForSlug H g.slug = file
  wellFormed : ∀ file g, w.stored file = some g → g.WellFormed H lower
  verified : ∀ file g, w.stored file = some g → g.verifySignature H = true
  identity : ∀ file g, w.stored file = some g → ∃ k, g.signerPubkey = hex (H.pubkey k)
  governed : ∀ file, w.Governed H fromisoformat file

theorem sound_start : Sound H lower fromisoformat {} where
  filed := fun _ _ h => nomatch h
  wellFormed := fun _ _ h => nomatch h
  verified := fun _ _ h => nomatch h
  identity := fun _ _ h => nomatch h
  governed := fun _ => ⟨List.forall_mem_nil _, List.nodup_nil⟩

section

variable (H) (w : World) (record : GroupRecord) (s' : Store) (origin : Option PolicyChangeProposal)

@[simp] theorem World.put_stored : (w.put H record s' origin).stored = s' := rfl

theorem World.put_amendments_none (h : w.stored (pathForSlug H record.slug) = none) :
    (w.put H record s' origin).amendments = w.amendments := by
  rw [World.put, h]

theorem World.put_amendments_some {prior : GroupRecord}
    (h : w.stored (pathForSlug H record.slug) = some prior) :
    (w.put H record s' origin).amendments = if SameRule prior record then w.amendments
      else Function.update w.amendments (pathForSlug H record.slug)
        (w.amendments (pathForSlug H record.slug) ++ [⟨prior, record, origin⟩]) := by
  rw [World.put, h]

/-- What a publication appends to the amendments of a file. -/
theorem World.put_amendments (file : String) :
    (w.put H record s' origin).amendments file = w.amendments file ∨
      ∃ prior, file = pathForSlug H record.slug ∧ w.stored file = some prior ∧
        ¬ SameRule prior record ∧
        (w.put H record s' origin).amendments file =
          w.amendments file ++ [⟨prior, record, origin⟩] := by
  cases hprior : w.stored (pathForSlug H record.slug) with
  | none => exact Or.inl (by rw [put_amendments_none (h := hprior)])
  | some prior =>
    rw [put_amendments_some (h := hprior)]
    by_cases hsame : SameRule prior record
    · exact Or.inl (by rw [if_pos hsame])
    · rw [if_neg hsame]
      by_cases hf : file = pathForSlug H record.slug
      · subst hf
        exact Or.inr ⟨prior, rfl, hprior, hsame, Function.update_self ..⟩
      · exact Or.inl (Function.update_of_ne hf ..)

end

/-- A publication keeps the invariant, if what it amends is governed. -/
theorem Sound.put {w : World} (hs : Sound H lower fromisoformat w) {record : GroupRecord}
    {s' : Store} {origin : Option PolicyChangeProposal}
    (h : publish H lower w.stored record = .ok s')
    (hid : ∃ k, record.signerPubkey = hex (H.pubkey k))
    (hgov : ∀ prior, w.stored (pathForSlug H record.slug) = some prior → ¬ SameRule prior record →
      (∃ p now stamp signer, origin = some p ∧
        applyProposal H fromisoformat now stamp signer p prior = .ok record) ∧
      ∀ a ∈ w.amendments (pathForSlug H record.slug),
        a.origin.map PolicyChangeProposal.proposalId ≠ origin.map PolicyChangeProposal.proposalId) :
    Sound H lower fromisoformat (w.put H record s' origin) := by
  obtain ⟨hwf, hver, -, hs'⟩ := publish_eq_ok.1 h
  have hstored : ∀ {file g}, (w.put H record s' origin).stored file = some g →
      (file = pathForSlug H record.slug ∧ g = record) ∨ w.stored file = some g := by
    intro file g hg
    rw [World.put_stored, hs'] at hg
    by_cases hf : file = pathForSlug H record.slug
    · subst hf
      rw [Function.update_self] at hg
      exact Or.inl ⟨rfl, (Option.some.inj hg).symm⟩
    · rw [Function.update_of_ne hf] at hg
      exact Or.inr hg
  refine ⟨fun file g hg => ?_, fun file g hg => ?_, fun file g hg => ?_, fun file g hg => ?_,
    fun file => ?_⟩
  · rcases hstored hg with ⟨rfl, rfl⟩ | hg
    exacts [rfl, hs.filed file g hg]
  · rcases hstored hg with ⟨rfl, rfl⟩ | hg
    exacts [hwf, hs.wellFormed file g hg]
  · rcases hstored hg with ⟨rfl, rfl⟩ | hg
    exacts [hver, hs.verified file g hg]
  · rcases hstored hg with ⟨rfl, rfl⟩ | hg
    exacts [hid, hs.identity file g hg]
  · have hold := hs.governed file
    rcases World.put_amendments H w record s' origin file with heq | ⟨prior, rfl, hprior, hne, heq⟩
    · exact ⟨by rw [heq]; exact hold.passed, by rw [heq]; exact hold.once⟩
    · obtain ⟨hpassed, hfresh⟩ := hgov prior hprior hne
      constructor
      · rw [heq]
        intro a ha
        rcases List.mem_append.1 ha with ha | ha
        · exact hold.passed a ha
        · rw [List.mem_singleton.1 ha]
          exact hpassed
      · rw [heq, List.map_append, List.map_singleton]
        refine hold.once.append (List.nodup_singleton _) ?_
        intro x hx hx'
        obtain ⟨a, ha, rfl⟩ := List.mem_map.1 hx
        exact hfresh a ha (List.mem_singleton.1 hx')

/-- **A lawful call keeps the invariant.** -/
theorem Sound.step {w w' : World} (hs : Sound H lower fromisoformat w) {a : Act H}
    (hlaw : w.Lawful a) (h : w.step H lower fromisoformat a = some w') :
    Sound H lower fromisoformat w' := by
  cases a with
  | publish record =>
    simp only [World.step] at h
    split at h
    · rename_i s' hpub
      cases h
      refine hs.put hpub hlaw.1 fun prior hprior hne => ?_
      exact absurd (hlaw.2 prior hprior) hne
    · cases h
      exact hs
  | enact file signer p now stamp =>
    simp only [World.step] at h
    split at h
    · cases h
      exact hs
    · rename_i g hg
      split at h
      · cases h
        exact hs
      · rename_i record happly
        split at h
        · rename_i s' hpub
          cases h
          have hrec := applyProposal_eq_ok.1 happly
          have hslug : record.slug = g.slug := by
            obtain ⟨-, -, -, -, rfl⟩ := hrec
            rfl
          have hfile : pathForSlug H record.slug = file := by rw [hslug, hs.filed file g hg]
          refine hs.put hpub ?_ ?_
          · obtain ⟨-, -, _, -, rfl⟩ := hrec
            exact ⟨signer, rfl⟩
          · rw [hfile]
            intro prior hprior _
            rw [hg] at hprior
            cases hprior
            exact ⟨⟨p, now, stamp, signer, rfl, happly⟩, hlaw⟩
        · cases h
          exact hs

/-- A record that verifies can be signed again after any proposal. -/
theorem exists_applied (hv : g.verifySignature H = true) (hp : Passes H fromisoformat now p g)
    (hadm : hex (H.pubkey signer) ∈ g.adminPubkeys) (stamp : String) :
    ∃ record, applyProposal H fromisoformat now stamp signer p g = .ok record := by
  have henc : (Json.obj g.metadata).encodable = true := by
    simp only [GroupRecord.verifySignature, Bool.and_eq_true] at hv
    cases hpay : canonicalJson g.signableDict with
    | none =>
      rw [hpay] at hv
      cases hv.2
    | some payload =>
      have := (canonicalJson_eq_some hpay).1
      rwa [GroupRecord.encodable_signableDict] at this
  obtain ⟨payload, hpay⟩ : ∃ b, canonicalJson
      (updatedRecord (hex (H.pubkey signer)) stamp p g).signableDict = some b := by
    refine canonicalJson_of_encodable ?_
    exact GroupRecord.encodable_signableDict.trans henc
  exact ⟨_, applyProposal_eq_ok.2 ⟨hp, hadm, payload, hpay, rfl⟩⟩

theorem reach_sound {w : World}
    (h : Runs.Reach (World.step H lower fromisoformat) World.Lawful {} w) :
    Sound H lower fromisoformat w :=
  h.invariant sound_start fun _ _ _ hs hlaw hstep => hs.step hlaw hstep

/-- **A registry is governed by its votes**, in every run whose calls are lawful: each change of
    policy or members is that of a passed proposal which is enacted once, and a proposal that
    passes can be enacted by some admin exactly if it removes no admin and adds keys alone. -/
theorem registry_governed {w : World}
    (h : Runs.Reach (World.step H lower fromisoformat) World.Lawful {} w) (file : String) :
    w.Governed H fromisoformat file ∧ ∀ g, w.stored file = some g → ∀ now p,
      Passes H fromisoformat now p g →
        (Enactable H lower fromisoformat w.stored now p g ↔ Keeps p g) := by
  have hs := reach_sound h
  refine ⟨hs.governed file, fun g hg now p hp => ?_⟩
  have hwf := hs.wellFormed file g hg
  have hfile : w.stored (pathForSlug H g.slug) = some g := by rw [hs.filed file g hg, hg]
  constructor
  · rintro ⟨signer, -, hall⟩
    obtain ⟨record, s', happly, hpub⟩ := hall ""
    exact (publish_applied_iff hwf hfile happly).1 ⟨s', hpub⟩
  · intro hk
    obtain ⟨signer, hsigner⟩ := hs.identity file g hg
    have hadm : hex (H.pubkey signer) ∈ g.adminPubkeys := hsigner ▸ hwf.signerAdmin
    refine ⟨signer, hadm, fun stamp => ?_⟩
    obtain ⟨record, happly⟩ := exists_applied (hs.verified file g hg) hp hadm stamp
    obtain ⟨s', hpub⟩ := (publish_applied_iff hwf hfile happly).2 hk
    exact ⟨record, s', happly, hpub⟩

/-! ## Two groups -/

/-- The key signs a record. -/
def signedRecord (H : Host) (k : H.SecretKey) (g : GroupRecord) : GroupRecord :=
  { g with
    signerPubkey := hex (H.pubkey k)
    sig := hex (H.sign k ((canonicalJson
      { g with signerPubkey := hex (H.pubkey k) }.signableDict).getD [])) }

theorem wellFormed_signedRecord {k : H.SecretKey} (hg : g.WellFormed H lower)
    (hadm : hex (H.pubkey k) ∈ g.adminPubkeys) : (signedRecord H k g).WellFormed H lower :=
  ⟨hg.id, hg.slugNonempty, hg.normal, hg.founderNonempty, hg.founderMember, hg.founderAdmin, hadm,
    hg.membersOnce, hg.adminsOnce, hg.adminMembers, hg.keys⟩

theorem verify_signedRecord {k : H.SecretKey} (hm : (Json.obj g.metadata).encodable = true) :
    (signedRecord H k g).verifySignature H = true := by
  simp only [GroupRecord.verifySignature, Bool.and_eq_true, bne_iff_ne, ne_eq]
  refine ⟨⟨hex_ne_empty (sign_ne_nil H k _), hex_ne_empty (pubkey_ne_nil H k)⟩,
    verifyHex_canonicalJson H k ?_⟩
  refine canonicalJson_of_encodable ?_
  exact GroupRecord.encodable_signableDict.trans hm

theorem World.step_publish {w : World} {s' : Store} (h : publish H lower w.stored record = .ok s') :
    w.step H lower fromisoformat (.publish record) = some (w.put H record s' none) := by
  simp only [World.step, h]

theorem World.step_enact {w : World} {s' : Store} {file : String} (hg : w.stored file = some g)
    (ha : applyProposal H fromisoformat now stamp signer p g = .ok record)
    (h : publish H lower w.stored record = .ok s') :
    w.step H lower fromisoformat (.enact file signer p now stamp) =
      some (w.put H record s' (some p)) := by
  simp only [World.step, hg, ha, h]

/-- The registry with one signed record. -/
def opened (H : Host) (k : H.SecretKey) (g : GroupRecord) : World where
  stored := Function.update (fun _ => none) (pathForSlug H g.slug) (some (signedRecord H k g))

@[simp] theorem opened_stored {k : H.SecretKey} :
    (opened H k g).stored (pathForSlug H g.slug) = some (signedRecord H k g) := by
  simp [opened]

theorem reach_opened (hwf : g.WellFormed H lower) {k : H.SecretKey}
    (hadm : hex (H.pubkey k) ∈ g.adminPubkeys) (hm : (Json.obj g.metadata).encodable = true) :
    Runs.Reach (World.step H lower fromisoformat) World.Lawful {} (opened H k g) := by
  have hpub : publish H lower ({} : World).stored (signedRecord H k g) =
      .ok (opened H k g).stored :=
    publish_eq_ok.2 ⟨wellFormed_signedRecord hwf hadm, verify_signedRecord hm, nofun, rfl⟩
  exact Runs.Reach.start.step (a := .publish (signedRecord H k g)) ⟨⟨k, rfl⟩, nofun⟩
    (World.step_publish hpub)

/-- The proposal of the one member passes on the record it signed. -/
theorem soleProposal_passes_signed (k : H.SecretKey) :
    Passes H fromisoformat now (soleProposal H k) (signedRecord H k (soleGroup H k)) :=
  let h := soleProposal_passes k
  ⟨h.signed, h.live, h.voters⟩

/-- The group of one member closes itself. -/
theorem registry_governed_sole : ∃ w : World,
    Runs.Reach (World.step checksumHost id fun _ => none) World.Lawful {} w ∧
    (w.amendments (pathForSlug checksumHost "dao")).length = 1 ∧
    w.Governed checksumHost (fun _ => none) (pathForSlug checksumHost "dao") := by
  let k : checksumHost.SecretKey := (1 : UInt8)
  let p := soleProposal checksumHost k
  have hwf := soleGroup_wellFormed (H := checksumHost) k
  have hadm : hex (checksumHost.pubkey k) ∈ (soleGroup checksumHost k).adminPubkeys :=
    List.mem_singleton_self _
  have hreach : Runs.Reach (World.step checksumHost id fun _ => none) World.Lawful {}
      (opened checksumHost k (soleGroup checksumHost k)) := reach_opened hwf hadm rfl
  have hpasses : Passes checksumHost (fun _ => none) 0 p
      (signedRecord checksumHost k (soleGroup checksumHost k)) := soleProposal_passes_signed k
  obtain ⟨record, happly⟩ := exists_applied (verify_signedRecord rfl) hpasses hadm ""
  obtain ⟨s', hpub⟩ := (publish_applied_iff (wellFormed_signedRecord hwf hadm) opened_stored
    happly).2 ⟨List.forall_mem_nil _, List.forall_mem_nil _⟩
  have hfresh : (opened checksumHost k (soleGroup checksumHost k)).Lawful
      (.enact (pathForSlug checksumHost "dao") k p 0 "") := List.forall_mem_nil _
  have hreach' := hreach.step hfresh (World.step_enact opened_stored happly hpub)
  refine ⟨_, hreach', ?_, (registry_governed hreach' _).1⟩
  obtain ⟨hslug, hpolicy⟩ : record.slug = "dao" ∧ record.policy = .closed := by
    obtain ⟨-, -, -, -, rfl⟩ := applyProposal_eq_ok.1 happly
    exact ⟨rfl, rfl⟩
  have hprior : (opened checksumHost k (soleGroup checksumHost k)).stored
      (pathForSlug checksumHost record.slug) =
      some (signedRecord checksumHost k (soleGroup checksumHost k)) := by
    rw [hslug]
    exact opened_stored
  have hchanged : ¬ SameRule (signedRecord checksumHost k (soleGroup checksumHost k)) record := by
    rintro ⟨hsame, -⟩
    rw [hpolicy] at hsame
    cases hsame
  rw [World.put_amendments_some _ _ _ _ _ hprior, if_neg hchanged, hslug, Function.update_self]
  rfl

/-- A group of two members with one admin. -/
def pairGroup (H : Host) (k k' : H.SecretKey) (policy : GroupPolicy) : GroupRecord :=
  { soleGroup H k with
    memberPubkeys := [hex (H.pubkey k), hex (H.pubkey k')]
    policy := policy }

theorem pairGroup_wellFormed {k k' : H.SecretKey} (hne : H.pubkey k ≠ H.pubkey k')
    (policy : GroupPolicy) : (pairGroup H k k' policy).WellFormed H id where
  id := (soleGroup_wellFormed k).id
  slugNonempty := (soleGroup_wellFormed k).slugNonempty
  normal := (soleGroup_wellFormed k).normal
  founderNonempty := (soleGroup_wellFormed k).founderNonempty
  founderMember := List.mem_cons_self
  founderAdmin := List.mem_singleton_self _
  signerAdmin := List.mem_singleton_self _
  membersOnce := by
    refine List.nodup_cons.2 ⟨?_, List.nodup_singleton _⟩
    intro hmem
    exact hne (hex_injective (List.mem_singleton.1 hmem))
  adminsOnce := List.nodup_singleton _
  adminMembers := by
    intro pk hpk
    rw [List.mem_singleton.1 hpk]
    exact List.mem_cons_self
  keys := by
    intro pk hpk
    simp only [pairGroup, List.mem_cons, List.not_mem_nil, or_false] at hpk
    rcases hpk with rfl | rfl
    all_goals exact isPubkeyHex_hex _

/-- The founder of a voted group of two closes it alone. -/
theorem founder_closes {k k' : H.SecretKey} (hne : H.pubkey k ≠ H.pubkey k') : ∃ w : World,
    Runs.Reach (World.step H id fromisoformat) (fun _ _ => True) {} w ∧
    ∃ a ∈ w.amendments (pathForSlug H "dao"),
      a.before.policy = .voted ∧ a.after.policy = .closed ∧ a.origin = none := by
  have hadm : hex (H.pubkey k) ∈ (soleGroup H k).adminPubkeys := List.mem_singleton_self _
  have hreach : Runs.Reach (World.step H id fromisoformat) (fun _ _ => True) {}
      (opened H k (pairGroup H k k' .voted)) :=
    (reach_opened (pairGroup_wellFormed hne .voted) hadm rfl).mono fun _ _ _ => trivial
  have hstored : (opened H k (pairGroup H k k' .voted)).stored (pathForSlug H "dao") =
      some (signedRecord H k (pairGroup H k k' .voted)) := opened_stored
  have hpub : publish H id (opened H k (pairGroup H k k' .voted)).stored
      (signedRecord H k (pairGroup H k k' .closed)) =
        .ok (Function.update (opened H k (pairGroup H k k' .voted)).stored (pathForSlug H "dao")
          (some (signedRecord H k (pairGroup H k k' .closed)))) := by
    refine publish_eq_ok.2 ⟨wellFormed_signedRecord (pairGroup_wellFormed hne .closed) hadm,
      verify_signedRecord rfl, fun prior hprior => ?_, rfl⟩
    cases Option.some.inj (hstored.symm.trans hprior)
    exact ⟨rfl, hadm, rfl, rfl⟩
  refine ⟨_, hreach.step trivial (World.step_publish hpub), ⟨signedRecord H k (pairGroup H k k' .voted),
    signedRecord H k (pairGroup H k k' .closed), none⟩, ?_, rfl, rfl, rfl⟩
  have hchanged : ¬ SameRule (signedRecord H k (pairGroup H k k' .voted))
      (signedRecord H k (pairGroup H k k' .closed)) := by
    rintro ⟨hsame, -⟩
    change GroupPolicy.closed = .voted at hsame
    cases hsame
  rw [World.put_amendments_some _ _ _ _ _ hstored, if_neg hchanged]
  exact (Function.update_self (pathForSlug H "dao") _ _).symm ▸
    List.mem_append_right _ (List.mem_singleton_self _)

/-- **The founder overrides the vote, and a vote against the founder cannot be enacted.** -/
theorem founder_overrides :
    (∃ w : World,
      Runs.Reach (World.step checksumHost id fun _ => none) (fun _ _ => True) {} w ∧
      ¬ w.Governed checksumHost (fun _ => none) (pathForSlug checksumHost "dao")) ∧
    ∃ (w : World) (g : GroupRecord) (p : PolicyChangeProposal),
      Runs.Reach (World.step checksumHost id fun _ => none) World.Lawful {} w ∧
      w.stored (pathForSlug checksumHost "dao") = some g ∧
      Passes checksumHost (fun _ => none) 0 p g ∧
      ¬ Enactable checksumHost id (fun _ => none) w.stored 0 p g := by
  constructor
  · have hne : checksumHost.pubkey (1 : UInt8) ≠ checksumHost.pubkey (2 : UInt8) := by decide
    obtain ⟨w, hw, a, ha, -, -, horigin⟩ := founder_closes hne
    refine ⟨w, hw, fun hgov => ?_⟩
    obtain ⟨p, -, -, -, hp, -⟩ := hgov.passed a ha
    rw [horigin] at hp
    cases hp
  · let k : checksumHost.SecretKey := (1 : UInt8)
    have hwf := soleGroup_wellFormed (H := checksumHost) k
    have hadm : hex (checksumHost.pubkey k) ∈ (soleGroup checksumHost k).adminPubkeys :=
      List.mem_singleton_self _
    have hpasses : Passes checksumHost (fun _ => none) 0 (soleProposal checksumHost k)
        (signedRecord checksumHost k (soleGroup checksumHost k)) := soleProposal_passes_signed k
    have hbad := passes_on_same_votes hpasses
      ⟨.voted, [], [hex (checksumHost.pubkey k)], none⟩ "g" k
    refine ⟨opened checksumHost k (soleGroup checksumHost k), _, _, reach_opened hwf hadm rfl,
      opened_stored, hbad, ?_⟩
    rintro ⟨signer, -, hall⟩
    obtain ⟨record, s', happly, hpub⟩ := hall ""
    have hkeeps := (publish_applied_iff (wellFormed_signedRecord hwf hadm) opened_stored
      happly).1 ⟨s', hpub⟩
    exact hkeeps.admins _ (List.mem_singleton_self _) hadm

end NthDao.Groups
