/-
  Signed group records (`nth_dao/group_registry.py`).

  * `normalizeGroupName` turns a name into a slug;
  * `GroupRecord.isWellFormed` and `GroupRecord.verifySignature`: the two checks of
    `publish`; `WellFormed` spells the first one out.

  `lower` is `str.lower`.
-/
import NthDao.CanonicalJson
import NthDao.CapTokenStore
import NthDao.Py.Check
import NthDao.Py.Str
import NthDao.SafeId
import NthDao.Trust.Endorsement

namespace NthDao.Groups

open Py Trust

variable (H : Host) (lower : String → String)

/-! ## Slugs -/

/-- `[a-z0-9]`. -/
def isSlugChar (c : Char) : Bool := ('a' ≤ c && c ≤ 'z') || ('0' ≤ c && c ≤ '9')

/-- One dash for each run of characters with `p`. -/
def dashRuns (p : Char → Bool) : List Char → List Char
  | [] => []
  | c :: cs =>
    if p c then
      match dashRuns p cs with
      | '-' :: r => '-' :: r
      | r => '-' :: r
    else c :: dashRuns p cs

def minSlugLen : ℕ := 3
def maxSlugLen : ℕ := 40

/-- `normalize_group_name` of a string. -/
def normalizeGroupName (name : String) : Except String String := do
  let s := chars (lower (CapToken.stripSpace name))
  let s := dashRuns (fun c => !isSlugChar c) s
  let s := stripDashes (dashRuns (· == '-') s)
  require (minSlugLen ≤ s.length) ("group name slug must be at least " ++ toString minSlugLen ++
    " characters; got " ++ String.ofList (reprStr H.isprintable (String.ofList s)))
  require (s.length ≤ maxSlugLen)
    ("group name slug must be at most " ++ toString maxSlugLen ++ " characters")
  return String.ofList s

/-! ## Records -/

/-- `GroupPolicy`. -/
inductive GroupPolicy where
  | «open»
  | approval
  | closed
  | voted
  deriving DecidableEq

def GroupPolicy.wire : GroupPolicy → String
  | .open => "open"
  | .approval => "approval"
  | .closed => "closed"
  | .voted => "voted"

/-- `GroupRecord`. -/
structure GroupRecord where
  groupId : String
  slug : String
  displayName : String
  description : String
  policy : GroupPolicy
  founderPubkey : String
  memberPubkeys : List String
  adminPubkeys : List String
  createdAt : String
  updatedAt : String
  metadata : Fields
  signerPubkey : String := ""
  sig : String := ""

/-- `_is_pubkey_hex` of a string. -/
def isPubkeyHex (value : String) : Bool := len value == 64 && (fromhex value).isSome

namespace GroupRecord

variable (g : GroupRecord)

/-- `signable_dict`. -/
def signableDict : Json := .obj
  [("group_id", .str g.groupId), ("slug", .str g.slug), ("display_name", .str g.displayName),
    ("description", .str g.description), ("policy", .str g.policy.wire),
    ("founder_pubkey", .str g.founderPubkey),
    ("member_pubkeys", .arr (g.memberPubkeys.map .str)),
    ("admin_pubkeys", .arr (g.adminPubkeys.map .str)),
    ("created_at", .str g.createdAt), ("updated_at", .str g.updatedAt),
    ("metadata", .obj g.metadata), ("signer_pubkey", .str g.signerPubkey)]

/-- `verify_signature`. -/
def verifySignature : Bool :=
  g.sig != "" && g.signerPubkey != "" &&
    verifyHex H g.signerPubkey (canonicalJson g.signableDict) g.sig

/-- `is_well_formed`; it raises where the slug is too short or too long. -/
def isWellFormed : Except String Bool := do
  if g.groupId == "" || g.slug == "" then return false
  let slug ← normalizeGroupName H lower g.slug
  return slug == g.slug && g.founderPubkey != "" && g.memberPubkeys.contains g.founderPubkey &&
    g.adminPubkeys.contains g.founderPubkey && g.adminPubkeys.contains g.signerPubkey &&
    g.memberPubkeys.dedup.length == g.memberPubkeys.length &&
    g.adminPubkeys.dedup.length == g.adminPubkeys.length &&
    g.adminPubkeys.all (fun pk => g.memberPubkeys.contains pk) &&
    (g.founderPubkey :: g.signerPubkey :: (g.memberPubkeys ++ g.adminPubkeys)).all isPubkeyHex

/-- What a well-formed record satisfies. -/
structure WellFormed : Prop where
  id : g.groupId ≠ ""
  slugNonempty : g.slug ≠ ""
  normal : normalizeGroupName H lower g.slug = .ok g.slug
  founderNonempty : g.founderPubkey ≠ ""
  founderMember : g.founderPubkey ∈ g.memberPubkeys
  founderAdmin : g.founderPubkey ∈ g.adminPubkeys
  signerAdmin : g.signerPubkey ∈ g.adminPubkeys
  membersOnce : g.memberPubkeys.Nodup
  adminsOnce : g.adminPubkeys.Nodup
  adminMembers : ∀ pk ∈ g.adminPubkeys, pk ∈ g.memberPubkeys
  keys : ∀ pk ∈ g.memberPubkeys, isPubkeyHex pk = true

variable {H lower g}

theorem length_dedup_eq_iff {l : List String} : l.dedup.length = l.length ↔ l.Nodup := by
  constructor
  · intro h
    exact List.dedup_eq_self.1 ((List.dedup_sublist l).eq_of_length h)
  · intro h
    rw [List.Nodup.dedup h]

/-- The check says no less and no more. -/
theorem isWellFormed_iff : g.isWellFormed H lower = .ok true ↔ g.WellFormed H lower := by
  unfold isWellFormed
  by_cases hempty : (g.groupId == "" || g.slug == "") = true
  · rw [if_pos hempty]
    simp only [Bool.or_eq_true, beq_iff_eq] at hempty
    constructor
    · intro h
      cases h
    · intro h
      exact absurd hempty (not_or.2 ⟨h.id, h.slugNonempty⟩)
  · rw [if_neg hempty]
    simp only [Bool.or_eq_true, beq_iff_eq, not_or] at hempty
    simp only [bind_eq_ok, pure_eq_ok, Bool.and_eq_true, beq_iff_eq, bne_iff_ne, ne_eq,
      List.contains_iff_mem, List.all_eq_true, length_dedup_eq_iff]
    constructor
    · rintro ⟨slug, hslug, ⟨⟨⟨⟨⟨⟨⟨rfl, hne⟩, hmem⟩, hadm⟩, hsig⟩, hmn⟩, han⟩, hsub⟩, hkeys⟩
      exact ⟨hempty.1, hempty.2, hslug, hne, hmem, hadm, hsig, hmn, han, hsub,
        fun pk hpk => hkeys pk (by simp [hpk])⟩
    · intro h
      refine ⟨_, h.normal, ⟨⟨⟨⟨⟨⟨⟨rfl, h.founderNonempty⟩, h.founderMember⟩, h.founderAdmin⟩,
        h.signerAdmin⟩, h.membersOnce⟩, h.adminsOnce⟩, h.adminMembers⟩, ?_⟩
      intro pk hpk
      simp only [List.mem_cons, List.mem_append] at hpk
      rcases hpk with rfl | rfl | hpk | hpk
      · exact h.keys _ h.founderMember
      · exact h.keys _ (h.adminMembers _ h.signerAdmin)
      · exact h.keys _ hpk
      · exact h.keys _ (h.adminMembers _ hpk)

/-- What can be signed is decided by the metadata. -/
theorem encodable_signableDict : g.signableDict.encodable = (Json.obj g.metadata).encodable := by
  have hstr : ∀ l : List String, (Json.arr (l.map .str)).encodable = true := by
    intro l
    rw [Json.encodable_arr]
    intro j hj
    obtain ⟨s, -, rfl⟩ := List.mem_map.1 hj
    rfl
  rw [Bool.eq_iff_iff, signableDict, Json.encodable_obj]
  constructor
  · intro h
    exact h ("metadata", _) (by simp)
  · intro h p hp
    simp only [List.mem_cons, List.not_mem_nil, or_false] at hp
    rcases hp with rfl | rfl | rfl | rfl | rfl | rfl | rfl | rfl | rfl | rfl | rfl | rfl
    all_goals first | rfl | exact hstr _ | exact h

end GroupRecord

end NthDao.Groups
