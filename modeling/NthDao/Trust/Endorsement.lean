/-
  Endorsements and revocations (`nth_dao/web_of_trust.py`).

  An endorsement is a signed vouch of one key for another, a revocation takes
  one back.

  * `Endorsement.signableDict`, `Endorsement.verifySig`, `issueEndorsement`, and
    the same for revocations;
  * `Endorsement.isExpired`: the expiry against the clock; what
    `datetime.fromisoformat` reads is a parameter;
  * `verifySig_issueEndorsement`: what is issued verifies.
-/
import NthDao.CanonicalJson
import NthDao.Identity
import NthDao.Py.Check
import NthDao.Py.Norm

namespace NthDao

namespace Trust

open Py

variable (H : Host)

/-! ## Hexadecimal text -/

/-- `b.hex()`. -/
def hex (b : Bytes) : String := String.ofList (b.flatMap fun x => hexDigits 2 x.toNat)

/-- The whitespace that `bytes.fromhex` skips. -/
def isHexSpace (c : Char) : Bool := c == ' ' || (9 ≤ c.toNat && c.toNat ≤ 13)

/-- `bytes.fromhex`, on the characters of the text. -/
def fromhexChars : List Char → Option Bytes
  | [] => some []
  | [c] => if isHexSpace c then some [] else none
  | c :: d :: r =>
    if isHexSpace c then fromhexChars (d :: r)
    else do return UInt8.ofNat ((← hexVal c) * 16 + (← hexVal d)) :: (← fromhexChars r)

/-- `bytes.fromhex`. -/
def fromhex (s : String) : Option Bytes := fromhexChars s.toList

theorem isHexSpace_digitChar : ∀ d < 16, isHexSpace (Nat.digitChar d) = false := by decide

theorem fromhexChars_hex (b : Bytes) :
    fromhexChars (b.flatMap fun x => hexDigits 2 x.toNat) = some b := by
  induction b with
  | nil => rfl
  | cons x b ih =>
    have hx : x.toNat < 256 := x.toNat_lt
    have hi : x.toNat / 16 % 16 < 16 := Nat.mod_lt _ (by decide)
    have lo : x.toNat % 16 < 16 := Nat.mod_lt _ (by decide)
    have hval : x.toNat / 16 % 16 * 16 + x.toNat % 16 = x.toNat := by omega
    have htext : (x :: b).flatMap (fun x => hexDigits 2 x.toNat) =
        Nat.digitChar (x.toNat / 16 % 16) :: Nat.digitChar (x.toNat % 16) ::
          b.flatMap fun x => hexDigits 2 x.toNat := rfl
    rw [htext, fromhexChars, isHexSpace_digitChar _ hi, hexVal_digitChar _ hi,
      hexVal_digitChar _ lo, ih]
    show some (UInt8.ofNat _ :: b) = some (x :: b)
    rw [hval, UInt8.ofNat_toNat]

@[simp] theorem fromhex_hex (b : Bytes) : fromhex (hex b) = some b := by
  rw [fromhex, hex, String.toList_ofList, fromhexChars_hex]

theorem hex_injective {a b : Bytes} (h : hex a = hex b) : a = b := by
  have := fromhex_hex a
  rw [h, fromhex_hex] at this
  exact (Option.some.inj this).symm

theorem hex_ne_empty {b : Bytes} (h : b ≠ []) : hex b ≠ "" := by
  intro he
  have := fromhex_hex b
  rw [he] at this
  exact h (Option.some.inj this).symm

/-- `VerifyKey(bytes.fromhex(key)).verify(payload, bytes.fromhex(sig))`, false
    where it raises. -/
def verifyHex (key : String) (payload : Option Bytes) (sig : String) : Bool :=
  match payload, fromhex key, fromhex sig with
  | some m, some pk, some s => pk.length == 32 && s.length == 64 && H.verify pk m s
  | _, _, _ => false

/-- An honest signature verifies. -/
theorem verifyHex_sign (k : H.SecretKey) {payload : Option Bytes} {m : Bytes}
    (h : payload = some m) : verifyHex H (hex (H.pubkey k)) payload (hex (H.sign k m)) = true := by
  simp [verifyHex, h, H.pubkey_length, H.sign_length, H.verify_sign]

/-- What is signed as canonical JSON verifies. -/
theorem verifyHex_canonicalJson (k : H.SecretKey) {v : Json} (h : ∃ b, canonicalJson v = some b) :
    verifyHex H (hex (H.pubkey k)) (canonicalJson v)
      (hex (H.sign k ((canonicalJson v).getD []))) = true := by
  obtain ⟨b, hb⟩ := h
  rw [hb]
  exact verifyHex_sign H k rfl

/-! ## Endorsements -/

/-- What `datetime.fromisoformat` reads: a time, or one with an offset, which
    does not compare with `datetime.now()`. -/
inductive Stamp where
  | naive (t : ℤ)
  | aware
  deriving DecidableEq

/-- One signed vouch. -/
structure Endorsement where
  endorserPubkey : String
  subjectPubkey : String
  subjectAgentId : String
  depthAllowed : ℤ := 1
  context : String := "general"
  issuedAt : String := ""
  expiresAt : String := ""
  sig : String := ""
  deriving DecidableEq

/-- `MAX_PROPAGATION_DEPTH`. -/
def maxPropagationDepth : ℤ := 5

namespace Endorsement

def signableDict (e : Endorsement) : Json :=
  .obj [("endorser_pubkey", .str e.endorserPubkey), ("subject_pubkey", .str e.subjectPubkey),
    ("subject_agent_id", .str e.subjectAgentId), ("depth_allowed", .int e.depthAllowed),
    ("context", .str e.context), ("issued_at", .str e.issuedAt), ("expires_at", .str e.expiresAt)]

/-- The signature is the endorser's. -/
def verifySig (e : Endorsement) : Bool :=
  e.sig != "" && e.endorserPubkey != "" &&
    verifyHex H e.endorserPubkey (canonicalJson e.signableDict) e.sig

variable (iso : String → Option Stamp)

/-- `is_expired`; a text that is no time counts as expired. -/
def isExpired (now : ℤ) (e : Endorsement) : Except String Bool :=
  if e.expiresAt = "" then .ok false
  else
    match iso e.expiresAt with
    | none => .ok true
    | some (.naive t) => .ok (t < now)
    | some .aware => .error "can't compare offset-naive and offset-aware datetimes"

end Endorsement

/-- `issue_endorsement`: the clock's two texts are arguments. -/
def issueEndorsement (k : H.SecretKey) (subjectPubkey subjectAgentId : String) (depthAllowed : ℤ)
    (context issuedAt expiresAt : String) : Except String Endorsement := do
  require (subjectPubkey != "") "subject_pubkey required"
  require (1 ≤ depthAllowed && depthAllowed ≤ maxPropagationDepth) "depth_allowed must be in [1, 5]"
  let e : Endorsement :=
    { endorserPubkey := hex (H.pubkey k), subjectPubkey := subjectPubkey,
      subjectAgentId := subjectAgentId, depthAllowed := depthAllowed, context := context,
      issuedAt := issuedAt, expiresAt := expiresAt }
  let payload ← expect (canonicalJson e.signableDict) "canonical_json"
  return { e with sig := hex (H.sign k payload) }

theorem sign_ne_nil (k : H.SecretKey) (m : Bytes) : H.sign k m ≠ [] := fun h => by
  have := H.sign_length k m
  rw [h] at this
  cases this

theorem pubkey_ne_nil (k : H.SecretKey) : H.pubkey k ≠ [] := fun h => by
  have := H.pubkey_length k
  rw [h] at this
  cases this

/-- What is issued verifies, and has its budget in range. -/
theorem verifySig_issueEndorsement {k : H.SecretKey} {pk aid : String} {d : ℤ} {c t x : String}
    {e : Endorsement} (h : issueEndorsement H k pk aid d c t x = .ok e) :
    e.verifySig H = true ∧ 1 ≤ e.depthAllowed ∧ e.depthAllowed ≤ maxPropagationDepth := by
  simp only [issueEndorsement, require_bind_eq_ok, expect_bind_eq_ok, pure_eq_ok, bne_iff_ne,
    Bool.and_eq_true, decide_eq_true_eq] at h
  obtain ⟨-, ⟨h1, h2⟩, m, hm, rfl⟩ := h
  refine ⟨?_, h1, h2⟩
  simp only [Endorsement.verifySig, Bool.and_eq_true, bne_iff_ne]
  exact ⟨⟨hex_ne_empty (sign_ne_nil H k m), hex_ne_empty (pubkey_ne_nil H k)⟩,
    verifyHex_sign H k hm⟩

/-- A budget in range and a key are all that issuing asks for. -/
theorem issueEndorsement_ok (k : H.SecretKey) {pk : String} {d : ℤ} (aid c t x : String)
    (hp : pk ≠ "") (h1 : 1 ≤ d) (h5 : d ≤ maxPropagationDepth) :
    ∃ s, issueEndorsement H k pk aid d c t x = .ok ⟨hex (H.pubkey k), pk, aid, d, c, t, x, hex s⟩ := by
  have hd : (Json.int d).encodable = true := by
    refine Json.encodable_int ?_
    have : d ≤ 5 := h5
    omega
  have hstr : ∀ s, (Json.str s).encodable = true := fun _ => rfl
  have he : (Endorsement.signableDict ⟨hex (H.pubkey k), pk, aid, d, c, t, x, ""⟩).encodable =
      true := by
    rw [Endorsement.signableDict, Json.encodable_obj]
    simp [hd, hstr]
  obtain ⟨m, hm⟩ := canonicalJson_of_encodable he
  refine ⟨H.sign k m, ?_⟩
  simp only [issueEndorsement, require_bind_eq_ok, expect_bind_eq_ok, pure_eq_ok, bne_iff_ne,
    Bool.and_eq_true, decide_eq_true_eq]
  exact ⟨hp, ⟨h1, h5⟩, m, hm, rfl⟩

/-! ## Revocations -/

/-- A signed revocation. -/
structure Revocation where
  endorserPubkey : String
  subjectPubkey : String
  subjectAgentId : String
  endorsementIssuedAt : String
  reason : String := ""
  revokedAt : String := ""
  sig : String := ""
  deriving DecidableEq

namespace Revocation

def signableDict (r : Revocation) : Json :=
  .obj [("endorser_pubkey", .str r.endorserPubkey), ("subject_pubkey", .str r.subjectPubkey),
    ("subject_agent_id", .str r.subjectAgentId),
    ("endorsement_issued_at", .str r.endorsementIssuedAt), ("reason", .str r.reason),
    ("revoked_at", .str r.revokedAt)]

def verifySig (r : Revocation) : Bool :=
  r.sig != "" && r.endorserPubkey != "" &&
    verifyHex H r.endorserPubkey (canonicalJson r.signableDict) r.sig

/-- The revocation cancels `e`. -/
def cancels (r : Revocation) (e : Endorsement) : Bool :=
  r.endorserPubkey == e.endorserPubkey && r.subjectPubkey == e.subjectPubkey &&
    r.subjectAgentId == e.subjectAgentId && r.endorsementIssuedAt == e.issuedAt

end Revocation

/-- `issue_revocation`: only one's own endorsements. -/
def issueRevocation (k : H.SecretKey) (e : Endorsement) (reason revokedAt : String) :
    Except String Revocation := do
  require (e.endorserPubkey == hex (H.pubkey k))
    "cannot revoke an endorsement issued by another identity"
  let r : Revocation :=
    { endorserPubkey := hex (H.pubkey k), subjectPubkey := e.subjectPubkey,
      subjectAgentId := e.subjectAgentId, endorsementIssuedAt := e.issuedAt, reason := reason,
      revokedAt := revokedAt }
  let payload ← expect (canonicalJson r.signableDict) "canonical_json"
  return { r with sig := hex (H.sign k payload) }

/-- A revocation that is issued verifies, and cancels its endorsement. -/
theorem verifySig_issueRevocation {k : H.SecretKey} {e : Endorsement} {reason t : String}
    {r : Revocation} (h : issueRevocation H k e reason t = .ok r) :
    r.verifySig H = true ∧ r.cancels e = true := by
  simp only [issueRevocation, require_bind_eq_ok, expect_bind_eq_ok, pure_eq_ok, beq_iff_eq] at h
  obtain ⟨hk, m, hm, rfl⟩ := h
  refine ⟨?_, by simp [Revocation.cancels, hk]⟩
  simp only [Revocation.verifySig, Bool.and_eq_true, bne_iff_ne]
  exact ⟨⟨hex_ne_empty (sign_ne_nil H k m), hex_ne_empty (pubkey_ne_nil H k)⟩,
    verifyHex_sign H k hm⟩

/-! ## Lines of a file -/

/-- Characters that `json.dumps` leaves as they are and `str.splitlines` breaks a
    line at. -/
def isLineBreak (c : Char) : Bool := c.toNat == 0x85 || c.toNat == 0x2028 || c.toNat == 0x2029

/-- The text stays on one line of a file. -/
def oneLine (s : String) : Bool := s.toList.all fun c => !isLineBreak c

/-- The record is read back from the line it is written to. -/
def Endorsement.oneLine (e : Endorsement) : Bool :=
  [e.endorserPubkey, e.subjectPubkey, e.subjectAgentId, e.context, e.issuedAt, e.expiresAt,
    e.sig].all Trust.oneLine

def Revocation.oneLine (r : Revocation) : Bool :=
  [r.endorserPubkey, r.subjectPubkey, r.subjectAgentId, r.endorsementIssuedAt, r.reason,
    r.revokedAt, r.sig].all Trust.oneLine

theorem isLineBreak_digitChar : ∀ d < 16, isLineBreak (Nat.digitChar d) = false := by decide

theorem oneLine_hex (b : Bytes) : oneLine (hex b) = true := by
  rw [oneLine, hex, String.toList_ofList, List.all_eq_true]
  intro c hc
  obtain ⟨x, -, hx⟩ := List.mem_flatMap.1 hc
  simp only [hexDigits, List.nil_append, List.cons_append, List.mem_cons, List.not_mem_nil,
    or_false] at hx
  rcases hx with rfl | rfl
  · rw [isLineBreak_digitChar _ (Nat.mod_lt _ (by decide))]; rfl
  · rw [isLineBreak_digitChar _ (Nat.mod_lt _ (by decide))]; rfl

end Trust

end NthDao
