/-
  Receipts that are signed under a capability token.

  The token and the signature of the timeline are checked with members of the envelope that
  neither covers.

  * `Anchored`: what these members have to say;
  * `delegated_iff`: of the envelopes around one timeline, hash, signature and token, one of
    which is accepted, these are accepted and no others;
  * `receipt_moved`: a receipt that comes too late for its token, and the same one accepted
    under another date.
-/
import NthDao.Receipts.Accepted

namespace NthDao

open Py

namespace Receipts

variable {H : Host} {R : Runtime} {intText : String → Except String (Option ℤ)}
  {token d d' : Fields} {e e' : String}

/-- The times of the token. -/
def Valid (intText : String → Except String (Option ℤ)) (token : Fields) (nbf exp : ℤ) : Prop :=
  CapToken.intOf intText (Json.get token "not_before") = .ok (some nbf) ∧
    CapToken.intOf intText (Json.get token "not_after") = .ok (some exp)

/-- A token that passes at one time passes between its times. -/
theorem verifyCapToken_at {caps : Option (List String)} {t : ℤ}
    (h : CapToken.verifyCapToken H intText token t [] caps "" "" = .ok ()) (t' : ℤ) :
    CapToken.verifyCapToken H intText token t' [] caps "" "" = .ok () ↔
      ∃ nbf exp, Valid intText token nbf exp ∧ nbf ≤ t' ∧ t' ≤ exp := by
  simp only [CapToken.verifyCapToken, bind_eq_ok, require_eq_ok, timeOf_eq_ok,
    decide_eq_true_eq] at h ⊢
  obtain ⟨_, hreq, _, hkind, nbf, hnbf, exp, hexp, _, -, _, -, hrest⟩ := h
  constructor
  · rintro ⟨_, -, _, -, nbf, hnbf, exp, hexp, _, hle, _, hle', -⟩
    exact ⟨nbf, exp, ⟨hnbf, hexp⟩, hle, hle'⟩
  · rintro ⟨nbf, exp, ⟨hnbf, hexp⟩, hle, hle'⟩
    exact ⟨(), hreq, (), hkind, nbf, hnbf, exp, hexp, (), hle, (), hle', hrest⟩

/-- The runtime at another time. -/
def Runtime.at (R : Runtime) (now : ℤ) : Runtime := { R with now := now }

/-- The two envelopes are around one timeline, hash, signature and token. -/
def SameCore (d d' : Fields) : Prop :=
  ∀ k ∈ ["timeline", "content_hash", "sig", "authorizing_cap_token"],
    Json.lookup d k = Json.lookup d' k

instance (d d' : Fields) : Decidable (SameCore d d') :=
  inferInstanceAs (Decidable (∀ k ∈ ["timeline", "content_hash", "sig", "authorizing_cap_token"],
    Json.lookup d k = Json.lookup d' k))

/-- The envelope names the subject of the token, a time at which the token is valid, and the
    task of the token if it has one. -/
structure Anchored (H : Host) (R : Runtime) (expectedPubkeyHex : String) (token d : Fields) :
    Prop where
  signer : Json.getD d "signer_did" (.str "") = .str (textOr H token "subject_did")
  key : ∃ pk, decodeDidKey (textOr H token "subject_did") = some pk ∧
    (expectedPubkeyHex = "" ∨ R.lower (Trust.hex pk) = R.lower expectedPubkeyHex) ∧
    (envelopeKey H R d = "" ∨ envelopeKey H R d = R.lower (Trust.hex pk))
  issued : ∃ ms nbf exp, issuedMs R d = .ok ms ∧ Valid R.intText token nbf exp ∧
    nbf ≤ (if ms = 0 then R.now else ms) ∧ (if ms = 0 then R.now else ms) ≤ exp ∧
    (exp = 0 ∨ ms ≤ exp)
  goal : textOr H token "scope_task_id" = "" ∨ textOr H token "scope_task_id" = textOr H d "goal_id"

theorem signerKey_eq_some {pk : Bytes} : signerKey d = some pk ↔
    ∃ did, Json.getD d "signer_did" (.str "") = .str did ∧ decodeDidKey did = some pk := by
  rw [signerKey, Option.bind_eq_some_iff]
  simp only [Json.asStr_eq_some]

/-- A key has one `did:key`. -/
theorem did_unique {did did' : String} {pk : Bytes} (h : decodeDidKey did = some pk)
    (h' : decodeDidKey did' = some pk) : did = did' := by
  rw [← (encodeDidKey_of_decodeDidKey h).1, (encodeDidKey_of_decodeDidKey h').1]

/-- The last two checks of a delegated receipt. -/
theorem verifyCapTokenChain_eq_ok {pk : Bytes} : verifyCapTokenChain H R d token pk = .ok () ↔
    ∃ ms, issuedMs R d = .ok ms ∧
      CapToken.verifyCapToken H R.intText token (if ms = 0 then R.now else ms) []
        (some [capReceiptSign]) "" "" = .ok () ∧
      decodeDidKey (textOr H token "subject_did") = some pk ∧
      (∃ exp, timestampOf R.intText (Json.getD token "not_after" (.int 0)) = .ok exp ∧
        (exp = 0 ∨ ms ≤ exp)) ∧
      (textOr H token "scope_task_id" = "" ∨
        textOr H token "scope_task_id" = textOr H d "goal_id") := by
  simp only [verifyCapTokenChain, bind_eq_ok, mapError_eq_ok, expect_eq_ok, require_eq_ok,
    Bool.or_eq_true, beq_iff_eq, decide_eq_true_eq]
  constructor
  · rintro ⟨ms, hms, _, hv, pk', hpk, _, rfl, exp, hexp, _, hle, hscope⟩
    exact ⟨ms, hms, hv, hpk, ⟨exp, hexp, hle⟩, hscope⟩
  · rintro ⟨ms, hms, hv, hpk, ⟨exp, hexp, hle⟩, hscope⟩
    exact ⟨ms, hms, (), hv, pk, hpk, (), rfl, exp, hexp, (), hle, hscope⟩

theorem verifyReceipt_of_token (htok : Json.get d "authorizing_cap_token" = .obj token) :
    verifyReceipt H R e (.obj d) = .ok () ↔
      ∃ es pk, Signed H R e d es pk ∧ verifyCapTokenChain H R d token pk = .ok () := by
  rw [verifyReceipt, bind_eq_ok]
  simp only [htok, verifyCore_eq_ok]
  constructor
  · rintro ⟨pk, ⟨es, hes⟩, h⟩
    exact ⟨es, pk, hes, h⟩
  · rintro ⟨es, pk, hes, h⟩
    exact ⟨pk, ⟨es, hes⟩, h⟩

theorem Valid.notAfter {nbf exp : ℤ} (h : Valid intText token nbf exp) :
    timestampOf intText (Json.getD token "not_after" (.int 0)) = .ok exp := by
  have hget := h.2
  cases hl : Json.lookup token "not_after" with
  | none =>
    rw [Json.get, hl] at hget
    cases hget
  | some v =>
    rw [Json.get, hl, Option.getD_some] at hget
    rw [Json.getD, hl, Option.getD_some, timestampOf, hget]

/-- The timeline and its signature, in another envelope that names the same key. -/
theorem Signed.moved {now' : ℤ} {es : List TimelineEntry} {pk : Bytes}
    (h : Signed H (R.at now') e' d' es pk) (hcore : SameCore d' d) (hsigner : signerKey d = some pk)
    (hexpected : e = "" ∨ R.lower (Trust.hex pk) = R.lower e)
    (hkey : envelopeKey H R d = "" ∨ envelopeKey H R d = R.lower (Trust.hex pk)) :
    Signed H R e d es pk := by
  simp only [SameCore, List.forall_mem_cons, List.not_mem_nil, IsEmpty.forall_iff, implies_true,
    and_true] at hcore
  obtain ⟨htimeline, hhash, hsig, -⟩ := hcore
  obtain ⟨bytes, hb, hs⟩ := h.bytes
  refine ⟨?_, ⟨bytes, hb, ?_⟩, hsigner, ?_, ?_⟩
  · rw [← h.timeline, timelineOf, timelineOf, get_congr htimeline]
    rfl
  · rw [← hs]
    simp only [signedBy, sigOf, getD_congr hhash, getD_congr hsig]
  · rw [Bool.or_eq_true, beq_iff_eq, beq_iff_eq]
    exact hexpected
  · rw [Bool.or_eq_true, beq_iff_eq, beq_iff_eq]
    exact hkey

/-- **What a delegated receipt is accepted for**: around a timeline, a hash, a signature and a
    token that are accepted in some envelope, at some time, the accepted envelopes are those
    that name the token's subject, a time at which the token is valid, and its task. -/
theorem delegated_iff {now' : ℤ} (htok : Json.get d' "authorizing_cap_token" = .obj token)
    (h : verifyReceipt H (R.at now') e' (.obj d') = .ok ()) (hcore : SameCore d' d) :
    verifyReceipt H R e (.obj d) = .ok () ↔ Anchored H R e token d := by
  have htok' : Json.get d "authorizing_cap_token" = .obj token :=
    (get_congr (hcore "authorizing_cap_token" (by decide))).symm.trans htok
  obtain ⟨es, pk, hes, hchain⟩ := (verifyReceipt_of_token htok).1 h
  obtain ⟨_, -, hvalid, hsubject, -, -⟩ := verifyCapTokenChain_eq_ok.1 hchain
  have hat := verifyCapToken_at hvalid
  rw [verifyReceipt_of_token htok']
  constructor
  · rintro ⟨es', pk', hes', hchain'⟩
    obtain ⟨ms, hms, hv, hsubject', ⟨exp', hexp', hle⟩, hscope⟩ :=
      verifyCapTokenChain_eq_ok.1 hchain'
    obtain ⟨did, hdid, hpk'⟩ := signerKey_eq_some.1 hes'.signer
    obtain ⟨nbf, exp, hval, hnbf, hle'⟩ := (hat _).1 hv
    obtain rfl : exp = exp' := Except.ok.inj (hval.notAfter.symm.trans hexp')
    refine ⟨?_, ⟨pk', hsubject', ?_, ?_⟩, ⟨ms, nbf, exp, hms, hval, hnbf, hle', hle⟩, hscope⟩
    · rw [hdid, did_unique hpk' hsubject']
    · have := hes'.expected
      rwa [Bool.or_eq_true, beq_iff_eq, beq_iff_eq] at this
    · have := hes'.envelope
      rwa [Bool.or_eq_true, beq_iff_eq, beq_iff_eq] at this
  · rintro ⟨hsigner, ⟨pk', hpk', hexpected, hkey⟩, ⟨ms, nbf, exp, hms, hval, hnbf, hle, hle'⟩, hgoal⟩
    obtain rfl : pk = pk' := Option.some.inj (hsubject.symm.trans hpk')
    refine ⟨es, pk, hes.moved hcore (signerKey_eq_some.2 ⟨_, hsigner, hpk'⟩) hexpected hkey, ?_⟩
    exact verifyCapTokenChain_eq_ok.2 ⟨ms, hms, (hat _).2 ⟨nbf, exp, hval, hnbf, hle⟩, hpk',
      ⟨exp, hval.notAfter, hle'⟩, hgoal⟩

/-! ## A receipt that is moved -/

/-- A runtime that reads two dates. -/
def datedRuntime : Runtime where
  intText _ := .ok none
  lower s := s
  timestampMs s := .ok (if s = "in time" then some 15 else if s = "late" then some 25 else none)
  now := 1000

/-- A token from time 10 to time 20, for one task. -/
def taskToken : Fields :=
  ((CapToken.signCapToken checksumHost (1 : UInt8) (asDid checksumHost (2 : UInt8)) [capReceiptSign]
    "task" "" none 10 "t1" "" 10 "n").toOption).getD []

/-- A receipt under this token, with a date and a goal. -/
def underToken (issuedAt goalId : String) : Fields :=
  ((signReceipt checksumHost (2 : UInt8) [goalStarted] goalId "r1" "" "" (some taskToken) 0
    issuedAt).toOption).getD []

theorem delegated_late :
    verifyReceipt checksumHost datedRuntime "" (.obj (underToken "late" "task")) = .ok () ↔
      Anchored checksumHost datedRuntime "" taskToken (underToken "late" "task") := by
  have hsample : Json.get (underToken "in time" "task") "authorizing_cap_token" = .obj taskToken ∧
      verifyReceipt checksumHost (datedRuntime.at 2000) ""
        (.obj (underToken "in time" "task")) = .ok () ∧
      SameCore (underToken "in time" "task") (underToken "late" "task") := by
    decide +kernel
  exact delegated_iff hsample.1 hsample.2.1 hsample.2.2

theorem receipt_moved :
    SameCore (underToken "late" "task") (underToken "in time" "task") ∧
    verifyReceipt checksumHost datedRuntime "" (.obj (underToken "late" "task")) =
      .error .rejected ∧
    verifyReceipt checksumHost datedRuntime "" (.obj (underToken "in time" "task")) = .ok () ∧
    SameCore (underToken "in time" "other") (underToken "in time" "task") ∧
    verifyReceipt checksumHost datedRuntime "" (.obj (underToken "in time" "other")) =
      .error .rejected := by
  decide +kernel

end Receipts

end NthDao
