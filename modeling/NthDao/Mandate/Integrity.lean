/-
  Signed mandates (`nth_dao/mandate/_data_integrity.py` and what the modules
  `intent.py`, `cart.py` and `payment.py` of `nth_dao/mandate` share).

  A mandate is a JSON object with a proof: an Ed25519 signature over the hash of
  the proof's options and the hash of the rest.

  * `mandateDigest`: the hash that another mandate names;
  * `expiryStatus`: `validUntil` against the clock;
  * `Kind` and `verifyMandate`: the checks of a proof, which differ in the purpose
    and in the name alone, but for one check of intents that comes earlier;
  * `Signed`: what they show; `verifyMandate_follows`: when they let pass, and when
    they raise.

  What `datetime.fromisoformat` reads and the texts of exceptions that are quoted
  are parameters.
-/
import NthDao.CanonicalJson
import NthDao.Gates
import NthDao.Py.Str
import NthDao.Trust.Endorsement

namespace NthDao.Mandate

open Py Gates Trust

variable (H : Host)

/-- The end of a check: a refusal with its reason, or the name of an exception. -/
abbrev Check (α : Type) := Except (Stop String String) α

/-- The exceptions whose text a reason quotes. -/
inductive Quoted where
  /-- `decode_ed25519_did_key(did)` -/
  | didKey (did : String)
  /-- `bytes.fromhex(text)` -/
  | fromhex (text : String)
  /-- `VerifyKey(..).verify(..)` -/
  | signature

variable (quote : Quoted → String)

/-! ## Documents -/

/-- `_strip_proof`. -/
def stripProof (m : Fields) : Fields := m.filter fun p => p.1 != "proof"

/-- `_proof_options`. -/
def proofOptions (proof : Fields) : Fields := proof.filter fun p => p.1 != "proofValue"

/-- `d.get(key) or ""`. -/
def getOrEmpty (m : Fields) (key : String) : Json :=
  let v := Json.get m key
  if truthy v then v else .str ""

/-- `credentialSubject`, `{}` where it is missing. -/
def subject (m : Fields) : Json := Json.getD m "credentialSubject" (.obj [])

/-- `repr(v)`. -/
def repr_ (v : Json) : String := String.ofList (reprJson H.isprintable v)

/-- `sha256(canonical_json(d))`, `none` where it raises. -/
def documentHash (d : Fields) : Option String := (canonicalJson (.obj d)).map H.sha256

/-- `intent_mandate_digest`, `cart_mandate_digest`, `payment_mandate_digest`. -/
def mandateDigest (m : Fields) : Check String :=
  expect (documentHash H (stripProof m)) (.raised "TypeError")

/-! ## Freshness -/

inductive ExpiryStatus where
  | valid | expired | malformed
  deriving DecidableEq

/-- A `datetime`: without an offset, or the moment it names. -/
inductive Moment where
  | naive
  | aware (t : ℤ)
  deriving DecidableEq

variable (fromisoformat : String → Option Moment)

/-- The end of the validity of a mandate; `none` if it is no time with an offset. -/
def deadline (m : Fields) : Option ℤ :=
  match Json.get m "validUntil" with
  | .str s =>
    if s = "" then none
    else match fromisoformat s with
      | some (.aware t) => some t
      | _ => none
  | _ => none

/-- `intent_expiry_status`, `cart_expiry_status`, `payment_expiry_status`. -/
def expiryStatus (now : Moment) (m : Fields) : Check ExpiryStatus :=
  match deadline fromisoformat m with
  | none => .ok .malformed
  | some t =>
    match now with
    | .naive => .error (.raised "TypeError")
    | .aware current => .ok (if t < current then .expired else .valid)

/-! ## Proofs -/

/-- The mandates, as their proofs are checked. -/
structure Kind where
  name : String
  purpose : String
  /-- the signature is looked at before the issuer -/
  signatureFirst : Bool := false

def intentKind : Kind where
  name := "IntentMandate"
  purpose := "capabilityInvocation"
  signatureFirst := true

def cartKind : Kind where
  name := "CartMandate"
  purpose := "assertionMethod"

def paymentKind : Kind where
  name := "PaymentMandate"
  purpose := "capabilityInvocation"

/-- `verification_method`. -/
def verificationMethod (issuer : String) : Except String String :=
  if !startsWith "did:key:" issuer then .error ("not a did:key: " ++ repr_ H (.str issuer))
  else
    let body := String.ofList ((chars issuer).drop 8)
    if startsWith "z" body then .ok (issuer ++ "#" ++ body)
    else .error ("did:key body must be multibase z-string, got " ++ repr_ H (.str body))

/-- The text of a signature, with its length. -/
def signatureText (proof : Fields) : Except String String := do
  let text ← expect (match Json.getD proof "proofValue" (.str "") with
    | .str s => if s = "" then none else some s
    | _ => none) "missing proofValue"
  require ((chars text).length == 128) ("proofValue must be 128-hex Ed25519 sig, got " ++
    toString (chars text).length ++ " chars")
  return text

/-- The check of the signature's text that intents have first. -/
def earlySignature (kind : Kind) (proof : Fields) : Except String String :=
  if kind.signatureFirst then signatureText proof else .ok ""

/-- What the checks of a proof work out before anything is hashed. -/
structure Proof where
  options : Fields
  signature : Bytes
  pubkey : Bytes

/-- The checks of a proof before anything is hashed. -/
def readProof (kind : Kind) (m : Fields) : Except String Proof := do
  let proof ← expect (match Json.get m "proof" with
    | .obj kvs => some kvs
    | _ => none) "missing proof"
  require ((Json.get proof "type").eqStr "Ed25519Signature2020")
    ("unsupported proof type: " ++ repr_ H (Json.get proof "type"))
  require ((Json.get proof "proofPurpose").eqStr kind.purpose)
    ("wrong proof purpose: " ++ repr_ H (Json.get proof "proofPurpose") ++ "; " ++ kind.name ++
      " requires " ++ repr_ H (.str kind.purpose))
  let _ ← earlySignature kind proof
  let issuer ← expect (match getOrEmpty m "issuer" with
    | .str s => if startsWith "did:key:" s then some s else none
    | _ => none) ("unsupported issuer scheme: " ++ repr_ H (getOrEmpty m "issuer"))
  let expected ← (verificationMethod H issuer).mapError ("issuer is not a valid did:key: " ++ ·)
  require ((Json.get proof "verificationMethod").eqStr expected)
    ("verificationMethod mismatch: expected " ++ repr_ H (.str expected) ++ ", got " ++
      repr_ H (Json.get proof "verificationMethod"))
  let pubkey ← expect (decodeDidKey issuer) ("issuer decode failed: " ++ quote (.didKey issuer))
  -- `verify_with_data_integrity`
  let text ← signatureText proof
  let signature ← expect (fromhex text)
    ("proofValue is not valid hex: " ++ quote (.fromhex text))
  return { options := proofOptions proof, signature, pubkey }

/-- `_verify_fail`: it logs a field of `credentialSubject`. -/
def verifyFail {α : Type} (m : Fields) (reason : String) : Check α :=
  if truthy (Json.get m "credentialSubject") && !(Json.get m "credentialSubject").isObj then
    .error (.raised "AttributeError")
  else .error (.refused reason)

/-- The signature of a document under the options. -/
def verifies (p : Proof) (options document : String) : Bool :=
  p.signature.length == 64 &&
    H.verify p.pubkey (fromHex (chars options) ++ fromHex (chars document)) p.signature

/-- `verify_intent_mandate`, `verify_cart_mandate`, `verify_payment_mandate`. -/
def verifyMandate (kind : Kind) (m : Fields) : Check Unit :=
  match readProof H quote kind m with
  | .error reason => verifyFail m reason
  | .ok p => do
    let document ← expect (documentHash H (stripProof m)) (.raised "TypeError")
    let options ← expect (documentHash H p.options) (.raised "TypeError")
    if verifies H p options document then return ()
    else verifyFail m ("signature invalid: " ++ quote .signature)

/-- `sign_intent_mandate`, `sign_cart_mandate`, `sign_payment_mandate`; the clock's
    text is an argument. -/
def signMandate (kind : Kind) (k : H.SecretKey) (created : String) (m : Fields) :
    Except String Fields := do
  require (Json.lookup m "proof").isNone "mandate already carries a proof block"
  require (truthy (getOrEmpty m "issuer")) "mandate has no issuer; cannot sign"
  require ((getOrEmpty m "issuer").eqStr (asDid H k)) "issuer DID mismatch"
  let method ← verificationMethod H (asDid H k)
  let options := [("type", .str "Ed25519Signature2020"), ("created", .str created),
    ("verificationMethod", .str method), ("proofPurpose", .str kind.purpose)]
  let document ← expect (documentHash H (stripProof m)) "TypeError"
  let hash ← expect (documentHash H options) "TypeError"
  let signature := hex (H.sign k (fromHex (chars hash) ++ fromHex (chars document)))
  return m ++ [("proof", .obj (options ++ [("proofValue", .str signature)]))]

/-! ## What the checks show -/

variable {H quote fromisoformat}

variable (H) in
/-- The mandate has a signature of its issuer, for this kind of mandate. -/
def Signed (kind : Kind) (m : Fields) : Prop :=
  ∃ issuer pubkey proof options document signature,
    Json.get m "issuer" = .str issuer ∧ decodeDidKey issuer = some pubkey ∧
      Json.get m "proof" = .obj proof ∧ Json.get proof "proofPurpose" = .str kind.purpose ∧
      documentHash H (proofOptions proof) = some options ∧
      documentHash H (stripProof m) = some document ∧
      H.verify pubkey (fromHex (chars options) ++ fromHex (chars document)) signature = true

theorem readProof_eq_ok {kind : Kind} {m : Fields} {p : Proof}
    (h : readProof H quote kind m = .ok p) : ∃ issuer proof,
      Json.get m "issuer" = .str issuer ∧ decodeDidKey issuer = some p.pubkey ∧
        Json.get m "proof" = .obj proof ∧ Json.get proof "proofPurpose" = .str kind.purpose ∧
        p.options = proofOptions proof := by
  simp only [readProof, bind_eq_ok] at h
  simp only [require_eq_ok, expect_eq_ok, pure_eq_ok, Json.eqStr_iff] at h
  obtain ⟨proof, hproof, _, -, _, hpurpose, _, -, issuer, hissuer, _, -, _, -, pk, hpk, _, -, _, -,
    rfl⟩ := h
  refine ⟨issuer, proof, ?_, hpk, ?_, hpurpose, rfl⟩
  · rw [getOrEmpty] at hissuer
    split_ifs at hissuer with ht
    · cases hv : Json.get m "issuer" with
      | str s =>
        rw [hv] at hissuer
        simp only [Option.ite_none_right_eq_some, Option.some.injEq] at hissuer
        rw [hissuer.2]
      | _ =>
        rw [hv] at hissuer
        cases hissuer
    · have hempty : startsWith "did:key:" "" = false := by decide
      simp [hempty] at hissuer
  · cases hv : Json.get m "proof" with
    | obj kvs =>
      rw [hv] at hproof
      cases hproof
      rfl
    | _ =>
      rw [hv] at hproof
      cases hproof

/-- The log of a failure finds what it looks for. -/
def logs (m : Fields) : Bool :=
  !(truthy (Json.get m "credentialSubject") && !(Json.get m "credentialSubject").isObj)

variable (H quote) in
/-- The hash of the options of a proof that can be read. -/
def optionsHash (kind : Kind) (m : Fields) : Option String :=
  (readProof H quote kind m).toOption.bind fun p => documentHash H p.options

variable (H quote) in
/-- The signature of a proof that can be read verifies. -/
def signatureValid (kind : Kind) (m : Fields) : Bool :=
  match (readProof H quote kind m).toOption, optionsHash H quote kind m,
    documentHash H (stripProof m) with
  | some p, some options, some document => verifies H p options document
  | _, _, _ => false

variable (H quote) in
/-- The gates of a mandate's proof. -/
def proofGates (kind : Kind) (m : Fields) : List Gate :=
  [⟨(readProof H quote kind m).toOption.isSome || logs m,
      (readProof H quote kind m).toOption.isSome⟩,
    { readable := (documentHash H (stripProof m)).isSome },
    { readable := (optionsHash H quote kind m).isSome },
    ⟨signatureValid H quote kind m || logs m, signatureValid H quote kind m⟩]

theorem verifyFail_eq {α : Type} (m : Fields) (reason : String) : (verifyFail m reason : Check α) =
    if logs m then .error (.refused reason) else .error (.raised "AttributeError") := by
  unfold verifyFail logs
  cases truthy (Json.get m "credentialSubject") && !(Json.get m "credentialSubject").isObj <;> rfl

theorem verifyMandate_follows (kind : Kind) (m : Fields) :
    Gates.Follows (verifyMandate H quote kind m) (proofGates H quote kind m) := by
  unfold verifyMandate proofGates
  cases hr : readProof H quote kind m with
  | error reason =>
    have hfail : Gates.Follows (verifyFail m reason : Check Unit) [⟨false || logs m, false⟩] :=
      .require_or (by rw [verifyFail_eq]; rfl)
    refine hfail.congr ?_ ?_
    · simp [Open, Except.toOption]
    · simp [Handled, Except.toOption]
  | ok p =>
    have hopt : optionsHash H quote kind m = documentHash H p.options := by
      rw [optionsHash, hr]
      rfl
    refine Follows.cons_open rfl rfl ((Follows.read _ _).bind fun document hdoc => ?_)
    rw [expect_eq_ok] at hdoc
    rw [hopt]
    refine (Follows.read _ _).bind fun options ho => ?_
    rw [expect_eq_ok] at ho
    refine .require_or (r := "signature invalid: " ++ quote .signature) (e := "AttributeError") ?_
    have hvalid : signatureValid H quote kind m = verifies H p options document := by
      rw [signatureValid, hopt, hr, hdoc, ho]
      rfl
    rw [hvalid, verifyFail_eq]
    rfl

/-- A proof that passes is a signature of the issuer. -/
theorem signed_of_verifyMandate {kind : Kind} {m : Fields}
    (h : verifyMandate H quote kind m = .ok ()) : Signed H kind m := by
  unfold verifyMandate at h
  cases hr : readProof H quote kind m with
  | error reason =>
    simp only [hr, verifyFail_eq] at h
    split_ifs at h
  | ok p =>
    obtain ⟨issuer, proof, hissuer, hpk, hproof, hpurpose, hopt⟩ := readProof_eq_ok hr
    simp only [hr, expect_bind_eq_ok] at h
    obtain ⟨document, hdoc, options, ho, h⟩ := h
    split_ifs at h with hv
    · rw [hopt] at ho
      rw [verifies, Bool.and_eq_true] at hv
      exact ⟨issuer, _, proof, options, document, p.signature, hissuer, hpk, hproof, hpurpose, ho,
        hdoc, hv.2⟩
    · rw [verifyFail_eq] at h
      split_ifs at h

/-! ## Freshness -/

/-- A clock without an offset is not compared with a deadline that has one. -/
def comparable (fromisoformat : String → Option Moment) (now : Moment) (m : Fields) : Bool :=
  now != .naive || (deadline fromisoformat m).isNone

/-- The mandate has not expired. -/
def isFresh (fromisoformat : String → Option Moment) (now : Moment) (m : Fields) : Bool :=
  match now, deadline fromisoformat m with
  | .aware current, some t => current ≤ t
  | _, _ => false

theorem expiryStatus_follows (now : Moment) (m : Fields) :
    Gates.Follows (expiryStatus fromisoformat now m) [{ readable := comparable fromisoformat now m }] := by
  unfold expiryStatus comparable
  cases deadline fromisoformat m with
  | none => exact ⟨by simp [Open], by simp [Raised, Handled]⟩
  | some t =>
    cases now with
    | naive => exact ⟨by simp [Open], by simp [Raised, Handled]⟩
    | aware current => exact ⟨by simp [Open], by simp [Raised, Handled]⟩

theorem expiryStatus_valid_iff {now : Moment} {m : Fields} {status : ExpiryStatus}
    (h : expiryStatus fromisoformat now m = .ok status) :
    status = .valid ↔ isFresh fromisoformat now m = true := by
  unfold expiryStatus at h
  unfold isFresh
  cases hd : deadline fromisoformat m with
  | none =>
    rw [hd] at h
    cases h
    cases now <;> simp
  | some t =>
    cases now with
    | naive =>
      rw [hd] at h
      cases h
    | aware current =>
      rw [hd] at h
      cases h
      split_ifs with hlt
      · simp [not_le.2 hlt]
      · simp [not_lt.1 hlt]

end NthDao.Mandate
