/-
  Sealed courier envelopes (`nth_dao/delivery/courier.py`).

  A carrier transports a signed envelope as a ciphertext for its recipient.  The
  sealed boxes of libsodium are outside the repository: `Sealing` carries them
  with what the code relies on.

  * `validateCourierWire`, `sealCourierEnvelope`, `openCourierEnvelope`: the
    functions of the source;
  * `open_at_iff`: what was opened once opens again exactly while it is valid;
  * `open_seal`: what was sealed for a recipient, the recipient opens.
-/
import NthDao.Delivery.Signed

namespace NthDao

namespace Delivery

open Py TransportEnvelope

variable (H : Host)

def courierProtocol : String := "nth-courier-envelope"
def courierVersion : ℤ := 1
def courierIdMax : ℕ := 128
def sealedBoxOverheadBytes : ℕ := 48
def maxCourierCiphertextBytes : ℕ := maxEnvelopeBytes + sealedBoxOverheadBytes
def maxCourierCiphertextChars : ℕ := (maxCourierCiphertextBytes + 2) / 3 * 4

/-- `COURIER_FIELDS`. -/
def courierFields : List String :=
  ["protocol", "version", "recipient_did", "courier_id", "ciphertext", "integrity"]

/-- What the courier takes from libsodium. -/
structure Sealing where
  /-- `crypto_sign_ed25519_pk_to_curve25519`; `none` where it raises -/
  publicOf : Bytes → Option Bytes
  publicOf_length : ∀ pk x, publicOf pk = some x → x.length = 32
  /-- `bytes(SigningKey(seed).verify_key)` -/
  verifyKey : Bytes → Bytes
  /-- `crypto_sign_ed25519_sk_to_curve25519` -/
  privateOf : Bytes → Bytes
  /-- `bytes(PrivateKey(secret).public_key)` -/
  publicKey : Bytes → Bytes
  /-- `SealedBox(PublicKey(x)).encrypt(m)` with the ephemeral key `r` -/
  encrypt : Bytes → Bytes → Bytes → Bytes
  encrypt_length : ∀ x r m, x.length = 32 →
    (encrypt x r m).length = m.length + sealedBoxOverheadBytes
  /-- `SealedBox(PrivateKey(secret)).decrypt(c)`; `none` where it raises -/
  decrypt : Bytes → Bytes → Option Bytes
  decrypt_encrypt : ∀ secret r m, decrypt secret (encrypt (publicKey secret) r m) = some m

variable (S : Sealing)

/-! ## The wire object -/

/-- `_validate_courier_id`. -/
def validateCourierId (courierId : Json) : Except String Unit := do
  let s ← expect courierId.asStr "courier_id must be a string"
  require (len s ≤ courierIdMax) "courier_id exceeds 128 chars"
  require ((chars s).all fun c => !(c.toNat < 0x20 || c.toNat == 0x7f))
    "courier_id must not contain control characters"

/-- `[A-Za-z0-9_-]`. -/
def isB64uChar (c : Char) : Bool := isAsciiAlnum c || c == '_' || c == '-'

/-- `validate_courier_wire`, with the recipient's DID. -/
def validateCourierWire (courier : Json) (recipientDid : String) : Except String Bytes := do
  require (courier.isObj && Json.keysEq courier.fields courierFields)
    "courier envelope has missing or unknown fields"
  let d := courier.fields
  require ((Json.get d "protocol").eqStr courierProtocol) "wrong courier protocol"
  require ((Json.get d "version").asInt == some courierVersion) "unsupported courier version"
  let claimed ← expect (Json.get d "recipient_did").asStr "recipient_did must be a did:key"
  require (isDidKey claimed) "recipient_did must be a did:key"
  require (claimed == recipientDid) "courier claims a different recipient"
  validateCourierId (Json.get d "courier_id")
  let encoded ← expect (Json.get d "ciphertext").asStr "ciphertext must be non-empty base64url text"
  require (encoded != "") "ciphertext must be non-empty base64url text"
  require (len encoded ≤ maxCourierCiphertextChars) "ciphertext exceeds the wire limit"
  require ((chars encoded).all isB64uChar) "ciphertext is not canonical base64url"
  let integrity ← expect (Json.get d "integrity").asStr "integrity must be a sha256 digest"
  require (isDigest integrity) "integrity must be a sha256 digest"
  let ciphertext ← expect (b64uDecode encoded) "ciphertext is not canonical base64url"
  require (ciphertext.length ≤ maxCourierCiphertextBytes) "decoded ciphertext exceeds the wire limit"
  require (integrity == digest H ciphertext) "ciphertext integrity check failed"
  return ciphertext

/-! ## Keys -/

/-- `x25519_public_from_did`. -/
def x25519PublicFromDid (did : String) : Except String Bytes := do
  let pk ← expect (decodeDidKey did) "recipient DID is not a did:key"
  expect (S.publicOf pk) "crypto_sign_ed25519_pk_to_curve25519"

/-- `x25519_private_from_ed25519`. -/
def x25519PrivateFromEd25519 (secret : Bytes) : Except String Bytes := do
  let secret := if secret.length = 32 then secret ++ S.verifyKey secret else secret
  require (secret.length == 64) "ed25519 secret must be 32 (seed) or 64 bytes"
  return S.privateOf secret

/-! ## Sealing and opening -/

/-- `seal_courier_envelope` with the ephemeral key `r`. -/
def sealCourierEnvelope (e : TransportEnvelope) (recipientDid courierId : String) (r : Bytes) :
    Except String Json := do
  validateEnvelope H e none true
  require (isDidKey recipientDid) "recipient_did must be a did:key"
  validateCourierId (.str courierId)
  let content ← expect (canonicalJson (.obj e.toDict)) "envelope is not canonical JSON"
  require (content.length ≤ maxEnvelopeBytes) "envelope exceeds the wire byte limit"
  let recipient ← x25519PublicFromDid S recipientDid
  let ciphertext := S.encrypt recipient r content
  return .obj [("protocol", .str courierProtocol), ("version", .int courierVersion),
    ("recipient_did", .str recipientDid), ("courier_id", .str courierId),
    ("ciphertext", .str (b64uEncode ciphertext)), ("integrity", .str (digest H ciphertext))]

/-- `open_courier_envelope` with the bytes of the private key, up to the check of
    the envelope. -/
def decryptCourier (courier : Json) (recipientDid : String) (identityPrivate : Bytes) :
    Except String TransportEnvelope := do
  let ciphertext ← validateCourierWire H courier recipientDid
  let recipient ← x25519PublicFromDid S recipientDid
  require (identityPrivate.length == 32 || identityPrivate.length == 64)
    "identity_private must be a nacl.signing.SigningKey or a 32/64-byte Ed25519 seed"
  let secret ← x25519PrivateFromEd25519 S identityPrivate
  require (S.publicKey secret == recipient) "the provided private key does not match the recipient DID"
  let content ← expect (S.decrypt secret ciphertext) "decryption failed"
  let text ← expect (utf8Decode content) "decrypted content is not an envelope"
  let parsed ← expect (loads text) "decrypted content is not an envelope"
  (fromDict parsed).mapError ("decrypted content is not an envelope: " ++ ·)

/-- `open_courier_envelope`. -/
def openCourierEnvelope (courier : Json) (recipientDid : String) (identityPrivate : Bytes)
    (nowMs : ℤ) : Except String TransportEnvelope := do
  let envelope ← decryptCourier H S courier recipientDid identityPrivate
  (validateEnvelope H envelope (some nowMs) true).mapError ("decrypted envelope invalid: " ++ ·)
  return envelope

/-! ## Opening again -/

variable {H S}

theorem open_eq_ok {courier : Json} {recipientDid : String} {identityPrivate : Bytes} {nowMs : ℤ}
    {e : TransportEnvelope} :
    openCourierEnvelope H S courier recipientDid identityPrivate nowMs = .ok e ↔
      decryptCourier H S courier recipientDid identityPrivate = .ok e ∧
        validateEnvelope H e (some nowMs) true = .ok () := by
  simp only [openCourierEnvelope, bind_eq_ok, mapError_eq_ok, pure_eq_ok]
  constructor
  · rintro ⟨_, hd, _, hv, rfl⟩
    exact ⟨hd, hv⟩
  · rintro ⟨hd, hv⟩
    exact ⟨e, hd, (), hv, rfl⟩

/-- **What was opened once opens again** exactly while the envelope is valid. -/
theorem open_at_iff {courier : Json} {recipientDid : String} {identityPrivate : Bytes} {t now : ℤ}
    {e : TransportEnvelope}
    (h : openCourierEnvelope H S courier recipientDid identityPrivate t = .ok e) :
    openCourierEnvelope H S courier recipientDid identityPrivate now = .ok e ↔
      validateEnvelope H e (some now) true = .ok () := by
  rw [open_eq_ok] at h ⊢
  exact and_iff_right h.1

/-! ## What was sealed opens -/

theorem isB64uChar_b64Char : ∀ n < 64, isB64uChar (b64Char n) = true := by decide

theorem all_b64uEncode (raw : Bytes) : (chars (b64uEncode raw)).all isB64uChar = true := by
  rw [chars_eq, b64uEncode, String.toList_ofList, List.all_eq_true]
  intro c hc
  obtain ⟨n, hn, rfl⟩ := List.mem_map.1 hc
  exact isB64uChar_b64Char n (sextets_lt raw n hn)

/-- The wire object of a ciphertext within the limit is accepted. -/
theorem validateCourierWire_of_sealed {recipientDid courierId : String} {ciphertext : Bytes}
    (hdid : isDidKey recipientDid = true) (hid : validateCourierId (.str courierId) = .ok ())
    (hpos : 0 < ciphertext.length) (hle : ciphertext.length ≤ maxCourierCiphertextBytes) :
    validateCourierWire H (.obj [("protocol", .str courierProtocol), ("version", .int courierVersion),
      ("recipient_did", .str recipientDid), ("courier_id", .str courierId),
      ("ciphertext", .str (b64uEncode ciphertext)), ("integrity", .str (digest H ciphertext))])
      recipientDid = .ok ciphertext := by
  have hlen := length_b64uEncode ciphertext
  have hne : b64uEncode ciphertext ≠ "" := by
    intro h
    rw [h, show "".length = 0 from rfl] at hlen
    omega
  simp only [validateCourierWire, bind_eq_ok, require_eq_ok, expect_eq_ok, pure_eq_ok, Json.fields_obj]
  refine ⟨(), ?_, (), beq_self_eq_true courierProtocol, (), beq_self_eq_true (some courierVersion),
    recipientDid, rfl, (), hdid, (), beq_self_eq_true _, (), hid, b64uEncode ciphertext, rfl, (),
    by simpa using hne, (), ?_, (), all_b64uEncode _, digest H ciphertext, rfl, (),
    isDigest_digest H _, ciphertext, b64uDecode_b64uEncode _, (), by simpa using hle, (),
    beq_self_eq_true _, rfl⟩
  · simp [Json.isObj, Json.keysEq, courierFields]
  · rw [len_eq, hlen, decide_eq_true_eq]
    unfold maxCourierCiphertextChars
    omega

/-- **What was sealed for a recipient, the recipient opens**: with sorted keys, and
    while the envelope is fresh. -/
theorem open_seal {e : TransportEnvelope} (hw : e.wf = true) {recipientDid courierId : String}
    {r identityPrivate secret recipient : Bytes} {courier : Json} {now : ℤ}
    (hseal : sealCourierEnvelope H S e recipientDid courierId r = .ok courier)
    (hlen : identityPrivate.length = 32 ∨ identityPrivate.length = 64)
    (hsecret : x25519PrivateFromEd25519 S identityPrivate = .ok secret)
    (hrecipient : x25519PublicFromDid S recipientDid = .ok recipient)
    (hmatch : S.publicKey secret = recipient)
    (hfresh : validateEnvelope H e (some now) true = .ok ()) :
    openCourierEnvelope H S courier recipientDid identityPrivate now = .ok e.norm := by
  simp only [sealCourierEnvelope, bind_eq_ok, require_eq_ok, expect_eq_ok, pure_eq_ok,
    hrecipient, decide_eq_true_eq] at hseal
  obtain ⟨_, hv, _, hdid, _, hid, content, hcontent, _, hsize, _, ⟨⟩, rfl⟩ := hseal
  obtain ⟨henc, hbytes⟩ := canonicalJson_eq_some hcontent
  have hcipher : (S.encrypt recipient r content).length =
      content.length + sealedBoxOverheadBytes := by
    refine S.encrypt_length _ _ _ ?_
    simp only [x25519PublicFromDid, bind_eq_ok, expect_eq_ok] at hrecipient
    obtain ⟨pk, -, hpk⟩ := hrecipient
    exact S.publicOf_length pk _ hpk
  have hloads : loads (dumps false (Json.obj e.toDict).norm) = some (Json.obj e.toDict).norm :=
    loads_dumps false (Json.wf_norm _ (e.wf_toDict hw)) (by rw [Json.encodable_norm, henc])
  obtain ⟨_, _, _, hf⟩ := validateEnvelope_facts hv
  rw [open_eq_ok]
  refine ⟨?_, validateEnvelope_norm H hw hfresh⟩
  simp only [decryptCourier, bind_eq_ok, require_eq_ok, expect_eq_ok, mapError_eq_ok]
  refine ⟨_, validateCourierWire_of_sealed hdid hid ?_ ?_, recipient, hrecipient, (), by simpa using hlen,
    secret, hsecret, (), by simpa using hmatch, content, ?_, _, ?_, _, hloads,
    e.fromDict_toDict hf.keys⟩
  · rw [hcipher]; unfold sealedBoxOverheadBytes; omega
  · rw [hcipher]; unfold maxCourierCiphertextBytes; omega
  · rw [← hmatch]; exact S.decrypt_encrypt _ _ _
  · rw [hbytes, utf8Decode_utf8]

end Delivery

end NthDao
