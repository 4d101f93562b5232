/-
  The cryptographic boundary: SHA-256, Ed25519 identities and their signatures.

  The hash function and the signature scheme are outside the repository; a
  `Host` carries them with what the code relies on: digests are 64 hexadecimal
  digits, keys and signatures have their length, and an honest signature
  verifies.  The character tables of the interpreter are part of it too.

  * `asDid k` is `AgentIdentity.as_did`, `signText k m` the encoded signature;
  * `verifySig did m s` is the check of an encoded signature that the signed
    objects share: a `did:key`, a canonical encoding, 64 bytes, and Ed25519;
  * `checksumHost` is a host to run the model on: polynomial checksums in place
    of the hash and the signatures.
-/
import NthDao.B64u
import NthDao.DidKey
import NthDao.Py.Size

namespace NthDao

open Py

/-- `[0-9a-f]`. -/
def isHexChar (c : Char) : Bool := ('0' ≤ c && c ≤ '9') || ('a' ≤ c && c ≤ 'f')

/-- `^[0-9a-f]{n}$`. -/
def isHex (n : ℕ) (s : List Char) : Bool := s.length == n && s.all isHexChar

/-- `bytes.fromhex` of a hexadecimal string. -/
def fromHex : List Char → Bytes
  | a :: b :: r => UInt8.ofNat ((hexVal a).getD 0 * 16 + (hexVal b).getD 0) :: fromHex r
  | _ => []

/-- What the repository takes from its environment. -/
structure Host where
  /-- `hashlib.sha256(b).hexdigest()` -/
  sha256 : Bytes → String
  sha256_isHex : ∀ b, isHex 64 (sha256 b).toList = true
  /-- an Ed25519 signing key -/
  SecretKey : Type
  pubkey : SecretKey → Bytes
  pubkey_length : ∀ k, (pubkey k).length = 32
  sign : SecretKey → Bytes → Bytes
  sign_length : ∀ k m, (sign k m).length = 64
  /-- `VerifyKey(pk).verify(m, s)` -/
  verify : Bytes → Bytes → Bytes → Bool
  verify_sign : ∀ k m, verify (pubkey k) m (sign k m) = true
  /-- `str.isalnum` and `str.isprintable` of one character -/
  isalnum : Char → Bool
  isprintable : Char → Bool

variable (H : Host)

/-- `AgentIdentity.as_did`. -/
def asDid (k : H.SecretKey) : String := encodeDidKey (H.pubkey k)

/-- `b64u_encode(identity.sign(m))`. -/
def signText (k : H.SecretKey) (m : Bytes) : String := b64uEncode (H.sign k m)

/-- The checks on an encoded signature: the signer is a `did:key`, the text is
    the canonical encoding of 64 bytes, and these verify. -/
def verifySig (did : String) (m : Bytes) (sig : String) : Bool :=
  match decodeDidKey did, b64uDecode sig with
  | some pk, some s => s.length == 64 && b64uEncode s == sig && H.verify pk m s
  | _, _ => false

theorem decodeDidKey_asDid (k : H.SecretKey) : decodeDidKey (asDid H k) = some (H.pubkey k) :=
  decodeDidKey_encodeDidKey (H.pubkey_length k)

theorem isDidKey_asDid (k : H.SecretKey) : isDidKey (asDid H k) = true :=
  isDidKey_encodeDidKey (H.pubkey_length k)

theorem asDid_ne_empty (k : H.SecretKey) : asDid H k ≠ "" := by
  intro h
  have := isDidKey_asDid H k
  rw [h] at this
  exact absurd this (by decide)

theorem length_signText (k : H.SecretKey) (m : Bytes) : (signText H k m).length = 86 := by
  rw [signText, length_b64uEncode, H.sign_length]

theorem verifySig_eq_true {did : String} {m : Bytes} {sig : String}
    (h : verifySig H did m sig = true) : ∃ pk s, decodeDidKey did = some pk ∧
      s.length = 64 ∧ sig = b64uEncode s ∧ H.verify pk m s = true := by
  unfold verifySig at h
  split at h
  · rename_i pk s hpk _
    simp only [Bool.and_eq_true, beq_iff_eq] at h
    exact ⟨pk, s, hpk, h.1.1, h.1.2.symm, h.2⟩
  · cases h

/-- An honest signature verifies. -/
theorem verifySig_signText (k : H.SecretKey) (m : Bytes) :
    verifySig H (asDid H k) m (signText H k m) = true := by
  simp [verifySig, decodeDidKey_asDid, signText, b64uDecode_b64uEncode, H.sign_length,
    H.verify_sign]

/-! ## Sizes -/

theorem plain_b64Char : ∀ n < 64, plain (b64Char n) = true := by decide

/-- Signatures all have one size. -/
theorem weight_signature {s : Bytes} (h : s.length = 64) :
    weight false (.str (b64uEncode s)) = 88 := by
  have hp : ∀ c ∈ (b64uEncode s).toList, plain c = true := by
    intro c hc
    rw [b64uEncode, String.toList_ofList] at hc
    obtain ⟨n, hn, rfl⟩ := List.mem_map.1 hc
    exact plain_b64Char n (sextets_lt s n hn)
  rw [weight_str, strWeight_plain false hp, length_b64uEncode, h]

theorem plain_b58Char (d : ℕ) : plain (b58Char d) = true := by
  by_cases h : d < 58
  · revert d
    decide
  · have hlen : b58Alphabet.length ≤ d := not_lt.1 h
    rw [b58Char, List.getD_eq_getElem?_getD, List.getElem?_eq_none hlen]
    decide

/-- The characters of a `did:key` take one byte each. -/
theorem plain_encodeDidKey (pubkey : Bytes) : ∀ c ∈ (encodeDidKey pubkey).toList, plain c = true := by
  intro c hc
  rw [encodeDidKey, String.toList_ofList, List.mem_append] at hc
  rcases hc with hc | hc
  · exact List.all_eq_true.1 (by decide) c hc
  · rw [b58encode, List.mem_append] at hc
    rcases hc with hc | hc
    · rw [List.eq_of_mem_replicate hc]
      decide
    · obtain ⟨d, -, rfl⟩ := List.mem_map.1 hc
      exact plain_b58Char d

theorem plain_of_isHexChar {c : Char} (h : isHexChar c = true) : plain c = true := by
  simp only [isHexChar, Bool.or_eq_true, Bool.and_eq_true, decide_eq_true_eq, Char.le_def,
    UInt32.le_iff_toNat_le] at h
  simp only [plain, Bool.and_eq_true, decide_eq_true_eq, bne_iff_ne]
  change (48 ≤ c.toNat ∧ c.toNat ≤ 57) ∨ (97 ≤ c.toNat ∧ c.toNat ≤ 102) at h
  omega

/-- Plain text followed by hexadecimal digits has a known size. -/
theorem strWeight_hex {s : String} {pre cs : List Char} {n : ℕ} (h : s.toList = pre ++ cs)
    (hpre : ∀ c ∈ pre, plain c = true) (hcs : isHex n cs = true) :
    strWeight false s = pre.length + n + 2 := by
  rw [isHex, Bool.and_eq_true, beq_iff_eq, List.all_eq_true] at hcs
  rw [strWeight_plain, ← String.length_toList, h, List.length_append, hcs.1]
  intro c hc
  rcases List.mem_append.1 (h ▸ hc) with hc | hc
  · exact hpre c hc
  · exact plain_of_isHexChar (hcs.2 c hc)

/-! ## A host to run the model on -/

/-- The last `n` hexadecimal digits of `v`. -/
def hexDigits : ℕ → ℕ → List Char
  | 0, _ => []
  | n + 1, v => hexDigits n (v / 16) ++ [Nat.digitChar (v % 16)]

theorem length_hexDigits (n v : ℕ) : (hexDigits n v).length = n := by
  induction n generalizing v with
  | zero => rfl
  | succ n ih => simp [hexDigits, ih]

theorem isHexChar_digitChar : ∀ d < 16, isHexChar (Nat.digitChar d) = true := by decide

theorem all_hexDigits (n v : ℕ) : (hexDigits n v).all isHexChar = true := by
  induction n generalizing v with
  | zero => rfl
  | succ n ih => simp [hexDigits, ih, isHexChar_digitChar (v % 16) (Nat.mod_lt _ (by decide))]

theorem digitChar_injective : ∀ a < 16, ∀ b < 16, Nat.digitChar a = Nat.digitChar b → a = b := by
  decide

theorem hexDigits_injective {n v v' : ℕ} (h : hexDigits n v = hexDigits n v') :
    v % 16 ^ n = v' % 16 ^ n := by
  induction n generalizing v v' with
  | zero => simp [Nat.mod_one]
  | succ n ih =>
    obtain ⟨hd, hlast⟩ := List.append_inj' h rfl
    have hq := ih hd
    have hr := digitChar_injective _ (Nat.mod_lt v (by decide)) _ (Nat.mod_lt v' (by decide))
      (List.singleton_inj.1 hlast)
    rw [Nat.pow_succ', Nat.mod_mul, Nat.mod_mul, hq, hr]

/-- A checksum of bytes. -/
def checksum (b : Bytes) : ℕ := b.foldl (fun a x => (a * 257 + x.toNat + 1) % 2 ^ 64) 7

/-- The signature of `checksumHost` under the key whose bytes are all `k`. -/
def checksumSign (k : UInt8) (m : Bytes) : Bytes :=
  List.replicate 63 k ++ [UInt8.ofNat (checksum m)]

/-- A host that computes: the keys are bytes. -/
def checksumHost : Host where
  sha256 b := String.ofList (hexDigits 64 (checksum b))
  sha256_isHex b := by simp [isHex, length_hexDigits, all_hexDigits]
  SecretKey := UInt8
  pubkey k := List.replicate 32 k
  pubkey_length k := by simp
  sign := checksumSign
  sign_length k m := by simp [checksumSign]
  verify pk m s := s == checksumSign (pk.headD 0) m
  verify_sign k m := by simp [List.replicate_succ]
  isalnum := Char.isAlphanum
  isprintable c := 32 ≤ c.toNat && c.toNat < 127

end NthDao
