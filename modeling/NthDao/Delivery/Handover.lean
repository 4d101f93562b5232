/-
  The acknowledgement of a courier handover (`nth_dao/delivery/courier_handover.py`).

  A recipient who drains a carrier puts the envelope of the acknowledgement in
  its outbox before the carrier's copy is removed.  On a retry the same
  acknowledgement is built again, dated by the first acceptance.

  * `ackEnvelope`, `handoverAck`: the acknowledgement that `process_handover` builds;
  * `enqueueArgs_signed_iff`: an outbox takes a signed envelope while it is fresh;
  * `handover_ack_enqueueable_iff`: the acknowledgement can be enqueued as long as
    the carrier's copy opens, if and only if the envelope expires within the
    lifetime of the acknowledgement.
-/
import NthDao.Delivery.Acknowledgement
import NthDao.Delivery.Courier
import NthDao.Delivery.OutboxCalls

namespace NthDao

namespace Delivery

open Py TransportEnvelope

variable (H : Host)

/-- `ACK_ENVELOPE_TTL_MS`. -/
def ackEnvelopeTtlMs : ℤ := maxTtlMs

/-- The draft of `_ack_envelope`. -/
def ackDraft (ack : DeliveryAck) (senderDid : String) (nowMs : ℤ) (hash : String) : Draft where
  kind := "delivery.ack"
  recipient := senderDid
  payload := .obj [("ack", .obj ack.toDict)]
  createdAtMs := nowMs
  expiresAtMs := nowMs + ackEnvelopeTtlMs
  nonce := "ack" ++ hash

/-- `_ack_envelope`. -/
def ackEnvelope (k : H.SecretKey) (ack : DeliveryAck) (senderDid : String) (nowMs : ℤ) :
    Except String TransportEnvelope := do
  let payload ← expect (canonicalJson (.obj [("ack", .obj ack.toDict)])) "payload is not canonical JSON"
  signEnvelope H k (ackDraft ack senderDid nowMs (H.sha256 payload))

/-- The acknowledgement that `process_handover` enqueues for an envelope first
    accepted at `receivedMs`. -/
def handoverAck (k : H.SecretKey) (e : TransportEnvelope) (receivedMs : ℤ) :
    Except String TransportEnvelope := do
  let messageId ← expect e.messageId.asStr "message_id is not a content address"
  let sha ← expect (envelopeDigest H e.toDict) "envelope is not canonical JSON"
  let senderDid ← expect e.senderDid.asStr "invalid sender DID"
  let ack ← signAck H k messageId sha receivedMs
  ackEnvelope H k ack senderDid receivedMs

/-! ## Freshness -/

variable {H}

theorem checkFresh_eq_ok {created expires now : ℤ} :
    checkFresh created expires (some now) = .ok () ↔
      (-maxSafeInteger ≤ now ∧ now ≤ maxSafeInteger) ∧ created ≤ now + maxClockSkewMs ∧
        now < expires := by
  simp only [checkFresh, bind_eq_ok, require_eq_ok, Bool.and_eq_true, decide_eq_true_eq]
  constructor
  · rintro ⟨_, h₁, _, h₂, h₃⟩
    exact ⟨h₁, h₂, h₃⟩
  · rintro ⟨h₁, h₂, h₃⟩
    exact ⟨(), h₁, (), h₂, h₃⟩

/-- A valid envelope is valid at a time if and only if it is fresh then. -/
theorem validateEnvelope_some_iff {e : TransportEnvelope} {b : Bool}
    (h : validateEnvelope H e none b = .ok ()) {created expires now : ℤ}
    (hc : e.createdAtMs = .int created) (hx : e.expiresAtMs = .int expires) :
    validateEnvelope H e (some now) b = .ok () ↔ checkFresh created expires (some now) = .ok () := by
  constructor
  · intro hv
    simp only [validateEnvelope, checkPeriod, checkSafeInt, hc, hx, Json.asInt, bind_eq_ok,
      require_eq_ok, expect_eq_ok, pure_eq_ok, Option.some.injEq] at hv
    obtain ⟨_, -, p, ⟨_, ⟨_, rfl, _, -, rfl⟩, _, -, _, ⟨_, rfl, _, -, rfl⟩, _, -, _, -, _, hfresh, -⟩,
      -⟩ := hv
    exact hfresh
  · exact validateEnvelope_some H h hc hx

/-- What was signed is valid and has the times of its draft. -/
theorem signEnvelope_reads {k : H.SecretKey} {d : Draft} {a : TransportEnvelope}
    (h : signEnvelope H k d = .ok a) : validateEnvelope H a none true = .ok () ∧
      a.createdAtMs = .int d.createdAtMs ∧ a.expiresAtMs = .int d.expiresAtMs := by
  simp only [signEnvelope, bind_eq_ok, pure_eq_ok] at h
  obtain ⟨_, -, _, -, _, -, _, -, _, -, _, hvalid, rfl⟩ := h
  exact ⟨hvalid, rfl, rfl⟩

/-- **An outbox takes a signed envelope** while it is fresh. -/
theorem enqueueArgs_signed_iff {k : H.SecretKey} {d : Draft} {a : TransportEnvelope}
    (h : signEnvelope H k d = .ok a) {now : ℤ} :
    (∃ r, Outbox.enqueueArgs H a now = .ok r) ↔
      1 ≤ now ∧ checkFresh d.createdAtMs d.expiresAtMs (some now) = .ok () := by
  obtain ⟨hvalid, hc, hx⟩ := signEnvelope_reads h
  obtain ⟨id, _, _, hf⟩ := validateEnvelope_facts hvalid
  rw [← validateEnvelope_some_iff hvalid hc hx]
  constructor
  · rintro ⟨r, hr⟩
    simp only [Outbox.enqueueArgs, Outbox.validateOperationTime, bind_eq_ok, require_eq_ok,
      mapError_eq_ok, decide_eq_true_eq] at hr
    obtain ⟨_, hpos, _, hv, -⟩ := hr
    exact ⟨hpos, hv⟩
  · rintro ⟨hpos, hv⟩
    obtain ⟨r, hr, -⟩ := enqueueArgs_of_valid hpos hv hf.id_eq
    exact ⟨r, hr⟩

/-! ## The window of a retry -/

theorem handoverAck_eq_ok {k : H.SecretKey} {e a : TransportEnvelope} {t : ℤ}
    (h : handoverAck H k e t = .ok a) : ∃ d, signEnvelope H k d = .ok a ∧ d.createdAtMs = t ∧
      d.expiresAtMs = t + ackEnvelopeTtlMs := by
  simp only [handoverAck, ackEnvelope, bind_eq_ok] at h
  obtain ⟨messageId, -, sha, -, sender, -, ack, -, payload, -, hsign⟩ := h
  exact ⟨_, hsign, rfl, rfl⟩

/-- **The acknowledgement of a handover stays enqueueable** as long as the carrier's
    copy opens, if and only if the envelope expires within the lifetime of an
    acknowledgement that is dated by the first acceptance. -/
theorem handover_ack_enqueueable_iff {S : Sealing} {courier : Json} {recipientDid : String}
    {identityPrivate : Bytes} {s t expires : ℤ} {e a : TransportEnvelope} {k : H.SecretKey}
    (hopen : openCourierEnvelope H S courier recipientDid identityPrivate s = .ok e)
    (hx : e.expiresAtMs = .int expires)
    (haccept : validateEnvelope H e (some t) true = .ok ())
    (hack : handoverAck H k e t = .ok a) :
    (∀ now, t ≤ now → openCourierEnvelope H S courier recipientDid identityPrivate now = .ok e →
      ∃ r, Outbox.enqueueArgs H a now = .ok r) ↔ expires ≤ t + ackEnvelopeTtlMs := by
  obtain ⟨d, hsign, hdc, hdx⟩ := handoverAck_eq_ok hack
  obtain ⟨id, created, x, hf⟩ := validateEnvelope_facts haccept
  obtain rfl : expires = x := by simpa [hx] using hf.expires_eq
  have hnone := validateEnvelope_none H haccept
  have ht := (validateEnvelope_some_iff hnone hf.created_eq hx).1 haccept
  obtain ⟨hvalid, ha, -⟩ := signEnvelope_reads hsign
  obtain ⟨_, c, _, hg⟩ := validateEnvelope_facts hvalid
  have htpos : 0 < t := by
    have := hg.created_pos
    obtain rfl : c = d.createdAtMs := by simpa [ha] using hg.created_eq.symm
    omega
  have hmax := hf.expires_le
  simp only [open_at_iff hopen, validateEnvelope_some_iff hnone hf.created_eq hx,
    enqueueArgs_signed_iff hsign, hdc, hdx, checkFresh_eq_ok] at ht ⊢
  have hskew : 0 < maxClockSkewMs ∧ 0 < ackEnvelopeTtlMs := by decide
  constructor
  · intro h
    by_contra hlate
    -- the moment at which the acknowledgement expires
    have := h (t + ackEnvelopeTtlMs) (by omega)
      ⟨⟨by unfold maxSafeInteger at *; omega, by omega⟩, by omega, by omega⟩
    omega
  · rintro hle now hnow ⟨hsafe, -, hfresh⟩
    exact ⟨by omega, hsafe, by omega, by omega⟩

/-! ## The acknowledgement is built -/

/-- The acknowledgement with the fields that `sign_ack` sets. -/
def ackOf (messageId sha receiverDid signature : String) (received : ℤ) : DeliveryAck :=
  { messageId := .str messageId, envelopeSha256 := .str sha, receiverDid := .str receiverDid,
    receivedAtMs := .int received, signature := .str signature }

section AckOf

variable {messageId sha receiverDid signature : String} {received : ℤ}
  (hm : isDigest messageId = true) (hs : isDigest sha = true) (hr : isDidKey receiverDid = true)
  (hsig : weight false (.str signature) ≤ 88) (hpos : 0 < received) (hle : received ≤ maxSafeInteger)

include hpos hle in
theorem encodable_ackOf : ∀ p ∈ (ackOf messageId sha receiverDid signature received).toDict,
    p.2.encodable = true := by
  have ht : (Json.int received).encodable = true := by
    unfold maxSafeInteger at hle
    exact Json.encodable_int (by omega)
  simp only [DeliveryAck.toDict, ackOf, List.forall_mem_cons]
  exact ⟨rfl, rfl, rfl, ht, rfl, rfl, by decide, rfl, rfl, by simp⟩

include hm hs hr hsig hpos hle in
/-- An acknowledgement is small. -/
theorem weight_ackOf_le :
    weight false (.obj (ackOf messageId sha receiverDid signature received).toDict) ≤ 8000 := by
  obtain ⟨pk, hpk⟩ := Option.isSome_iff_exists.1 hr
  have ht : (Json.int received).encodable = true := by
    unfold maxSafeInteger at hle
    exact Json.encodable_int (by omega)
  have h₁ := weight_str_le (length_of_isDigest hm).le
  have h₂ := weight_str_le (length_of_isDigest hs).le
  have h₃ := weight_str_le (length_of_decodeDidKey hpk)
  have h₄ := weight_int_le ht
  have hkeys : strWeight false "message_id" + strWeight false "envelope_sha256" +
      strWeight false "receiver_did" + strWeight false "received_at_ms" +
      strWeight false "signature" + strWeight false "protocol" + strWeight false "version" +
      strWeight false "kind" + strWeight false "status" + weight false (.str ackProtocol) +
      weight false (.int ackVersion) + weight false (.str ackKind) +
      weight false (.str ackStatusReceived) ≤ 300 := by decide
  unfold maxIntDigits at h₄
  rw [weight_obj false (by simp [DeliveryAck.toDict])]
  simp only [DeliveryAck.toDict, ackOf, List.map_cons, List.map_nil, List.sum_cons, List.sum_nil,
    itemWeight]
  omega

include hm hs hr hsig hpos hle in
theorem validateAck_ackOf {b : Bool}
    (h : b = true → checkAckSignature H (ackOf messageId sha receiverDid signature received) = .ok ()) :
    validateAck H (ackOf messageId sha receiverDid signature received) none b = .ok () := by
  obtain ⟨wire, hwire⟩ := canonicalJson_isSome.2
    (@encodable_ackOf messageId sha receiverDid signature received hpos hle)
  have hlen := weight_ackOf_le hm hs hr hsig hpos hle
  simp only [validateAck, bind_eq_ok, require_eq_ok, expect_eq_ok]
  refine ⟨(), beq_self_eq_true ackProtocol, (), beq_self_eq_true (some ackVersion), (),
    beq_self_eq_true ackKind, (), beq_self_eq_true ackStatusReceived, _, rfl, (), hm, _, rfl, (), hs,
    _, rfl, (), hr, received, rfl, (), by simp [hpos, hle], (), rfl, wire, hwire, (), ?_, ?_⟩
  · rw [canonicalJson_length hwire, decide_eq_true_eq]
    exact hlen.trans (by decide)
  · cases b with
    | true => exact h rfl
    | false => rfl

end AckOf

/-- An identity signs every acknowledgement of digests at a time in range. -/
theorem signAck_of_digests (k : H.SecretKey) {messageId sha : String} {received : ℤ}
    (hm : isDigest messageId = true) (hs : isDigest sha = true) (hpos : 0 < received)
    (hle : received ≤ maxSafeInteger) : ∃ signature, weight false (.str signature) ≤ 88 ∧
      signAck H k messageId sha received =
        .ok (ackOf messageId sha (asDid H k) signature received) := by
  have hdid := isDidKey_asDid H k
  obtain ⟨body, hbody⟩ : ∃ b, canonicalJson
      (.obj (ackOf messageId sha (asDid H k) "" received).signingBody) = some b :=
    canonicalJson_isSome.2 fun p hp => encodable_ackOf hpos hle p (List.mem_of_mem_filter hp)
  have hweight : weight false (.str (signText H k body)) ≤ 88 := by
    rw [signText, weight_signature (H.sign_length k body)]
  have hne : signText H k body ≠ "" := by
    intro h
    have := length_signText H k body
    rw [h] at this
    cases this
  have hsig : checkAckSignature H
      (ackOf messageId sha (asDid H k) (signText H k body) received) = .ok () := by
    simp only [checkAckSignature, bind_eq_ok, expect_eq_ok, require_eq_ok, Json.asStr_eq_some]
    exact ⟨_, rfl, (), by simpa using hne, _, rfl, body, hbody, verifySig_signText H k body⟩
  refine ⟨_, hweight, ?_⟩
  simp only [signAck, bind_eq_ok, expect_eq_ok, pure_eq_ok]
  exact ⟨(), validateAck_ackOf hm hs hdid (by decide) hpos hle (by simp), body, hbody, (),
    validateAck_ackOf hm hs hdid hweight hpos hle fun _ => hsig, rfl⟩

/-- A `did:key` is a recipient. -/
theorem validateRecipient_of_did {did : String} (h : isDidKey did = true) :
    validateRecipient (.str did) = .ok () := by
  obtain ⟨pk, hpk⟩ := Option.isSome_iff_exists.1 h
  have hlen := length_of_decodeDidKey hpk
  have hprefix : didKeyHead.isPrefixOf (chars did) = true := by
    rw [decodeDidKey] at hpk
    split_ifs at hpk with hp
    exact hp
  obtain ⟨rest, hrest⟩ := List.isPrefixOf_iff_prefix.1 hprefix
  have hstart : startsWith "did:key:" did = true := by
    rw [startsWith, List.isPrefixOf_iff_prefix, ← hrest]
    exact ⟨'z' :: rest, rfl⟩
  have hpos : 1 ≤ did.length := by
    rw [← String.length_toList, ← chars_eq, ← hrest, List.length_append]
    exact (by decide : 1 ≤ didKeyHead.length).trans (Nat.le_add_right _ _)
  simp only [validateRecipient, bind_eq_ok, expect_eq_ok, require_eq_ok, Json.asStr_eq_some, len_eq]
  refine ⟨did, rfl, (), by simp [hpos, hlen.trans (by decide : 56 ≤ 256)], ?_⟩
  rw [if_pos hstart, require_eq_ok]
  exact h

theorem isAsciiAlnum_of_isHexChar {c : Char} (h : isHexChar c = true) : isAsciiAlnum c = true := by
  simp only [isHexChar, Bool.or_eq_true, Bool.and_eq_true, decide_eq_true_eq] at h
  simp only [isAsciiAlnum, isLowerAlnum, Bool.or_eq_true, Bool.and_eq_true, decide_eq_true_eq]
  rcases h with h | h
  · exact .inl (.inr h)
  · exact .inl (.inl ⟨h.1, h.2.trans (by decide)⟩)

/-- The draft around an acknowledgement is sound. -/
theorem sound_ackDraft {messageId sha receiverDid signature senderDid : String} {t : ℤ}
    (hm : isDigest messageId = true) (hs : isDigest sha = true) (hr : isDidKey receiverDid = true)
    (hsig : weight false (.str signature) ≤ 88) (hsender : isDidKey senderDid = true) (hpos : 0 < t)
    (hle : t + ackEnvelopeTtlMs ≤ maxSafeInteger) (body : Bytes) :
    (ackDraft (ackOf messageId sha receiverDid signature t) senderDid t (H.sha256 body)).Sound := by
  have httl : ackEnvelopeTtlMs = maxTtlMs ∧ 0 < maxTtlMs := by decide
  have ht : t ≤ maxSafeInteger := by omega
  have hsmall := weight_ackOf_le hm hs hr hsig hpos ht
  have hpayload : (Json.obj [("ack", .obj
      (ackOf messageId sha receiverDid signature t).toDict)]).encodable = true := by
    simp only [Json.encodable_obj, List.forall_mem_cons]
    exact ⟨encodable_ackOf hpos ht, by simp⟩
  obtain ⟨b, hb⟩ := canonicalJson_of_encodable hpayload
  have hhex := H.sha256_isHex body
  rw [isHex, Bool.and_eq_true, beq_iff_eq, List.all_eq_true] at hhex
  constructor
  case kind =>
    have : (isLabel isLowerAlnum (chars "delivery.ack") && !hasDots (chars "delivery.ack")) = true := by
      decide
    exact this
  case recipient => exact validateRecipient_of_did hsender
  case daoId => exact .inl rfl
  case created_pos => exact hpos
  case expires_gt => change t < t + ackEnvelopeTtlMs; omega
  case expires_le => exact hle
  case ttl => change t + ackEnvelopeTtlMs - t ≤ maxTtlMs; omega
  case nonce =>
    have hchars : chars ("ack" ++ H.sha256 body) = ['a', 'c', 'k'] ++ (H.sha256 body).toList := by
      rw [chars_eq, String.toList_append]; rfl
    have hlen : len ("ack" ++ H.sha256 body) = 67 := by
      rw [len, hchars, List.length_append, hhex.1]; rfl
    have hall : ∀ c ∈ (H.sha256 body).toList, isAsciiAlnum c = true := fun c hc =>
      isAsciiAlnum_of_isHexChar (hhex.2 c hc)
    change (16 ≤ len ("ack" ++ H.sha256 body) && len ("ack" ++ H.sha256 body) ≤ 128 &&
      (chars ("ack" ++ H.sha256 body)).all isAsciiAlnum) = true
    rw [hlen, hchars, List.all_append, List.all_eq_true.2 hall]
    decide
  case payload_isObj => rfl
  case payload_shape =>
    have hsafe : -maxSafeInteger ≤ t := by unfold maxSafeInteger; omega
    have hversion : -maxSafeInteger ≤ ackVersion ∧ ackVersion ≤ maxSafeInteger := by decide
    simp [ackDraft, checkPayloadShape, checkPayloadFields, DeliveryAck.toDict, ackOf,
      unit_bind_eq_ok, maxPayloadDepth, hsafe, ht, hversion]
  case payload_wf =>
    simp [ackDraft, DeliveryAck.toDict, ackOf, Json.wf, Json.wfFields]
  case payload_size =>
    have hkey : strWeight false "ack" ≤ 10 := by decide
    refine ⟨b, hb, ?_⟩
    rw [canonicalJson_length hb, weight_obj false (by simp)]
    simp only [List.map_cons, List.map_nil, List.sum_cons, List.sum_nil, itemWeight]
    unfold maxPayloadBytes
    omega
  case hopLimit =>
    have : (0 : ℤ) ≤ 0 ∧ (0 : ℤ) ≤ maxHopLimit := by decide
    exact this
  case replyTo => exact .inl rfl

/-- **The acknowledgement of a valid envelope is built.** -/
theorem handoverAck_of_valid (k : H.SecretKey) {e : TransportEnvelope} {nowMs : Option ℤ}
    (h : validateEnvelope H e nowMs true = .ok ()) {t : ℤ} (hpos : 0 < t)
    (hle : t + ackEnvelopeTtlMs ≤ maxSafeInteger) : ∃ a, handoverAck H k e t = .ok a := by
  obtain ⟨id, _, _, hf⟩ := validateEnvelope_facts h
  obtain ⟨wire, hwire⟩ := hf.wire
  obtain ⟨sender, hsender, hdid⟩ : ∃ sender, e.senderDid = .str sender ∧ isDidKey sender = true := by
    simp only [validateEnvelope, checkHead, bind_eq_ok, require_eq_ok, expect_eq_ok,
      Json.asStr_eq_some] at h
    obtain ⟨_, ⟨_, -, _, -, _, -, _, -, _, -, sender, hs, _, hd, -⟩, -⟩ := h
    exact ⟨sender, hs, hd⟩
  have httl : 0 < ackEnvelopeTtlMs := by decide
  have hsha := isDigest_digest H wire
  obtain ⟨signature, hsig, hack⟩ := signAck_of_digests k hf.id_isDigest hsha hpos (by omega)
  have hpayload : (Json.obj [("ack", .obj
      (ackOf id (digest H wire) (asDid H k) signature t).toDict)]).encodable = true := by
    simp only [Json.encodable_obj, List.forall_mem_cons]
    exact ⟨encodable_ackOf hpos (by omega), by simp⟩
  obtain ⟨body, hbody⟩ := canonicalJson_of_encodable hpayload
  have hsound := sound_ackDraft (H := H) hf.id_isDigest hsha (isDidKey_asDid H k) hsig hdid hpos hle body
  obtain ⟨a, hsign⟩ : ∃ a, signEnvelope H k (ackDraft (ackOf id (digest H wire) (asDid H k)
      signature t) sender t (H.sha256 body)) = .ok a := by
    obtain ⟨_, _, _, hsign, -⟩ := signEnvelope_of_sound H hsound k
    exact ⟨_, hsign⟩
  refine ⟨a, ?_⟩
  simp only [handoverAck, ackEnvelope, bind_eq_ok, expect_eq_ok, Json.asStr_eq_some]
  refine ⟨id, hf.id_eq, digest H wire, ?_, sender, hsender, _, hack, body, hbody, hsign⟩
  rw [envelopeDigest, hwire]; rfl

/-! ## A message from the edge of the clock skew -/

/-- Sealed boxes to run the model on: the public key in front of the text. -/
def openSealing : Sealing where
  publicOf pk := if pk.length = 32 then some pk else none
  publicOf_length pk x h := by
    split_ifs at h with hl
    cases h; exact hl
  verifyKey seed := seed
  privateOf secret := secret.take 32
  publicKey secret := secret
  encrypt x _ m := x ++ List.replicate 16 0 ++ m
  encrypt_length x r m h := by
    simp [h, sealedBoxOverheadBytes]; omega
  decrypt secret c := if (secret ++ List.replicate 16 0).isPrefixOf c then
    some (c.drop (secret.length + 16)) else none
  decrypt_encrypt secret r m := by simp

/-- A message of the key 1 that is five minutes ahead and lives as long as
    messages may. -/
def aheadDraft : Draft where
  kind := "chat.message"
  recipient := asDid checksumHost (2 : UInt8)
  payload := .obj [("n", .int 1)]
  createdAtMs := 1000 + maxClockSkewMs
  expiresAtMs := 1000 + maxClockSkewMs + maxTtlMs
  nonce := "abcdefghijklmnop"

theorem sound_aheadDraft : aheadDraft.Sound where
  kind := by decide
  recipient := validateRecipient_of_did (isDidKey_asDid _ _)
  daoId := .inl rfl
  created_pos := by decide
  expires_gt := by decide
  expires_le := by decide
  ttl := by decide
  nonce := by decide
  payload_isObj := rfl
  payload_shape := by decide
  payload_wf := by decide
  payload_size := by
    obtain ⟨b, hb⟩ := @canonicalJson_of_encodable [("n", .int 1)] (by decide)
    refine ⟨b, hb, ?_⟩
    rw [canonicalJson_length hb]
    decide
  hopLimit := by decide
  replyTo := .inl rfl

/-- The key 2 opens the message at 1000 and acknowledges it. -/
theorem exists_ahead : ∃ (courier : Json) (e a : TransportEnvelope),
    e.createdAtMs = .int (1000 + maxClockSkewMs) ∧
    e.expiresAtMs = .int (1000 + maxClockSkewMs + maxTtlMs) ∧
    openCourierEnvelope checksumHost openSealing courier (asDid checksumHost (2 : UInt8))
      (List.replicate 32 2) 1000 = .ok e ∧
    handoverAck checksumHost (2 : UInt8) e 1000 = .ok a := by
  obtain ⟨payloadHash, id, signature, -, hvalid⟩ :=
    signEnvelope_of_sound checksumHost sound_aheadDraft (1 : UInt8)
  set e := aheadDraft.signed (asDid checksumHost (1 : UInt8)) payloadHash id signature with he
  have hw : e.wf = true := wf_signed sound_aheadDraft
  have hdid := decodeDidKey_asDid checksumHost (2 : UInt8)
  have hfresh : validateEnvelope checksumHost e (some 1000) true = .ok () :=
    (validateEnvelope_some_iff hvalid rfl rfl).2 (checkFresh_eq_ok.2 (by decide))
  have hrecipient : x25519PublicFromDid openSealing (asDid checksumHost (2 : UInt8)) =
      .ok (List.replicate 32 2) := by
    rw [x25519PublicFromDid, hdid]; rfl
  obtain ⟨courier, hseal⟩ : ∃ courier, sealCourierEnvelope checksumHost openSealing e
      (asDid checksumHost (2 : UInt8)) "" [] = .ok courier := by
    obtain ⟨_, _, _, hf⟩ := validateEnvelope_facts hvalid
    obtain ⟨wire, hwire⟩ := hf.wire
    have hlen : wire.length ≤ maxEnvelopeBytes := by
      simp only [validateEnvelope, bind_eq_ok, require_eq_ok, expect_eq_ok, hwire,
        Option.some.injEq] at hvalid
      obtain ⟨_, -, _, -, _, -, _, -, _, -, _, -, _, -, _, rfl, _, hle, -⟩ := hvalid
      simpa using hle
    simp only [sealCourierEnvelope, bind_eq_ok, require_eq_ok, expect_eq_ok, pure_eq_ok]
    exact ⟨_, (), hvalid, (), isDidKey_asDid _ _, (), by decide, wire, hwire, (), by simpa using hlen,
      _, hrecipient, rfl⟩
  have hopen := open_seal hw hseal (.inl (List.length_replicate ..)) rfl hrecipient rfl hfresh
  obtain ⟨a, ha⟩ := handoverAck_of_valid (2 : UInt8) (validateEnvelope_norm checksumHost hw hfresh)
    (t := 1000) (by decide) (by decide)
  exact ⟨courier, e.norm, a, rfl, rfl, hopen, ha⟩

/-- The theorem on this message. -/
theorem handover_ahead : ∃ (courier : Json) (e a : TransportEnvelope),
    handoverAck checksumHost (2 : UInt8) e 1000 = .ok a ∧
    ((∀ now, 1000 ≤ now → openCourierEnvelope checksumHost openSealing courier
        (asDid checksumHost (2 : UInt8)) (List.replicate 32 2) now = .ok e →
      ∃ r, Outbox.enqueueArgs checksumHost a now = .ok r) ↔
        1000 + maxClockSkewMs + maxTtlMs ≤ 1000 + ackEnvelopeTtlMs) := by
  obtain ⟨courier, e, a, -, hx, hopen, hack⟩ := exists_ahead
  exact ⟨courier, e, a, hack,
    handover_ack_enqueueable_iff hopen hx (open_eq_ok.1 hopen).2 hack⟩

/-- Seven days later the copy of the carrier still opens, and the outbox refuses the
    acknowledgement. -/
theorem handover_ack_expired : ∃ (courier : Json) (e a : TransportEnvelope),
    e.createdAtMs = .int (1000 + maxClockSkewMs) ∧
    e.expiresAtMs = .int (1000 + maxClockSkewMs + maxTtlMs) ∧
    validateEnvelope checksumHost e (some 1000) true = .ok () ∧
    handoverAck checksumHost (2 : UInt8) e 1000 = .ok a ∧
    openCourierEnvelope checksumHost openSealing courier (asDid checksumHost (2 : UInt8))
      (List.replicate 32 2) (1000 + maxTtlMs) = .ok e ∧
    ∀ r, Outbox.enqueueArgs checksumHost a (1000 + maxTtlMs) ≠ .ok r := by
  obtain ⟨courier, e, a, hc, hx, hopen, hack⟩ := exists_ahead
  have hvalid := (open_eq_ok.1 hopen).2
  refine ⟨courier, e, a, hc, hx, hvalid, hack, ?_, fun r hr => ?_⟩
  · rw [open_at_iff hopen, validateEnvelope_some_iff (validateEnvelope_none _ hvalid) hc hx,
      checkFresh_eq_ok]
    decide
  · obtain ⟨d, hsign, hdc, hdx⟩ := handoverAck_eq_ok hack
    have := ((enqueueArgs_signed_iff hsign).1 ⟨r, hr⟩).2
    rw [hdc, hdx, checkFresh_eq_ok] at this
    exact absurd this (by decide)

end Delivery

end NthDao
