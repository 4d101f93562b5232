/-
  Signed acknowledgements (`nth_dao/delivery/acknowledgement.py`).

  * `validateAck` is `validate_ack`, with the text of its rejection;
  * `fromDict_toDict`: a valid acknowledgement is read back from its canonical
    JSON.
-/
import NthDao.Delivery.Envelope

namespace NthDao

namespace Delivery

open Py

variable (H : Host)

def ackProtocol : String := "nth-delivery-ack"
def ackVersion : ℤ := 1
def ackKind : String := "delivery.ack"
def ackStatusReceived : String := "received"
def maxAckBytes : ℕ := 16 * 1024

/-- `_ACK_FIELDS`. -/
def ackFields : List String :=
  ["protocol", "version", "kind", "message_id", "envelope_sha256", "receiver_did", "status",
    "received_at_ms", "signature"]

/-- `DeliveryAck`. -/
structure DeliveryAck where
  messageId : Json
  envelopeSha256 : Json
  receiverDid : Json
  receivedAtMs : Json
  signature : Json := .str ""
  protocol : Json := .str ackProtocol
  version : Json := .int ackVersion
  kind : Json := .str ackKind
  status : Json := .str ackStatusReceived
  deriving DecidableEq

namespace DeliveryAck

variable (a : DeliveryAck)

/-- `to_dict`. -/
def toDict : Fields :=
  [("message_id", a.messageId), ("envelope_sha256", a.envelopeSha256),
    ("receiver_did", a.receiverDid), ("received_at_ms", a.receivedAtMs),
    ("signature", a.signature), ("protocol", a.protocol), ("version", a.version), ("kind", a.kind),
    ("status", a.status)]

/-- `signing_body`. -/
def signingBody : Fields := a.toDict.filter fun p => p.1 != "signature"

/-- `from_dict`. -/
def fromDict (value : Json) : Except String DeliveryAck := do
  require value.isObj "ack must be a JSON object"
  let d := value.fields
  require (Json.keysEq d ackFields) "ack has missing or unknown fields"
  return { messageId := Json.get d "message_id", envelopeSha256 := Json.get d "envelope_sha256",
           receiverDid := Json.get d "receiver_did", receivedAtMs := Json.get d "received_at_ms",
           signature := Json.get d "signature", protocol := Json.get d "protocol",
           version := Json.get d "version", kind := Json.get d "kind",
           status := Json.get d "status" }

end DeliveryAck

/-- The checks of the time of an acknowledgement at `now_ms`. -/
def checkAckTime (received : ℤ) : Option ℤ → Except String Unit
  | none => .ok ()
  | some now => do
    require (0 < now && now ≤ maxSafeInteger) "now_ms out of range"
    require (received ≤ now + maxClockSkewMs) "ack dated in the future beyond clock skew"

/-- The checks of the signature of an acknowledgement. -/
def checkAckSignature (a : DeliveryAck) : Except String Unit := do
  let signature ← expect a.signature.asStr "ack signature missing"
  require (signature != "") "ack signature missing"
  let receiver ← expect a.receiverDid.asStr "ack signature verification failed"
  let body ← expect (canonicalJson (.obj a.signingBody)) "ack signature verification failed"
  require (verifySig H receiver body signature) "ack signature verification failed"

/-- `validate_ack`. -/
def validateAck (a : DeliveryAck) (nowMs : Option ℤ) (requireSignature : Bool) :
    Except String Unit := do
  require (a.protocol.eqStr ackProtocol) "wrong ack protocol"
  require (a.version.asInt == some ackVersion) "unsupported ack version"
  require (a.kind.eqStr ackKind) "wrong ack kind"
  require (a.status.eqStr ackStatusReceived) "unsupported ack status"
  let messageId ← expect a.messageId.asStr "message_id is not a content address"
  require (isDigest messageId) "message_id is not a content address"
  let sha ← expect a.envelopeSha256.asStr "envelope_sha256 is not a content address"
  require (isDigest sha) "envelope_sha256 is not a content address"
  let receiver ← expect a.receiverDid.asStr "invalid receiver DID"
  require (isDidKey receiver) "invalid receiver DID"
  let received ← expect a.receivedAtMs.asInt "received_at_ms must be an integer"
  require (0 < received && received ≤ maxSafeInteger) "received_at_ms out of range"
  checkAckTime received nowMs
  let wire ← expect (canonicalJson (.obj a.toDict)) "ack is not canonical JSON"
  require (wire.length ≤ maxAckBytes) "ack exceeds the wire byte limit"
  if requireSignature then checkAckSignature H a else .ok ()

/-- `sign_ack`. -/
def signAck (k : H.SecretKey) (messageId sha : String) (received : ℤ) : Except String DeliveryAck := do
  let a : DeliveryAck := { messageId := .str messageId, envelopeSha256 := .str sha,
                           receiverDid := .str (asDid H k), receivedAtMs := .int received }
  validateAck H a none false
  let body ← expect (canonicalJson (.obj a.signingBody)) "ack is not canonical JSON"
  let a := { a with signature := .str (signText H k body) }
  validateAck H a none true
  return a

/-! ## Valid acknowledgements -/

/-- What is read of a valid acknowledgement. -/
structure DeliveryAck.Reads (a : DeliveryAck) (messageId sha receiver signature : String)
    (received : ℤ) : Prop where
  eq : a = { messageId := .str messageId, envelopeSha256 := .str sha, receiverDid := .str receiver,
             receivedAtMs := .int received, signature := .str signature }
  id_isDigest : isDigest messageId = true
  json : ∃ text, canonicalText a.toDict = some text

variable {H}

/-- A valid acknowledgement consists of texts and numbers. -/
theorem validateAck_reads {a : DeliveryAck} {nowMs : Option ℤ}
    (h : validateAck H a nowMs true = .ok ()) :
    ∃ messageId sha receiver signature received,
      a.Reads messageId sha receiver signature received := by
  simp only [validateAck, checkAckSignature, bind_eq_ok, require_eq_ok, expect_eq_ok, if_true,
    Json.eqStr_iff, Json.asStr_eq_some, Json.asInt_eq_some, beq_iff_eq] at h
  obtain ⟨_, h₁, _, h₂, _, h₃, _, h₄, m, h₅, _, h₆, s, h₇, _, -, r, h₈, _, -, t, h₉, _, -, _, -,
    wire, hw, _, -, g, h₁₀, -⟩ := h
  refine ⟨m, s, r, g, t, ⟨?_, h₆, ?_⟩⟩
  · obtain ⟨⟩ := a
    simp_all
  · rw [canonicalText_eq, hw, (canonicalJson_eq_some hw).2, Option.bind_some, utf8Decode_utf8]
    exact ⟨_, rfl⟩

/-- **A valid acknowledgement is read back** from its canonical text. -/
theorem fromDict_ack {a : DeliveryAck} {messageId sha receiver signature : String} {received : ℤ}
    (h : a.Reads messageId sha receiver signature received) {text : String}
    (ht : canonicalText a.toDict = some text) :
    loads (chars text) = some (Json.obj a.toDict).norm ∧
      DeliveryAck.fromDict (Json.obj a.toDict).norm = .ok a := by
  have hn : (a.toDict.map Prod.fst).Nodup := by
    change (["message_id", "envelope_sha256", "receiver_did", "received_at_ms", "signature",
      "protocol", "version", "kind", "status"] : List String).Nodup
    decide
  have hw : (Json.obj a.toDict).wf = true := by
    rw [Json.wf_obj]
    refine ⟨hn, fun p hp => ?_⟩
    rw [h.eq] at hp
    simp only [DeliveryAck.toDict, List.mem_cons, List.not_mem_nil, or_false] at hp
    rcases hp with rfl | rfl | rfl | rfl | rfl | rfl | rfl | rfl | rfl <;> rfl
  have hk : Json.keysEq a.toDict ackFields = true := by
    simp [Json.keysEq, DeliveryAck.toDict, ackFields]
  refine ⟨loads_canonicalText hw ht, ?_⟩
  simp only [DeliveryAck.fromDict, Json.isObj_norm, Json.keysEq_norm, hk, Json.get_norm hn]
  rw [h.eq]
  rfl

/-! ## A signed envelope and its acknowledgement -/

/-- A message from the key 1 to the key 2. -/
def sampleEnvelope : TransportEnvelope where
  messageId := .str "sha256:000000000000000000000000000000000000000000000000727aa95438a47052"
  kind := .str "chat.message"
  senderDid := .str "did:key:z6MkeXBLjYiSvqnhFb6D7sHm8yKm4jV45wwBFRaatf1cfZ76"
  recipient := .str "did:key:z6Mkeb6dsrBTX95vPgLiZAcgRr6XJthFm1czoqFEx34DQtRo"
  createdAtMs := .int 1000
  expiresAtMs := .int 9000
  nonce := .str "abcdefghijklmnop"
  payloadHash := .str "sha256:00000000000000000000000000000000000000000000000007b0a764ee799723"
  payload := .obj [("n", .int 1)]
  routing := .obj [("hop_limit", .int 0), ("hop_count", .int 0)]
  signature := .str
    "AQEBAQEBAQEBAQEBAQEBAQEBAQEBAQEBAQEBAQEBAQEBAQEBAQEBAQEBAQEBAQEBAQEBAQEBAQEBAQEBAQEBjQ"

/-- Its id. -/
def sampleMessageId : String :=
  "sha256:000000000000000000000000000000000000000000000000727aa95438a47052"

theorem sampleEnvelope_wf : sampleEnvelope.wf = true := by decide

/-- The checks of the sample. -/
def sampleEnvelopeChecks : PLift (
    (validateEnvelope checksumHost sampleEnvelope none true).toOption.isSome = true) :=
  ⟨by decide +kernel⟩

/-- The sample is valid. -/
theorem validate_sampleEnvelope :
    validateEnvelope checksumHost sampleEnvelope none true = .ok () :=
  eq_ok_of_isSome sampleEnvelopeChecks.down

/-- The acknowledgement of the key 2. -/
def sampleAck : DeliveryAck where
  messageId := .str sampleMessageId
  envelopeSha256 := .str "sha256:000000000000000000000000000000000000000000000000d1f789a2d7b02331"
  receiverDid := .str "did:key:z6Mkeb6dsrBTX95vPgLiZAcgRr6XJthFm1czoqFEx34DQtRo"
  receivedAtMs := .int 2000
  signature := .str
    "AgICAgICAgICAgICAgICAgICAgICAgICAgICAgICAgICAgICAgICAgICAgICAgICAgICAgICAgICAgICAgICDQ"

end Delivery

end NthDao
