/-
  Payment attempts (`nth_dao/commerce/payment_attempt.py`): the signed, hash
  chained record of one external payment.

  * `AttemptEvent` and `verifyPaymentAttempt`, the check of a chain: one
    function per event type over the variables the loop tracks;
  * `projectVerified`: the view of a chain, a second fold over the events.

  `(False, r)` of `verify_payment_attempt` is the error `attemptRejected r`; a
  regular expression applied to a value that is no string raises `typeError`.
-/
import NthDao.Commerce.Settlement

namespace NthDao

open Py

/-! ## Constants -/

def paymentAttemptKind : String := "nth-payment-attempt-event-v1"
def attemptEventFields : List String :=
  ["attempt_id", "seq", "type", "actor_did", "prev_state", "new_state", "payload",
    "prev_event_hash", "created_at_ms", "kind", "signature"]
def createFields : List String := ["schema_version", "adapter_id", "intent"]
def intentFields : List String :=
  ["trade_id", "amount_minor", "currency", "payee_did", "payer_did", "memo"]
def maxEventBytes : ℕ := 192 * 1024
def maxChainBytes : ℕ := 768 * 1024
def maxJsonDepth : ℕ := 32
def maxJsonNodes : ℕ := 65536

/-- `_ATTEMPT_ID.fullmatch`. -/
def isAttemptId (s : String) : Bool :=
  startsWith "nth-settlement:v1:sha256:" s && isHex 64 ((chars s).drop 25)

/-- `_LEASE_ID.fullmatch`. -/
def isLeaseId (s : String) : Bool := isHex 32 (chars s)

/-- `_EVENT_HASH.fullmatch`. -/
def isEventHash (s : String) : Bool := startsWith "sha256:" s && isHex 64 ((chars s).drop 7)

/-- `[a-z0-9]`. -/
def isCodeChar (c : Char) : Bool := ('a' ≤ c && c ≤ 'z') || ('0' ≤ c && c ≤ '9')

/-- `_ERROR_CODE.fullmatch`. -/
def isErrorCode (s : String) : Bool :=
  match chars s with
  | c :: cs => isCodeChar c && cs.length ≤ 127 && cs.all fun d => isCodeChar d || d == '-'
  | [] => false

/-! ## States and event types -/

inductive AttemptState where
  | pending | inflight | settled | blocked | orphaned
  deriving DecidableEq, Repr

/-- The name of a state on the wire. -/
def AttemptState.wire : AttemptState → String
  | .pending => "pending"
  | .inflight => "inflight"
  | .settled => "settled"
  | .blocked => "blocked"
  | .orphaned => "orphaned"

inductive AttemptType where
  | created | claimed | retryScheduled | settled | blocked | orphaned | orphanReconciled
  deriving DecidableEq, Repr

/-- The name of an event type on the wire. -/
def AttemptType.wire : AttemptType → String
  | .created => "payment_attempt_created"
  | .claimed => "payment_attempt_claimed"
  | .retryScheduled => "payment_attempt_retry_scheduled"
  | .settled => "payment_attempt_settled"
  | .blocked => "payment_attempt_blocked"
  | .orphaned => "payment_attempt_orphaned"
  | .orphanReconciled => "payment_attempt_orphan_reconciled"

def allAttemptTypes : List AttemptType :=
  [.created, .claimed, .retryScheduled, .settled, .blocked, .orphaned, .orphanReconciled]

/-- The event type of a value. -/
def AttemptType.ofWire (v : Json) : Option AttemptType := allAttemptTypes.find? fun t => v.eqStr t.wire

/-! ## Events -/

/-- `PaymentAttemptEvent`; the fields of an event read from a chain are arbitrary. -/
structure AttemptEvent where
  attemptId : Json
  seq : Json
  type : Json
  actorDid : Json
  prevState : Json
  newState : Json
  payload : Json
  prevEventHash : Json
  createdAtMs : Json
  kind : Json := .str paymentAttemptKind
  signature : Json := .str ""

/-- `PaymentAttemptEvent.signing_body`. -/
def AttemptEvent.signingBody (e : AttemptEvent) : Json :=
  .obj [("attempt_id", e.attemptId), ("seq", e.seq), ("type", e.type), ("actor_did", e.actorDid),
    ("prev_state", e.prevState), ("new_state", e.newState), ("payload", e.payload),
    ("prev_event_hash", e.prevEventHash), ("created_at_ms", e.createdAtMs), ("kind", e.kind)]

/-- `PaymentAttemptEvent.to_dict`. -/
def AttemptEvent.toDict (e : AttemptEvent) : Json :=
  .obj [("attempt_id", e.attemptId), ("seq", e.seq), ("type", e.type), ("actor_did", e.actorDid),
    ("prev_state", e.prevState), ("new_state", e.newState), ("payload", e.payload),
    ("prev_event_hash", e.prevEventHash), ("created_at_ms", e.createdAtMs), ("kind", e.kind),
    ("signature", e.signature)]

/-- `PaymentAttemptEvent.from_dict` of a dict with all the fields. -/
def AttemptEvent.fromDict (d : Fields) : AttemptEvent :=
  { attemptId := Json.get d "attempt_id", seq := Json.get d "seq", type := Json.get d "type",
    actorDid := Json.get d "actor_did", prevState := Json.get d "prev_state",
    newState := Json.get d "new_state", payload := Json.get d "payload",
    prevEventHash := Json.get d "prev_event_hash", createdAtMs := Json.get d "created_at_ms",
    kind := Json.get d "kind", signature := Json.get d "signature" }

variable (H : Host)

/-- `payment_attempt_event_hash`, `none` where it raises. -/
def attemptEventHash (raw : Json) : Option String := digestOf H raw

/-- `_sign_event`. -/
def signAttemptEvent (actor : H.SecretKey) (e : AttemptEvent) : Except Exc AttemptEvent := do
  require (e.actorDid.eqStr (asDid H actor))
    (.attemptRejected "payment attempt signer does not match actor")
  let b ← expect (canonicalJson e.signingBody) .valueError
  return { e with signature := .str (signText H actor b) }

/-- `_verify_signature`. -/
def verifyAttemptSignature (e : AttemptEvent) : Except Exc String := do
  let did ← expect e.actorDid.asStr (.attemptRejected "invalid payment attempt actor DID")
  require (isDidKey did) (.attemptRejected "invalid payment attempt actor DID")
  let sig ← expect e.signature.asStr (.attemptRejected "payment attempt signature invalid")
  require (1 ≤ len sig && len sig ≤ 128) (.attemptRejected "payment attempt signature invalid")
  let b ← expect (canonicalJson e.signingBody) (.attemptRejected "payment attempt signature invalid")
  require (verifySig H did b sig) (.attemptRejected "payment attempt signature invalid")
  return did

/-! ## Intents -/

/-- `_intent_dict`. -/
def intentDict (i : SettlementIntent) : Except Exc Fields := do
  i.validate
  return [("trade_id", .str i.tradeId), ("amount_minor", .int i.amountMinor),
    ("currency", .str i.currency), ("payee_did", .str i.payeeDid), ("payer_did", .str i.payerDid),
    ("memo", .str i.memo)]

/-- `SettlementIntent(**value)` with the types that `validate` asks for. -/
def parseIntent (d : Fields) : Option SettlementIntent := do
  return { tradeId := ← (Json.get d "trade_id").asStr, amountMinor := ← (Json.get d "amount_minor").asInt,
           currency := ← (Json.get d "currency").asStr, payeeDid := ← (Json.get d "payee_did").asStr,
           payerDid := ← (Json.get d "payer_did").asStr, memo := ← (Json.get d "memo").asStr }

/-- `_intent_from_dict`. -/
def intentFromDict (value : Json) : Except Exc SettlementIntent := do
  require (value.isObj && Json.keysEq value.fields intentFields)
    (.attemptRejected "payment intent has missing or unknown fields")
  let i ← expect (parseIntent value.fields) (.attemptRejected "payment intent is invalid")
  i.validate.mapError fun _ => .attemptRejected "payment intent is invalid"
  return i

/-! ## Resource limits -/

/-- The walk of `_preflight_attempt_json` over the stack of values with their
    depth: `budget` nodes and `room` characters are left.  A value is a tree
    here; a container met for the second time is an `other`. -/
def attemptWalk : ℕ → ℕ → List (Json × ℕ) → Bool
  | _, _, [] => true
  | 0, _, _ :: _ => false
  | budget + 1, room, (value, depth) :: stack =>
    match value with
    | .null | .bool _ => attemptWalk budget room stack
    | .int n => Nat.size n.natAbs ≤ maxChainBytes * 4 && attemptWalk budget room stack
    | .str s => len s ≤ room && attemptWalk budget (room - len s) stack
    | .other _ => false
    | .arr xs =>
      (depth < maxJsonDepth || xs.isEmpty) && xs.length ≤ maxJsonNodes &&
        attemptWalk budget room ((xs.map (·, depth + 1)).reverse ++ stack)
    | .obj kvs =>
      let keys := (kvs.map fun p => len p.1).sum
      (depth < maxJsonDepth || kvs.isEmpty) && kvs.length ≤ maxJsonNodes && keys ≤ room &&
        attemptWalk budget (room - keys) ((kvs.map fun p => (p.2, depth + 1)).reverse ++ stack)

/-- `_preflight_attempt_json`. -/
def preflightAttemptJson (v : Json) : Bool := attemptWalk maxJsonNodes maxChainBytes [(v, 0)]

/-! ## Verification -/

/-- The variables of the loop of `verify_payment_attempt`, after the first
    event; `prevHash` is the hash of the event before. -/
structure Track where
  state : AttemptState
  actorDid : String
  attemptId : String
  intent : SettlementIntent
  leaseId : String := ""
  leaseExpiresAtMs : ℤ := 0
  nextAttemptAtMs : ℤ := 0
  orphanEvidenceDigest : String := ""
  lastCreatedAtMs : ℤ
  prevHash : String

/-- The parts of an event that its metadata check has read. -/
structure Meta where
  event : AttemptEvent
  attemptId : String
  actorDid : String
  payload : Fields
  createdAtMs : ℤ
  hash : String

def invalid (reason : String) : Exc := .attemptRejected reason

/-- The checks made on every event: its fields, size, metadata and signature. -/
def verifyMeta (i : ℕ) (prevHash : String) (last : ℤ) (raw : Json) : Except Exc Meta := do
  require (raw.isObj && Json.keysEq raw.fields attemptEventFields)
    (invalid "payment attempt event has missing or unknown fields")
  let b ← expect (canonicalJson raw) (invalid "payment attempt event is malformed")
  require (b.length ≤ maxEventBytes) (invalid "payment attempt event is too large")
  let event := AttemptEvent.fromDict raw.fields
  let attemptId ← expect event.attemptId.asStr .typeError
  require (isAttemptId attemptId && event.seq.eqInt i && event.kind.eqStr paymentAttemptKind &&
    event.prevEventHash.eqStr prevHash && event.payload.isObj)
    (invalid "payment attempt event metadata is invalid")
  let createdAtMs ← expect (positiveAmount event.createdAtMs)
    (invalid "payment attempt event metadata is invalid")
  require (last ≤ createdAtMs) (invalid "payment attempt event metadata is invalid")
  let actorDid ← verifyAttemptSignature H event
  let hash ← expect (attemptEventHash H raw) .valueError
  return { event, attemptId, actorDid, payload := event.payload.fields, createdAtMs, hash }

/-- The first event. -/
def verifyCreated (m : Meta) : Except Exc Track := do
  require (m.event.type.eqStr AttemptType.created.wire && m.event.prevState.eqStr "" &&
    m.event.newState.eqStr AttemptState.pending.wire && Json.keysEq m.payload createFields &&
    (Json.get m.payload "schema_version").eqInt 1 &&
    (Json.get m.payload "adapter_id").eqStr adapterX402Testnet)
    (invalid "payment attempt creation event is invalid")
  let intent ← intentFromDict (Json.get m.payload "intent")
  require (intent.payerDid != "" && intent.payerDid == m.actorDid)
    (invalid "payment attempt creation binding is invalid")
  let key ← settlementIdempotencyKey H intent
  require (key == m.attemptId) (invalid "payment attempt creation binding is invalid")
  return { state := .pending, actorDid := m.actorDid, attemptId := m.attemptId, intent,
           lastCreatedAtMs := m.createdAtMs, prevHash := m.hash }

/-- The common end of a turn of the loop. -/
def Track.advance (t : Track) (state : AttemptState) (m : Meta) : Track :=
  { t with state, lastCreatedAtMs := m.createdAtMs, prevHash := m.hash }

/-- A claim. -/
def verifyClaimed (t : Track) (m : Meta) : Except Exc Track := do
  require (t.state == .pending || t.state == .inflight)
    (invalid "payment attempt claim transition is invalid")
  require (t.state != .pending || t.nextAttemptAtMs ≤ m.createdAtMs)
    (invalid "payment attempt was claimed before retry became due")
  require (t.state != .inflight || t.leaseExpiresAtMs ≤ m.createdAtMs)
    (invalid "payment attempt lease was stolen before expiry")
  require (Json.keysEq m.payload ["lease_id", "lease_expires_at_ms"])
    (invalid "payment attempt claim payload is invalid")
  let lease ← expect (Json.get m.payload "lease_id").asStr (invalid "payment attempt lease is invalid")
  let expiry ← expect (Json.get m.payload "lease_expires_at_ms").asInt
    (invalid "payment attempt lease is invalid")
  require (isLeaseId lease && m.createdAtMs + 1000 ≤ expiry && expiry ≤ m.createdAtMs + 300000 &&
    m.event.newState.eqStr AttemptState.inflight.wire) (invalid "payment attempt lease is invalid")
  return { t.advance .inflight m with
           leaseId := lease, leaseExpiresAtMs := expiry, nextAttemptAtMs := 0 }

/-- A scheduled retry. -/
def verifyRetry (t : Track) (m : Meta) : Except Exc Track := do
  require (t.state == .inflight && m.event.newState.eqStr AttemptState.pending.wire)
    (invalid "payment retry transition is invalid")
  require (Json.keysEq m.payload ["lease_id", "error_code", "next_attempt_at_ms"])
    (invalid "payment retry payload is invalid")
  require ((Json.get m.payload "lease_id").eqStr t.leaseId) (invalid "payment retry binding is invalid")
  let error ← expect (Json.get m.payload "error_code").asStr (invalid "payment retry binding is invalid")
  require (isErrorCode error) (invalid "payment retry binding is invalid")
  let retryAt ← expect (Json.get m.payload "next_attempt_at_ms").asInt
    (invalid "payment retry binding is invalid")
  require (m.createdAtMs ≤ retryAt) (invalid "payment retry binding is invalid")
  return { t.advance .pending m with leaseId := "", leaseExpiresAtMs := 0, nextAttemptAtMs := retryAt }

/-- What the settlement of an attempt is checked against. -/
def Track.expected (t : Track) : Expected :=
  { amountMinor := t.intent.amountMinor, currency := t.intent.currency,
    payeeDid := t.intent.payeeDid, payerDid := t.intent.payerDid }

/-- The settlement of an attempt settles the intent under the attempt's key;
    `label` and `binding` start the texts of the two errors. -/
def verifyAttemptSettlement (now : ℤ) (t : Track) (settlement : Json) (label binding : String) :
    Except Exc Unit := do
  (verifySettlement now settlement t.expected).mapError fun r => invalid (label ++ " is invalid: " ++ r)
  let proof := Json.get settlement.fields "proof"
  require (proof.isObj && (Json.get proof.fields "idempotency_key").eqStr t.attemptId)
    (invalid (binding ++ " idempotency binding is invalid"))

/-- A settlement under the lease. -/
def verifySettled (now : ℤ) (t : Track) (m : Meta) : Except Exc Track := do
  require (t.state == .inflight && m.event.newState.eqStr AttemptState.settled.wire)
    (invalid "payment settlement transition is invalid")
  require (Json.keysEq m.payload ["lease_id", "settlement"])
    (invalid "payment settlement payload is invalid")
  let settlement := Json.get m.payload "settlement"
  require ((Json.get m.payload "lease_id").eqStr t.leaseId && settlement.isObj)
    (invalid "payment settlement lease is invalid")
  verifyAttemptSettlement now t settlement "payment settlement" "payment settlement"
  return { t.advance .settled m with leaseId := "", leaseExpiresAtMs := 0 }

/-- A permanent failure. -/
def verifyBlocked (t : Track) (m : Meta) : Except Exc Track := do
  require (t.state == .inflight && m.event.newState.eqStr AttemptState.blocked.wire)
    (invalid "payment block transition is invalid")
  require (Json.keysEq m.payload ["lease_id", "error_code"]) (invalid "payment block payload is invalid")
  require ((Json.get m.payload "lease_id").eqStr t.leaseId) (invalid "payment block binding is invalid")
  let error ← expect (Json.get m.payload "error_code").asStr (invalid "payment block binding is invalid")
  require (isErrorCode error) (invalid "payment block binding is invalid")
  return { t.advance .blocked m with leaseId := "", leaseExpiresAtMs := 0 }

/-- A payment that may have committed. -/
def verifyOrphaned (t : Track) (m : Meta) : Except Exc Track := do
  require (t.state == .inflight && m.event.newState.eqStr AttemptState.orphaned.wire)
    (invalid "payment orphan transition is invalid")
  require (Json.keysEq m.payload ["lease_id", "error_code", "provider_reference", "evidence_digest"])
    (invalid "payment orphan payload is invalid")
  require ((Json.get m.payload "lease_id").eqStr t.leaseId) (invalid "payment orphan binding is invalid")
  let error ← expect (Json.get m.payload "error_code").asStr (invalid "payment orphan binding is invalid")
  require (isErrorCode error) (invalid "payment orphan binding is invalid")
  let reference ← expect (Json.get m.payload "provider_reference").asStr
    (invalid "payment orphan binding is invalid")
  require (len reference ≤ 256) (invalid "payment orphan binding is invalid")
  let digest ← expect (Json.get m.payload "evidence_digest").asStr
    (invalid "payment orphan binding is invalid")
  require (isEventHash digest) (invalid "payment orphan binding is invalid")
  return { t.advance .orphaned m with
           leaseId := "", leaseExpiresAtMs := 0, orphanEvidenceDigest := digest }

/-- The reconciliation of an orphan. -/
def verifyReconciled (now : ℤ) (t : Track) (m : Meta) : Except Exc Track := do
  require (t.state == .orphaned && m.event.newState.eqStr AttemptState.settled.wire)
    (invalid "payment orphan reconciliation transition is invalid")
  require (Json.keysEq m.payload ["settlement", "orphan_evidence_digest"])
    (invalid "payment orphan reconciliation payload is invalid")
  let settlement := Json.get m.payload "settlement"
  require ((Json.get m.payload "orphan_evidence_digest").eqStr t.orphanEvidenceDigest &&
    settlement.isObj) (invalid "payment orphan reconciliation binding is invalid")
  verifyAttemptSettlement now t settlement "reconciled payment settlement" "reconciled settlement"
  return { t.advance .settled m with orphanEvidenceDigest := "" }

/-- The transition of an event after the first, by its type. -/
def verifyTransition (now : ℤ) (t : Track) (m : Meta) : Except Exc Track :=
  match AttemptType.ofWire m.event.type with
  | some .claimed => verifyClaimed t m
  | some .retryScheduled => verifyRetry t m
  | some .settled => verifySettled now t m
  | some .blocked => verifyBlocked t m
  | some .orphaned => verifyOrphaned t m
  | some .orphanReconciled => verifyReconciled now t m
  | some .created | none => .error (invalid "unknown payment attempt event type")

/-- One turn of the loop after the first event. -/
def verifyAttemptStep (now : ℤ) (i : ℕ) (t : Track) (raw : Json) : Except Exc Track := do
  let m ← verifyMeta H i t.prevHash t.lastCreatedAtMs raw
  require (m.actorDid == t.actorDid && m.attemptId == t.attemptId)
    (invalid "payment attempt actor or id changed")
  require (m.event.prevState.eqStr t.state.wire) (invalid "payment attempt previous state is invalid")
  verifyTransition now t m

/-- The loop from index `i` on. -/
def verifyAttemptFrom (now : ℤ) : ℕ → Track → List Json → Except Exc Track
  | _, t, [] => .ok t
  | i, t, raw :: es => do
    let t' ← verifyAttemptStep H now i t raw
    verifyAttemptFrom now (i + 1) t' es

/-- `verify_payment_attempt`; on success, the variables at the end of the loop. -/
def verifyPaymentAttempt (now : ℤ) : List Json → Except Exc Track
  | [] => .error (invalid "payment attempt is empty")
  | raw :: es => do
    require (preflightAttemptJson (.arr (raw :: es)))
      (invalid "payment attempt exceeds JSON resource limits")
    let b ← expect (canonicalJson (.obj [("events", .arr (raw :: es))]))
      (invalid "payment attempt chain is not canonical JSON")
    require (b.length ≤ maxChainBytes) (invalid "payment attempt chain is too large")
    let m ← verifyMeta H 0 "" 0 raw
    let t ← verifyCreated H m
    verifyAttemptFrom H now 1 t es

/-! ## Projection -/

/-- `PaymentAttemptView`. -/
structure View where
  attemptId : Json
  actorDid : Json
  adapterId : Json
  intent : Json
  state : Json := .str AttemptState.pending.wire
  leaseId : Json := .str ""
  leaseExpiresAtMs : Json := .int 0
  nextAttemptAtMs : Json := .int 0
  attempts : ℕ := 0
  lastError : Json := .str ""
  settlement : Json := .obj []
  providerReference : Json := .str ""
  evidenceDigest : Json := .str ""

/-- One turn of the loop of `_project_verified`. -/
def View.step (v : View) (raw : Json) : View :=
  let e := AttemptEvent.fromDict raw.fields
  let p := e.payload.fields
  let v := { v with state := e.newState }
  match AttemptType.ofWire e.type with
  | some .claimed =>
    { v with leaseId := Json.get p "lease_id", leaseExpiresAtMs := Json.get p "lease_expires_at_ms",
             nextAttemptAtMs := .int 0, attempts := v.attempts + 1 }
  | some .retryScheduled =>
    { v with leaseId := .str "", leaseExpiresAtMs := .int 0,
             nextAttemptAtMs := Json.get p "next_attempt_at_ms", lastError := Json.get p "error_code" }
  | some .settled =>
    { v with leaseId := .str "", leaseExpiresAtMs := .int 0, settlement := Json.get p "settlement",
             lastError := .str "" }
  | some .blocked =>
    { v with leaseId := .str "", leaseExpiresAtMs := .int 0, lastError := Json.get p "error_code" }
  | some .orphaned =>
    { v with leaseId := .str "", leaseExpiresAtMs := .int 0, lastError := Json.get p "error_code",
             providerReference := Json.get p "provider_reference",
             evidenceDigest := Json.get p "evidence_digest" }
  | some .orphanReconciled =>
    { v with settlement := Json.get p "settlement", lastError := .str "",
             providerReference := .str "", evidenceDigest := .str "" }
  | some .created | none => v

/-- The view of the creation event. -/
def View.ofCreated (raw : Json) : View :=
  let e := AttemptEvent.fromDict raw.fields
  { attemptId := e.attemptId, actorDid := e.actorDid,
    adapterId := Json.get e.payload.fields "adapter_id", intent := Json.get e.payload.fields "intent" }

/-- `_project_verified`. -/
def projectVerified : List Json → View
  | [] => View.ofCreated .null
  | raw :: es => es.foldl View.step (View.ofCreated raw)

end NthDao
