/-
  The store of one payment attempt (`nth_dao/commerce/payment_attempt.py`,
  `PaymentAttemptStore`, and `nth_dao/commerce/payment_witness.py`).

  The files are kept as their records: the document, the lines of the head
  journal and the lines of the witness, each with the size of its text.

  * `Anchor`, `validateAnchorSequence` and `acceptedAnchorHeads`: the journal
    and the heads it accepts;
  * `load`: a document is read only with a head that the journal, and the
    witness if there is one, accept;
  * `AttemptOp.next`: what each operation decides to persist;
  * `persistSteps`: the five durable steps of `_persist`;
  * `AttemptCall.perform`: an operation, cut after any number of these steps.
-/
import NthDao.Commerce.PaymentAttempt
import NthDao.Durable
import NthDao.Py.Indent

namespace NthDao

open Py

/-! ## Constants -/

def maxFileBytes : ℕ := 1024 * 1024
def maxAnchorFileBytes : ℕ := 512 * 1024
def maxRecordBytes : ℕ := 16 * 1024
def maxWitnessBytes : ℕ := 1024 * 1024

/-! ## Anchors -/

inductive Phase where
  | prepared | committed
  deriving DecidableEq, Repr

/-- The name of a phase on the wire. -/
def Phase.wire : Phase → String
  | .prepared => "prepared"
  | .committed => "committed"

/-- `PaymentAttemptHeadAnchor`. -/
structure Anchor where
  operationId : String
  phase : Phase
  attemptId : String
  seq : ℤ
  headHash : String
  actorDid : String
  createdAtMs : ℤ
  signature : String := ""
  deriving DecidableEq

/-- `PaymentAttemptHeadAnchor.signing_body`. -/
def Anchor.signingBody (a : Anchor) : Json :=
  .obj [("operation_id", .str a.operationId), ("phase", .str a.phase.wire),
    ("attempt_id", .str a.attemptId), ("seq", .int a.seq), ("head_hash", .str a.headHash),
    ("actor_did", .str a.actorDid), ("created_at_ms", .int a.createdAtMs)]

/-- `PaymentAttemptHeadAnchor.to_dict`. -/
def Anchor.toDict (a : Anchor) : Json :=
  .obj [("operation_id", .str a.operationId), ("phase", .str a.phase.wire),
    ("attempt_id", .str a.attemptId), ("seq", .int a.seq), ("head_hash", .str a.headHash),
    ("actor_did", .str a.actorDid), ("created_at_ms", .int a.createdAtMs),
    ("signature", .str a.signature)]

/-- The version of the document that an anchor names. -/
def Anchor.head (a : Anchor) : ℤ × String := (a.seq, a.headHash)

/-- The size of an anchor as a line of a file. -/
def Anchor.lineBytes (a : Anchor) : ℕ := ((canonicalJson a.toDict).getD []).length + 1

/-- The size of a file of anchors. -/
def anchorsBytes (anchors : List Anchor) : ℕ := (anchors.map Anchor.lineBytes).sum

variable (H : Host)

/-- `_sign_anchor`. -/
def signAnchor (actor : H.SecretKey) (a : Anchor) : Except Exc Anchor := do
  require (asDid H actor == a.actorDid) (.attemptRejected "payment attempt anchor actor mismatch")
  let b ← expect (canonicalJson a.signingBody) .valueError
  return { a with signature := signText H actor b }

/-- `_verify_anchor`. -/
def verifyAnchor (a : Anchor) : Except String Unit := do
  require (isLeaseId a.operationId && isAttemptId a.attemptId && decide (0 ≤ a.seq) &&
    isEventHash a.headHash && isDidKey a.actorDid && decide (0 < a.createdAtMs))
    "payment attempt anchor metadata is invalid"
  let b ← expect (canonicalJson a.signingBody) "payment attempt anchor signature invalid"
  require (verifySig H a.actorDid b a.signature) "payment attempt anchor signature invalid"

/-- The variables of the loop of `_validate_anchor_sequence`. -/
structure Seen where
  phases : List (String × Phase) := []
  prepared : List Anchor := []
  lastCreatedAtMs : ℤ := 0

/-- The check of a committed anchor against the prepare of its operation. -/
def matchPrepare (prepared : List Anchor) (a : Anchor) : Except Exc Unit := do
  let p ← expect (prepared.find? (·.operationId == a.operationId))
    (.attemptRejected "payment attempt committed anchor has no matching prepare")
  require (p.attemptId == a.attemptId && p.seq == a.seq && p.headHash == a.headHash &&
    p.actorDid == a.actorDid)
    (.attemptRejected "payment attempt committed anchor has no matching prepare")

/-- One turn of the loop of `_validate_anchor_sequence`. -/
def validateAnchorStep (attemptId actorDid source : String) (seen : Seen) (a : Anchor) :
    Except Exc Seen := do
  (verifyAnchor H a).mapError fun reason => .attemptRejected (source ++ " witness: " ++ reason)
  require (a.attemptId == attemptId && a.actorDid == actorDid &&
    decide (seen.lastCreatedAtMs ≤ a.createdAtMs))
    (.attemptRejected "payment attempt head anchor binding is invalid")
  require (!seen.phases.contains (a.operationId, a.phase))
    (.attemptRejected "payment attempt head anchor phase is duplicated")
  let phases := (a.operationId, a.phase) :: seen.phases
  match a.phase with
  | .prepared =>
    return { phases, prepared := a :: seen.prepared, lastCreatedAtMs := a.createdAtMs }
  | .committed =>
    matchPrepare seen.prepared a
    return { phases, prepared := seen.prepared, lastCreatedAtMs := a.createdAtMs }

/-- `_validate_anchor_sequence`. -/
def validateAnchorSequence (attemptId actorDid source : String) (anchors : List Anchor) :
    Except Exc Seen :=
  anchors.foldlM (validateAnchorStep H attemptId actorDid source) {}

/-- The index of the latest committed anchor, `-1` if there is none. -/
def latestCommittedIndex (anchors : List Anchor) : ℤ :=
  anchors.zipIdx.foldl (fun latest p => if p.1.phase = .committed then (p.2 : ℤ) else latest) (-1)

/-- `_accepted_anchor_heads`. -/
def acceptedAnchorHeads (anchors : List Anchor) : List (ℤ × String) :=
  let latest := latestCommittedIndex anchors
  (anchors.zipIdx.filter fun p => (p.2 : ℤ) = latest ∨ (latest < p.2 ∧ p.1.phase = .prepared)).map
    fun p => p.1.head

/-! ## Files -/

/-- The document of an attempt. -/
structure Document where
  attemptId : String
  events : List Json
  headHash : String

/-- The object that is written. -/
def Document.toDict (d : Document) : Json :=
  .obj [("attempt_id", .str d.attemptId), ("events", .arr d.events), ("head_hash", .str d.headHash)]

/-- The size of the file that `atomic_write_json` writes. -/
def Document.fileBytes (d : Document) : ℕ := fileWeight 0 d.toDict

/-- The version that a document is. -/
def Document.head (d : Document) : ℤ × String := ((d.events.length : ℤ) - 1, d.headHash)

/-- The files of one attempt; `witness` is `none` if no witness is configured. -/
structure AttemptStore where
  document : Option Document := none
  journal : List Anchor := []
  witness : Option (List Anchor) := none

/-- `_append_anchor`. -/
def AttemptStore.appendAnchor (s : AttemptStore) (a : Anchor) : Except Exc AttemptStore := do
  let b ← expect (canonicalJson a.toDict) .valueError
  require (anchorsBytes s.journal ≤ maxAnchorFileBytes)
    (.attemptRejected "payment attempt head journal exceeds size limit")
  require (anchorsBytes s.journal + (b.length + 1) ≤ maxAnchorFileBytes)
    (.attemptRejected "payment attempt head journal exceeds size limit")
  return { s with journal := s.journal ++ [a] }

/-- `FilePaymentAttemptHeadWitness.read`. -/
def readWitness (w : List Anchor) : Except Exc Unit := do
  require (anchorsBytes w ≤ maxWitnessBytes) (.attemptRejected "payment witness exceeds size limit")
  require (w.all fun a => a.lineBytes ≤ maxRecordBytes + 1)
    (.attemptRejected "payment witness contains an invalid record")

/-- `FilePaymentAttemptHeadWitness.append`. -/
def appendWitnessFile (w : List Anchor) (a : Anchor) : Except Exc (List Anchor) := do
  let b ← expect (canonicalJson a.toDict)
    (.attemptRejected "payment witness anchor is not canonical JSON")
  require (b.length ≤ maxRecordBytes) (.attemptRejected "payment witness anchor exceeds size limit")
  readWitness w
  if w.getLast? = some a then return w
  else
    require (anchorsBytes w + b.length + 1 ≤ maxWitnessBytes)
      (.attemptRejected "payment witness exceeds size limit")
    return w ++ [a]

/-- `_append_witness`. -/
def AttemptStore.appendWitness (s : AttemptStore) (a : Anchor) : Except Exc AttemptStore :=
  match s.witness with
  | none => .ok s
  | some w => do
    let w' ← appendWitnessFile w a
    return { s with witness := some w' }

/-- `_read_anchors`. -/
def AttemptStore.readAnchors (s : AttemptStore) (attemptId actorDid : String) : Except Exc Unit := do
  require (anchorsBytes s.journal ≤ maxAnchorFileBytes)
    (.attemptRejected "payment attempt head journal exceeds size limit")
  let _ ← validateAnchorSequence H attemptId actorDid "local" s.journal
  return ()

/-- The part of `_validate_anchor` on the witness. -/
def validateWitness (attemptId actorDid : String) (current : ℤ × String) :
    Option (List Anchor) → Except Exc Unit
  | none => .ok ()
  | some w => do
    readWitness w
    let _ ← validateAnchorSequence H attemptId actorDid "external" w
    require (!w.isEmpty) (.attemptRejected "stored payment attempt has no external witness")
    require ((acceptedAnchorHeads w).contains current)
      (.attemptRejected "stored payment attempt conflicts with its external witness")

/-- `_validate_anchor`. -/
def AttemptStore.validateAnchor (s : AttemptStore) (attemptId : String) (d : Document) :
    Except Exc Unit := do
  let first := d.events.headD .null
  require first.isObj .attributeError
  let actorDid ← expect (Json.get first.fields "actor_did").asStr
    (.attemptRejected "stored payment attempt actor is invalid")
  require (actorDid != "") (.attemptRejected "stored payment attempt actor is invalid")
  s.readAnchors H attemptId actorDid
  require (!s.journal.isEmpty) (.attemptRejected "stored payment attempt has no signed head journal")
  require ((acceptedAnchorHeads s.journal).contains d.head)
    (.attemptRejected "stored payment attempt was rolled back or lacks a durable prepare")
  validateWitness H attemptId actorDid d.head s.witness

/-- `_load`. -/
def AttemptStore.load (s : AttemptStore) (attemptId : String) : Except Exc (Option (List Json)) :=
  match s.document with
  | none => .ok none
  | some d => do
    require (d.fileBytes ≤ maxFileBytes) (.attemptRejected "stored payment attempt exceeds size limit")
    require (d.attemptId == attemptId && !d.events.isEmpty && isEventHash d.headHash)
      (.attemptRejected "stored payment attempt has invalid shape")
    let hash ← expect (attemptEventHash H (d.events.getLastD .null)) .valueError
    require (d.headHash == hash) (.attemptRejected "stored payment attempt has invalid shape")
    s.validateAnchor H attemptId d
    return some d.events

/-! ## Operations -/

/-- `verify_payment_attempt` of the stored events. -/
def verifyExisting (now : ℤ) (events : List Json) : Except Exc Unit :=
  match verifyPaymentAttempt H now events with
  | .ok _ => .ok ()
  | .error (.attemptRejected _) => .error .attemptConflict
  | .error e => .error e

/-- The checks on the stored events that `_append` and `claim` share. -/
def checkExisting (actor : H.SecretKey) (now : ℤ) (events : List Json) : Except Exc Unit := do
  verifyExisting H now events
  require ((projectVerified events).actorDid.eqStr (asDid H actor))
    (.attemptRejected "payment attempt actor mismatch")

/-- The stored events with one more, checked. -/
def extendEvents (attemptId : String) (actor : H.SecretKey) (type : AttemptType)
    (newState : AttemptState) (payload : Fields) (createdAtMs now : ℤ) (events : List Json) :
    Except Exc (List Json) := do
  let current := projectVerified events
  let prev ← expect (attemptEventHash H (events.getLastD .null)) .valueError
  let event ← signAttemptEvent H actor
    { attemptId := .str attemptId, seq := .int events.length, type := .str type.wire,
      actorDid := current.actorDid, prevState := current.state, newState := .str newState.wire,
      payload := .obj payload, prevEventHash := .str prev, createdAtMs := .int createdAtMs }
  let candidate := events ++ [event.toDict]
  let _ ← verifyPaymentAttempt H now candidate
  return candidate

/-- `_append`, up to `_persist`. -/
def appendEvents (attemptId : String) (actor : H.SecretKey) (type : AttemptType)
    (newState : AttemptState) (payload : Fields) (createdAtMs now : ℤ)
    (stored : Option (List Json)) : Except Exc (Option (List Json)) := do
  let events ← expect stored (.attemptRejected "payment attempt not found")
  checkExisting H actor now events
  let candidate ← extendEvents H attemptId actor type newState payload createdAtMs now events
  return some candidate

/-- Whether `claim` takes an attempt with this view. -/
def View.claimable (v : View) (currentMs : ℤ) : Bool :=
  !(v.state.eqStr AttemptState.settled.wire || v.state.eqStr AttemptState.blocked.wire ||
    v.state.eqStr AttemptState.orphaned.wire) &&
  !(v.state.eqStr AttemptState.pending.wire && currentMs < v.nextAttemptAtMs.asInt.getD 0) &&
  !(v.state.eqStr AttemptState.inflight.wire && currentMs < v.leaseExpiresAtMs.asInt.getD 0)

/-- `claim`, up to `_persist`; `leaseId` is the new lease. -/
def claimEvents (attemptId : String) (actor : H.SecretKey) (leaseMs : ℤ) (leaseId : String)
    (currentMs now : ℤ) (stored : Option (List Json)) : Except Exc (Option (List Json)) :=
  match stored with
  | none => .ok none
  | some events => do
    checkExisting H actor now events
    if (projectVerified events).claimable currentMs then
      let candidate ← extendEvents H attemptId actor .claimed .inflight
        [("lease_id", .str leaseId), ("lease_expires_at_ms", .int (currentMs + leaseMs))]
        currentMs now events
      return some candidate
    else return none

/-- The creation event of an intent. -/
def createdEvent (attemptId : String) (actor : H.SecretKey) (intentPayload : Fields)
    (createdAtMs : ℤ) : AttemptEvent :=
  { attemptId := .str attemptId, seq := .int 0, type := .str AttemptType.created.wire,
    actorDid := .str (asDid H actor), prevState := .str "",
    newState := .str AttemptState.pending.wire,
    payload := .obj [("schema_version", .int 1), ("adapter_id", .str adapterX402Testnet),
      ("intent", .obj intentPayload)],
    prevEventHash := .str "", createdAtMs := .int createdAtMs }

/-- `create` under the lock, up to `_persist`. -/
def createEvents (attemptId : String) (actor : H.SecretKey) (intentPayload : Fields)
    (createdAtMs now : ℤ) : Option (List Json) → Except Exc (Option (List Json))
  | some existing => do
    verifyExisting H now existing
    let view := projectVerified existing
    require (view.actorDid.eqStr (asDid H actor) && eqv view.intent (.obj intentPayload))
      .attemptConflict
    return none
  | none => do
    let event ← signAttemptEvent H actor (createdEvent H attemptId actor intentPayload createdAtMs)
    return some [event.toDict]

/-- The operations of the store with their arguments; a claim brings the
    `uuid4` of its lease. -/
inductive AttemptOp where
  | create (intent : SettlementIntent) (adapterId : String)
  | claim (leaseMs : ℤ) (leaseId : String)
  | scheduleRetry (leaseId errorCode : String) (retryAfterMs : ℤ)
  | recordSettled (leaseId : String) (settlement : Fields)
  | block (leaseId errorCode : String)
  | recordOrphaned (leaseId errorCode providerReference evidenceDigest : String)
  | recordReconciled (settlement : Fields) (orphanEvidenceDigest : String)

/-- The checks of `create` before the lock, and the id of the attempt. -/
def createId (actor : H.SecretKey) (intent : SettlementIntent) (adapterId : String)
    (createdAtMs : ℤ) : Except Exc (String × Fields) := do
  require (adapterId == adapterX402Testnet)
    (.attemptRejected "only external x402 attempts are persisted")
  let intentPayload ← intentDict intent
  require (intent.payerDid != "" && asDid H actor == intent.payerDid)
    (.attemptRejected "payment attempt actor must be the payer DID")
  let attemptId ← settlementIdempotencyKey H intent
  require (isAttemptId attemptId) (.attemptRejected "invalid payment attempt id")
  require (0 < createdAtMs) (.attemptRejected "invalid payment attempt timestamp")
  return (attemptId, intentPayload)

/-- The checks of an operation on its arguments, before the lock. -/
def AttemptOp.check (actor : H.SecretKey) (createdAtMs : ℤ) : AttemptOp → Except Exc Unit
  | .create intent adapterId => do
    let _ ← createId H actor intent adapterId createdAtMs
    return ()
  | .claim leaseMs _ => require (1000 ≤ leaseMs && leaseMs ≤ 300000)
    (.attemptRejected "lease_ms must be between 1000 and 300000")
  | .scheduleRetry _ _ retryAfterMs =>
    require (0 ≤ retryAfterMs) (.attemptRejected "retry_after_ms must be non-negative")
  | _ => .ok ()

/-- What an operation on the attempt `attemptId` persists after the stored
    events, `none` if nothing; a `create` is one whose intent has this id. -/
def AttemptOp.next (attemptId : String) (actor : H.SecretKey) (createdAtMs now : ℤ)
    (stored : Option (List Json)) : AttemptOp → Except Exc (Option (List Json))
  | .create intent _ => do
    let intentPayload ← intentDict intent
    createEvents H attemptId actor intentPayload createdAtMs now stored
  | .claim leaseMs leaseId => claimEvents H attemptId actor leaseMs leaseId createdAtMs now stored
  | .scheduleRetry leaseId errorCode retryAfterMs =>
    appendEvents H attemptId actor .retryScheduled .pending
      [("lease_id", .str leaseId), ("error_code", .str errorCode),
        ("next_attempt_at_ms", .int (createdAtMs + retryAfterMs))] createdAtMs now stored
  | .recordSettled leaseId settlement =>
    appendEvents H attemptId actor .settled .settled
      [("lease_id", .str leaseId), ("settlement", .obj settlement)] createdAtMs now stored
  | .block leaseId errorCode =>
    appendEvents H attemptId actor .blocked .blocked
      [("lease_id", .str leaseId), ("error_code", .str errorCode)] createdAtMs now stored
  | .recordOrphaned leaseId errorCode providerReference evidenceDigest =>
    appendEvents H attemptId actor .orphaned .orphaned
      [("lease_id", .str leaseId), ("error_code", .str errorCode),
        ("provider_reference", .str providerReference), ("evidence_digest", .str evidenceDigest)]
      createdAtMs now stored
  | .recordReconciled settlement orphanEvidenceDigest =>
    appendEvents H attemptId actor .orphanReconciled .settled
      [("settlement", .obj settlement), ("orphan_evidence_digest", .str orphanEvidenceDigest)]
      createdAtMs now stored

/-- What an operation persists. -/
def AttemptStore.nextEvents (s : AttemptStore) (attemptId : String) (actor : H.SecretKey)
    (createdAtMs now : ℤ) (op : AttemptOp) : Except Exc (Option (List Json)) := do
  op.check H actor createdAtMs
  let stored ← s.load H attemptId
  op.next H attemptId actor createdAtMs now stored

/-! ## Persistence -/

/-- `_document`. -/
def documentOf (attemptId : String) (events : List Json) : Except Exc Document := do
  require (!events.isEmpty) (.attemptRejected "cannot persist an empty payment attempt")
  let headHash ← expect (attemptEventHash H (events.getLastD .null)) .valueError
  return { attemptId, events, headHash }

/-- The anchor of a document, before it is signed. -/
def Document.anchor (d : Document) (actor : H.SecretKey) (createdAtMs : ℤ) (operationId : String)
    (phase : Phase) : Anchor :=
  { operationId, phase, attemptId := d.attemptId, seq := (d.events.length : ℤ) - 1,
    headHash := d.headHash, actorDid := asDid H actor, createdAtMs }

/-- Signs an anchor and appends it to the journal. -/
def anchorStep (actor : H.SecretKey) (a : Anchor) (s : AttemptStore) : Except Exc AttemptStore := do
  let a ← signAnchor H actor a
  s.appendAnchor a

/-- Appends the same anchor to the witness. -/
def witnessStep (actor : H.SecretKey) (a : Anchor) (s : AttemptStore) : Except Exc AttemptStore := do
  let a ← signAnchor H actor a
  s.appendWitness a

/-- The durable steps of `_persist`. -/
def persistSteps (actor : H.SecretKey) (createdAtMs : ℤ) (operationId : String) (d : Document) :
    List (AttemptStore → Except Exc AttemptStore) :=
  let anchor := d.anchor H actor createdAtMs operationId
  [anchorStep H actor (anchor .prepared), witnessStep H actor (anchor .prepared),
    fun s => .ok { s with document := some d },
    anchorStep H actor (anchor .committed), witnessStep H actor (anchor .committed)]

/-- A call of an operation: its time, the wall clock, the `uuid4` of `_persist`,
    and the number of durable steps before a crash. -/
structure AttemptCall where
  op : AttemptOp
  actor : H.SecretKey
  createdAtMs : ℤ
  now : ℤ
  operationId : String
  crash : ℕ

variable {H}

/-- The events the call persists. -/
def AttemptCall.events (c : AttemptCall H) (attemptId : String) (s : AttemptStore) :
    Except Exc (Option (List Json)) :=
  s.nextEvents H attemptId c.actor c.createdAtMs c.now c.op

/-- A call on the attempt `attemptId`. -/
def AttemptCall.perform (c : AttemptCall H) (attemptId : String) (s : AttemptStore) :
    AttemptStore × Durable.Outcome Exc :=
  match c.events attemptId s with
  | .error e => (s, .raised e)
  | .ok none => (s, .done)
  | .ok (some events) =>
    match documentOf H attemptId events with
    | .error e => (s, .raised e)
    | .ok d => Durable.run (persistSteps H c.actor c.createdAtMs c.operationId d) c.crash s

end NthDao
