/-
  The durable outbox (`nth_dao/delivery/outbox.py`, `DurableOutbox`).

  Every change of a record is one line of a journal that the processes of a
  workspace share.  A process keeps the fold of the journal in memory with the
  fingerprint of the file it folded, and folds again when the file has another.

  * `foldEvent` is `_fold_event`, one event of the journal;
  * `Outbox.load`, `refoldIfChanged`: a process reads the journal;
  * `enqueue`, `recordAttempt`, `handleAck`, `pending`, `compact`: the operations,
    each a check of its arguments and one step under the lock of the file.

  The fingerprint of a file is its size and a time that no two writes share.  A
  refused call leaves a process as the fold before it did.  Texts that quote an
  exception or a value end before it.
-/
import NthDao.Delivery.Acknowledgement
import NthDao.Delivery.JournalFile
import NthDao.Jsonl

namespace NthDao

namespace Delivery

open Py

variable (H : Host)

/-! ## Records -/

def maxAttemptsPerRecord : ℕ := 256
def maxJournalBytes : ℕ := 64 * 1024 * 1024
def maxErrorCodeLength : ℕ := 256

/-- The states of a record. -/
inductive OutboxState where
  | queued | delivered | rejected | expired
  deriving DecidableEq, Repr

def OutboxState.text : OutboxState → String
  | .queued => "queued"
  | .delivered => "delivered"
  | .rejected => "rejected"
  | .expired => "expired"

/-- `OUTBOX_TERMINAL_STATES`. -/
def OutboxState.isTerminal : OutboxState → Bool
  | .queued => false
  | _ => true

/-- `OUTBOX_ATTEMPT_OUTCOMES`. -/
inductive AttemptOutcome where
  | sent | error | rejected
  deriving DecidableEq, Repr

def AttemptOutcome.text : AttemptOutcome → String
  | .sent => "sent"
  | .error => "error"
  | .rejected => "rejected"

def AttemptOutcome.ofText (s : String) : Option AttemptOutcome :=
  if s = "sent" then some .sent else if s = "error" then some .error
  else if s = "rejected" then some .rejected else none

/-- `OutboxAttempt`. -/
structure OutboxAttempt where
  transport : String
  atMs : ℤ
  outcome : AttemptOutcome
  errorCode : String
  deriving DecidableEq

/-- `OutboxRecord`. -/
structure OutboxRecord where
  messageId : String
  envelopeJson : String
  envelopeSha256 : String
  createdAtMs : ℤ
  expiresAtMs : ℤ
  state : OutboxState := .queued
  attempts : List OutboxAttempt := []
  deliveredBy : String := ""
  deliveredAtMs : ℤ := 0
  lastErrorCode : String := ""
  deriving DecidableEq

/-- `Dict[str, OutboxRecord]`, in the order of insertion: a record stands under
    its message id. -/
abbrev Records := List OutboxRecord

/-- `records.get(message_id)`. -/
def Records.get (rs : Records) (id : String) : Option OutboxRecord :=
  rs.find? fun r => r.messageId == id

/-- Replace the record of `r.messageId` in place. -/
def Records.set (rs : Records) (r : OutboxRecord) : Records :=
  rs.map fun q => if q.messageId == r.messageId then r else q

/-- `^[a-z0-9][a-z0-9._-]{0,63}$`. -/
def isTransportName (s : String) : Bool :=
  (chars s).head?.any isLowerAlnum && (chars s).all (fun c => isLowerAlnum c || isPunct c) &&
    len s ≤ 64

/-- A text that is a content address. -/
def digestOf (v : Json) : Option String := v.asStr.filter isDigest

/-! ## Events -/

/-- `_JOURNAL_EVENTS`. -/
inductive OutboxEvent where
  | enqueued | attempt | delivered | rejected | expired
  deriving DecidableEq

def OutboxEvent.text : OutboxEvent → String
  | .enqueued => "enqueued"
  | .attempt => "attempt"
  | .delivered => "delivered"
  | .rejected => "rejected"
  | .expired => "expired"

def OutboxEvent.ofText (s : String) : Option OutboxEvent :=
  [OutboxEvent.enqueued, .attempt, .delivered, .rejected, .expired].find? fun k => k.text == s

/-- `_EVENT_FIELDS`. -/
def OutboxEvent.fields : OutboxEvent → List String
  | .enqueued => ["event", "message_id", "envelope_json", "envelope_sha256", "created_at_ms",
      "expires_at_ms", "at_ms"]
  | .attempt => ["event", "message_id", "transport", "at_ms", "outcome"]
  | .delivered => ["event", "message_id", "at_ms", "ack_json"]
  | .rejected => ["event", "message_id", "transport", "at_ms", "error_code"]
  | .expired => ["event", "message_id", "at_ms"]

def enqueuedEvent (r : OutboxRecord) (atMs : ℤ) : Fields :=
  [("event", .str "enqueued"), ("message_id", .str r.messageId),
    ("envelope_json", .str r.envelopeJson), ("envelope_sha256", .str r.envelopeSha256),
    ("created_at_ms", .int r.createdAtMs), ("expires_at_ms", .int r.expiresAtMs),
    ("at_ms", .int atMs)]

def attemptEvent (id : String) (a : OutboxAttempt) : Fields :=
  [("event", .str "attempt"), ("message_id", .str id), ("transport", .str a.transport),
    ("at_ms", .int a.atMs), ("outcome", .str a.outcome.text)] ++
    if a.errorCode = "" then [] else [("error_code", .str a.errorCode)]

def deliveredEvent (id : String) (atMs : ℤ) (ackJson : String) : Fields :=
  [("event", .str "delivered"), ("message_id", .str id), ("at_ms", .int atMs),
    ("ack_json", .str ackJson)]

def expiredEvent (id : String) (atMs : ℤ) : Fields :=
  [("event", .str "expired"), ("message_id", .str id), ("at_ms", .int atMs)]

/-! ## The fold -/

/-- `_record_envelope`. -/
def recordEnvelope (r : OutboxRecord) : Except String TransportEnvelope := do
  let parsed ← expect (loads (chars r.envelopeJson)) "enqueued envelope_json is invalid"
  let envelope ← (TransportEnvelope.fromDict parsed).mapError
    ("enqueued envelope_json is invalid: " ++ ·)
  let text ← expect (canonicalText envelope.toDict) "enqueued envelope_json is invalid"
  require (text == r.envelopeJson) "enqueued envelope_json is not canonical"
  (validateEnvelope H envelope none true).mapError ("enqueued envelope is invalid: " ++ ·)
  require (envelope.messageId.eqStr r.messageId) "enqueued message_id does not match envelope"
  require (envelopeDigest H envelope.toDict == some r.envelopeSha256)
    "enqueued envelope_sha256 does not match envelope"
  require (envelope.createdAtMs.eqInt r.createdAtMs && envelope.expiresAtMs.eqInt r.expiresAtMs)
    "enqueued timestamps do not match envelope"
  return envelope

/-- The wire object of an envelope with another hop count. -/
def withHopCount (e : TransportEnvelope) (hop : ℤ) : Fields :=
  Json.insert e.toDict "routing" (.obj (Json.insert e.routing.fields "hop_count" (.int hop)))

/-- `_ack_digest_matches_envelope`. -/
def ackDigestMatchesEnvelope (acknowledged : String) (e : TransportEnvelope) : Bool :=
  match (Json.get e.routing.fields "hop_count").asInt,
    (Json.get e.routing.fields "hop_limit").asInt with
  | some start, some limit => (List.range (limit + 1 - start).toNat).any fun (i : ℕ) =>
      envelopeDigest H (withHopCount e (start + i)) == some acknowledged
  | _, _ => false

/-- `_fold_transport`. -/
def foldTransport (event : Fields) : Except String String := do
  let transport ← expect (Json.get event "transport").asStr "journal event transport name is invalid"
  require (isTransportName transport) "journal event transport name is invalid"
  return transport

/-- `_fold_at_ms`. -/
def foldAtMs (event : Fields) : Except String ℤ := do
  let atMs ← expect (Json.get event "at_ms").asInt "journal event at_ms must be a non-negative integer"
  require (0 ≤ atMs) "journal event at_ms must be a non-negative integer"
  return atMs

/-- `_validate_error_code`. -/
def validateErrorCode (value : Json) : Except String String := do
  let code ← expect value.asStr "error_code must be a string no longer than 256 chars"
  require (len code ≤ maxErrorCodeLength) "error_code must be a string no longer than 256 chars"
  return code

/-- The record of an `enqueued` event. -/
def foldEnqueued (event : Fields) (id : String) (rs : Records) : Except String Records := do
  require (rs.get id).isNone "duplicate enqueued event for message_id"
  let envelopeJson ← expect (Json.get event "envelope_json").asStr
    "enqueued event missing envelope_json"
  require (envelopeJson != "") "enqueued event missing envelope_json"
  let sha ← expect (digestOf (Json.get event "envelope_sha256"))
    "enqueued event missing envelope_sha256"
  let created ← expect (Json.get event "created_at_ms").asInt
    "enqueued event timestamps must be integers"
  let expires ← expect (Json.get event "expires_at_ms").asInt
    "enqueued event timestamps must be integers"
  let _ ← foldAtMs event
  let record : OutboxRecord := { messageId := id, envelopeJson := envelopeJson, envelopeSha256 := sha,
                                 createdAtMs := created, expiresAtMs := expires }
  let _ ← recordEnvelope H record
  return rs ++ [record]

/-- The effect of an attempt on the record in the fold: an empty error code keeps
    the last one. -/
def OutboxRecord.attempted (r : OutboxRecord) (a : OutboxAttempt) : OutboxRecord :=
  { r with attempts := r.attempts ++ [a]
           state := if a.outcome = .rejected then .rejected else r.state
           lastErrorCode := if a.errorCode = "" then r.lastErrorCode else a.errorCode }

/-- The record after an `attempt` event. -/
def foldAttempt (event : Fields) (r : OutboxRecord) : Except String OutboxRecord := do
  require (r.state == .queued) "attempt event follows a terminal state"
  require (r.attempts.length < maxAttemptsPerRecord) "attempt history exceeds the cap"
  let transport ← foldTransport event
  let outcome ← expect ((Json.get event "outcome").asStr.bind AttemptOutcome.ofText)
    "unsupported attempt outcome"
  let atMs ← foldAtMs event
  let code ← validateErrorCode (Json.getD event "error_code" (.str ""))
  return r.attempted { transport := transport, atMs := atMs, outcome := outcome, errorCode := code }

/-- The record after a `delivered` event. -/
def foldDelivered (event : Fields) (r : OutboxRecord) : Except String OutboxRecord := do
  require (!r.state.isTerminal) "delivered event follows a terminal state"
  let atMs ← foldAtMs event
  let ackJson ← expect (Json.get event "ack_json").asStr "delivered event ack_json must be text"
  let parsed ← expect (loads (chars ackJson)) "delivered event ACK is invalid"
  let ack ← (DeliveryAck.fromDict parsed).mapError ("delivered event ACK is invalid: " ++ ·)
  let text ← expect (canonicalText ack.toDict) "delivered event ACK is invalid"
  require (text == ackJson) "delivered event ACK is not canonical JSON"
  (validateAck H ack (some atMs) true).mapError ("delivered event ACK is invalid: " ++ ·)
  let envelope ← recordEnvelope H r
  let sha ← expect ack.envelopeSha256.asStr "delivered event ACK binding mismatch"
  require (ack.messageId.eqStr r.messageId && ackDigestMatchesEnvelope H sha envelope)
    "delivered event ACK binding mismatch"
  let recipient ← expect envelope.recipient.asStr "delivered event ACK receiver mismatch"
  require (!startsWith "did:key:" recipient || ack.receiverDid == envelope.recipient)
    "delivered event ACK receiver mismatch"
  let receiver ← expect ack.receiverDid.asStr "delivered event ACK receiver mismatch"
  let received ← expect ack.receivedAtMs.asInt "delivered event ACK is invalid"
  return { r with state := .delivered, deliveredBy := receiver, deliveredAtMs := received }

/-- The record after a `rejected` event. -/
def foldRejected (event : Fields) (r : OutboxRecord) : Except String OutboxRecord := do
  require (!r.state.isTerminal) "rejected event follows a terminal state"
  let _ ← foldAtMs event
  let _ ← foldTransport event
  let code ← validateErrorCode (Json.get event "error_code")
  return { r with state := .rejected, lastErrorCode := code }

/-- The record after an `expired` event. -/
def foldExpired (event : Fields) (r : OutboxRecord) : Except String OutboxRecord := do
  require (!r.state.isTerminal) "expired event follows a terminal state"
  let _ ← foldAtMs event
  return { r with state := .expired }

/-- The record after an event of another kind than `enqueued`. -/
def foldRecord (kind : OutboxEvent) (event : Fields) (r : OutboxRecord) :
    Except String OutboxRecord :=
  match kind with
  | .enqueued => .error "unhandled journal event: enqueued"
  | .attempt => foldAttempt event r
  | .delivered => foldDelivered H event r
  | .rejected => foldRejected event r
  | .expired => foldExpired event r

/-- The check of the fields of an event. -/
def OutboxEvent.fieldsOk (kind : OutboxEvent) (event : Fields) : Bool :=
  match kind with
  | .attempt => Json.keysEq event kind.fields || Json.keysEq event ("error_code" :: kind.fields)
  | _ => Json.keysEq event kind.fields

/-- `_fold_event`. -/
def foldEvent (event : Fields) (rs : Records) : Except String Records := do
  let kind ← expect ((Json.get event "event").asStr.bind OutboxEvent.ofText) "unknown journal event"
  require (kind.fieldsOk event) (kind.text ++ " event has missing or unknown fields")
  let id ← expect (digestOf (Json.get event "message_id"))
    "journal event message_id is not a content address"
  if kind = .enqueued then foldEnqueued H event id rs
  else do
    let r ← expect (rs.get id) ("journal event for unknown message_id: " ++ kind.text)
    let r' ← foldRecord H kind event r
    return rs.set r'

/-- The fold of the journal. -/
def outboxReader : Jsonl.Reader Records where
  corrupt n := "corrupt journal line " ++ toString n
  notObject n := "journal line " ++ toString n ++ " is not an object"
  apply _ event rs := foldEvent H event rs

/-! ## Processes -/

/-- What a call raises. -/
inductive OutboxFault where
  | error (reason : String)
  | full
  | corrupt (reason : String)
  | rejected (reason : String)
  /-- `canonical_json` raises -/
  | encoding
  deriving DecidableEq

/-- A `DurableOutbox` of one process. -/
structure Outbox where
  maxPending : ℕ
  /-- `authorize_ack`; `none` where the callback raises -/
  authorizeAck : Option (DeliveryAck → TransportEnvelope → Option (Bool × String))
  records : Records := []
  journalStat : Option (ℕ × ℕ) := none

namespace Outbox

/-- `_load`. -/
def load (o : Outbox) (f : JournalFile) : Outbox × Except OutboxFault Unit :=
  match f.journal with
  | none => ({ o with records := [], journalStat := none }, .ok ())
  | some raw =>
    if maxJournalBytes < raw.length then
      (o, .error (.corrupt "outbox journal exceeds 67108864 bytes"))
    else match (outboxReader H).load raw [] with
      | .ok rs => ({ o with records := rs, journalStat := f.stat }, .ok ())
      | .error reason => ({ o with journalStat := f.stat }, .error (.corrupt reason))

/-- `_refold_if_changed`. -/
def refoldIfChanged (o : Outbox) (f : JournalFile) : Outbox × Except OutboxFault Unit :=
  if f.journal.isSome && f.stat != o.journalStat then load H { o with records := [] } f
  else (o, .ok ())

/-- `_append_locked`. -/
def append (o : Outbox) (f : JournalFile) (event : Fields) :
    Except OutboxFault (Outbox × JournalFile) := do
  let line ← expect (canonicalJson (.obj event)) .encoding
  let f' := f.write (f.bytes ++ (line ++ [Jsonl.nl]))
  return ({ o with journalStat := f'.stat }, f')

/-- A call under the lock: the fold, then the body. -/
def locked {α : Type} (o : Outbox) (f : JournalFile)
    (body : Outbox → Except OutboxFault (Outbox × JournalFile × α)) :
    (Outbox × JournalFile) × Except OutboxFault α :=
  match refoldIfChanged H o f with
  | (o', .error e) => ((o', f), .error e)
  | (o', .ok ()) => match body o' with
    | .error e => ((o', f), .error e)
    | .ok (o'', f', a) => ((o'', f'), .ok a)

/-! ## Operations -/

/-- `_validate_operation_time`. -/
def validateOperationTime (value : ℤ) (name : String) : Except OutboxFault Unit :=
  require (1 ≤ value) (.error (name ++ " must be a positive integer"))

/-- The record of an envelope; `none` if it has no canonical JSON. -/
def newRecord (e : TransportEnvelope) : Option OutboxRecord := do
  let envelopeJson ← canonicalText e.toDict
  let sha ← envelopeDigest H e.toDict
  let id ← e.messageId.asStr
  let created ← e.createdAtMs.asInt
  let expires ← e.expiresAtMs.asInt
  return { messageId := id, envelopeJson := envelopeJson, envelopeSha256 := sha,
           createdAtMs := created, expiresAtMs := expires }

/-- The checks of `enqueue` before the lock. -/
def enqueueArgs (e : TransportEnvelope) (now : ℤ) : Except OutboxFault OutboxRecord := do
  validateOperationTime now "now_ms"
  (validateEnvelope H e (some now) true).mapError OutboxFault.rejected
  let record ← expect (newRecord H e) .encoding
  require ((utf8 (chars record.envelopeJson)).length ≤ maxEnvelopeBytes)
    (.rejected "envelope exceeds the wire byte limit")
  return record

/-- `enqueue` under the lock. -/
def enqueueLocked (record : OutboxRecord) (now : ℤ) (f : JournalFile) (o : Outbox) :
    Except OutboxFault (Outbox × JournalFile × OutboxRecord) := do
  match o.records.get record.messageId with
  | some existing =>
    require (existing.envelopeSha256 == record.envelopeSha256)
      (.error "message_id already bound to different envelope bytes")
    return (o, f, existing)
  | none =>
    require ((o.records.countP fun r => !r.state.isTerminal) < o.maxPending) .full
    let (o', f') ← o.append f (enqueuedEvent record now)
    return ({ o' with records := o.records ++ [record] }, f', record)

/-- The checks of `record_attempt` before the lock. -/
def attemptArgs (transport outcome : String) (atMs : ℤ) (errorCode : String) :
    Except OutboxFault OutboxAttempt := do
  require (isTransportName transport) (.error "transport name must be a bounded identifier")
  let outcome ← expect (AttemptOutcome.ofText outcome)
    (.error ("unsupported attempt outcome: " ++ outcome))
  let code ← (validateErrorCode (.str errorCode)).mapError OutboxFault.error
  validateOperationTime atMs "at_ms"
  return { transport := transport, atMs := atMs, outcome := outcome, errorCode := code }

/-- `_require_live`. -/
def requireLive (rs : Records) (id : String) : Except OutboxFault OutboxRecord := do
  let r ← expect (rs.get id) (.error "outbox record missing")
  require (r.state != .delivered) (.error "record is already delivered")
  require (r.state != .rejected) (.error "record is terminally rejected")
  require (r.state != .expired) (.error "record is expired")
  return r

/-- The effect of an attempt on the record in memory. -/
def afterAttempt (r : OutboxRecord) (a : OutboxAttempt) : OutboxRecord :=
  { r with attempts := r.attempts ++ [a]
           state := if a.outcome = .rejected then .rejected else r.state
           lastErrorCode := a.errorCode }

/-- `record_attempt` under the lock. -/
def attemptLocked (id : String) (a : OutboxAttempt) (f : JournalFile) (o : Outbox) :
    Except OutboxFault (Outbox × JournalFile × OutboxRecord) := do
  let r ← requireLive o.records id
  require (r.attempts.length < maxAttemptsPerRecord) (.error "attempt history exceeds the cap")
  let (o', f') ← o.append f (attemptEvent id a)
  return ({ o' with records := o.records.set (afterAttempt r a) }, f', afterAttempt r a)

/-- The checks of `handle_ack` before the lock, at the two readings of the clock. -/
def ackArgs (ack : DeliveryAck) (checkedAt now : ℤ) : Except OutboxFault Unit := do
  (validateAck H ack (some checkedAt) true).mapError fun r => .rejected ("invalid delivery ack: " ++ r)
  validateOperationTime now "now_ms"

/-- The check that the receiver may acknowledge. -/
def authorizeReceiver (o : Outbox) (ack : DeliveryAck) (envelope : TransportEnvelope) :
    Except OutboxFault Unit := do
  let recipient ← expect envelope.recipient.asStr (.error "ack receiver is not the envelope recipient")
  if startsWith "did:key:" recipient then
    require (ack.receiverDid == envelope.recipient)
      (.error "ack receiver is not the envelope recipient")
  else match o.authorizeAck with
    | none => .error (.error "ack authorization is required for shared recipients")
    | some authorize => do
      let (allowed, reason) ← expect (authorize ack envelope)
        (.error "ack authorization callback failed")
      require allowed (.error (if reason = "" then "ack receiver is not authorized" else reason))

/-- `handle_ack` under the lock. -/
def ackLocked (ack : DeliveryAck) (now : ℤ) (f : JournalFile) (o : Outbox) :
    Except OutboxFault (Outbox × JournalFile × OutboxRecord) := do
  let id ← expect ack.messageId.asStr (.error "ack for unknown message_id")
  let sha ← expect ack.envelopeSha256.asStr (.error "ack for unknown message_id")
  let receiver ← expect ack.receiverDid.asStr (.error "ack for unknown message_id")
  let received ← expect ack.receivedAtMs.asInt (.error "ack for unknown message_id")
  let r ← expect (o.records.get id) (.error "ack for unknown message_id")
  let envelope ← (recordEnvelope H r).mapError OutboxFault.corrupt
  require (ackDigestMatchesEnvelope H sha envelope)
    (.error "ack envelope_sha256 does not match a valid forwarded envelope")
  if r.state = .delivered then do
    require (receiver == r.deliveredBy) (.error "ack receiver does not match the recorded delivery")
    return (o, f, r)
  else do
    require (r.state == .queued) (.error ("cannot acknowledge record in state " ++ r.state.text))
    authorizeReceiver o ack envelope
    let ackJson ← expect (canonicalText ack.toDict) .encoding
    let (o', f') ← o.append f (deliveredEvent id now ackJson)
    let r' := { r with state := .delivered, deliveredBy := receiver, deliveredAtMs := received }
    return ({ o' with records := o.records.set r' }, f', r')

/-- `_transition_expired`. -/
def transitionExpired (now : ℤ) (s : Outbox × JournalFile) (r : OutboxRecord) :
    Except OutboxFault (Outbox × JournalFile) := do
  let (o', f') ← s.1.append s.2 (expiredEvent r.messageId now)
  return ({ o' with records := s.1.records.set { r with state := .expired } }, f')

/-- `pending` under the lock.  All its events carry one time, so that the first
    one is refused or none is. -/
def pendingLocked (now : ℤ) (f : JournalFile) (o : Outbox) :
    Except OutboxFault (Outbox × JournalFile × Records) := do
  let expired := o.records.filter fun r => r.state == .queued && r.expiresAtMs ≤ now
  let (o', f') ← expired.foldlM (transitionExpired now) (o, f)
  return (o', f', o'.records.filter fun r => r.state == .queued)

/-- The events that `compact` writes for a record. -/
def compactEvents (r : OutboxRecord) : List Fields :=
  enqueuedEvent r r.createdAtMs :: r.attempts.map (attemptEvent r.messageId)

/-- The text of events. -/
def eventsText (events : List Fields) : Except OutboxFault Bytes := do
  let lines ← expect (events.mapM fun e => canonicalJson (.obj e)) .encoding
  return Jsonl.text lines

/-- `compact` under the lock. -/
def compactLocked (f : JournalFile) (o : Outbox) :
    Except OutboxFault (Outbox × JournalFile × ℕ) := do
  let keep := o.records.filter fun r => !r.state.isTerminal
  let raw ← eventsText (keep.flatMap compactEvents)
  let f' := f.write raw
  return ({ o with records := keep, journalStat := f'.stat }, f', keep.length)

end Outbox

end Delivery

end NthDao
