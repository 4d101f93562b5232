/-
  The commerce outbox (`nth_dao/commerce/outbox.py`, `CommerceOutbox`).

  One file per message holds the signed envelope and the state of its delivery.

  * `CommerceEnvelope.verify`: the checks on a signed envelope;
  * `decodeRecord`: the checks on a stored record;
  * `enqueue`, `claim`, `recordAttempt`: the operations of the workers, each one
    step under the lock of the file.

  The URL parser of the standard library is a parameter: `urlsplit s` is its
  result with the port, `none` where it raises `ValueError`.
-/
import NthDao.CanonicalJson
import NthDao.Identity
import NthDao.Py.Check
import NthDao.Py.Indent
import NthDao.Py.Str

namespace NthDao

namespace Commerce

open Py

/-! ## Constants -/

def envelopeKind : String := "nth-commerce-sync-v1"
def maxPayloadBytes : ℕ := 512 * 1024
def maxOutboxRecordBytes : ℕ := 768 * 1024

def errorDeliveryFailed : String := "delivery-failed"
def errorDeliveryRejected : String := "delivery-permanently-rejected"

/-- `OUTBOX_ERROR_CODES`. -/
def outboxErrorCodes : List String :=
  [errorDeliveryFailed, errorDeliveryRejected, "dispatcher-contract-error",
    "outbox-record-missing", "delivery-lease-superseded", "delivery-runtime-error",
    "delivery-persistence-error", "target-policy-rejected", "peer-response-invalid",
    "peer-http-retryable", "peer-http-rejected", "peer-network-error"]

/-- What an operation raises. -/
inductive Fault where
  | rejected (reason : String)
  | typeError
  deriving DecidableEq

/-! ## Texts -/

/-- `s.strip()`. -/
def strip (cs : List Char) : List Char :=
  ((cs.dropWhile isSpace).reverse.dropWhile isSpace).reverse

/-- `s.rstrip("/")`. -/
def rstripSlash (cs : List Char) : List Char := (cs.reverse.dropWhile (· == '/')).reverse

/-- `urllib.parse.SplitResult` with its `port`. -/
structure SplitResult where
  scheme : String
  netloc : String
  hostname : String
  username : Option String
  password : Option String
  query : String
  fragment : String
  port : Option ℕ

variable (urlsplit : String → Option SplitResult)

/-- `_normalize_target_url`. -/
def normalizeTargetUrl (value : Json) : Except Fault String := do
  let invalid := Fault.rejected "invalid target URL"
  let s ← expect value.asStr invalid
  let cs := chars s
  require (!cs.isEmpty && cs == strip cs && cs.length ≤ 2048 &&
    cs.all fun c => !isSpace c && 0x20 ≤ c.toNat && c.toNat != 0x7f) invalid
  let parsed ← expect (urlsplit s) invalid
  require ((parsed.scheme == "http" || parsed.scheme == "https") && parsed.netloc != "" &&
    parsed.hostname != "" && parsed.username.isNone && parsed.password.isNone &&
    !(chars parsed.netloc).contains '@' && parsed.query == "" && parsed.fragment == "" &&
    parsed.port.all fun p => 1 ≤ p && p ≤ 65535) invalid
  return String.ofList (rstripSlash cs)

/-- `normalize_outbox_error` of a text. -/
def normalizeOutboxError (error : String) (retryable : Bool) : String :=
  let candidate := String.ofList (strip (chars error))
  if outboxErrorCodes.contains candidate then candidate
  else if retryable then errorDeliveryFailed
  else errorDeliveryRejected

/-! ## Envelopes -/

/-- `CommerceEnvelope`; the fields of a stored one are arbitrary. -/
structure CommerceEnvelope where
  messageId : Json
  sourceDid : Json
  targetDid : Json
  payload : Json
  createdAtMs : Json
  kind : Json := .str envelopeKind
  signature : Json := .str ""
  deriving DecidableEq

/-- `CommerceEnvelope.to_dict`. -/
def CommerceEnvelope.toDict (e : CommerceEnvelope) : Fields :=
  [("message_id", e.messageId), ("source_did", e.sourceDid), ("target_did", e.targetDid),
    ("payload", e.payload), ("created_at_ms", e.createdAtMs), ("kind", e.kind),
    ("signature", e.signature)]

/-- `CommerceEnvelope.signing_body`. -/
def CommerceEnvelope.signingBody (e : CommerceEnvelope) : Json :=
  .obj (e.toDict.filter fun p => p.1 != "signature")

/-- `CommerceEnvelope.from_dict`. -/
def CommerceEnvelope.fromDict (value : Json) : Except Fault CommerceEnvelope := do
  require (value.isObj && Json.keysEq value.fields ["message_id", "source_did", "target_did",
    "payload", "created_at_ms", "kind", "signature"])
    (.rejected "envelope has missing or unknown fields")
  let d := value.fields
  return { messageId := Json.get d "message_id", sourceDid := Json.get d "source_did",
           targetDid := Json.get d "target_did", payload := Json.get d "payload",
           createdAtMs := Json.get d "created_at_ms", kind := Json.get d "kind",
           signature := Json.get d "signature" }

variable (H : Host)

/-- `_message_id`. -/
def messageIdOf (sourceDid targetDid payload : Json) : Option String :=
  (canonicalJson (.obj [("source_did", sourceDid), ("target_did", targetDid),
    ("payload", payload)])).map fun b => "sha256:" ++ H.sha256 b

/-- `is_did_key` of any value. -/
def isDid (v : Json) : Bool := v.asStr.any isDidKey

/-- `verify_envelope`; the error is the reason. -/
def CommerceEnvelope.verify (e : CommerceEnvelope) : Except String Unit := do
  require (e.kind.eqStr envelopeKind) "wrong envelope kind"
  require (isDid e.sourceDid && isDid e.targetDid) "invalid envelope DID"
  require e.payload.isObj "payload must be an object"
  require (e.createdAtMs.asInt.any (0 < ·)) "invalid envelope timestamp"
  let b ← expect (canonicalJson e.payload) "payload is not canonical JSON"
  require (b.length ≤ maxPayloadBytes) "envelope payload too large"
  let expected ← expect (messageIdOf H e.sourceDid e.targetDid e.payload)
    "payload is not canonical JSON"
  require (e.messageId.eqStr expected) "message id does not match envelope content"
  let sig ← expect e.signature.asStr "envelope signature invalid"
  let did ← expect e.sourceDid.asStr "envelope signature invalid"
  let body ← expect (canonicalJson e.signingBody) "envelope signature invalid"
  require (verifySig H did body sig) "envelope signature invalid"

/-- `sign_envelope`, its checks left to `verify`. -/
def signEnvelope (identity : H.SecretKey) (targetDid : String) (payload : Fields)
    (createdAtMs : ℤ) : Option CommerceEnvelope := do
  let source := Json.str (asDid H identity)
  let mid ← messageIdOf H source (.str targetDid) (.obj payload)
  let e : CommerceEnvelope :=
    { messageId := .str mid, sourceDid := source, targetDid := .str targetDid,
      payload := .obj payload, createdAtMs := .int createdAtMs }
  let body ← canonicalJson e.signingBody
  return { e with signature := .str (signText H identity body) }

/-! ## Records -/

inductive Status where
  | pending | inflight | blocked | acknowledged
  deriving DecidableEq, Repr

/-- The name of a status in the file. -/
def Status.wire : Status → String
  | .pending => "pending"
  | .inflight => "inflight"
  | .blocked => "blocked"
  | .acknowledged => "acknowledged"

/-- The status of a name. -/
def Status.ofWire (s : String) : Option Status :=
  [Status.pending, .inflight, .blocked, .acknowledged].find? fun t => t.wire == s

/-- `OutboxRecord`. -/
structure OutboxRecord where
  envelope : Fields
  targetUrl : String
  status : Status := .pending
  attempts : ℕ := 0
  lastError : String := ""
  acknowledgedAtMs : ℕ := 0
  blockedAtMs : ℕ := 0
  lastAttemptAtMs : ℕ := 0
  nextAttemptAtMs : ℕ := 0
  leaseId : String := ""
  leaseExpiresAtMs : ℕ := 0
  routeHistory : Option (List Fields) := none
  deriving DecidableEq

/-- `asdict(record)`. -/
def OutboxRecord.asdict (r : OutboxRecord) : Fields :=
  [("envelope", .obj r.envelope), ("target_url", .str r.targetUrl), ("status", .str r.status.wire),
    ("attempts", .int r.attempts), ("last_error", .str r.lastError),
    ("acknowledged_at_ms", .int r.acknowledgedAtMs), ("blocked_at_ms", .int r.blockedAtMs),
    ("last_attempt_at_ms", .int r.lastAttemptAtMs), ("next_attempt_at_ms", .int r.nextAttemptAtMs),
    ("lease_id", .str r.leaseId), ("lease_expires_at_ms", .int r.leaseExpiresAtMs),
    ("route_history", match r.routeHistory with
      | none => .null
      | some rs => .arr (rs.map .obj))]

/-- The fields of `OutboxRecord`. -/
def recordFields : List String :=
  ["envelope", "target_url", "status", "attempts", "last_error", "acknowledged_at_ms",
    "blocked_at_ms", "last_attempt_at_ms", "next_attempt_at_ms", "lease_id", "lease_expires_at_ms",
    "route_history"]

/-- An `int` that is neither a `bool` nor negative. -/
def natOf (v : Json) : Option ℕ := v.asInt.bind fun n => if 0 ≤ n then some n.toNat else none

/-- The checks on an item of `route_history`. -/
def routeOk (item : Json) : Bool :=
  let d := item.fields
  let canonical := fun k => (normalizeTargetUrl urlsplit (Json.get d k)).toOption.any fun u =>
    (Json.get d k).eqStr u
  item.isObj && Json.keysEq d ["target_did", "previous_url", "new_url", "changed_at_ms"] &&
    canonical "previous_url" && canonical "new_url" && isDid (Json.get d "target_did") &&
    (Json.get d "changed_at_ms").asInt.any (0 < ·)

/-- The checks on `route_history`. -/
def decodeHistory : Json → Option (Option (List Fields))
  | .null => some none
  | .arr items =>
    if items.length ≤ 20 && items.all (routeOk urlsplit) then some (some (items.map Json.fields))
    else none
  | _ => none

/-- A value that is not the key of a `dict`. -/
def unhashable : Json → Bool
  | .arr _ | .obj _ => true
  | _ => false

/-- `_decode_record` of a stored object. -/
def decodeRecord (path : String) (value : Fields) : Except Fault OutboxRecord := do
  let invalid := fun what => Fault.rejected ("outbox record at " ++ path ++ " has " ++ what)
  let get := fun k default => Json.getD value k default
  require (value.all (fun p => recordFields.contains p.1) &&
    (Json.lookup value "envelope").isSome && (Json.lookup value "target_url").isSome)
    (invalid "invalid fields")
  let rawStatus := get "status" (.str "pending")
  require (!unhashable rawStatus) .typeError
  let status ← expect (rawStatus.asStr.bind Status.ofWire) (invalid "invalid status")
  require (Json.get value "envelope").isObj (invalid "invalid envelope")
  let target ← (normalizeTargetUrl urlsplit (Json.get value "target_url")).mapError
    fun _ => invalid "invalid target URL"
  require ((Json.get value "target_url").eqStr target) (invalid "noncanonical target URL")
  let attempts ← expect (natOf (get "attempts" (.int 0))) (invalid "invalid attempts")
  let lastError ← expect (get "last_error" (.str "")).asStr (invalid "invalid text fields")
  let leaseId ← expect (get "lease_id" (.str "")).asStr (invalid "invalid text fields")
  let lastError := if status = .acknowledged then ""
    else if lastError == "" then "" else normalizeOutboxError lastError (status != .blocked)
  let timeOf := fun k => expect (natOf (get k (.int 0))) (invalid ("invalid " ++ k))
  let acknowledgedAtMs ← timeOf "acknowledged_at_ms"
  let blockedAtMs ← timeOf "blocked_at_ms"
  let lastAttemptAtMs ← timeOf "last_attempt_at_ms"
  let nextAttemptAtMs ← timeOf "next_attempt_at_ms"
  let leaseExpiresAtMs ← timeOf "lease_expires_at_ms"
  let routeHistory ← expect (decodeHistory urlsplit (get "route_history" .null))
    (invalid "invalid route history")
  require (!(status = .inflight && (leaseId == "" || leaseExpiresAtMs == 0)))
    (invalid "invalid lease")
  require (!(status = .acknowledged && acknowledgedAtMs == 0)) (invalid "invalid acknowledgement")
  require (!(status = .blocked && blockedAtMs == 0)) (invalid "invalid blocked timestamp")
  return { envelope := (Json.get value "envelope").fields, targetUrl := target, status, attempts,
           lastError, acknowledgedAtMs, blockedAtMs, lastAttemptAtMs, nextAttemptAtMs, leaseId,
           leaseExpiresAtMs, routeHistory }

/-! ## Files -/

/-- The file of a record. -/
inductive RecordFile where
  | absent
  | corrupt
  | doc (value : Json)

/-- `CommerceOutbox`: the active and the archived files by name. -/
structure CommerceOutbox where
  active : String → RecordFile
  archive : String → RecordFile

/-- `bytes.fromhex` does not raise: pairs of digits, blanks between them. -/
def hexPairs : List Char → Bool
  | [] => true
  | c :: cs =>
    if (9 ≤ c.toNat && c.toNat ≤ 13) || c == ' ' then hexPairs cs
    else match cs with
      | [] => false
      | d :: cs => (hexVal c).isSome && (hexVal d).isSome && hexPairs cs

/-- `_path`: the name of the file of a message. -/
def pathOf (messageId : String) : Except Fault String := do
  require (startsWith "sha256:" messageId && len messageId == 71 &&
    hexPairs ((chars messageId).drop 7)) (.rejected "invalid message id")
  return String.ofList ((chars messageId).drop 7) ++ ".json"

/-- `_load_record`. -/
def loadRecord (path : String) : RecordFile → Except Fault (Option Fields)
  | .absent => .ok none
  | .corrupt => .error (.rejected ("corrupt outbox JSON at " ++ path))
  | .doc value => do
    require (fileWeight 0 value ≤ maxOutboxRecordBytes)
      (.rejected ("outbox record at " ++ path ++ " is too large"))
    require value.isObj (.rejected ("outbox record at " ++ path ++ " is not an object"))
    return some value.fields

/-- `atomic_write_json(path, asdict(record))`. -/
def CommerceOutbox.write (s : CommerceOutbox) (path : String) (r : OutboxRecord) : CommerceOutbox :=
  { s with active := fun name => if name = path then .doc (.obj r.asdict) else s.active name }

/-! ## Operations -/

/-- `now_ms_override or time.time_ns() // 1_000_000`. -/
def clockOr (nowMsOverride now : ℕ) : ℕ := if nowMsOverride = 0 then now else nowMsOverride

/-- The envelope of a stored record, checked against the one to enqueue. -/
def existingEnvelope (e : CommerceEnvelope) (current : Fields) : Except Fault CommerceEnvelope := do
  let existing ← (CommerceEnvelope.fromDict (Json.get current "envelope")).mapError
    fun _ => .rejected "stored outbox envelope is invalid"
  (existing.verify H).mapError fun reason =>
    .rejected ("stored outbox envelope is invalid: " ++ reason)
  require (eqv existing.messageId e.messageId && eqv existing.sourceDid e.sourceDid &&
    eqv existing.targetDid e.targetDid && eqv existing.payload e.payload)
    (.rejected "outbox message id collision")
  return existing

/-- A record moved to another route. -/
def OutboxRecord.retarget (r : OutboxRecord) (targetDid : Json) (url : String) (changedAtMs : ℕ) :
    OutboxRecord :=
  let history := r.routeHistory.getD [] ++ [[("target_did", targetDid),
    ("previous_url", .str r.targetUrl), ("new_url", .str url), ("changed_at_ms", .int changedAtMs)]]
  { r with
    targetUrl := url, routeHistory := some (history.drop (history.length - 20)), status := .pending,
    blockedAtMs := 0, nextAttemptAtMs := 0, lastError := "" }

/-- The record that `enqueue` finds: the active one, else the archived one. -/
def CommerceOutbox.find (s : CommerceOutbox) (path : String) : Except Fault (Option Fields) := do
  match ← loadRecord path (s.active path) with
  | some value => return some value
  | none => loadRecord path (s.archive path)

/-- `enqueue` over a stored record. -/
def CommerceOutbox.enqueueOver (s : CommerceOutbox) (e : CommerceEnvelope) (url : String)
    (allowRetarget : Bool) (changedAtMs : ℕ) (path : String) (value : Fields) :
    Except Fault (OutboxRecord × CommerceOutbox) := do
  let existing ← existingEnvelope H e value
  let r ← decodeRecord urlsplit path value
  if r.status = .acknowledged then
    require (r.targetUrl == url) (.rejected "acknowledged outbox work cannot be retargeted")
    return (r, s)
  else if r.targetUrl = url then return (r, s)
  else
    require allowRetarget (.rejected "outbox target URL changed without retarget authorization")
    require (r.status = .pending || r.status = .blocked)
      (.rejected "only pending or blocked outbox work can be retargeted")
    let moved := r.retarget existing.targetDid url changedAtMs
    return (moved, s.write path moved)

/-- `enqueue`. -/
def CommerceOutbox.enqueue (s : CommerceOutbox) (e : CommerceEnvelope) (targetUrl : Json)
    (allowRetarget : Bool) (nowMsOverride now : ℕ) :
    Except Fault (OutboxRecord × CommerceOutbox) := do
  (e.verify H).mapError .rejected
  let url ← normalizeTargetUrl urlsplit targetUrl
  let path ← pathOf (e.messageId.asStr.getD "")
  match ← s.find path with
  | none =>
    let wanted : OutboxRecord := { envelope := e.toDict, targetUrl := url }
    return (wanted, s.write path wanted)
  | some value =>
    s.enqueueOver urlsplit H e url allowRetarget (clockOr nowMsOverride now) path value

/-- A claim of a record at `currentMs`: `none` if it is not to be delivered now. -/
def OutboxRecord.lease (r : OutboxRecord) (leaseMs currentMs : ℕ) (force : Bool) (leaseId : String) :
    Option OutboxRecord :=
  if r.status = .acknowledged then none
  else if r.status = .blocked ∧ force = false then none
  else if r.status = .inflight ∧ currentMs < r.leaseExpiresAtMs then none
  else if r.status = .pending ∧ currentMs < r.nextAttemptAtMs ∧ force = false then none
  else some { r with status := .inflight, blockedAtMs := 0, leaseId := leaseId,
                     leaseExpiresAtMs := currentMs + leaseMs }

/-- `claim`, with the identifier that `uuid.uuid4()` returns. -/
def CommerceOutbox.claim (s : CommerceOutbox) (messageId : String) (leaseMs nowMsOverride : ℕ)
    (force : Bool) (now : ℕ) (leaseId : String) :
    Except Fault (Option OutboxRecord × CommerceOutbox) := do
  require (1000 ≤ leaseMs && leaseMs ≤ 300000)
    (.rejected "lease_ms must be between 1000 and 300000")
  let path ← pathOf messageId
  match ← loadRecord path (s.active path) with
  | none => return (none, s)
  | some value =>
    let r ← (decodeRecord urlsplit path value).mapError fun f =>
      match f with
      | .rejected _ => .rejected "stored outbox record is invalid"
      | f => f
    match r.lease leaseMs (clockOr nowMsOverride now) force leaseId with
    | none => return (none, s)
    | some claimed => return (some claimed, s.write path claimed)

/-- The arguments of `record_attempt` besides the message. -/
structure Report where
  acknowledgedAtMs : ℕ := 0
  error : String := ""
  leaseId : String := ""
  retryAfterMs : ℕ := 0
  nowMsOverride : ℕ := 0
  retryable : Bool := true

/-- What a report makes of a record. -/
def OutboxRecord.report (r : OutboxRecord) (a : Report) (attemptedAtMs : ℕ) : OutboxRecord :=
  let r := { r with attempts := r.attempts + 1, lastAttemptAtMs := attemptedAtMs, leaseId := "",
                    leaseExpiresAtMs := 0 }
  if a.acknowledgedAtMs ≠ 0 then
    { r with status := .acknowledged, acknowledgedAtMs := a.acknowledgedAtMs, blockedAtMs := 0,
             lastError := "", nextAttemptAtMs := 0 }
  else if a.retryable = false then
    { r with status := .blocked, blockedAtMs := attemptedAtMs,
             lastError := normalizeOutboxError a.error false, nextAttemptAtMs := 0 }
  else
    { r with status := .pending, blockedAtMs := 0, lastError := normalizeOutboxError a.error true,
             nextAttemptAtMs := attemptedAtMs + a.retryAfterMs }

/-- `record_attempt`. -/
def CommerceOutbox.recordAttempt (s : CommerceOutbox) (messageId : String) (a : Report) (now : ℕ) :
    Except Fault (OutboxRecord × CommerceOutbox) := do
  require (a.retryAfterMs ≤ 86400000) (.rejected "retry_after_ms must be between 0 and 86400000")
  let path ← pathOf messageId
  let value ← expect (← loadRecord path (s.active path)) (.rejected "outbox message not found")
  let r ← decodeRecord urlsplit path value
  if r.status = .acknowledged then return (r, s)
  else
    require (!(r.status = .inflight && (a.leaseId == "" || a.leaseId != r.leaseId)))
      (.rejected "outbox lease does not match active delivery")
    let r' := r.report a (clockOr a.nowMsOverride now)
    return (r', s.write path r')

end Commerce

end NthDao
