/-
  The journal of dispute statement fetches
  (`nth_dao/trade_rules/dispute_statement_fetch_journal.py`): a table with a row for every
  nonce that a requester used.

  A call is a transaction: it reads the table and writes one row, deletes some, or leaves
  the table as it is.

  * `Row`: a row of `fetch_replay`, and `record` the strict decoder of it;
  * `reserve`, `markAudited`, `claimProcessing`, `releaseProcessing`, `complete`,
    `purgeIneligibleReplays`: the calls.

  The conversion of seconds to nanoseconds, `int(s * 1_000_000_000)`, is the parameter
  `toNs`; the audit of an event is read from `Audit`.
-/
import Mathlib.Data.Rat.Defs
import Mathlib.Algebra.Order.Ring.Rat
import NthDao.TradeRules.FetchRequest

namespace NthDao.TradeRules.Fetch

open Py

/-! ## Constants -/

def maxJournalRecordBytes : ℕ := 512 * 1024
def maxPurgeLimit : ℕ := 1000
def maxLeaseSeconds : ℚ := 3600
def maxFetchSeconds : ℚ := 86400

/-- The exceptions of the journal: `value` is a `ValueError`. -/
inductive JournalError where
  | error (text : String)
  | capacity (text : String)
  | conflict (text : String)
  | value (text : String)

/-- An instance of `TradeDisputeStatementFetchJournal`. -/
structure Journal where
  maxRecords : ℕ
  maxBytes : ℕ
  maxRecordsPerRequester : ℕ
  maxPendingPerRequester : ℕ
  maxRecords_pos : 0 < maxRecords
  maxBytes_pos : 0 < maxBytes
  maxRecordsPerRequester_pos : 0 < maxRecordsPerRequester
  maxPendingPerRequester_pos : 0 < maxPendingPerRequester

/-- A row of `fetch_replay`. -/
structure Row where
  requesterDid : String
  nonce : String
  requestId : String
  requestDigest : String
  requestBytes : Bytes
  responseDigest : Option String
  responseBytes : Option Bytes
  auditEventId : Option String
  processingOwner : Option String
  leaseUntilNs : Option ℤ
  nextRetryAtNs : ℤ
  attemptCount : ℤ
  observedAtNs : ℤ
  updatedAtNs : ℤ
  notAfterNs : ℤ
  totalBytes : ℤ

/-- The primary key. -/
def Row.key (row : Row) : String × String := (row.requesterDid, row.nonce)

abbrev Table := List Row

/-! ## The decoder -/

variable (H : Host)

/-- `_timestamp_ns`. -/
def checkTimestamp (value : ℤ) (label : String) : Except JournalError Unit :=
  require (1 ≤ value && value ≤ maxTransportTimestampNs) (.error (label ++ " is invalid"))

/-- `_owner_token` and `_event_id`: 64 lowercase hexadecimal digits. -/
def checkToken (value label : String) : Except JournalError Unit :=
  require (isHex 64 (chars value)) (.error (label ++ " is invalid"))

/-- Retained bytes that are canonical. -/
def canonicalDocument (raw : Bytes) : Except JournalError Json := do
  let document ← expect (parseTradeJson raw) (.error "retained fetch bytes are invalid")
  let canonical ← (tradeCanonicalJson document).mapError fun _ =>
    .error "retained fetch bytes are invalid"
  require (canonical == raw) (.error "retained fetch bytes are invalid")
  return document

/-- The document of a response, where there is one. -/
def responseDocument : Option Bytes → Except JournalError (Option Json)
  | none => .ok none
  | some raw => (canonicalDocument raw).map some

/-- A digest of retained bytes. -/
def checkRetainedDigest (digest what : String) (raw : Bytes) : Except JournalError Unit := do
  require (isDigest digest) (.error ("retained " ++ what ++ "_digest is invalid"))
  require (digest == "sha256:" ++ H.sha256 raw)
    (.error ("retained " ++ what ++ " digest is inconsistent"))

/-- The fields of a lease. -/
def checkLease : Option String → Option ℤ → Except JournalError Unit
  | none, none => .ok ()
  | none, some _ => .error (.error "retained fetch lease fields are inconsistent")
  | some owner, leaseUntil => do
    checkToken owner "retained processing_owner"
    let until_ ← expect leaseUntil (.error "retained lease_until_ns is invalid")
    checkTimestamp until_ "retained lease_until_ns"

/-- The digest of a response. -/
def checkResponseDigest : Option String → Option Bytes → Except JournalError Unit
  | none, none => .ok ()
  | some _, none => .error (.error "retained response fields are inconsistent")
  | digest, some raw => do
    let digest ← expect digest (.error "retained response_digest is invalid")
    checkRetainedDigest H digest "response" raw

/-- The fields of a response that bind it to its row. -/
def checkResponseBinding (row : Row) : Option Json → Except JournalError Unit
  | none => .ok ()
  | some document =>
    require ((Json.get document.fields "request_id").eqStr row.requestId &&
        (Json.get document.fields "request_digest").eqStr row.requestDigest &&
        (Json.get document.fields "requester_did").eqStr row.requesterDid)
      (.error "retained response binding is inconsistent")

/-- The bytes of a row. -/
def Row.bytes (row : Row) : ℕ := row.requestBytes.length + (row.responseBytes.getD []).length

/-- `_record`: the row itself, if it is one. -/
def record (row : Row) : Except JournalError Row := do
  require (isDidKey row.requesterDid) (.error "retained requester_did is invalid")
  require (isNonce row.nonce) (.error "retained nonce is invalid")
  let requestDocument ← canonicalDocument row.requestBytes
  let document ← responseDocument row.responseBytes
  checkRetainedDigest H row.requestDigest "request" row.requestBytes
  row.auditEventId.elim (.ok ()) fun id => checkToken id "retained audit_event_id"
  checkLease row.processingOwner row.leaseUntilNs
  checkResponseDigest H row.responseDigest row.responseBytes
  require ((Json.get requestDocument.fields "request_id").eqStr row.requestId &&
      (Json.get requestDocument.fields "requester_did").eqStr row.requesterDid &&
      (Json.get requestDocument.fields "nonce").eqStr row.nonce)
    (.error "retained request index binding is inconsistent")
  checkResponseBinding row document
  checkTimestamp row.nextRetryAtNs "retained next_retry_at_ns"
  checkTimestamp row.observedAtNs "retained observed_at_ns"
  checkTimestamp row.updatedAtNs "retained updated_at_ns"
  checkTimestamp row.notAfterNs "retained not_after_ns"
  let expected ← (timestampNs (Json.get requestDocument.fields "not_after")
    "retained request.not_after").mapError .error
  require (row.notAfterNs == expected) (.error "retained request expiry binding is inconsistent")
  require (row.observedAtNs ≤ row.updatedAtNs) (.error "retained fetch chronology is inconsistent")
  require (0 ≤ row.attemptCount && !(row.processingOwner.isSome && row.attemptCount == 0) &&
      !(row.responseBytes.isSome && row.processingOwner.isSome) &&
      !(row.auditEventId.isSome && row.responseBytes.isNone))
    (.error "retained fetch processing state is inconsistent")
  require (row.totalBytes == row.bytes && row.totalBytes ≤ maxJournalRecordBytes)
    (.error "retained fetch byte accounting is inconsistent")
  return row

/-! ## Transactions -/

variable {H}

/-- `SELECT * FROM fetch_replay WHERE requester_did = ? AND nonce = ?`. -/
def Table.find (table : Table) (key : String × String) : Option Row :=
  table.find? fun row => row.key == key

/-- `UPDATE fetch_replay SET .. WHERE requester_did = ? AND nonce = ?`. -/
def Table.update (table : Table) (key : String × String) (f : Row → Row) : Table :=
  table.map fun row => if row.key = key then f row else row

/-- The key of a request. -/
def requestKey (request : FetchRequest H) : String × String :=
  (request.text "requester_did", request.text "nonce")

variable (H) in
/-- The table a transaction commits, and the row it returns, decoded behind the commit. -/
def commit {α : Type} (table : Table) (body : Except JournalError (Table × Row × α)) :
    Table × Except JournalError (Row × α) :=
  match body with
  | .ok (table', row, a) => (table', (record H row).map fun r => (r, a))
  | .error e => (table, .error e)

/-- The row of a request, decoded. -/
def reserved (table : Table) (request : FetchRequest H) (text : String) :
    Except JournalError Row := do
  let row ← expect (table.find (requestKey request)) (.conflict "fetch request was not reserved")
  let existing ← record H row
  require (existing.requestBytes == request.canonicalBytes) (.conflict text)
  return existing

/-- The limits of `reserve`. -/
def checkQuota (journal : Journal) (table : Table) (request : FetchRequest H) :
    Except JournalError Unit := do
  let own := table.filter fun row => row.requesterDid == request.text "requester_did"
  require (table.length + 1 ≤ journal.maxRecords) (.capacity "max fetch journal records exceeded")
  require ((table.map Row.totalBytes).sum + request.canonicalBytes.length ≤ journal.maxBytes)
    (.capacity "max fetch journal bytes exceeded")
  require (own.length + 1 ≤ journal.maxRecordsPerRequester)
    (.capacity "max fetch journal records for requester exceeded")
  require ((own.filter fun row => row.responseBytes.isNone).length + 1 ≤ journal.maxPendingPerRequester)
    (.capacity "max pending fetch records for requester exceeded")

/-- The row of a new request. -/
def newRow (request : FetchRequest H) (observed notAfterNs : ℤ) : Row where
  requesterDid := request.text "requester_did"
  nonce := request.text "nonce"
  requestId := request.text "request_id"
  requestDigest := request.digest
  requestBytes := request.canonicalBytes
  responseDigest := none
  responseBytes := none
  auditEventId := none
  processingOwner := none
  leaseUntilNs := none
  nextRetryAtNs := observed
  attemptCount := 0
  observedAtNs := observed
  updatedAtNs := observed
  notAfterNs := notAfterNs
  totalBytes := request.canonicalBytes.length

/-- `reserve`. -/
def reserve (journal : Journal) (request : FetchRequest H) (observedAtNs : ℤ) (table : Table) :
    Table × Except JournalError (Row × Bool) :=
  commit H table do
    checkTimestamp observedAtNs "observed_at_ns"
    let notAfterNs ← (timestampNs (request.field "not_after") "request.not_after").mapError .error
    require (request.canonicalBytes.length ≤ maxJournalRecordBytes)
      (.capacity "fetch journal record exceeds byte limit")
    match table.find (requestKey request) with
    | some row => do
      let existing ← record H row
      require (existing.requestBytes == request.canonicalBytes)
        (.conflict "fetch nonce was rebound to a different request")
      return (table, existing, false)
    | none => do
      require (!table.any fun row => row.requestId == request.text "request_id")
        (.conflict "fetch request_id was rebound to a different nonce")
      checkQuota journal table request
      let row := newRow request observedAtNs notAfterNs
      return (table ++ [row], row, true)

/-- What `verify_trade_dispute_statement_fetch_audit_event` and `reconcile_append` say of an
    event. -/
structure Audit where
  eventId : String
  verified : Except String Unit
  persisted : Except String Bool

/-- `mark_audited`. -/
def markAudited (request : FetchRequest H) (response : FetchResponse H) (event : Audit)
    (updatedAtNs : ℤ) (table : Table) : Table × Except JournalError (Row × Unit) :=
  commit H table do
    event.verified.mapError .error
    let persisted ← event.persisted.mapError fun _ =>
      .error "unable to verify persisted fetch audit event"
    require persisted (.error "fetch audit event is not persisted in the supplied Spine")
    checkToken event.eventId "audit_event_id"
    checkTimestamp updatedAtNs "updated_at_ns"
    let row ← expect (table.find (requestKey request)) (.conflict "fetch request was not reserved")
    let existing ← record H row
    require (existing.requestBytes == request.canonicalBytes &&
        existing.responseBytes == some response.canonicalBytes)
      (.conflict "fetch audit does not bind the completed exchange")
    match existing.auditEventId with
    | some id => do
      require (id == event.eventId) (.conflict "fetch response already has a different audit event")
      return (table, existing, ())
    | none =>
      let audited := { existing with
        auditEventId := some event.eventId, updatedAtNs := max updatedAtNs existing.updatedAtNs }
      return (table.update existing.key fun _ => audited, audited, ())

variable (toNs : ℚ → ℤ)

/-- `bounded_seconds`. -/
def boundedSeconds (value : ℚ) (label limit : String) (maximum : ℚ) : Except JournalError Unit :=
  require (0 ≤ value && value ≤ maximum)
    (.error (label ++ " must be a finite non-negative number not greater than " ++ limit))

/-- `claim_processing`. -/
def claimProcessing (request : FetchRequest H) (ownerToken : String) (atNs : ℤ) (leaseSeconds : ℚ)
    (table : Table) : Table × Except JournalError (Row × Bool) :=
  commit H table do
    checkToken ownerToken "owner_token"
    checkTimestamp atNs "at_ns"
    boundedSeconds leaseSeconds "lease_seconds" "3600" maxLeaseSeconds
    require (0 < leaseSeconds) (.value "lease_seconds must be greater than zero")
    let leaseUntil := atNs + toNs leaseSeconds
    checkTimestamp leaseUntil "lease_until_ns"
    let existing ← reserved table request "reserved fetch request has conflicting content"
    if existing.responseBytes.isSome then return (table, existing, false)
    else if existing.processingOwner.isSome && existing.leaseUntilNs.any (atNs < ·) then
      return (table, existing, existing.processingOwner == some ownerToken)
    else if atNs < existing.nextRetryAtNs then return (table, existing, false)
    else
      let claimed := { existing with
        processingOwner := some ownerToken, leaseUntilNs := some leaseUntil
        attemptCount := existing.attemptCount + 1, updatedAtNs := max atNs existing.updatedAtNs }
      return (table.update existing.key fun _ => claimed, claimed, true)

/-- `release_processing`; the flag says that the lease was given back. -/
def releaseProcessing (request : FetchRequest H) (ownerToken : String) (atNs : ℤ)
    (retryAfterSeconds : ℚ) (table : Table) : Table × Except JournalError (Row × Bool) :=
  commit H table do
    checkToken ownerToken "owner_token"
    checkTimestamp atNs "at_ns"
    boundedSeconds retryAfterSeconds "retry_after_seconds" "86400" maxFetchSeconds
    let nextRetry := atNs + toNs retryAfterSeconds
    checkTimestamp nextRetry "next_retry_at_ns"
    let existing ← reserved table request "reserved fetch request has conflicting content"
    if existing.responseBytes.isSome then return (table, existing, false)
    else do
      require (existing.processingOwner == some ownerToken)
        (.conflict "fetch processing lease ownership changed")
      let released := { existing with
        processingOwner := none, leaseUntilNs := none, nextRetryAtNs := nextRetry
        updatedAtNs := max atNs existing.updatedAtNs }
      return (table.update existing.key fun _ => released, released, true)

/-- The checks of `complete` behind the row. -/
def checkCompletion (journal : Journal) (table : Table) (existing : Row) (ownerToken : String)
    (response : Bytes) (updatedAtNs : ℤ) : Except JournalError Unit := do
  require (existing.processingOwner == some ownerToken)
    (.conflict "fetch completion does not own the processing lease")
  require (existing.observedAtNs ≤ updatedAtNs) (.error "updated_at_ns predates request observation")
  require (existing.requestBytes.length + response.length ≤ maxJournalRecordBytes)
    (.capacity "fetch journal record exceeds byte limit")
  require ((table.map Row.totalBytes).sum - existing.bytes +
      (existing.requestBytes.length + response.length : ℕ) ≤ (journal.maxBytes : ℤ))
    (.capacity "max fetch journal bytes exceeded")

/-- `complete`. -/
def complete (journal : Journal) (request : FetchRequest H) (response : FetchResponse H)
    (ownerToken : String) (updatedAtNs : ℤ) (table : Table) :
    Table × Except JournalError (Row × Bool) :=
  commit H table do
    checkToken ownerToken "owner_token"
    checkTimestamp updatedAtNs "updated_at_ns"
    require (response.field "request_id" == request.field "request_id" &&
        (response.field "request_digest").eqStr request.digest &&
        response.field "requester_did" == request.field "requester_did")
      (.conflict "fetch response does not bind the reserved request")
    let existing ← reserved table request "reserved fetch request has conflicting content"
    match existing.responseBytes with
    | some bytes => do
      require (bytes == response.canonicalBytes)
        (.conflict "fetch request already has a different signed response")
      return (table, existing, false)
    | none => do
      checkCompletion journal table existing ownerToken response.canonicalBytes updatedAtNs
      let completed := { existing with
        responseDigest := some ("sha256:" ++ H.sha256 response.canonicalBytes)
        responseBytes := some response.canonicalBytes
        processingOwner := none, leaseUntilNs := none, nextRetryAtNs := updatedAtNs
        updatedAtNs := updatedAtNs
        totalBytes := (existing.requestBytes.length + response.canonicalBytes.length : ℕ) }
      return (table.update existing.key fun _ => completed, completed, true)

/-- The condition under which a row is deleted. -/
def Row.ineligible (row : Row) (cutoffNs atNs : ℤ) : Bool :=
  row.notAfterNs < cutoffNs && (row.responseBytes.isNone || row.auditEventId.isSome) &&
    (row.processingOwner.isNone || row.leaseUntilNs.any (· ≤ atNs))

/-- `ORDER BY not_after_ns, request_id`. -/
def Row.before (r s : Row) : Prop :=
  r.notAfterNs < s.notAfterNs ∨ r.notAfterNs = s.notAfterNs ∧ r.requestId ≤ s.requestId

instance : DecidableRel Row.before := fun r s =>
  inferInstanceAs (Decidable (r.notAfterNs < s.notAfterNs ∨
    r.notAfterNs = s.notAfterNs ∧ r.requestId ≤ s.requestId))

variable (H) in
/-- All rows decoded. -/
def records : List Row → Except JournalError (List Row)
  | [] => return []
  | row :: rows => do
    let r ← record H row
    let rs ← records rows
    return r :: rs

variable (H) in
/-- The rows that a purge deletes. -/
def purgeRows (atNs : ℤ) (clockSkewSeconds : ℚ) (limit : ℕ) (table : Table) :
    Except JournalError (List Row) := do
  checkTimestamp atNs "at_ns"
  boundedSeconds clockSkewSeconds "clock_skew_seconds" "86400" maxFetchSeconds
  require (1 ≤ limit && limit ≤ maxPurgeLimit)
    (.value ("limit must be between 1 and " ++ toString maxPurgeLimit))
  let cutoffNs := atNs - toNs clockSkewSeconds
  records H (((table.filter fun row => row.ineligible cutoffNs atNs).insertionSort Row.before).take
    limit)

variable (H) in
/-- `purge_ineligible_replays`. -/
def purgeIneligibleReplays (atNs : ℤ) (clockSkewSeconds : ℚ) (limit : ℕ) (table : Table) :
    Table × Except JournalError (List String) :=
  match purgeRows H toNs atNs clockSkewSeconds limit table with
  | .ok rows => (table.filter fun row => !(rows.map Row.key).contains row.key, .ok (rows.map Row.requestId))
  | .error e => (table, .error e)

end NthDao.TradeRules.Fetch
