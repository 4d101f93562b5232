/-
  The journal of accepted envelopes (`nth_dao/plugins/intent_acceptance.py`).

  * `Record` and `Row`: an acceptance, and its row in the database;
  * `verifyRows`: the checks of a history, row by row;
  * `acceptCurrent`: one acceptance against a verified history;
  * `accept` and `acceptGoverned`, under a resolver of the host and under the current policy.

  A call is one transaction: the rows that are verified are those that it writes to.
  What SQLite itself refuses is left out, except for the constraints of the table.
-/
import NthDao.Plugins.IntentPolicy
import NthDao.Py.Dict

namespace NthDao

namespace Plugins

open Py MarketIndex

variable (V : IntentHost)

/-- The limits of a store. -/
structure Limits where
  maxRecords : ℕ
  maxBytes : ℕ
  records_le : maxRecords ≤ 4096

/-- The two readings of the clock in one call. -/
structure Clock where
  now : ℤ
  commit : ℤ

/-! ## Records -/

/-- `IntentAcceptanceRecord`. -/
structure Record where
  sequence : ℤ
  envelopeDigest : String
  envelopeJson : String
  contextJson : String
  acceptedAtMs : ℤ
  previousAuditDigest : String
  auditDigest : String
  deriving DecidableEq

namespace Record

/-- `envelope`, empty where the text is not that of an object. -/
def envelope (r : Record) : Fields := ((loads (chars r.envelopeJson)).map Json.fields).getD []

def audit (r : Record) : Fields :=
  [("format", .str "org.nth-dao.intent-acceptance-observation.v1"),
    ("event_type", .str "intent.accepted"), ("sequence", .int r.sequence),
    ("envelope_digest", .str r.envelopeDigest),
    ("context_digest", .str (contentHash V.toHost (utf8 (chars r.contextJson)))),
    ("accepted_at_ms", .int r.acceptedAtMs), ("previous_audit_digest", .str r.previousAuditDigest),
    ("authority", .str "none"), ("commit_authority", .bool false), ("executable", .bool false)]

def bytes (r : Record) : ℕ := (utf8 (chars r.envelopeJson)).length + (utf8 (chars r.contextJson)).length

end Record

/-- The columns of `acceptances`. -/
structure Row extends Record where
  audienceDid : String
  scopeId : String
  signerDid : String
  nonce : String
  revision : ℤ
  deriving DecidableEq

def scopeOf (d : Fields) : String × String := (textOf d "audience_did", textOf d "scope_id")

namespace Row

def scope (r : Row) : String × String := (r.audienceDid, r.scopeId)

/-- The columns of the nonce. -/
def nonceKey (r : Row) : (String × String) × String × String := (r.scope, r.signerDid, r.nonce)

/-- A row is the record with members of its envelope. -/
def ofRecord (r : Record) (d : Fields) : Row where
  toRecord := r
  audienceDid := textOf d "audience_did"
  scopeId := textOf d "scope_id"
  signerDid := textOf d "signer_did"
  nonce := textOf d "nonce"
  revision := numberOf d "revision"

end Row

/-! ## Contexts as documents -/

/-- `asdict(expected)`. -/
def Expected.toDict (e : Expected) : Fields :=
  [("signer_did", .str e.signerDid), ("audience_did", .str e.audienceDid),
    ("scope_id", .str e.scopeId), ("draft_digest", .str e.draftDigest),
    ("revision", .int e.revision), ("previous_digest", .str e.previousDigest),
    ("allowed_solver_classes", .arr (e.allowedSolverClasses.map .str)),
    ("automation_ceiling", .str e.automationCeiling),
    ("authorization_digest", .str e.authorizationDigest)]

def contextKeys : List String :=
  ["signer_did", "audience_did", "scope_id", "draft_digest", "revision", "previous_digest",
    "allowed_solver_classes", "automation_ceiling", "authorization_digest"]

/-- `IntentAcceptanceContext(**fields)`; a record from before the policies has no
    `authorization_digest`. -/
def contextOf (d : Fields) : Option Context := do
  let classes ← match Json.get d "allowed_solver_classes" with
    | .arr xs => xs.mapM Json.asStr
    | _ => none
  if d.all fun p => contextKeys.contains p.1 then
    Expected.context
      { signerDid := ← (Json.get d "signer_did").asStr
        audienceDid := ← (Json.get d "audience_did").asStr
        scopeId := ← (Json.get d "scope_id").asStr
        draftDigest := ← (Json.get d "draft_digest").asStr
        revision := ← (Json.get d "revision").asInt
        previousDigest := ← (Json.get d "previous_digest").asStr
        allowedSolverClasses := classes
        automationCeiling := ← (Json.get d "automation_ceiling").asStr
        authorizationDigest := ← (Json.getD d "authorization_digest" (.str "")).asStr }
  else none

/-! ## Histories -/

def maxContextBytes : ℕ := 8192

/-- `_INVALID_ROW_SQL` does not hold of the row. -/
def Row.bounded (r : Row) : Bool :=
  [(r.envelopeDigest, 71), (r.audienceDid, 128), (r.scopeId, 256), (r.signerDid, 128), (r.nonce, 32),
    (r.envelopeJson, intentMaxDocumentBytes), (r.contextJson, maxContextBytes),
    (r.previousAuditDigest, 71), (r.auditDigest, 71)].all (fun p =>
      decide ((utf8 (chars p.1)).length ≤ p.2)) &&
    isSafeInteger 1 r.sequence && isSafeInteger 1 r.revision && isSafeInteger 0 r.acceptedAtMs

/-- `_read_rows`. -/
def readRows (limits : Limits) (rows : List Row) : Except Refusal Unit := do
  require (rows.all Row.bounded)
    (.store "acceptance field type or byte-limit integrity check failed")
  require (rows.length ≤ limits.maxRecords && (rows.map fun r => r.bytes).sum ≤ limits.maxBytes)
    (.capacity "acceptance journal exceeds configured capacity")

/-- The state of `_verify_rows`. -/
structure Scan where
  records : List Record := []
  heads : Py.Dict (String × String) Head := []
  nonces : List ((String × String) × String × String) := []
  previous : String := ""
  timestamp : ℤ := 0

def Scan.head (s : Scan) (scope : String × String) : Head := (s.heads.get scope).getD Head.genesis

def corrupt : Refusal := .store "acceptance journal integrity check failed"

/-- One row of `_verify_rows`. -/
def verifyRow (s : Scan) (row : Row) : Except Refusal Scan := do
  require ((utf8 (chars row.envelopeJson)).length ≤ intentMaxDocumentBytes &&
    (utf8 (chars row.contextJson)).length ≤ maxContextBytes) corrupt
  let envelope ← expect (loads (chars row.envelopeJson)) corrupt
  let context ← expect (loads (chars row.contextJson)) corrupt
  let expected ← expect (if context.isObj then contextOf context.fields else none) corrupt
  let _ ← (verifyIntentEnvelope V envelope expected row.acceptedAtMs).mapError fun _ => corrupt
  require (canonicalText envelope.fields == some row.envelopeJson &&
    canonicalText context.fields == some row.contextJson) corrupt
  require (row.envelopeDigest == hashDocument V envelope.fields &&
    row.auditDigest == hashDocument V (row.toRecord.audit V)) corrupt
  require (row.sequence == s.records.length + 1 && row.previousAuditDigest == s.previous &&
    s.timestamp ≤ row.acceptedAtMs) corrupt
  require (row == Row.ofRecord row.toRecord envelope.fields) corrupt
  require (numberOf envelope.fields "revision" == (s.head row.scope).revision + 1 &&
    textOf envelope.fields "previous_digest" == (s.head row.scope).digest) corrupt
  require (!s.nonces.contains row.nonceKey) corrupt
  return { records := s.records ++ [row.toRecord]
           heads := s.heads.set row.scope ⟨numberOf envelope.fields "revision", row.envelopeDigest⟩
           nonces := row.nonceKey :: s.nonces
           previous := row.auditDigest
           timestamp := row.acceptedAtMs }

/-- `_verify_rows`. -/
def verifyRows (rows : List Row) : Except Refusal Scan := rows.foldlM (verifyRow V) {}

/-- `_read_history`. -/
def readHistory (limits : Limits) (rows : List Row) : Except Refusal (List Record) := do
  readRows limits rows
  let s ← verifyRows V rows
  return s.records

/-- The head of a scope: the last record in it. -/
def headOf (records : List Record) (scope : String × String) : Head :=
  records.foldl (fun head r => if scopeOf r.envelope = scope
    then ⟨numberOf r.envelope "revision", r.envelopeDigest⟩ else head) Head.genesis

/-! ## Accepting -/

/-- `IntentAcceptanceResult`. -/
structure Accepted where
  record : Record
  created : Bool
  deriving DecidableEq

/-- `_read_clock`. -/
def readClock (now : ℤ) : Except Refusal Unit :=
  require (isSafeInteger 0 now) (.envelope "Host clock must return a nonnegative safe integer")

/-- The authorization of the context is that of the call. -/
def checkAuthorization (governed : Option (Policy V)) (expected : Context) : Except Refusal Unit :=
  match governed with
  | none => require (expected.authorizationDigest == "")
      (.envelope "governed authorization requires accept_governed()")
  | some policy => require (expected.authorizationDigest == policy.digest)
      (.envelope "authorization digest does not match the policy snapshot")

/-- The constraints of the table keep the row out. -/
def Row.clashes (row other : Row) : Bool :=
  row.sequence == other.sequence || row.envelopeDigest == other.envelopeDigest ||
    (row.scope == other.scope && row.revision == other.revision) || row.nonceKey == other.nonceKey

/-- The record of an acceptance after `records`. -/
def nextRecord (records : List Record) (digest envelopeJson contextJson : String) (at_ : ℤ) : Record :=
  let r : Record :=
    { sequence := records.length + 1
      envelopeDigest := digest
      envelopeJson := envelopeJson
      contextJson := contextJson
      acceptedAtMs := at_
      previousAuditDigest := (records.getLast?.map Record.auditDigest).getD ""
      auditDigest := "" }
  { r with auditDigest := hashDocument V (r.audit V) }

variable {V}

/-- The part of `_accept_current` that makes a new record of the document. -/
def appendRecord (limits : Limits) (rows : List Row) (records : List Record) (head : Head)
    (governed : Option (Policy V)) (expected : Context) (document : Fields) (clock : Clock) :
    Except Refusal Record := do
  require (numberOf document "revision" == head.revision + 1 &&
    textOf document "previous_digest" == head.digest) (.conflict "accepted revision head has changed")
  require (!rows.any fun r => r.nonceKey ==
      (scopeOf document, textOf document "signer_did", textOf document "nonce"))
    (.conflict "nonce has already been consumed in this scope")
  require (records.getLast?.all fun r => decide (r.acceptedAtMs ≤ clock.now))
    (.conflict "Host clock moved backwards")
  let envelopeJson ← expect (canonicalText document) (.envelope "canonical_json")
  let contextJson ← expect (canonicalText expected.toDict) (.envelope "canonical_json")
  require ((utf8 (chars contextJson)).length ≤ maxContextBytes)
    (.envelope "Host context exceeds the journal byte limit")
  require (records.length < limits.maxRecords &&
      (records.map Record.bytes).sum + (utf8 (chars envelopeJson)).length +
        (utf8 (chars contextJson)).length ≤ limits.maxBytes)
    (.capacity "acceptance journal capacity reached")
  readClock clock.commit
  require (numberOf document "issued_at_ms" ≤ clock.commit &&
    clock.commit < numberOf document "expires_at_ms")
    (.envelope "envelope expired before the insert boundary")
  require (governed.all fun p => p.isValidAt clock.commit)
    (.envelope "authorization policy expired before the insert boundary")
  require (clock.now ≤ clock.commit) (.conflict "Host clock moved backwards before insertion")
  return nextRecord V records (hashDocument V document) envelopeJson contextJson clock.commit

/-- `_accept_current`, and the rows after it. -/
def acceptCurrent (limits : Limits) (rows : List Row) (records : List Record) (head : Head)
    (resolveContext : Head → ℤ → Except Refusal Context) (governed : Option (Policy V))
    (snapshot : Fields) (clock : Clock) : Except Refusal (Accepted × List Row) := do
  readClock clock.now
  let expected ← resolveContext head clock.now
  checkAuthorization V governed expected
  let document ← (verifyIntentEnvelope V (.obj snapshot) expected clock.now).mapError .envelope
  match records.find? fun r => r.envelopeDigest == hashDocument V document with
  | some existing => return (⟨existing, false⟩, rows)
  | none =>
    let record ← appendRecord limits rows records head governed expected document clock
    let row := Row.ofRecord record document
    require (!rows.any row.clashes) (.store "acceptance database operation failed")
    return (⟨record, true⟩, rows ++ [row])

/-- `_accept`. -/
def acceptWith (limits : Limits) (rows : List Row) (envelope : Json)
    (resolveContext : Head → ℤ → Except Refusal Context) (governed : Option (Policy V))
    (clock : Clock) : Except Refusal (Accepted × List Row) := do
  let snapshot ← (verifiedDocument V envelope).mapError .envelope
  let records ← readHistory V limits rows
  acceptCurrent limits rows records (headOf records (scopeOf snapshot)) resolveContext governed
    snapshot clock

/-- `accept`. -/
def accept (limits : Limits) (rows : List Row) (envelope : Json)
    (resolveContext : Head → Except Refusal Context) (clock : Clock) :
    Except Refusal (Accepted × List Row) :=
  acceptWith (V := V) limits rows envelope (fun head _ => resolveContext head) none clock

/-- `accept_governed`. -/
def acceptGoverned (limits : Limits) (rows : List Row) (policies : PolicyStore V) (envelope : Json)
    (signerDid expectedPolicyTailDigest : String) (clock : Clock) :
    Except Refusal (Accepted × List Row) := do
  let snapshot ← (verifiedDocument V envelope).mapError .envelope
  policies.requireTail expectedPolicyTailDigest
  let policy ← expect (policies.current (textOf snapshot "audience_did") (textOf snapshot "scope_id"))
    (.unavailable "no current policy exists for the envelope audience and scope")
  acceptWith limits rows (.obj snapshot) (policy.resolve signerDid) (some policy) clock

end Plugins

end NthDao
