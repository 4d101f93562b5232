/-
  Log instances with their caches (`nth_dao/spine/log.py`, `SignedEventLog`).

  Any number of instances share the files of a log; an operation holds the lock
  of the log for its whole body.

  * `recoverCached`: the recovery, with what it does to the caches;
  * `Query`: the reading operations, `SpineCall`: the appending ones, each cut into
    the checks before the lock, the plan and the durable steps;
  * `SpineWorld.step`: instances are opened, read, append and die, appends fail
    half-way, and the files are replaced from outside.

  The clock, the validator of a batch and what `os.fstat` says are arguments.
-/
import NthDao.Reach
import NthDao.Spine.Cache

namespace NthDao

open Py

variable (H : Host)

/-- `MAX_SPINE_APPEND_BATCH`. -/
def maxSpineAppendBatch : ℕ := 1000

/-- `MAX_SPINE_APPEND_BATCH_BYTES`. -/
def maxSpineAppendBatchBytes : ℕ := 8 * 1024 * 1024

/-! ## Recovery with caches -/

/-- `_recover_pending_append_unlocked` until the record is complete: the event of
    the intent and the files. -/
def recoverPlan (did : String) (d : Disk) : Except String (Option (SpineEvent × Disk)) := do
  match ← readAppendIntent H d.pending with
  | none => return none
  | some (baseSize, line) =>
    require (baseSize ≤ d.bytes.length) "spine append intent base exceeds log size"
    require (baseSize == 0 || d.bytes[baseSize - 1]? == some newline)
      "spine append intent base is not line-aligned"
    let before ← (verifiedEvents H (some baseSize) d.main).mapError
      ("spine append intent prefix is corrupt: " ++ ·)
    let event ← decodeLine line (before.length + 1)
    require (encodeEvent event == line) "spine append intent event is not canonical"
    require (event.seq == expectedSeq before.getLast? &&
      event.prevHash == expectedPrev before.getLast? && event.authorDid == did &&
      (verifyEvent H event).isOk)
      "spine append intent event is unauthorized or does not extend the verified prefix"
    let record := line ++ [newline]
    let suffix := (d.bytes.drop baseSize).take record.length
    require (suffix == record.take suffix.length) "spine append tail conflicts with signed intent"
    return some (event, completeRecord baseSize record d)

/-- What an operation leaves: its result, the files and the caches. -/
structure Left (α : Type) where
  result : Except String α
  disk : Disk
  cache : VerifiedCache

/-- `_recover_pending_append_unlocked`. -/
def recoverCached (did : String) (c : VerifiedCache) (stat : Stat) (d : Disk) : Left Unit :=
  match recoverPlan H did d with
  | .error r => ⟨.error r, d, c⟩
  | .ok none => ⟨.ok (), d, c⟩
  | .ok (some (event, d)) =>
    match verifiedEventsCached H { c with token := none } stat d.main with
    | (.error r, c) => ⟨.error ("recovered spine append is corrupt: " ++ r), d, c⟩
    | (.ok events, c) =>
      if (events[event.seq]?.map (SpineEvent.eqv event)).getD false then
        ⟨.ok (), { d with pending := none }, c⟩
      else ⟨.error "recovered spine append does not match signed intent", d, c⟩

/-- The text that an operation raises for a corrupt log. -/
def corruptText (path what reason : String) : String :=
  "spine log at " ++ path ++ " is corrupt and cannot " ++ what ++ ": " ++ reason

/-- The start of every operation under the lock: the recovery and a verified read. -/
def openRead (path what : String) (did : String) (c : VerifiedCache) (stat : Stat) (d : Disk) :
    Left (List SpineEvent) :=
  let r := recoverCached H did c stat d
  match r.result with
  | .error e => ⟨.error e, r.disk, r.cache⟩
  | .ok () =>
    let v := verifiedEventsCached H r.cache stat r.disk.main
    ⟨v.1.mapError (corruptText path what), r.disk, v.2⟩

/-! ## Reading -/

/-- The reading operations. -/
inductive Query where
  | verifiedSnapshot
  | reconcileAppend (eventId : String)
  | getVerifiedEvent (eventId : String)
  | findUniqueEvent (eventType field value : String)

/-- What they return. -/
inductive Answer where
  | events (es : List SpineEvent)
  | event (e : Option SpineEvent)
  deriving DecidableEq

/-- The checks before the lock. -/
def Query.check : Query → Except String Unit
  | .verifiedSnapshot => .ok ()
  | .reconcileAppend id =>
    require (isHex 64 (chars id)) "event_id must be 64 lowercase hexadecimal characters"
  | .getVerifiedEvent id =>
    require (isHex 64 (chars id)) "event_id must be a lowercase SHA-256 digest"
  | .findUniqueEvent eventType field value => do
    require (eventType != "" && len eventType ≤ 2048) "event_type must be a bounded non-empty string"
    require (field != "" && len field ≤ 2048) "payload_field must be a bounded non-empty string"
    require (value != "" && len value ≤ 2048) "payload_value must be a bounded non-empty string"

/-- What a corrupt log keeps an operation from. -/
def Query.what : Query → String
  | .verifiedSnapshot => "be read as a verified snapshot"
  | .reconcileAppend _ => "reconcile an append"
  | _ => "be queried"

/-- `next((event for event in events if event.event_id == event_id), None)`. -/
def findId (events : List SpineEvent) (id : String) : Option SpineEvent :=
  events.find? fun e => e.contentHash == id

/-- The event of the one owner. -/
def ownedEvent (events : List SpineEvent) : List Owner → Except String (Option SpineEvent)
  | [] => .ok none
  | [.existing seq] =>
    match events[seq]? with
    | some e => .ok (some (snapshotEvent e))
    | none => .error "spine semantic index is inconsistent"
  | [.planned _] => .error "spine semantic index is inconsistent"
  | _ => .error "spine contains duplicate semantic event keys"

/-- The answer from the verified events and the caches. -/
def Query.answer (events : List SpineEvent) (c : VerifiedCache) :
    Query → Except String Answer × VerifiedCache
  | .verifiedSnapshot => (.ok (.events (events.map snapshotEvent)), c)
  | .reconcileAppend id =>
    match c.byId.get id with
    | some e => (.ok (.event (some (snapshotEvent e))), c)
    | none =>
      if c.token.isSome then (.ok (.event none), c)
      else (.ok (.event ((findId events id).map snapshotEvent)), c)
  | .getVerifiedEvent id =>
    match c.byId.get id with
    | some e => (.ok (.event (some (snapshotEvent e))), c)
    | none => (.ok (.event ((findId events id).map snapshotEvent)), c)
  | .findUniqueEvent eventType field value =>
    let r := semanticIndex c eventType [field] events
    ((ownedEvent events (r.1.members (field, value))).map .event, r.2)

/-- A reading operation. -/
def Query.run (path did : String) (q : Query) (c : VerifiedCache) (stat : Stat) (d : Disk) :
    Left Answer :=
  match q.check with
  | .error e => ⟨.error e, d, c⟩
  | .ok () =>
    let r := openRead H path q.what did c stat d
    match r.result with
    | .error e => ⟨.error e, r.disk, r.cache⟩
    | .ok events => ⟨(q.answer events r.cache).1, r.disk, (q.answer events r.cache).2⟩

/-! ## Appending -/

/-- The appending operations; `append_unique` is a batch of one. -/
inductive SpineCall where
  | append (eventType : String) (payload : Dict) (tsMs : ℤ)
  | appendUniqueMany (eventType : String) (payloads : List Dict) (fields : List String)
      (tsMs : ℕ → ℤ) (validate : SpineEvent → Except String Unit)

/-- `_charge_batch_bytes`. -/
def chargeBatchBytes (used additional : ℕ) : Except String ℕ := do
  require (used + additional ≤ maxSpineAppendBatchBytes) "spine append batch exceeds byte budget"
  return used + additional

/-- The snapshots of the payloads of a batch, with the bytes charged. -/
def snapshotBatch : ℕ → List Dict → Except String (List Fields × ℕ)
  | used, [] => .ok ([], used)
  | used, payload :: rest => do
    let encoded ← encodePayload payload.1
    let used ← chargeBatchBytes used encoded.length
    let snapshot ← snapshotPayload payload.1
    let (snapshots, used) ← snapshotBatch used rest
    return (snapshot :: snapshots, used)

/-- The fields of a batch are usable. -/
def fieldsOk (fields : List String) : Bool :=
  !fields.isEmpty && fields.all (· != "") && decide fields.Nodup

/-- The checks before the lock: the payloads as they will be stored, and the
    bytes charged. -/
def SpineCall.snapshots : SpineCall → Except String (List Fields × ℕ)
  | .append _ payload _ => do
    let snapshot ← snapshotPayload payload.1
    return ([snapshot], 0)
  | .appendUniqueMany _ payloads fields _ _ => do
    require (fieldsOk fields) "unique_payload_fields must be unique non-empty strings"
    require (payloads.length ≤ maxSpineAppendBatch) "payload batch exceeds 1000 events"
    let (snapshots, used) ← snapshotBatch 0 payloads
    require (snapshots.all fun p => fields.all fun f => (uniqueValue p f).isSome)
      "unique payload field must be a non-empty string"
    return (snapshots, used)

/-- The owners, the new payloads and the owner of each payload so far. -/
structure Plan where
  owners : SemanticIndex
  planned : List Fields := []
  resolutions : List (Owner × Bool) := []

/-- The owners of the values of a payload. -/
def Plan.matched (plan : Plan) (fields : List String) (payload : Fields) : List Owner :=
  (fields.flatMap fun f => plan.owners.members (f, (uniqueValue payload f).getD "")).dedup

/-- The payload of an owner; a stored event passes the validator first. -/
def Plan.ownerPayload (plan : Plan) (events : List SpineEvent)
    (validate : SpineEvent → Except String Unit) : Owner → Except String Fields
  | .existing seq => do
    let e ← expect events[seq]? "tuple index out of range"
    validate (snapshotEvent e)
    return e.payload
  | .planned i => expect plan.planned[i]? "list index out of range"

/-- A payload that no one owns a value of. -/
def Plan.add (plan : Plan) (fields : List String) (payload : Fields) : Plan where
  owners := fields.foldl (fun owners f => owners.addTo (f, (uniqueValue payload f).getD "")
    (.planned plan.planned.length)) plan.owners
  planned := plan.planned ++ [payload]
  resolutions := plan.resolutions ++ [(.planned plan.planned.length, true)]

/-- One turn of the loop over the payloads. -/
def Plan.next (events : List SpineEvent) (fields : List String)
    (validate : SpineEvent → Except String Unit) (plan : Plan) (payload : Fields) :
    Except String Plan :=
  match plan.matched fields payload with
  | [] => .ok (plan.add fields payload)
  | [owner] => do
    let stored ← plan.ownerPayload events validate owner
    require (canonicalJson (.obj stored) == canonicalJson (.obj payload))
      "spine semantic event key has conflicting payload"
    return { plan with resolutions := plan.resolutions ++ [(owner, false)] }
  | _ => .error "spine contains duplicate semantic event keys"

/-- The new events of a batch, with the bytes charged. -/
def preparePlanned (identity : H.SecretKey) (eventType : String)
    (validate : SpineEvent → Except String Unit) :
    ℕ → Option SpineEvent → ℕ → List (Fields × ℤ) → Except String (List (SpineEvent × Bytes) × ℕ)
  | used, _, _, [] => .ok ([], used)
  | used, last, baseSize, (payload, tsMs) :: rest => do
    let (event, line) ← prepareAppend H identity eventType payload tsMs last baseSize
    let used ← chargeBatchBytes used (line.length + 1)
    validate (snapshotEvent event)
    let (prepared, used) ← preparePlanned identity eventType validate used (some event)
      (baseSize + line.length + 1) rest
    return ((event, line) :: prepared, used)

/-- The event of an owner, stored or prepared. -/
def ownerEvent (events : List SpineEvent) (prepared : List (SpineEvent × Bytes)) :
    Owner → Option SpineEvent
  | .existing seq => events[seq]?
  | .planned i => (prepared[i]?).map Prod.fst

/-- What a batch returns: the wire forms, and which of them are new. -/
def resultViews (events : List SpineEvent) (prepared : List (SpineEvent × Bytes)) :
    ℕ → List (Owner × Bool) → Except String (List (SpineEvent × Bool))
  | _, [] => .ok []
  | used, (owner, created) :: rest => do
    let event ← expect (ownerEvent events prepared owner) "tuple index out of range"
    let used ← chargeBatchBytes used (encodeEvent event).length
    let views ← resultViews events prepared used rest
    return (snapshotEvent event, created) :: views

/-- All that happens under the lock before the first write: the new records and
    the result. -/
def SpineCall.plan (identity : H.SecretKey) (events : List SpineEvent) (owners : SemanticIndex)
    (baseSize : ℕ) (snapshots : List Fields) (used : ℕ) :
    SpineCall → Except String (List (SpineEvent × Bytes) × List (SpineEvent × Bool))
  | .append eventType _ tsMs => do
    let snapshot ← expect snapshots.head? "list index out of range"
    let (event, line) ← prepareAppend H identity eventType snapshot tsMs events.getLast? baseSize
    return ([(event, line)], [(snapshotEvent event, true)])
  | .appendUniqueMany eventType _ fields tsMs validate => do
    let plan ← snapshots.foldlM (Plan.next events fields validate) { owners := owners }
    let items := plan.planned.mapIdx fun i p => (p, tsMs i)
    let (prepared, used) ← preparePlanned H identity eventType validate used events.getLast?
      baseSize items
    let views ← resultViews events prepared used plan.resolutions
    return (prepared, views)

/-- The semantic index that a call starts from. -/
def SpineCall.owners (c : VerifiedCache) (events : List SpineEvent) : SpineCall → SemanticIndex × VerifiedCache
  | .append .. => ([], c)
  | .appendUniqueMany eventType _ fields _ _ => semanticIndex c eventType fields events

/-- An appending operation whose durable steps are cut after `n` of them; where they
    fail, the caches are cleared.  `stat` is the file before, `stat'` after the append. -/
def SpineCall.run (path : String) (identity : H.SecretKey) (call : SpineCall) (c : VerifiedCache)
    (stat stat' : Stat) (fate : ℕ → Fate) (n : ℕ) (d : Disk) : Left (List (SpineEvent × Bool)) :=
  match call.snapshots with
  | .error e => ⟨.error e, d, c⟩
  | .ok ([], _) => ⟨.ok [], d, c⟩
  | .ok (snapshots, used) =>
    let r := openRead H path "be appended" (asDid H identity) c stat d
    match r.result with
    | .error e => ⟨.error e, r.disk, r.cache⟩
    | .ok events =>
      let index := call.owners r.cache events
      match call.plan H identity events index.1 r.disk.bytes.length snapshots used with
      | .error e => ⟨.error e, r.disk, index.2⟩
      | .ok (prepared, views) =>
        match Durable.run (appendSteps H fate prepared) n r.disk with
        | (d', .done) => ⟨.ok views, d', remember index.2 (events ++ prepared.map Prod.fst)
            (storageToken H stat' d'.main)⟩
        | (d', _) => ⟨.error "spine append outcome is unknown", d', {}⟩

/-! ## The world -/

/-- The lines of the file, decoded but not verified. -/
def decodeLines : ℕ → List Bytes → Except String Unit
  | _, [] => .ok ()
  | n, raw :: rest => do
    require (raw.length ≤ maxSpineLineBytes) (lineError (n + 1) "event exceeds byte limit")
    require (raw.getLast? == some newline) (lineError (n + 1) "incomplete final record")
    if isBlank raw then decodeLines (n + 1) rest
    else do
      let _ ← decodeLine raw (n + 1)
      decodeLines (n + 1) rest

/-- `_load_head` of a new instance. -/
def loadHead (identity : H.SecretKey) (stat : Stat) (d : Disk) : Left Unit :=
  let r := recoverCached H (asDid H identity) {} stat d
  match r.result with
  | .error e => ⟨.error e, r.disk, r.cache⟩
  | .ok () => ⟨decodeLines 0 (Lines.split newline r.disk.bytes), r.disk, r.cache⟩

/-- An open instance. -/
structure Node where
  key : H.SecretKey
  cache : VerifiedCache

/-- The files, the contents that the main file has had, and the instances. -/
structure SpineWorld where
  disk : Disk
  past : List (Option Bytes)
  nodes : List (Node H)

/-- What may happen next. -/
inductive SpineAct where
  | openLog (identity : H.SecretKey) (stat : Stat)
  | query (i : ℕ) (q : Query) (stat : Stat)
  /-- the append stops after `n` durable steps, and the process may die -/
  | call (i : ℕ) (call : SpineCall) (stat stat' : Stat) (fate : ℕ → Fate) (n : ℕ) (dies : Bool)
  /-- the files are truncated or replaced from outside -/
  | replace (disk : Disk)

variable {H} in
/-- The world after a step that leaves the files `disk`, with the content `main`
    before its own writes. -/
def SpineWorld.after (w : SpineWorld H) (main : Option Bytes) (disk : Disk)
    (nodes : List (Node H)) : SpineWorld H :=
  ⟨disk, disk.main :: main :: w.past, nodes⟩

/-- One step. -/
def SpineWorld.step (path : String) (w : SpineWorld H) : SpineAct H → Option (SpineWorld H)
  | .openLog identity stat =>
    let r := loadHead H identity stat w.disk
    match r.result with
    | .ok () => some (w.after r.disk.main r.disk (w.nodes ++ [⟨identity, r.cache⟩]))
    | .error _ => some (w.after r.disk.main r.disk w.nodes)
  | .query i q stat => do
    let node ← w.nodes[i]?
    let r := q.run H path (asDid H node.key) node.cache stat w.disk
    some (w.after r.disk.main r.disk (w.nodes.set i { node with cache := r.cache }))
  | .call i call stat stat' fate n dies => do
    let node ← w.nodes[i]?
    let first := call.run H path node.key node.cache stat stat' fate 0 w.disk
    let r := call.run H path node.key node.cache stat stat' fate n w.disk
    some (w.after first.disk.main r.disk (if dies then w.nodes.eraseIdx i
      else w.nodes.set i { node with cache := r.cache }))
  | .replace disk => some (w.after disk.main disk w.nodes)

end NthDao
