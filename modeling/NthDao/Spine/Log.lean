/-
  The log of a node (`nth_dao/spine/log.py`): its main file and the file of a
  pending append.

  * `verifiedEvents` is `_verified_events_unlocked`, over the lines of the main
    file up to an optional offset;
  * `prepareMany` prepares a batch; `appendSteps` are the durable steps that
    write it, where the write of a record may be cut in two and the deletion of
    an intent may fail;
  * `recover` is `_recover_pending_append_unlocked`.

  A scan that fails keeps its reason only, and the caches are not modelled: the
  recovery drops them before it verifies.
-/
import NthDao.Durable
import NthDao.Lines
import NthDao.Spine.Event

namespace NthDao

open Py

variable (H : Host)

/-- `MAX_SPINE_LINE_BYTES`. -/
def maxSpineLineBytes : ℕ := 2 * 1024 * 1024

/-- `MAX_SPINE_APPEND_INTENT_BYTES`. -/
def maxSpineAppendIntentBytes : ℕ := maxSpineLineBytes + 1024

/-- The text that `int.__str__` raises with. -/
def intLimitText : String := "Exceeds the limit (4300 digits) for integer string conversion"

/-- The files of a log, `none` where a file does not exist. -/
structure Disk where
  main : Option Bytes := none
  pending : Option Bytes := none
  deriving DecidableEq

/-- The bytes of the main file; a missing one has size 0. -/
def Disk.bytes (d : Disk) : Bytes := d.main.getD []

def newline : UInt8 := 10

/-! ## Encodings -/

/-- `_encode_event`. -/
def encodeEvent (e : SpineEvent) : Bytes := utf8 (dumps true e.toDict.norm)

/-- `_encode_payload`. -/
def encodePayload (payload : Fields) : Except String Bytes := do
  let encoded ← expect (canonicalJson (.obj payload)) "spine event payload is not canonical JSON"
  require (encoded.length ≤ maxSpinePayloadBytes) "spine event payload exceeds byte limit"
  return encoded

/-- `_snapshot_payload`. -/
def snapshotPayload (payload : Fields) : Except String Fields := do
  let encoded ← encodePayload payload
  let document ← expect ((utf8Decode encoded).bind loads) "spine event payload is not canonical JSON"
  return document.fields

/-- The document of an append intent. -/
def appendIntent (baseSize : ℕ) (text : List Char) (line : Bytes) : Json :=
  .obj [("version", .int 1), ("base_size", .int baseSize), ("line", .str (String.ofList text)),
    ("line_sha256", .str (H.sha256 line))]

/-- `_encode_append_intent`. -/
def encodeAppendIntent (baseSize : ℕ) (line : Bytes) : Except String Bytes := do
  let text ← expect (asciiChars line) "ordinal not in range(128)"
  let document := appendIntent H baseSize text line
  require document.encodable intLimitText
  let encoded := utf8 (dumps true document.norm)
  require (encoded.length ≤ maxSpineAppendIntentBytes) "spine append intent exceeds byte limit"
  return encoded

/-- `_read_append_intent_unlocked`: the base size and the line. -/
def readAppendIntent : Option Bytes → Except String (Option (ℕ × Bytes))
  | none => .ok none
  | some raw => do
    require (1 ≤ raw.length && raw.length ≤ maxSpineAppendIntentBytes)
      "spine append intent exceeds byte limit"
    let document ← expect ((asciiChars raw).bind loads) "spine append intent is unparseable"
    let kvs := document.fields
    require (document.isObj && Json.keysEq kvs ["version", "base_size", "line", "line_sha256"])
      "spine append intent structure is invalid"
    require ((Json.get kvs "version").eqInt 1) "spine append intent fields are invalid"
    let baseSize ← expect (nonNegative (Json.get kvs "base_size"))
      "spine append intent fields are invalid"
    let lineText ← expect (Json.get kvs "line").asStr "spine append intent fields are invalid"
    let lineDigest ← expect (Json.get kvs "line_sha256").asStr
      "spine append intent fields are invalid"
    let text := chars lineText
    require (text.all fun c => c.toNat < 128) "spine append intent line is not ASCII"
    let line := utf8 text
    require (1 ≤ line.length && line.length ≤ maxSpineLineBytes && !text.contains '\n' &&
      !text.contains '\r' && H.sha256 line == lineDigest) "spine append intent line is invalid"
    return some (baseSize, line)

/-! ## Verification -/

/-- `not raw.strip()`. -/
def isBlank (raw : Bytes) : Bool := raw.all fun b => b == 32 || (9 ≤ b && b ≤ 13)

/-- The text of an error on a line. -/
def lineError (lineNumber : ℕ) (reason : String) : String :=
  "line " ++ toString lineNumber ++ ": " ++ reason

/-- `_decode_line`. -/
def decodeLine (raw : Bytes) (lineNumber : ℕ) : Except String SpineEvent := do
  require (raw.length ≤ maxSpineLineBytes) (lineError lineNumber "event exceeds byte limit")
  let document ← expect ((utf8Decode raw).bind loads) (lineError lineNumber "unparseable")
  (SpineEvent.fromDict document).mapError fun r =>
    lineError lineNumber ("invalid event structure (" ++ r ++ ")")

/-- The hash that the event after `last` links to. -/
def expectedPrev : Option SpineEvent → String
  | none => genesisPrev
  | some e => e.contentHash

/-- The sequence number of the event after `last`. -/
def expectedSeq : Option SpineEvent → ℕ
  | none => 0
  | some e => e.seq + 1

/-- One turn of the loop of `_verified_events_unlocked`, after `events`. -/
def scanLine (lineNumber : ℕ) (events : List SpineEvent) (raw : Bytes) :
    Except String (List SpineEvent) := do
  require (raw.getLast? == some newline) (lineError lineNumber "incomplete final record")
  if isBlank raw then return events
  else
    let event ← decodeLine raw lineNumber
    require (event.seq == events.length) ("seq gap at " ++ toString event.seq ++ " (expected " ++
      toString events.length ++ ")")
    require (event.prevHash == expectedPrev events.getLast?)
      ("chain break at seq " ++ toString event.seq)
    (verifyEvent H event).mapError (("event " ++ toString event.seq ++ ": ") ++ ·)
    return events ++ [event]

/-- The loop over the lines that `_raw_lines` yields; `consumed` is its offset. -/
def scanFrom (stopOffset : Option ℕ) (lineNumber consumed : ℕ) (events : List SpineEvent) :
    List Bytes → Except String (List SpineEvent)
  | [] => do
    require (stopOffset.all (· == consumed)) "spine append intent base exceeds log size"
    return events
  | raw :: rest => do
    require (raw.length ≤ maxSpineLineBytes)
      (lineError (lineNumber + 1) "event exceeds byte limit")
    let consumed := consumed + raw.length
    require (stopOffset.all (consumed ≤ ·)) "spine append intent base is not line-aligned"
    let events ← scanLine H (lineNumber + 1) events raw
    if stopOffset = some consumed then return events
    else scanFrom stopOffset (lineNumber + 1) consumed events rest

/-- `_verified_events_unlocked`. -/
def verifiedEvents (stopOffset : Option ℕ) : Option Bytes → Except String (List SpineEvent)
  | none => do
    require (stopOffset.all (· == 0)) "spine append intent base exceeds log size"
    return []
  | some main => if stopOffset = some 0 then .ok [] else scanFrom H stopOffset 0 0 []
    (Lines.split newline main)

/-! ## Appending -/

/-- A `dict` of the caller: no key twice. -/
abbrev Dict := { kvs : Fields // (Json.obj kvs).wf = true }

/-- `_prepare_append`. -/
def prepareAppend (identity : H.SecretKey) (eventType : String) (payload : Fields) (tsMs : ℤ)
    (last : Option SpineEvent) (baseSize : ℕ) : Except String (SpineEvent × Bytes) := do
  let event ← signEvent H (expectedSeq last) (expectedPrev last) eventType payload identity tsMs
  let line := encodeEvent event
  require (line.length ≤ maxSpineLineBytes) "spine event exceeds line byte limit"
  let _ ← encodeAppendIntent H baseSize line
  return (event, line)

/-- The preparation of a batch, each payload with its time. -/
def prepareMany (identity : H.SecretKey) (eventType : String) (last : Option SpineEvent)
    (baseSize : ℕ) : List (Dict × ℤ) → Except String (List (SpineEvent × Bytes))
  | [] => .ok []
  | (payload, tsMs) :: rest => do
    let snapshot ← snapshotPayload payload.1
    let (event, line) ← prepareAppend H identity eventType snapshot tsMs last baseSize
    let prepared ← prepareMany identity eventType (some event) (baseSize + line.length + 1) rest
    return (event, line) :: prepared

/-- `_write_append_intent_unlocked`. -/
def writeAppendIntent (line : Bytes) (d : Disk) : Except String Disk := do
  let encoded ← encodeAppendIntent H d.bytes.length line
  return { d with pending := some encoded }

/-- A write at the end of the main file. -/
def writeRecord (record : Bytes) (d : Disk) : Except String Disk :=
  .ok { d with main := some (d.bytes ++ record) }

/-- What happens while a record is appended: the write is cut after `cut` bytes,
    and the intent is deleted, or its deletion fails and is logged. -/
structure Fate where
  cut : ℕ
  cleared : Bool

/-- `_clear_append_intent_unlocked` in `_append_prepared`. -/
def clearAppendIntent (cleared : Bool) (d : Disk) : Except String Disk :=
  .ok (if cleared then { d with pending := none } else d)

/-- The durable steps of `_append_prepared`. -/
def appendPrepared (line : Bytes) (fate : Fate) : List (Disk → Except String Disk) :=
  let record := line ++ [newline]
  [writeAppendIntent H line, writeRecord (record.take fate.cut), writeRecord (record.drop fate.cut),
    clearAppendIntent fate.cleared]

/-- The durable steps of `append` and `append_unique_many` for a prepared batch. -/
def appendSteps (fate : ℕ → Fate) : List (SpineEvent × Bytes) → List (Disk → Except String Disk)
  | [] => []
  | (_, line) :: rest => appendPrepared H line (fate rest.length) ++ appendSteps fate rest

/-! ## Recovery -/

/-- The rewrite of a record of which `available` bytes are in the file. -/
def completeRecord (baseSize : ℕ) (record : Bytes) (d : Disk) : Disk :=
  if d.bytes.length - baseSize < record.length then
    { d with main := some (d.bytes.take baseSize ++ record) }
  else d

/-- `_recover_pending_append_unlocked` by the node with this DID. -/
def recover (did : String) (d : Disk) : Except String Disk := do
  match ← readAppendIntent H d.pending with
  | none => return d
  | some (baseSize, line) =>
    require (baseSize ≤ d.bytes.length) "spine append intent base exceeds log size"
    require (baseSize == 0 || d.bytes[baseSize - 1]? == some newline)
      "spine append intent base is not line-aligned"
    let before ← (verifiedEvents H (some baseSize) d.main).mapError
      ("spine append intent prefix is corrupt: " ++ ·)
    let event ← decodeLine line (before.length + 1)
    require (encodeEvent event == line) "spine append intent event is not canonical"
    require (event.seq == expectedSeq before.getLast? &&
      event.prevHash == expectedPrev before.getLast? && event.authorDid == did &&
      (verifyEvent H event).isOk)
      "spine append intent event is unauthorized or does not extend the verified prefix"
    let record := line ++ [newline]
    let suffix := (d.bytes.drop baseSize).take record.length
    require (suffix == record.take suffix.length) "spine append tail conflicts with signed intent"
    let d := completeRecord baseSize record d
    let events ← (verifiedEvents H none d.main).mapError ("recovered spine append is corrupt: " ++ ·)
    require ((events[event.seq]?.map (SpineEvent.eqv event)).getD false)
      "recovered spine append does not match signed intent"
    return { d with pending := none }

end NthDao
