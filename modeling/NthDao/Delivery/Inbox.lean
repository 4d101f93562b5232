/-
  The delivery inbox (`nth_dao/delivery/inbox.py`, `DeliveryInbox`).

  Every envelope passes the checks of `accept` once; what was accepted is
  remembered in a journal that the processes of a workspace share.

  * `foldCache` is the loop body of `_fold_cache_lines`;
  * `Inbox.load`, `refoldIfChanged`, `compactJournal`: a process reads and
    rewrites the journal;
  * `accept`, `markProcessed`, `pending`, `acceptedAt`: the operations, each a
    check of its arguments and one step under the lock of the file.

  The log of rejections is left out.  A fold that fails leaves no entry in memory:
  the fingerprint is not updated, so that the entries it has read are cleared
  before they are used.  Texts that quote an exception or a value end before it.
-/
import NthDao.Delivery.Acknowledgement
import NthDao.Delivery.JournalFile
import NthDao.Jsonl
import NthDao.Py.Dict

namespace NthDao

namespace Delivery

open Py

variable (H : Host)

/-! ## The cache -/

def maxCacheJournalBytes : ℕ := 16 * 1024 * 1024

/-- The maps of an inbox. -/
structure Cache where
  /-- message id to sender and nonce; the order is that of eviction -/
  byMessageId : Dict String (String × String) := []
  acceptedAtMs : Dict String ℤ := []
  nonces : Dict (String × String) String := []
  pendingJson : Dict String String := []
  deriving DecidableEq

/-- Forget a message: the four `pop`s of an eviction. -/
def Cache.forget (c : Cache) (id : String) (key : String × String) : Cache :=
  { byMessageId := c.byMessageId.pop id, acceptedAtMs := c.acceptedAtMs.pop id,
    nonces := c.nonces.pop key, pendingJson := c.pendingJson.pop id }

/-- Remember a message. -/
def Cache.remember (c : Cache) (id : String) (key : String × String) (atMs : ℤ) : Cache :=
  { c with byMessageId := c.byMessageId.set id key, acceptedAtMs := c.acceptedAtMs.set id atMs,
           nonces := c.nonces.set key id }

/-! ## The fold -/

/-- `_CACHE_EVENTS`. -/
inductive CacheEvent where
  | accepted | processed | evicted
  deriving DecidableEq

def CacheEvent.ofText (s : String) : Option CacheEvent :=
  if s = "accepted" then some .accepted else if s = "processed" then some .processed
  else if s = "evicted" then some .evicted else none

def acceptedRequired : List String := ["event", "message_id", "sender_did", "nonce"]
def acceptedOptional : List String := ["at_ms", "envelope_json", "evicted_message_id"]

/-- The check of the fields of an event. -/
def CacheEvent.fieldsOk (kind : CacheEvent) (event : Fields) : Bool :=
  match kind with
  | .accepted => acceptedRequired.all (fun f => event.any fun p => p.1 == f) &&
      event.all fun p => (acceptedRequired ++ acceptedOptional).contains p.1
  | _ => Json.keysEq event ["event", "message_id"]

/-- The text that the check of the fields raises. -/
def CacheEvent.fieldsText : CacheEvent → String
  | .accepted => "accepted cache event has missing or unknown fields"
  | .processed => "processed cache event has missing or unknown fields"
  | .evicted => "evicted cache event has missing or unknown fields"

/-- The `at_ms` of an accepted event, 0 without one. -/
def foldAcceptedAt : Json → Except String ℤ
  | .null => .ok 0
  | value => do
    let atMs ← expect value.asInt "accepted event at_ms is invalid"
    require (1 ≤ atMs) "accepted event at_ms is invalid"
    return atMs

/-- The message that an accepted event evicts, with its sender and nonce. -/
def foldEvicted (id : String) (c : Cache) : Json → Except String (Option (String × (String × String)))
  | .null => .ok none
  | value => do
    let evicted ← expect (value.asStr.filter isDigest) "accepted event eviction reference is invalid"
    require (evicted != id) "accepted event eviction reference is invalid"
    let key ← expect (c.byMessageId.get evicted) "accepted event evicts an unknown message"
    require (!c.pendingJson.has evicted) "accepted event attempts to evict pending work"
    return some (evicted, key)

/-- The checks of the envelope of an accepted event. -/
def pendingEnvelope (id sender nonce json : String) : Except String TransportEnvelope := do
  let parsed ← expect (loads (chars json)) "accepted event envelope_json is invalid: "
  let envelope ← (TransportEnvelope.fromDict parsed).mapError
    ("accepted event envelope_json is invalid: " ++ ·)
  let text ← expect (canonicalText envelope.toDict) "accepted event envelope_json is not canonical"
  require (text == json) "accepted event envelope_json is not canonical"
  (validateEnvelope H envelope none true).mapError ("accepted event envelope is invalid: " ++ ·)
  require (envelope.messageId.eqStr id) "accepted event envelope is invalid: "
  require (envelope.senderDid.eqStr sender && envelope.nonce.eqStr nonce)
    "accepted event envelope binding mismatch"
  return envelope

/-- The pending work of an accepted event. -/
def foldPending (id sender nonce : String) (c : Cache) : Json → Except String Cache
  | .null => .ok c
  | value => do
    let json ← expect value.asStr "accepted event envelope_json must be text"
    let _ ← pendingEnvelope H id sender nonce json
    return { c with pendingJson := c.pendingJson.set id json }

/-- An `accepted` event. -/
def foldAccepted (event : Fields) (id : String) (c : Cache) : Except String Cache := do
  let sender ← expect (Json.get event "sender_did").asStr "accepted event missing sender or nonce"
  let nonce ← expect (Json.get event "nonce").asStr "accepted event missing sender or nonce"
  require (!c.byMessageId.has id) "accepted cache event repeats a message_id"
  require (!c.nonces.has (sender, nonce)) "accepted cache event reuses a sender nonce"
  let atMs ← foldAcceptedAt (Json.get event "at_ms")
  let evicted ← foldEvicted id c (Json.get event "evicted_message_id")
  let c ← foldPending H id sender nonce c (Json.get event "envelope_json")
  let c := match evicted with
    | some (evictedId, key) => c.forget evictedId key
    | none => c
  return c.remember id (sender, nonce) atMs

/-- One event of the journal. -/
def foldCache (event : Fields) (c : Cache) : Except String Cache := do
  let kind ← expect ((Json.get event "event").asStr.bind CacheEvent.ofText) "unknown cache event: "
  require (kind.fieldsOk event) kind.fieldsText
  let id ← expect ((Json.get event "message_id").asStr.filter isDigest)
    "cache event message_id is invalid"
  match kind with
  | .evicted => do
    let key ← expect (c.byMessageId.get id) "evicted cache event references an unknown message"
    return c.forget id key
  | .processed => do
    require (c.byMessageId.has id) "processed cache event references an unknown message"
    require (c.pendingJson.has id) "processed cache event repeats an existing transition"
    return { c with pendingJson := c.pendingJson.pop id }
  | .accepted => foldAccepted H event id c

/-- `_fold_cache_lines`. -/
def inboxReader : Jsonl.Reader Cache where
  corrupt n := "corrupt inbox cache line " ++ toString n ++ ": "
  notObject _ := "cache event must be an object"
  apply _ event c := foldCache H event c

/-! ## Events -/

def acceptedEvent (id sender nonce : String) (atMs : ℤ) (json : String) (evicted : Option String) :
    Fields :=
  [("event", .str "accepted"), ("message_id", .str id), ("sender_did", .str sender),
    ("nonce", .str nonce), ("at_ms", .int atMs), ("envelope_json", .str json)] ++
    match evicted with
    | some evictedId => [("evicted_message_id", .str evictedId)]
    | none => []

def processedEvent (id : String) : Fields := [("event", .str "processed"), ("message_id", .str id)]

/-- The event that a compaction writes for a message. -/
def compactEvent (c : Cache) (p : String × (String × String)) : Fields :=
  [("event", .str "accepted"), ("message_id", .str p.1), ("sender_did", .str p.2.1),
    ("nonce", .str p.2.2)] ++
    (if (c.acceptedAtMs.get p.1).getD 0 = 0 then []
      else [("at_ms", .int ((c.acceptedAtMs.get p.1).getD 0))]) ++
    match c.pendingJson.get p.1 with
    | some json => [("envelope_json", .str json)]
    | none => []

/-! ## Processes -/

/-- What a call raises. -/
inductive InboxFault where
  | error (reason : String)
  | corrupt (reason : String)
  | full
  /-- `KeyError` -/
  | missing
  /-- `canonical_json` raises -/
  | encoding
  deriving DecidableEq

/-- A `DeliveryInbox` of one process. -/
structure Inbox where
  maxEntries : ℕ
  /-- `authorize`, if there is one; `none` where the callback raises -/
  authorize : Option (TransportEnvelope → Option (Bool × String))
  cache : Cache := {}
  cacheStat : Option (ℕ × ℕ) := none

/-- The bytes of events. -/
def encodeEvents (events : List Fields) : Except InboxFault Bytes := do
  let lines ← expect (events.mapM fun e => canonicalJson (.obj e)) .encoding
  return Jsonl.text lines

namespace Inbox

/-- `_append_cache_locked`. -/
def append (i : Inbox) (f : JournalFile) (event : Fields) : Except InboxFault (Inbox × JournalFile) := do
  let line ← encodeEvents [event]
  let f' := f.write (f.bytes ++ line)
  return ({ i with cacheStat := f'.stat }, f')

/-- `_compact_cache_journal_locked`. -/
def compactJournal (i : Inbox) (f : JournalFile) : Except InboxFault (Inbox × JournalFile) := do
  let raw ← encodeEvents (i.cache.byMessageId.map (compactEvent i.cache))
  let f' := f.write raw
  return ({ i with cacheStat := f'.stat }, f')

/-- `_compact_if_oversized_locked`. -/
def compactIfOversized (i : Inbox) (f : JournalFile) : Except InboxFault (Inbox × JournalFile) :=
  if maxCacheJournalBytes < f.bytes.length then compactJournal i f else .ok (i, f)

/-- `_load_cache_locked`, with empty maps. -/
def load (i : Inbox) (f : JournalFile) : (Inbox × JournalFile) × Except InboxFault Unit :=
  match f.journal with
  | none => (({ i with cache := {}, cacheStat := none }, f), .ok ())
  | some raw =>
    match (inboxReader H).load raw {} with
    | .error reason => (({ i with cache := {} }, f), .error (.corrupt reason))
    | .ok c =>
      if maxCacheJournalBytes < raw.length then
        match compactJournal { i with cache := c } f with
        | .ok s => (s, .ok ())
        | .error e => (({ i with cache := c }, f), .error e)
      else (({ i with cache := c, cacheStat := f.stat }, f), .ok ())

/-- `_refold_if_changed_locked`. -/
def refoldIfChanged (i : Inbox) (f : JournalFile) : (Inbox × JournalFile) × Except InboxFault Unit :=
  if f.journal.isSome && f.stat != i.cacheStat then load H i f else ((i, f), .ok ())

/-- A call under the lock: the fold, then the body. -/
def locked {α : Type} (i : Inbox) (f : JournalFile)
    (body : Inbox → JournalFile → Except InboxFault (Inbox × JournalFile × α)) :
    (Inbox × JournalFile) × Except InboxFault α :=
  match refoldIfChanged H i f with
  | (s, .error e) => (s, .error e)
  | ((i', f'), .ok ()) => match body i' f' with
    | .error e => ((i', f'), .error e)
    | .ok (i'', f'', a) => ((i'', f''), .ok a)

end Inbox

/-! ## Acceptance -/

/-- What `accept` is given. -/
inductive InboxSource where
  | text (s : String)
  | envelope (e : TransportEnvelope)
  | dict (kvs : Fields)
  | other

/-- `InboxDecision`. -/
structure InboxDecision where
  accepted : Bool
  reason : String
  messageId : Json := .str ""
  envelopeSha256 : String := ""
  envelope : Option TransportEnvelope := none
  duplicate : Bool := false
  replayed : Bool := false

/-- `_reject`, without its log. -/
def rejection (messageId : Json) (reason : String) : InboxDecision :=
  { accepted := false, reason := reason, messageId := messageId }

/-- `_parse_dict`. -/
def parseDict (value : Json) : Except InboxDecision TransportEnvelope :=
  (TransportEnvelope.fromDict value).mapError fun reason =>
    rejection (.str "") (if value.isObj then "structure: " ++ reason
      else "structure: envelope is not an object")

/-- `_parse`. -/
def parseText (s : String) : Except InboxDecision TransportEnvelope := do
  require ((utf8 (chars s)).length ≤ 2097152)
    (rejection (.str "") "envelope exceeds the absolute size limit")
  let parsed ← expect (loads (chars s)) (rejection (.str "") "envelope is not valid JSON")
  let e ← parseDict parsed
  let text ← expect (canonicalText e.toDict)
    (rejection (.str "") "structure: envelope is not canonical JSON")
  require (text == s) (rejection e.messageId "envelope_json is not the canonical encoding")
  return e

/-- The envelope of a source. -/
def InboxSource.parse : InboxSource → Except InboxDecision TransportEnvelope
  | .text s => parseText s
  | .envelope e => .ok e
  | .dict kvs => parseDict (.obj kvs)
  | .other => .error (rejection (.str "") "unsupported input type")

/-- The call of the authorization callback. -/
def authorized (authorize : Option (TransportEnvelope → Option (Bool × String)))
    (e : TransportEnvelope) : Except InboxDecision Unit :=
  match authorize with
  | none => .ok ()
  | some f =>
    let (allowed, reason) := (f e).getD (false, "authorization callback failed")
    require allowed (rejection e.messageId (if reason = "" then "unauthorized" else reason))

/-- What is read of an envelope that has passed. -/
structure Admitted where
  id : String
  sender : String
  nonce : String
  json : String
  sha256 : String
  envelope : TransportEnvelope

/-- The checks of `accept` before the lock. -/
def acceptArgs (authorize : Option (TransportEnvelope → Option (Bool × String)))
    (source : InboxSource) (now : ℤ) : Except InboxDecision Admitted := do
  let e ← source.parse
  (validateEnvelope H e (some now) false).mapError (rejection e.messageId)
  (validateEnvelope H e (some now) true).mapError (rejection e.messageId)
  let sha ← expect (envelopeDigest H e.toDict) (rejection e.messageId "envelope is not canonical JSON")
  authorized authorize e
  let json ← expect (canonicalText e.toDict) (rejection e.messageId "envelope is not canonical JSON")
  let id ← expect e.messageId.asStr (rejection e.messageId "message id does not match envelope content")
  let sender ← expect e.senderDid.asStr (rejection e.messageId "invalid sender DID")
  let nonce ← expect e.nonce.asStr
    (rejection e.messageId "nonce must be 16..128 alphanumeric characters")
  return { id := id, sender := sender, nonce := nonce, json := json, sha256 := sha, envelope := e }

namespace Inbox

/-- The message that gives way to a new one: the first that has been processed. -/
def evictee (i : Inbox) : Except InboxFault (Option (String × (String × String))) :=
  if i.maxEntries ≤ i.cache.byMessageId.length then do
    let p ← expect (i.cache.byMessageId.find? fun p => !i.cache.pendingJson.has p.1) .full
    return some p
  else .ok none

/-- `_remember_locked`; it returns the message it has evicted. -/
def remember (a : Admitted) (now : ℤ) (i : Inbox) (f : JournalFile) :
    Except InboxFault (Inbox × JournalFile × Option (String × (String × String))) := do
  let evicted ← i.evictee
  let (i, f) ← i.append f (acceptedEvent a.id a.sender a.nonce now a.json (evicted.map Prod.fst))
  let c := i.cache.remember a.id (a.sender, a.nonce) now
  let c := { c with pendingJson := c.pendingJson.set a.id a.json }
  let c := match evicted with
    | some (evictedId, key) => c.forget evictedId key
    | none => c
  let (i, f) ← compactIfOversized { i with cache := c } f
  return (i, f, evicted)

/-- `accept` under the lock: the decision, and the message evicted for it. -/
def acceptLocked (a : Admitted) (now : ℤ) (i : Inbox) (f : JournalFile) :
    Except InboxFault (Inbox × JournalFile × InboxDecision × Option (String × (String × String))) :=
  if i.cache.byMessageId.has a.id then
    .ok (i, f, { accepted := false, reason := "duplicate", messageId := .str a.id,
                 envelopeSha256 := a.sha256, duplicate := true }, none)
  else if i.cache.nonces.has (a.sender, a.nonce) then
    .ok (i, f, { rejection (.str a.id) "replayed nonce" with replayed := true }, none)
  else match remember a now i f with
    | .error .full => .ok (i, f, rejection (.str a.id)
        "inbox replay cache is full of unprocessed envelopes", none)
    | .error e => .error e
    | .ok (i, f, evicted) =>
      .ok (i, f, { accepted := true, reason := "ok", messageId := .str a.id,
                   envelopeSha256 := a.sha256, envelope := some a.envelope }, evicted)

/-! ## The other operations -/

/-- `mark_processed` under the lock. -/
def markLocked (id : String) (i : Inbox) (f : JournalFile) :
    Except InboxFault (Inbox × JournalFile × Bool) := do
  require (i.cache.byMessageId.has id) .missing
  if i.cache.pendingJson.has id then do
    let (i, f) ← i.append f (processedEvent id)
    let c := { i.cache with pendingJson := i.cache.pendingJson.pop id }
    let (i, f) ← compactIfOversized { i with cache := c } f
    return (i, f, true)
  else return (i, f, false)

/-- The envelopes that `pending` reads from their texts. -/
def readPending (texts : List String) : Except InboxFault (List TransportEnvelope) :=
  texts.mapM fun json => do
    let parsed ← expect (loads (chars json)) (.corrupt "persisted pending envelope is invalid: ")
    (TransportEnvelope.fromDict parsed).mapError fun reason =>
      .corrupt ("persisted pending envelope is invalid: " ++ reason)

/-- `pending` under the lock. -/
def pendingLocked (maxItems : ℕ) (i : Inbox) (f : JournalFile) :
    Except InboxFault (Inbox × JournalFile × List String) :=
  .ok (i, f, (i.cache.pendingJson.map Prod.snd).take maxItems)

/-- `accepted_at` under the lock. -/
def acceptedAtLocked (id : String) (i : Inbox) (f : JournalFile) :
    Except InboxFault (Inbox × JournalFile × Option ℤ) :=
  .ok (i, f, (i.cache.acceptedAtMs.get id).filter (· != 0))

/-- `entry_count` under the lock. -/
def countLocked (i : Inbox) (f : JournalFile) : Except InboxFault (Inbox × JournalFile × ℕ) :=
  .ok (i, f, i.cache.byMessageId.length)

/-- `seen` under the lock. -/
def seenLocked (id : String) (i : Inbox) (f : JournalFile) :
    Except InboxFault (Inbox × JournalFile × Bool) :=
  .ok (i, f, i.cache.byMessageId.has id)

end Inbox

end Delivery

end NthDao
