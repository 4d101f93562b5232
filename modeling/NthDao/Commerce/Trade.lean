/-
  The trade state machine (`nth_dao/commerce/trade.py`).

  A trade is an append-only chain of signed events, one file per trade.

  * `legalPrior` and `expectedNewState`: the transition table;
  * `verifyTrade`: the offline check of a chain, a fold of `verifyStep` over
    its events (`(False, r)` is the error `tradeRejected r`, any other error an
    exception that leaves the function);
  * `appendEvent`: the writer shared by the transition functions `openTrade`,
    `submitDelivery`, `recordVerification`, `recordSettlement`, `openDispute`
    and `resolveDispute`.

  A stored document is the value `json.loads` reads back.  The file lock makes
  each transition one step; the Ed25519 library is available.
-/
import NthDao.Commerce.Settlement
import NthDao.SafeId

namespace NthDao

open Py

/-! ## Constants -/

def nthTradeEventKind : String := "nth-trade-event-v1"
def maxTradePayloadBytes : ℕ := 256 * 1024
def maxTradeChainBytes : ℕ := 320 * 1024
def tradeEventFields : List String :=
  ["trade_id", "seq", "type", "actor_did", "prev_state", "new_state", "payload", "created_at_ms",
    "kind", "event_sig"]

def rejectTradeNotFound : String := "trade-not-found"
def rejectTradeExists : String := "trade-already-exists"
def rejectIllegalTransition : String := "illegal-transition"
def rejectWrongActor : String := "wrong-actor"
def rejectBadVerdict : String := "bad-verdict"
def rejectBadResolution : String := "bad-resolution"
def rejectEventSigInvalid : String := "event-sig-invalid"
def rejectEventBadActorDid : String := "event-bad-actor-did"
def rejectChainBroken : String := "chain-broken"
def rejectPayloadInvalid : String := "payload-invalid"

/-! ## States and event types -/

inductive TradeState where
  | executing | delivered | verified | failed | settled | disputed | refunded | splitSettled
  deriving DecidableEq, Repr

/-- The name of a state on the wire. -/
def TradeState.wire : TradeState → String
  | .executing => "executing"
  | .delivered => "delivered"
  | .verified => "verified"
  | .failed => "failed"
  | .settled => "settled"
  | .disputed => "disputed"
  | .refunded => "refunded"
  | .splitSettled => "split_settled"

/-- `TERMINAL_STATES`. -/
def TradeState.terminal : TradeState → Bool
  | .settled | .refunded | .splitSettled => true
  | _ => false

/-- The state before an event: `""` before the opening one. -/
def stateText : Option TradeState → String
  | none => ""
  | some s => s.wire

inductive EventType where
  | tradeOpened | deliverySubmitted | verificationRecorded | settlementRecorded | disputeOpened
  | disputeResolved
  deriving DecidableEq, Repr

/-- The name of an event type on the wire. -/
def EventType.wire : EventType → String
  | .tradeOpened => "trade_opened"
  | .deliverySubmitted => "delivery_submitted"
  | .verificationRecorded => "verification_recorded"
  | .settlementRecorded => "settlement_recorded"
  | .disputeOpened => "dispute_opened"
  | .disputeResolved => "dispute_resolved"

def allEventTypes : List EventType :=
  [.tradeOpened, .deliverySubmitted, .verificationRecorded, .settlementRecorded, .disputeOpened,
    .disputeResolved]

/-- The event type of a name. -/
def EventType.ofWire (s : String) : Option EventType := allEventTypes.find? fun t => t.wire == s

/-- `_LEGAL_PRIOR`. -/
def legalPrior : EventType → List (Option TradeState)
  | .tradeOpened => [none]
  | .deliverySubmitted => [some .executing]
  | .verificationRecorded => [some .delivered]
  | .settlementRecorded => [some .verified]
  | .disputeOpened => [some .delivered, some .verified, some .failed]
  | .disputeResolved => [some .disputed]

/-- The verdicts `"pass"` and `"fail"` with the state they lead to. -/
def verdictState (verdict : Json) : Option TradeState :=
  if verdict.eqStr "pass" then some .verified
  else if verdict.eqStr "fail" then some .failed
  else none

/-- The resolutions with the state they lead to. -/
def resolutionState (resolution : Json) : Option TradeState :=
  if resolution.eqStr "settle" then some .settled
  else if resolution.eqStr "refund" then some .refunded
  else if resolution.eqStr "split" then some .splitSettled
  else none

/-- `_expected_new_state`. -/
def expectedNewState (type : EventType) (payload : Fields) : Option TradeState :=
  match type with
  | .tradeOpened => some .executing
  | .deliverySubmitted => some .delivered
  | .verificationRecorded => verdictState (Json.get payload "verdict")
  | .settlementRecorded => some .settled
  | .disputeOpened => some .disputed
  | .disputeResolved => resolutionState (Json.get payload "resolution")

/-! ## Events -/

/-- `TradeEvent`; the fields of an event read from a chain are arbitrary. -/
structure TradeEvent where
  tradeId : Json
  seq : Json
  type : Json
  actorDid : Json
  prevState : Json
  newState : Json
  payload : Json
  createdAtMs : Json
  kind : Json := .str nthTradeEventKind
  eventSig : Json := .str ""
  deriving DecidableEq

/-- `TradeEvent.signing_body`. -/
def TradeEvent.signingBody (e : TradeEvent) : Json :=
  .obj [("trade_id", e.tradeId), ("seq", e.seq), ("type", e.type), ("actor_did", e.actorDid),
    ("prev_state", e.prevState), ("new_state", e.newState), ("payload", e.payload),
    ("created_at_ms", e.createdAtMs), ("kind", e.kind)]

/-- `TradeEvent.to_dict`. -/
def TradeEvent.toDict (e : TradeEvent) : Json :=
  .obj [("trade_id", e.tradeId), ("seq", e.seq), ("type", e.type), ("actor_did", e.actorDid),
    ("prev_state", e.prevState), ("new_state", e.newState), ("payload", e.payload),
    ("created_at_ms", e.createdAtMs), ("kind", e.kind), ("event_sig", e.eventSig)]

/-- `TradeEvent.from_dict` of a dict with all the fields. -/
def TradeEvent.fromDict (d : Fields) : TradeEvent :=
  { tradeId := Json.get d "trade_id", seq := Json.get d "seq", type := Json.get d "type",
    actorDid := Json.get d "actor_did", prevState := Json.get d "prev_state",
    newState := Json.get d "new_state", payload := Json.get d "payload",
    createdAtMs := Json.get d "created_at_ms", kind := Json.get d "kind",
    eventSig := Json.get d "event_sig" }

variable (H : Host)

/-- `sign_trade_event`. -/
def signTradeEvent (actor : H.SecretKey) (e : TradeEvent) : Except Exc TradeEvent := do
  let b ← expect (canonicalJson e.signingBody) .valueError
  return { e with eventSig := .str (signText H actor b) }

/-- `verify_trade_event`. -/
def verifyTradeEvent (e : TradeEvent) : Except Exc Unit := do
  let did ← expect e.actorDid.asStr (.tradeRejected rejectEventBadActorDid)
  require (isDidKey did) (.tradeRejected rejectEventBadActorDid)
  let _ ← expect (decodeDidKey did) (.tradeRejected rejectEventBadActorDid)
  let sig ← expect e.eventSig.asStr (.tradeRejected rejectEventSigInvalid)
  require (1 ≤ len sig && len sig ≤ 128) (.tradeRejected rejectEventSigInvalid)
  let b ← expect (canonicalJson e.signingBody) (.tradeRejected rejectEventSigInvalid)
  require (verifySig H did b sig) (.tradeRejected rejectEventSigInvalid)

/-! ## Parties and terms -/

/-- The DIDs the opening event binds. -/
structure Parties where
  claimantDid : String := ""
  publisherDid : String := ""
  verifierDid : String := ""
  settlerDid : String := ""
  resolverDid : String := ""
  deriving DecidableEq

/-- `str(d.get(k, ""))`. -/
def textOf (d : Fields) (k : String) : String := toStr H.isprintable (Json.getD d k (.str ""))

/-- `_parties` of the payload of the opening event. -/
def partiesOf (payload : Fields) : Parties :=
  { claimantDid := textOf H payload "claimant_did", publisherDid := textOf H payload "publisher_did",
    verifierDid := textOf H payload "verifier_did", settlerDid := textOf H payload "settler_did",
    resolverDid := textOf H payload "resolver_did" }

/-- The payload of the opening event; no `.get` on a payload that is no dict. -/
def openedPayload : List Json → Except Exc Fields
  | .obj kvs :: _ =>
    match Json.getD kvs "payload" (.obj []) with
    | .obj p => .ok p
    | _ => .error .attributeError
  | _ => .ok []

/-- `_parties`; no party is bound in an empty list. -/
def parties (events : List Json) : Except Exc Parties := do
  return partiesOf H (← openedPayload events)

/-- `_trade_terms` of the payload of the opening event. -/
def tradeTerms (payload : Fields) : Option Fields :=
  match Json.get payload "terms" with
  | .obj t => some t
  | _ => none

/-- The DIDs that may sign an event of a type; an unbound role has no signer. -/
def roleDids (p : Parties) (type : EventType) : List String :=
  let bound := match type with
    | .tradeOpened => []
    | .deliverySubmitted => [p.claimantDid]
    | .verificationRecorded => [p.verifierDid]
    | .settlementRecorded => [p.settlerDid]
    | .disputeOpened => [p.publisherDid, p.claimantDid]
    | .disputeResolved => [p.resolverDid]
  bound.filter (· != "")

/-- What a settlement is checked against, for the amount `amount`. -/
def termsExpected (terms : Fields) (p : Parties) (amount : ℤ) : Expected :=
  { amountMinor := amount, currency := textOf H terms "currency",
    payeeDid := textOf H terms "payee_did", payerDid := p.publisherDid }

/-- The terms check of a `settlement_recorded` event. -/
def checkSettlement (now : ℤ) (terms : Fields) (p : Parties) (payload : Fields) :
    Except String Unit :=
  let settlement := Json.getD payload "settlement" (.obj [])
  verifySettlement now (.obj settlement.fields)
    (termsExpected H terms p ((safeInt (Json.get terms "amount_minor")).getD (-1)))

/-- The refund record of a resolution. -/
def refundOk (s : Fields) (p : Parties) (amount : ℤ) (currency : String) : Bool :=
  (Json.get s "adapter_id").eqStr "manual" && (Json.get s "amount_minor").eqInt 0 &&
    (Json.get s "refunded_amount_minor").eqInt amount && (Json.get s "currency").eqStr currency &&
    (Json.get s "payee_did").eqStr p.publisherDid && (Json.get s "payer_did").eqStr p.publisherDid

/-- The split record of a resolution. -/
def splitOk (s : Fields) (p : Parties) (amount : ℤ) (currency : String) : Bool :=
  match (Json.get s "amount_minor").asInt, (Json.get s "refunded_amount_minor").asInt with
  | some paid, some refunded =>
    0 < paid && 0 < refunded && paid + refunded == amount &&
      (Json.get s "adapter_id").eqStr "manual" && (Json.get s "currency").eqStr currency &&
      (Json.get s "payee_did").eqStr p.claimantDid && (Json.get s "payer_did").eqStr p.publisherDid
  | _, _ => false

/-- The terms check of a `dispute_resolved` event. -/
def checkResolution (now : ℤ) (terms : Fields) (p : Parties) (payload : Fields) :
    Except String Unit := do
  let settlement := Json.getD payload "settlement" (.obj [])
  require settlement.isObj "settlement-malformed"
  let amount ← expect (positiveAmount (Json.get terms "amount_minor")) "settlement-amount-invalid"
  let currency := textOf H terms "currency"
  match resolutionState (Json.get payload "resolution") with
  | some .settled => verifySettlement now settlement (termsExpected H terms p amount)
  | some .refunded =>
    require (refundOk settlement.fields p amount currency) "settlement-refund-mismatch"
  | some .splitSettled =>
    require (splitOk settlement.fields p amount currency) "settlement-split-mismatch"
  | _ => return ()

/-- The checks against the signed terms; an empty `terms` is no terms. -/
def checkTerms (now : ℤ) (opened : Fields) (p : Parties) (type : EventType) (payload : Fields) :
    Except String Unit :=
  match tradeTerms opened, type with
  | some (t :: ts), .settlementRecorded => checkSettlement H now (t :: ts) p payload
  | some (t :: ts), .disputeResolved => checkResolution H now (t :: ts) p payload
  | _, _ => .ok ()

/-! ## Verification of a chain -/

/-- Where the fold of `verify_trade` stands. -/
structure Progress where
  parties : Parties := {}
  state : Option TradeState := none
  deriving DecidableEq

/-- `ev.type` is a key of a dict. -/
def hashable : Json → Bool
  | .arr _ | .obj _ => false
  | _ => true

/-- One turn of the loop of `verify_trade`: event `raw` at index `i`, in a chain
    whose opening event has the payload `opened`. -/
def verifyStep (now : ℤ) (tradeId : String) (opened : Fields) (i : ℕ) (p : Progress) (raw : Json) :
    Except Exc Progress := do
  require (raw.isObj && Json.keysEq raw.fields tradeEventFields) (.tradeRejected rejectChainBroken)
  let ev := TradeEvent.fromDict raw.fields
  require (ev.tradeId.eqStr tradeId) (.tradeRejected rejectChainBroken)
  require ev.payload.isObj (.tradeRejected rejectPayloadInvalid)
  let b ← expect (canonicalJson ev.payload) (.tradeRejected rejectPayloadInvalid)
  require (b.length ≤ maxTradePayloadBytes) (.tradeRejected rejectPayloadInvalid)
  require (ev.seq.eqInt i) (.tradeRejected rejectChainBroken)
  verifyTradeEvent H ev
  require (ev.prevState.eqStr (stateText p.state)) (.tradeRejected rejectChainBroken)
  require (hashable ev.type) .typeError
  let type ← expect (ev.type.asStr.bind EventType.ofWire) (.tradeRejected rejectIllegalTransition)
  require ((legalPrior type).contains p.state) (.tradeRejected rejectIllegalTransition)
  let new ← expect (expectedNewState type ev.payload.fields) (.tradeRejected rejectIllegalTransition)
  require (ev.newState.eqStr new.wire) (.tradeRejected rejectIllegalTransition)
  if type = .tradeOpened then return { parties := partiesOf H ev.payload.fields, state := some new }
  else
    require ((roleDids p.parties type).any fun d => ev.actorDid.eqStr d)
      (.tradeRejected rejectWrongActor)
    (checkTerms H now opened p.parties type ev.payload.fields).mapError .tradeRejected
    return { p with state := some new }

/-- The loop of `verify_trade` from index `i` on. -/
def verifyFrom (now : ℤ) (tradeId : String) (opened : Fields) :
    ℕ → Progress → List Json → Except Exc Progress
  | _, p, [] => .ok p
  | i, p, raw :: es => do
    let p' ← verifyStep H now tradeId opened i p raw
    verifyFrom now tradeId opened (i + 1) p' es

/-- The payload of the opening event as `_trade_terms` reads it. -/
def payloadOf (e : Json) : Fields := (Json.get e.fields "payload").fields

/-- The size check of a chain. -/
def chainFits (events : List Json) : Bool :=
  match canonicalJson (.obj [("events", .arr events)]) with
  | some b => b.length ≤ maxTradeChainBytes
  | none => false

/-- `verify_trade` of the events that `get_events` returned. -/
def verifyTrade (now : ℤ) (tradeId : String) : Option (List Json) → Except Exc Unit
  | some (e :: es) => do
    require (chainFits (e :: es)) (.tradeRejected rejectPayloadInvalid)
    let _ ← verifyFrom H now tradeId (payloadOf e) 0 {} (e :: es)
  | _ => .error (.tradeRejected rejectTradeNotFound)

/-! ## The store -/

/-- A trade file. -/
inductive TradeFile where
  | absent
  | unreadable
  | doc (data : Json)
  deriving DecidableEq

/-- `TradeStore`: the files by name. -/
abbrev TradeStore := String → TradeFile

/-- The file of a trade. -/
def TradeStore.read (s : TradeStore) (tradeId : String) : TradeFile := s (safeId H tradeId)

/-- `atomic_write_json` to the file of a trade. -/
def TradeStore.write (s : TradeStore) (tradeId : String) (data : Json) : TradeStore :=
  fun name => if name = safeId H tradeId then .doc data else s name

/-- `TradeStore.get_events` on the content of the file. -/
def TradeFile.events : TradeFile → Option (List Json)
  | .absent | .unreadable | .doc .null => none
  | .doc (.obj kvs) =>
    match Json.get kvs "events" with
    | .arr es => some es
    | _ => some []
  | .doc _ => some []

/-- `TradeStore.get_events`. -/
def TradeStore.getEvents (s : TradeStore) (tradeId : String) : Option (List Json) :=
  (s.read H tradeId).events

/-- `_current_state`. -/
def currentState (events : List Json) : Except Exc String :=
  match events.getLast? with
  | none => .ok ""
  | some (.obj kvs) => .ok (textOf H kvs "new_state")
  | some _ => .error .attributeError

/-- `trade_state` of the events that `get_events` returned: `none` for a trade
    that does not exist. -/
def tradeState : Option (List Json) → Except Exc (Option String)
  | none => .ok none
  | some es => (currentState H es).map some

/-- The events `_append_event` extends. -/
def storedEvents : TradeFile → Except Exc (List Json)
  | .absent => .ok []
  | .doc (.obj kvs) =>
    match Json.getD kvs "events" (.arr []) with
    | .arr es => .ok es
    | _ => .error (.tradeRejected rejectChainBroken)
  | _ => .error (.tradeRejected rejectChainBroken)

/-! ## The transition functions -/

/-- `now_ms_override or now_ms()`. -/
def timestamp (nowMsOverride now : ℤ) : ℤ := if nowMsOverride = 0 then now else nowMsOverride

/-- The previous state of an event that opens a trade or extends `events`. -/
def priorState (type : EventType) (expectOpen : Bool) (allowed : Option (List String))
    (actorDid : String) (events : List Json) : Except Exc String :=
  if expectOpen then do
    require events.isEmpty (.tradeRejected rejectTradeExists)
    return ""
  else do
    require (!events.isEmpty) (.tradeRejected rejectTradeNotFound)
    let prev ← currentState H events
    require ((legalPrior type).any fun s => stateText s == prev)
      (.tradeRejected rejectIllegalTransition)
    match allowed with
    | none => return prev
    | some dids =>
      require ((dids.filter (· != "")).contains actorDid) (.tradeRejected rejectWrongActor)
      return prev

/-- `if events: verify_trade(store, trade_id)`. -/
def verifyStored (s : TradeStore) (tradeId : String) (events : List Json) (now : ℤ) :
    Except Exc Unit :=
  if events.isEmpty then .ok () else verifyTrade H now tradeId (s.getEvents H tradeId)

/-- `_append_event` at clock reading `now`. -/
def appendEvent (s : TradeStore) (tradeId : String) (actor : H.SecretKey) (type : EventType)
    (newState : TradeState) (payload : Fields) (expectOpen : Bool) (allowed : Option (List String))
    (nowMsOverride now : ℤ) : Except Exc (TradeEvent × TradeStore) := do
  let b ← expect (canonicalJson (.obj payload)) (.tradeRejected rejectPayloadInvalid)
  require (b.length ≤ maxTradePayloadBytes) (.tradeRejected rejectPayloadInvalid)
  let events ← storedEvents (s.read H tradeId)
  verifyStored H s tradeId events now
  let prev ← priorState H type expectOpen allowed (asDid H actor) events
  let ev ← signTradeEvent H actor
    { tradeId := .str tradeId, seq := .int events.length, type := .str type.wire,
      actorDid := .str (asDid H actor), prevState := .str prev, newState := .str newState.wire,
      payload := .obj payload, createdAtMs := .int (timestamp nowMsOverride now) }
  require (chainFits (events ++ [ev.toDict])) (.tradeRejected rejectPayloadInvalid)
  return (ev, s.write H tradeId
    (.obj [("trade_id", .str tradeId), ("events", .arr (events ++ [ev.toDict]))]))

/-- `value or default` for strings. -/
def orElse (value default : String) : String := if value == "" then default else value

/-- The terms that `open_trade` signs. -/
def openTerms (claimantDid : String) : Option Fields → Except Exc Fields
  | none => .ok []
  | some terms => do
    let amount ← expect (positiveAmount (Json.get terms "amount_minor")) (.tradeRejected "bad-terms")
    let currency := textOf H terms "currency"
    require (currency != "") (.tradeRejected "bad-terms")
    return [("terms", .obj [("amount_minor", .int amount), ("currency", .str currency),
      ("payee_did", .str (orElse (textOf H terms "payee_did") claimantDid))])]

/-- The payload of the opening event, and the trade it opens. -/
def openPayload (claimRecord : Fields) (verifierDid settlerDid resolverDid : String)
    (terms : Option Fields) : Except Exc (String × Fields) := do
  let announcementId := textOf H claimRecord "announcement_id"
  let claimantDid := textOf H claimRecord "claimant_did"
  let publisherDid := textOf H claimRecord "publisher_did"
  require (announcementId != "" && claimantDid != "" && publisherDid != "")
    (.tradeRejected "bad-claim-record")
  let vd := orElse verifierDid publisherDid
  let sd := orElse settlerDid publisherDid
  let rd := orElse resolverDid vd
  let signed ← openTerms H claimantDid terms
  return (announcementId,
    [("announcement_id", .str announcementId), ("claimant_did", .str claimantDid),
      ("publisher_did", .str publisherDid), ("verifier_did", .str vd), ("settler_did", .str sd),
      ("resolver_did", .str rd), ("claim_receipt_id", .str (textOf H claimRecord "receipt_id"))] ++
    signed)

/-- `open_trade`. -/
def openTrade (s : TradeStore) (authority : H.SecretKey) (claimRecord : Fields)
    (verifierDid settlerDid resolverDid : String) (terms : Option Fields)
    (nowMsOverride now : ℤ) : Except Exc (TradeEvent × TradeStore) := do
  let (announcementId, payload) ← openPayload H claimRecord verifierDid settlerDid resolverDid terms
  appendEvent H s announcementId authority .tradeOpened .executing payload true none nowMsOverride now

/-- `submit_delivery`. -/
def submitDelivery (s : TradeStore) (tradeId : String) (claimant : H.SecretKey) (delivery : Json)
    (nowMsOverride now : ℤ) : Except Exc (TradeEvent × TradeStore) := do
  let p ← parties H ((s.getEvents H tradeId).getD [])
  appendEvent H s tradeId claimant .deliverySubmitted .delivered [("delivery", delivery)] false
    (some [p.claimantDid]) nowMsOverride now

/-- `record_verification`. -/
def recordVerification (s : TradeStore) (tradeId : String) (verifier : H.SecretKey)
    (verdict : String) (result : Json) (nowMsOverride now : ℤ) :
    Except Exc (TradeEvent × TradeStore) := do
  let newState ← expect (verdictState (.str verdict)) (.tradeRejected rejectBadVerdict)
  let p ← parties H ((s.getEvents H tradeId).getD [])
  appendEvent H s tradeId verifier .verificationRecorded newState
    [("verdict", .str verdict), ("result", result)] false (some [p.verifierDid]) nowMsOverride now

/-- `record_settlement`. -/
def recordSettlement (s : TradeStore) (tradeId : String) (settler : H.SecretKey)
    (settlement : Json) (nowMsOverride now : ℤ) : Except Exc (TradeEvent × TradeStore) := do
  let p ← parties H ((s.getEvents H tradeId).getD [])
  appendEvent H s tradeId settler .settlementRecorded .settled [("settlement", settlement)] false
    (some [p.settlerDid]) nowMsOverride now

/-- `open_dispute`. -/
def openDispute (s : TradeStore) (tradeId : String) (disputant : H.SecretKey) (reason : Json)
    (evidence : Json) (nowMsOverride now : ℤ) : Except Exc (TradeEvent × TradeStore) := do
  let p ← parties H ((s.getEvents H tradeId).getD [])
  let role := if asDid H disputant = p.publisherDid then "publisher"
    else if asDid H disputant = p.claimantDid then "claimant" else ""
  appendEvent H s tradeId disputant .disputeOpened .disputed
    [("reason", reason), ("disputant_role", .str role),
      ("evidence", if truthy evidence then evidence else .obj [])] false
    (some [p.publisherDid, p.claimantDid]) nowMsOverride now

/-- `resolve_dispute`. -/
def resolveDispute (s : TradeStore) (tradeId : String) (resolver : H.SecretKey)
    (resolution : String) (settlement rationale : Json) (nowMsOverride now : ℤ) :
    Except Exc (TradeEvent × TradeStore) := do
  let newState ← expect (resolutionState (.str resolution)) (.tradeRejected rejectBadResolution)
  let p ← parties H ((s.getEvents H tradeId).getD [])
  appendEvent H s tradeId resolver .disputeResolved newState
    [("resolution", .str resolution), ("settlement", if truthy settlement then settlement else .obj []),
      ("rationale", rationale)] false (some [p.resolverDid]) nowMsOverride now

end NthDao
