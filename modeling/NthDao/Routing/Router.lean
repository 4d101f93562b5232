/-
  Signed requests between agents (`nth_dao/action_routing.py`).

  A router runs the handlers of its agent for requests that carry the sender's
  signature, are recent and have not been seen.  What has been seen is a ledger
  of nonces in the directory that the routers of the agent share; each router
  has a cache of its last responses besides.

  * `Router.gate`: the checks of `handle` ahead of the ledger;
  * `reserveNonce`: the ledger, swept and extended under its lock;
  * `Router.dispatch`: the cache, the handler and its signed response.

  A router is one in production mode with its ledger enabled.  Times are whole
  seconds; what `datetime.fromisoformat` reads is a parameter.
-/
import NthDao.Normalize
import NthDao.Py.Dict
import NthDao.Py.Str
import NthDao.Trust.Endorsement

namespace NthDao.Routing

open Py Trust

variable (H : Host)

/-! ## Messages -/

inductive ActionStatus where
  | request | accepted | running | completed | failed | rejected | timedOut
  deriving DecidableEq

/-- The text of a status. -/
def ActionStatus.value : ActionStatus → String
  | .request => "request"
  | .accepted => "accepted"
  | .running => "running"
  | .completed => "completed"
  | .failed => "failed"
  | .rejected => "rejected"
  | .timedOut => "timed_out"

structure ActionRequest where
  requestId : String
  actionType : String
  fromAgent : String
  toAgent : String
  params : Fields := []
  strategy : String := "direct"
  correlationId : String := ""
  replyTo : String := ""
  timestamp : String
  sig : String := ""
  deriving DecidableEq

/-- `signable_dict` of a request, `none` where it raises. -/
def ActionRequest.signableDict (r : ActionRequest) : Option Json :=
  normalizeForCanonicalJson (.obj
    [("request_id", .str r.requestId), ("action_type", .str r.actionType),
      ("from_agent", .str r.fromAgent), ("to_agent", .str r.toAgent), ("params", .obj r.params),
      ("strategy", .str r.strategy), ("correlation_id", .str r.correlationId),
      ("reply_to", .str r.replyTo), ("timestamp", .str r.timestamp)])

/-- What a request is known by: its sender and its id. -/
def ActionRequest.pair (r : ActionRequest) : String × String := (r.fromAgent, r.requestId)

structure ActionResponse where
  requestId : String
  actionType : String
  fromAgent : String
  toAgent : String
  status : ActionStatus := .completed
  result : Json := .null
  error : String := ""
  elapsedMs : Json := .other "0.0"
  timestamp : String
  sig : String := ""
  deriving DecidableEq

/-- `signable_dict` of a response, `none` where it raises. -/
def ActionResponse.signableDict (r : ActionResponse) : Option Json :=
  normalizeForCanonicalJson (.obj
    [("request_id", .str r.requestId), ("action_type", .str r.actionType),
      ("from_agent", .str r.fromAgent), ("to_agent", .str r.toAgent),
      ("status", .str r.status.value), ("result", r.result), ("error", .str r.error),
      ("elapsed_ms", r.elapsedMs), ("timestamp", .str r.timestamp)])

/-- `_sign_request`, `none` where it raises. -/
def signRequest (k : H.SecretKey) (r : ActionRequest) : Option ActionRequest :=
  (r.signableDict.bind canonicalJson).map fun m => { r with sig := hex (H.sign k m) }

/-- What `datetime.fromisoformat` reads: a time with an offset, or one without. -/
inductive Moment where
  | aware (t : ℤ)
  | naive
  deriving DecidableEq

/-- What the clocks say when a response is made: `now_iso()` and the elapsed time. -/
structure Stamp where
  timestamp : String
  elapsedMs : Json := .other "0.0"

/-! ## Routers -/

abbrev Handler := ActionRequest → Except String Json

/-- The arguments of the constructor. -/
structure Config where
  agentId : String
  identity : H.SecretKey
  pubkeyLookup : String → Except String (Option String)
  requestTtlSeconds : ℤ := 300
  clockSkewSeconds : ℤ := 60
  maxDedupEntries : ℤ := 1024

structure Router where
  agentId : String
  identity : H.SecretKey
  pubkeyLookup : String → Except String (Option String)
  requestTtlSeconds : ℤ
  clockSkewSeconds : ℤ
  maxDedup : ℤ
  handlers : String → Option Handler := fun _ => none
  /-- `_seen`, the least recently used response first -/
  seen : Py.Dict (String × String) ActionResponse := []

variable {H}

/-- `ActionRouter(...)`. -/
def Config.router (c : Config H) : Router H where
  agentId := c.agentId
  identity := c.identity
  pubkeyLookup := c.pubkeyLookup
  requestTtlSeconds := max 0 c.requestTtlSeconds
  clockSkewSeconds := max 0 c.clockSkewSeconds
  maxDedup := max 1 c.maxDedupEntries

/-- How long the ledger keeps a nonce for a router. -/
def Router.retention (R : Router H) : ℤ := R.requestTtlSeconds + R.clockSkewSeconds

variable (H)

/-- `_truncate`. -/
def truncate (value : String) (maxLen : ℕ) : String :=
  if value.length ≤ maxLen then value else String.ofList (value.toList.take maxLen) ++ "..."

/-- `MAX_LOG_TO_AGENT_LEN`. -/
def maxLogToAgentLen : ℕ := 128

/-- `repr` of a text. -/
def reprText (s : String) : String := String.ofList (reprStr H.isprintable s)

/-- `AgentIdentity.verify_json`: an empty key stands for the verifier's own. -/
def verifyJson (identity : H.SecretKey) (data : Option Json) (sig pubkey : String) : Bool :=
  match fromhex pubkey, fromhex sig, data.bind canonicalJson with
  | some pk, some s, some m =>
    let pk := if pk = [] then H.pubkey identity else pk
    pk.length == 32 && s.length == 64 && H.verify pk m s
  | _, _, _ => false

variable {H}

namespace Router

variable (R : Router H)

/-- `_verify_request`: the signature is the one of the claimed sender. -/
def verifyRequest (r : ActionRequest) : Bool :=
  r.sig != "" &&
    match R.pubkeyLookup r.fromAgent with
    | .ok (some pubkey) => pubkey != "" && verifyJson H R.identity r.signableDict r.sig pubkey
    | _ => false

variable (iso : String → Option Moment)

/-- `_check_request_freshness`: why the request is not recent. -/
def checkRequestFreshness (now : ℤ) (r : ActionRequest) : Option String :=
  if r.timestamp = "" then none
  else
    match iso r.timestamp with
    | none => some ("malformed timestamp: " ++ reprText H r.timestamp)
    | some .naive => some "naive timestamp rejected; must carry timezone marker"
    | some (.aware ts) =>
      let age := now - ts
      if R.requestTtlSeconds < age then
        some ("request expired: age=" ++ toString age ++ ".0s > ttl=" ++
          toString R.requestTtlSeconds ++ "s")
      else if age < -R.clockSkewSeconds then
        some ("request from the future: skew=" ++ toString (-age) ++ ".0s > allowed=" ++
          toString R.clockSkewSeconds ++ "s")
      else none

/-- An unsigned refusal. -/
def rejected (r : ActionRequest) (stamp : Stamp) (error : String) : ActionResponse where
  requestId := r.requestId
  actionType := r.actionType
  fromAgent := R.agentId
  toAgent := truncate r.fromAgent maxLogToAgentLen
  status := .rejected
  error := error
  timestamp := stamp.timestamp

/-- The checks of `handle` ahead of the ledger: the target, the signature and
    the age.  A refusal, or nothing. -/
def gate (now : ℤ) (stamp : Stamp) (r : ActionRequest) : Option ActionResponse :=
  if r.toAgent ≠ "" ∧ r.toAgent ≠ R.agentId then
    some (R.rejected r stamp ("misdirected: to_agent=" ++ reprText H (truncate r.toAgent 64) ++
      " != self.agent_id=" ++ reprText H R.agentId))
  else if !R.verifyRequest r then
    some (R.rejected r stamp "signature verification failed")
  else if 0 < R.requestTtlSeconds then
    (R.checkRequestFreshness iso now r).map (R.rejected r stamp)
  else none

/-- A request that is through the gate is neither old nor from the future. -/
theorem age_of_gate {now : ℤ} {stamp : Stamp} {r : ActionRequest}
    (h : R.gate iso now stamp r = none) (httl : 0 < R.requestTtlSeconds) {ts : ℤ}
    (hts : r.timestamp ≠ "") (hiso : iso r.timestamp = some (.aware ts)) :
    now - ts ≤ R.requestTtlSeconds ∧ ts ≤ now + R.clockSkewSeconds := by
  unfold gate at h
  split_ifs at h
  simp only [Option.map_eq_none_iff, checkRequestFreshness, if_neg hts, hiso] at h
  split_ifs at h
  omega

end Router

/-! ## The ledger of nonces -/

/-- `_nonce_key`. -/
def nonceKey (p : String × String) : String := p.1 ++ "|" ++ p.2

/-- How the file system answers when the ledger is used. -/
inductive LedgerIo where
  | ok
  /-- the lock or the write raises `OSError` -/
  | denied
  /-- the read raises `OSError`, which `safe_load_json` takes for no file -/
  | unread
  deriving DecidableEq

/-- `_load_nonce_ledger`: the entries that are not older than what this router keeps. -/
def loadNonceLedger (ledger : Py.Dict String ℤ) (now retention : ℤ) : Py.Dict String ℤ :=
  ledger.filter fun e => now - retention ≤ e.2

/-- `_reserve_nonce`: the ledger with the new entry, `none` where it is refused.
    The clock is read for the sweep and once more for the entry. -/
def reserveNonce (io : LedgerIo) (ledger : Py.Dict String ℤ) (retention now later : ℤ)
    (p : String × String) : Option (Py.Dict String ℤ) :=
  let loaded : Py.Dict String ℤ := if io = .unread then [] else loadNonceLedger ledger now retention
  if io = .denied ∨ loaded.has (nonceKey p) then none
  else some (loaded.set (nonceKey p) later)

namespace Router

variable (R : Router H)

/-- The refusal of a replay. -/
def replayDetected (r : ActionRequest) (stamp : Stamp) : ActionResponse :=
  R.rejected r stamp "replay detected: (from_agent, request_id) already processed"

/-! ## The handlers -/

/-- `_sign_response`, an error where it raises. -/
def signResponse (r : ActionResponse) : Except String ActionResponse :=
  match r.signableDict.bind canonicalJson with
  | some m => .ok { r with sig := hex (H.sign R.identity m) }
  | none => .error "cannot normalize for canonical JSON"

/-- `_cache`: the response is the most recent one; the oldest go. -/
def cache (p : String × String) (response : ActionResponse) : Router H :=
  let seen := (R.seen.pop p) ++ [(p, response)]
  { R with seen := seen.drop (seen.length - R.maxDedup.toNat) }

/-- The response that the handler gives, or that there is none. -/
def respond (r : ActionRequest) (stamp : Stamp) : ActionResponse :=
  let response (status : ActionStatus) (result : Json) (error : String) (elapsed : Json) :
      ActionResponse :=
    { requestId := r.requestId, actionType := r.actionType, fromAgent := R.agentId,
      toAgent := r.fromAgent, status := status, result := result, error := error,
      elapsedMs := elapsed, timestamp := stamp.timestamp }
  match R.handlers r.actionType with
  | none => response .failed .null
      ("no handler registered for action_type " ++ reprText H r.actionType) (.other "0.0")
  | some handler =>
    match handler r with
    | .ok result => response .completed result "" stamp.elapsedMs
    | .error raised => response .failed .null raised stamp.elapsedMs

/-- The handler runs. -/
def runs (r : ActionRequest) : Bool :=
  (R.seen.get r.pair).isNone && (R.handlers r.actionType).isSome

/-- The last part of `handle`, under the router's lock: the response, from the
    cache or from the handler, and the router with its cache. -/
def dispatch (r : ActionRequest) (stamp : Stamp) : Except String ActionResponse × Router H :=
  match R.seen.get r.pair with
  | some cached => (.ok cached, { R with seen := R.seen.pop r.pair ++ [(r.pair, cached)] })
  | none =>
    match R.signResponse (R.respond r stamp) with
    | .ok response => (.ok response, R.cache r.pair response)
    | .error e => (.error e, R)

/-- A response changes nothing but the cache. -/
theorem dispatch_snd (r : ActionRequest) (stamp : Stamp) :
    ∃ seen, (R.dispatch r stamp).2 = { R with seen } := by
  unfold dispatch
  cases R.seen.get r.pair with
  | some cached => exact ⟨_, rfl⟩
  | none =>
    cases R.signResponse (R.respond r stamp) with
    | ok response => exact ⟨_, rfl⟩
    | error e => exact ⟨R.seen, rfl⟩

theorem dispatch_setting (r : ActionRequest) (stamp : Stamp) :
    (R.dispatch r stamp).2.requestTtlSeconds = R.requestTtlSeconds ∧
      (R.dispatch r stamp).2.clockSkewSeconds = R.clockSkewSeconds := by
  obtain ⟨seen, h⟩ := R.dispatch_snd r stamp
  rw [h]
  exact ⟨rfl, rfl⟩

@[simp] theorem retention_dispatch (r : ActionRequest) (stamp : Stamp) :
    (R.dispatch r stamp).2.retention = R.retention := by
  obtain ⟨seen, h⟩ := R.dispatch_snd r stamp
  rw [h]
  rfl

end Router

end NthDao.Routing
