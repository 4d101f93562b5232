/-
  The workers of external payments (`nth_dao/commerce/payment_attempt.py`,
  `PaymentAttemptExecutor` and `PaymentAttemptReconciler`) as a system of
  interleaved steps.

  * `executorResponse`: what an executor records when `settle_trade` fails;
  * `World`: the trade files, the stored attempts, the receipts the rail has
    committed, and the workers;
  * `World.step`: one step of a worker.  A call of `settle_trade` takes its
    readings of the trade file, its `lookup`, its `pay` and its record in steps
    of their own; a worker may stop after any step.

  An action brings what the step reads from outside: clocks, new leases, and
  what the rail does.  The rail deduplicates by key and its `lookup` shows every
  committed receipt; `pay` may commit and then raise.
-/
import NthDao.Commerce.AttemptStore
import NthDao.Commerce.SettleTrade

namespace NthDao

open Py

variable (H : Host)

/-! ## The executor -/

/-- `PaymentExecutorConfig`. -/
structure ExecutorConfig where
  leaseMs : ℤ := 30000
  retryAfterMs : ℤ := 5000
  retryMaxMs : ℤ := 300000
  retryJitterPercent : ℤ := 20
  maxAttempts : ℕ := 10
  lease_bounds : 1000 ≤ leaseMs ∧ leaseMs ≤ 300000 := by decide
  retry_bounds : 0 ≤ retryAfterMs ∧ retryAfterMs ≤ retryMaxMs ∧ retryMaxMs ≤ 86400000 := by decide
  jitter_bounds : 0 ≤ retryJitterPercent ∧ retryJitterPercent ≤ 50 := by decide
  attempts_bounds : 1 ≤ maxAttempts ∧ maxAttempts ≤ 100 := by decide

/-- `_PERMANENT_SETTLEMENT_FAILURES`. -/
def permanentSettlementFailures : List String :=
  ["rail-declined", rejectAmountInvalid, rejectAmountMismatch, rejectCurrencyMismatch,
    rejectCurrencyUnsupported, rejectIdempotencyKeyMismatch, rejectIntentInvalid,
    rejectNetworkMissing, rejectNetworkNotTestnet, rejectPayeeMismatch, rejectPayerMismatch,
    rejectProofMissing, rejectTradeMismatch, rejectTxRefMissing, rejectUnknownAdapter,
    rejectWrongSettler]

/-- `_error_code`. -/
def errorCode : Exc → String
  | .settlementFailed f => if isErrorCode f.reason then f.reason else "internal-error"
  | .tradeRejected reason => if isErrorCode reason then reason else "internal-error"
  | .tradeConflict => "trade-conflict"
  | .timeoutError => "provider-timeout"
  | .connectionError => "provider-connection-error"
  | .osError => "io-error"
  | .runtimeError | .attemptConflict => "runtime-error"
  | .attemptRejected _ | .valueError | .typeError | .attributeError => "internal-error"

/-- `_orphan_metadata`: the error code, the provider reference and the digest. -/
def orphanMetadata (f : SettlementFailed) : String × String × String :=
  let code := errorCode (.settlementFailed f)
  let reference :=
    if len f.providerReference ≤ 256 &&
      (chars f.providerReference).all fun c => 0x21 ≤ c.toNat && c.toNat ≤ 0x7E
    then f.providerReference else ""
  let digest :=
    if isEventHash f.evidenceDigest then f.evidenceDigest
    else (digestOf H (.obj [("error_code", .str code), ("provider_reference", .str reference)])).getD ""
  (code, reference, digest)

/-- The number in the first eight bytes of a digest. -/
def digestPrefix (hex : String) : ℕ :=
  ((chars hex).take 16).foldl (fun n c => n * 16 + (hexVal c).getD 0) 0

/-- `_retry_delay_ms`. -/
def retryDelayMs (config : ExecutorConfig) (claimed : View) : ℤ :=
  let exponent := min (claimed.attempts - 1) 30
  let base := min config.retryMaxMs (config.retryAfterMs * 2 ^ exponent)
  let jitter := base * config.retryJitterPercent / 100
  if jitter = 0 then base
  else
    let body := Json.obj [("attempt_id", claimed.attemptId), ("attempts", .int claimed.attempts),
      ("kind", .str "nth/payment-retry-jitter@1")]
    let offset := (digestPrefix (H.sha256 ((canonicalJson body).getD [])) : ℤ) % (2 * jitter + 1) -
      jitter
    min config.retryMaxMs (max 0 (base + offset))

/-- The text of a field of a view. -/
def viewText (v : Json) : String := v.asStr.getD ""

/-- `_retry_or_block`. -/
def retryOrBlock (config : ExecutorConfig) (claimed : View) (e : Exc) (permanent : Bool) :
    AttemptOp :=
  if permanent || config.maxAttempts ≤ claimed.attempts then
    .block (viewText claimed.leaseId) (errorCode e)
  else .scheduleRetry (viewText claimed.leaseId) (errorCode e) (retryDelayMs H config claimed)

/-- The handlers of `_execute_claimed`: the operation recorded for an exception
    of `settle_trade`, `none` where it propagates. -/
def executorResponse (config : ExecutorConfig) (claimed : View) : Exc → Option AttemptOp
  | .settlementFailed f =>
    if f.paymentMayHaveCommitted then
      let (code, reference, digest) := orphanMetadata H f
      some (.recordOrphaned (viewText claimed.leaseId) code reference digest)
    else some (retryOrBlock H config claimed (.settlementFailed f)
      (permanentSettlementFailures.contains f.reason))
  | .tradeConflict => some (retryOrBlock H config claimed .tradeConflict false)
  | .tradeRejected r => some (retryOrBlock H config claimed (.tradeRejected r) false)
  | .connectionError => some (retryOrBlock H config claimed .connectionError false)
  | .osError => some (retryOrBlock H config claimed .osError false)
  | .runtimeError => some (retryOrBlock H config claimed .runtimeError false)
  | .attemptConflict => some (retryOrBlock H config claimed .attemptConflict false)
  | .timeoutError => some (retryOrBlock H config claimed .timeoutError false)
  | .attemptRejected _ | .valueError | .typeError | .attributeError => none

/-! ## Workers -/

/-- Who called `settle_trade`: nobody else, an executor with its claimed view, or
    a reconciler with the view it found. -/
inductive Job where
  | direct
  | executor (config : ExecutorConfig) (claimed : View)
  | reconciler (current : View)

/-- The kind of adapter of a call. -/
inductive AdapterKind where
  | manual | x402 | lookupOnly
  deriving DecidableEq

/-- A call of `settle_trade`; `network` is the one its rail declares. -/
structure Settling where
  job : Job
  tradeId : String
  settler : H.SecretKey
  adapter : AdapterKind
  network : Json
  intent : SettlementIntent
  nowMsOverride : ℤ

variable {H}

/-- The rail of a call, as the call has seen it. -/
def Settling.rail (c : Settling H) (seen : Option RailReturn) : PaymentRail :=
  { network := c.network, lookup := fun _ => .ok seen, pay := fun _ _ _ _ _ => .error .runtimeError }

/-- The adapter of a call over that rail. -/
def Settling.adapterOver (c : Settling H) (seen : Option RailReturn) : Adapter :=
  match c.adapter with
  | .manual => .manual
  | .x402 => .x402 (c.rail seen)
  | .lookupOnly => .lookupOnly (c.rail seen)

/-- The part of `settle` before `lookup`: the key. -/
def Settling.key (c : Settling H) : Except Exc String := do
  c.intent.validate
  let _ ← railNetwork (c.rail none)
  settlementIdempotencyKey H c.intent

variable (H)

/-- Where a worker is: idle; before preflight, with its readings of the trade
    file; cleared by preflight; before `pay`; with a receipt; or with what
    `settle_trade` raised or returned. -/
inductive Worker where
  | idle
  | reading (c : Settling H) (readings : List (Option (List Json)))
  | cleared (c : Settling H)
  | absent (c : Settling H) (key : String)
  | holding (c : Settling H) (ret : RailReturn)
  | failing (c : Settling H) (e : Exc)
  | settled (c : Settling H) (ev : TradeEvent)

/-- A call of `PaymentRail.pay`. -/
structure PayCall where
  tradeId : String
  key : String
  deriving DecidableEq

/-- The state of the system; `pays` are the calls of `pay` so far, and `commits`
    those that the rail committed. -/
structure World where
  trades : TradeStore
  attempts : String → Option (List Json) := fun _ => none
  rail : String → Option RailReturn := fun _ => none
  pays : List PayCall := []
  commits : List PayCall := []
  workers : ℕ → Worker H := fun _ => .idle

variable {H}

/-- Worker `i` moves to `x`. -/
def World.goto (w : World H) (i : ℕ) (x : Worker H) : World H :=
  { w with workers := Function.update w.workers i x }

/-- The events of an attempt are replaced. -/
def World.store (w : World H) (attemptId : String) (events : List Json) : World H :=
  { w with attempts := Function.update w.attempts attemptId (some events) }

@[simp] theorem World.goto_workers (w : World H) (i : ℕ) (x : Worker H) :
    (w.goto i x).workers i = x := Function.update_self ..

theorem World.goto_workers_of_ne {i j : ℕ} (h : j ≠ i) (w : World H) (x : Worker H) :
    (w.goto i x).workers j = w.workers j := Function.update_of_ne h ..

@[simp] theorem World.store_attempts (w : World H) (id : String) (events : List Json) :
    (w.store id events).attempts id = some events := Function.update_self ..

theorem World.store_attempts_of_ne {id id' : String} (h : id' ≠ id) (w : World H)
    (events : List Json) : (w.store id events).attempts id' = w.attempts id' :=
  Function.update_of_ne h ..

/-- What `pay` does on a key that is not committed. -/
inductive PayOutcome where
  | paid (ret : RailReturn)
  | lost (ret : RailReturn) (e : Exc)
  | refused (e : Exc)

variable (H)

/-- The actions. -/
inductive Action where
  | create (actor : H.SecretKey) (intent : SettlementIntent) (adapterId : String)
      (createdAtMs now : ℤ)
  | settle (i : ℕ) (c : Settling H)
  | claim (i : ℕ) (attemptId : String) (config : ExecutorConfig) (actor : H.SecretKey)
      (network : Json) (nowMsOverride clock now : ℤ) (leaseId : String)
  | reconcile (i : ℕ) (attemptId : String) (actor : H.SecretKey) (network : Json)
      (nowMsOverride now : ℤ)
  | read (i : ℕ)
  | preflight (i : ℕ) (now : ℤ)
  | lookup (i : ℕ) (raises : Option Exc)
  | pay (i : ℕ) (outcome : PayOutcome)
  | record (i : ℕ) (settleNow recordNow : ℤ)
  | handle (i : ℕ) (clock now : ℤ)
  | finish (i : ℕ) (clock now : ℤ)
  | crash (i : ℕ)
  | trade (trades : TradeStore)

variable {H}

/-! ## Steps -/

/-- An operation on the stored events of an attempt. -/
def World.operate (w : World H) (attemptId : String) (actor : H.SecretKey) (createdAtMs now : ℤ)
    (op : AttemptOp) : Except Exc (Option (List Json)) := do
  op.check H actor createdAtMs
  op.next H attemptId actor createdAtMs now (w.attempts attemptId)

/-- The operation, and the worker is idle whether it succeeds or raises. -/
def World.conclude (w : World H) (i : ℕ) (attemptId : String) (actor : H.SecretKey)
    (createdAtMs now : ℤ) (op : AttemptOp) : World H :=
  match w.operate attemptId actor createdAtMs now op with
  | .ok (some events) => (w.store attemptId events).goto i .idle
  | _ => w.goto i .idle

/-- `create`. -/
def World.create (w : World H) (actor : H.SecretKey) (intent : SettlementIntent)
    (adapterId : String) (createdAtMs now : ℤ) : Option (World H) :=
  match settlementIdempotencyKey H intent with
  | .error _ => none
  | .ok attemptId =>
    match w.operate attemptId actor createdAtMs now (.create intent adapterId) with
    | .ok (some events) => some (w.store attemptId events)
    | _ => none

/-- `run_once`: the claim, and the call of `settle_trade` it leads to. -/
def World.claim (w : World H) (i : ℕ) (attemptId : String) (config : ExecutorConfig)
    (actor : H.SecretKey) (network : Json) (nowMsOverride clock now : ℤ) (leaseId : String) :
    Option (World H) :=
  match w.workers i with
  | .idle =>
    match w.operate attemptId actor (timestamp nowMsOverride clock) now
        (.claim config.leaseMs leaseId) with
    | .ok (some events) =>
      let claimed := projectVerified events
      match intentFromDict claimed.intent with
      | .error _ => some (w.store attemptId events)
      | .ok intent =>
        some ((w.store attemptId events).goto i (.reading
          { job := .executor config claimed, tradeId := intent.tradeId, settler := actor,
            adapter := .x402, network, intent, nowMsOverride } []))
    | _ => none
  | _ => none

/-- `reconcile_once`, up to its call of `settle_trade`. -/
def World.reconcile (w : World H) (i : ℕ) (attemptId : String) (actor : H.SecretKey)
    (network : Json) (nowMsOverride now : ℤ) : Option (World H) :=
  match w.workers i, w.attempts attemptId with
  | .idle, some events =>
    let current := projectVerified events
    if (verifyPaymentAttempt H now events).isOk && current.actorDid.eqStr (asDid H actor) &&
        current.state.eqStr AttemptState.orphaned.wire then
      match intentFromDict current.intent with
      | .error _ => none
      | .ok intent =>
        some (w.goto i (.reading
          { job := .reconciler current, tradeId := intent.tradeId, settler := actor,
            adapter := .lookupOnly, network, intent, nowMsOverride } []))
    else none
  | _, _ => none

/-- One reading of the trade file. -/
def World.read (w : World H) (i : ℕ) : Option (World H) :=
  match w.workers i with
  | .reading c readings =>
    some (w.goto i (.reading c (readings ++ [w.trades.getEvents H c.tradeId])))
  | _ => none

/-- The decision of preflight on its readings. -/
def World.preflight (w : World H) (i : ℕ) (now : ℤ) : Option (World H) :=
  match w.workers i with
  | .reading c [r₁, r₂, r₃, r₄, r₅] =>
    match NthDao.preflight H now c.tradeId (asDid H c.settler) (c.adapterOver none).adapterId c.intent
        ⟨r₁, r₂, r₃, r₄, r₅⟩ with
    | .ok .pay => some (w.goto i (.cleared c))
    | .ok (.recorded ev) => some (w.goto i (.settled c ev))
    | .error e => some (w.goto i (.failing c e))
  | _ => none

/-- `rail.lookup`. -/
def World.lookup (w : World H) (i : ℕ) (raises : Option Exc) : Option (World H) :=
  match w.workers i with
  | .cleared c =>
    match c.adapter with
    | .manual => none
    | kind =>
      match c.key with
      | .error e => some (w.goto i (.failing c e))
      | .ok key =>
        match raises, w.rail key with
        | some e, _ => some (w.goto i (.failing c e))
        | none, some ret => some (w.goto i (.holding c ret))
        | none, none =>
          if kind = .x402 then some (w.goto i (.absent c key))
          else some (w.goto i (.failing c (failed rejectReceiptNotFound)))
  | _ => none

/-- The rail commits the payment `p`. -/
def World.commit (w : World H) (p : PayCall) (ret : RailReturn) : World H :=
  { w with rail := Function.update w.rail p.key (some ret), commits := w.commits ++ [p] }

@[simp] theorem World.commit_rail (w : World H) (p : PayCall) (ret : RailReturn) :
    (w.commit p ret).rail p.key = some ret := Function.update_self ..

theorem World.commit_rail_of_ne {p : PayCall} {key : String} (h : key ≠ p.key) (w : World H)
    (ret : RailReturn) : (w.commit p ret).rail key = w.rail key := Function.update_of_ne h ..

/-- `rail.pay`. -/
def World.pay (w : World H) (i : ℕ) (outcome : PayOutcome) : Option (World H) :=
  match w.workers i with
  | .absent c key =>
    let p : PayCall := ⟨c.tradeId, key⟩
    let w := { w with pays := w.pays ++ [p] }
    match outcome, w.rail key with
    | .paid _, some ret => some (w.goto i (.holding c ret))
    | .paid ret, none => some ((w.commit p ret).goto i (.holding c ret))
    | .lost _ e, some _ => some (w.goto i (.failing c e))
    | .lost ret e, none => some ((w.commit p ret).goto i (.failing c e))
    | .refused e, _ => some (w.goto i (.failing c e))
  | _ => none

/-- The result of the adapter is recorded in the trade. -/
def World.recordResult (w : World H) (i : ℕ) (c : Settling H) (seen : Option RailReturn)
    (settleNow recordNow : ℤ) : World H :=
  match (c.adapterOver seen).settle H c.intent settleNow with
  | .error e => w.goto i (.failing c e)
  | .ok r =>
    match recordSettlement H w.trades c.tradeId c.settler (.obj r.toPayload) c.nowMsOverride
        recordNow with
    | .error e => w.goto i (.failing c e)
    | .ok (ev, trades) => { w with trades }.goto i (.settled c ev)

/-- The end of `settle` and `record_settlement`. -/
def World.record (w : World H) (i : ℕ) (settleNow recordNow : ℤ) : Option (World H) :=
  match w.workers i with
  | .cleared c =>
    if c.adapter = .manual then some (w.recordResult i c none settleNow recordNow) else none
  | .holding c ret => some (w.recordResult i c (some ret) settleNow recordNow)
  | _ => none

/-- The handlers of the caller of `settle_trade`. -/
def World.handle (w : World H) (i : ℕ) (clock now : ℤ) : Option (World H) :=
  match w.workers i with
  | .failing c e =>
    match c.job with
    | .direct | .reconciler _ => some (w.goto i .idle)
    | .executor config claimed =>
      match executorResponse H config claimed e with
      | none => some (w.goto i .idle)
      | some op => some (w.conclude i (viewText claimed.attemptId) c.settler
          (timestamp c.nowMsOverride clock) now op)
  | _ => none

/-- What the caller of `settle_trade` records of the event it returned. -/
def World.finish (w : World H) (i : ℕ) (clock now : ℤ) : Option (World H) :=
  match w.workers i with
  | .settled c ev =>
    match c.job, Json.get ev.payload.fields "settlement" with
    | .executor _ claimed, .obj settlement =>
      some (w.conclude i (viewText claimed.attemptId) c.settler (timestamp c.nowMsOverride clock) now
        (.recordSettled (viewText claimed.leaseId) settlement))
    | .reconciler current, .obj settlement =>
      some (w.conclude i (viewText current.attemptId) c.settler (timestamp c.nowMsOverride clock) now
        (.recordReconciled settlement (viewText current.evidenceDigest)))
    | _, _ => some (w.goto i .idle)
  | _ => none

/-- One step, `none` if it is not enabled. -/
def World.step (w : World H) : Action H → Option (World H)
  | .create actor intent adapterId createdAtMs now => w.create actor intent adapterId createdAtMs now
  | .settle i c =>
    match w.workers i, c.job with
    | .idle, .direct => some (w.goto i (.reading c []))
    | _, _ => none
  | .claim i attemptId config actor network nowMsOverride clock now leaseId =>
    w.claim i attemptId config actor network nowMsOverride clock now leaseId
  | .reconcile i attemptId actor network nowMsOverride now =>
    w.reconcile i attemptId actor network nowMsOverride now
  | .read i => w.read i
  | .preflight i now => w.preflight i now
  | .lookup i raises => w.lookup i raises
  | .pay i outcome => w.pay i outcome
  | .record i settleNow recordNow => w.record i settleNow recordNow
  | .handle i clock now => w.handle i clock now
  | .finish i clock now => w.finish i clock now
  | .crash i => some (w.goto i .idle)
  | .trade trades => some { w with trades }

end NthDao
