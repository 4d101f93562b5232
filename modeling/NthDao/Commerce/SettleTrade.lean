/-
  `settle_trade` (`nth_dao/commerce/settlement.py`): preflight, payment and the
  signed record.

  * `preflight`: the checks before the adapter is called, as a function of the
    readings of the trade file they are made on;
  * `settleTrade`: preflight, `Adapter.settle`, `recordSettlement`;
  * `settleTrade_verifies_iff`: when the recorded settlement passes
    `verify_trade` and pays the terms.
-/
import NthDao.Commerce.TradeTransitions

namespace NthDao

open Py

variable (H : Host)

/-! ## Preflight -/

/-- The readings of the trade file: for the parties and terms, by the first
    `verify_trade`, by `trade_state`, and for a settlement already recorded. -/
structure Readings where
  events : Option (List Json)
  verify : Option (List Json)
  state : Option (List Json)
  settled : Option (List Json)
  verifySettled : Option (List Json)

/-- All the readings of one state of the file. -/
def Readings.same (events : Option (List Json)) : Readings := ⟨events, events, events, events, events⟩

/-- `(False, reason)` of `verify_trade` is raised as `SettlementFailed`. -/
def asSettlementFailed : Exc → Exc
  | .tradeRejected r => failed r
  | e => e

/-- What preflight decides: the settlement is recorded already, or is to be made. -/
inductive Preflight where
  | recorded (ev : TradeEvent)
  | pay

/-- The intent matches the signed terms, if there are any. -/
def checkIntent (intent : SettlementIntent) : Option Fields → Except Exc Unit
  | none => .ok ()
  | some terms => do
    require (safeInt (Json.get terms "amount_minor") == some intent.amountMinor)
      (failed rejectAmountMismatch)
    require (safeStr (Json.get terms "currency") == intent.currency) (failed rejectCurrencyMismatch)
    require (safeStr (Json.get terms "payee_did") == intent.payeeDid) (failed rejectPayeeMismatch)

/-- The payer of an x402 payment is the bound publisher. -/
def checkPayer (p : Parties) (adapterId : String) (intent : SettlementIntent) : Except Exc Unit :=
  require (adapterId != adapterX402Testnet ||
    (p.publisherDid != "" && intent.payerDid == p.publisherDid)) (failed rejectPayerMismatch)

/-- The recorded settlement is the one of this intent. -/
def isRetry (raw : Fields) (adapterId : String) (intent : SettlementIntent) (key : String) : Bool :=
  let settlement := (Json.get (Json.get raw "payload").fields "settlement")
  let proof := Json.get settlement.fields "proof"
  (Json.get raw "type").eqStr EventType.settlementRecorded.wire && settlement.isObj &&
    proof.isObj && (Json.get proof.fields "idempotency_key").eqStr key &&
    (Json.get settlement.fields "adapter_id").eqStr adapterId &&
    (Json.get settlement.fields "amount_minor").eqInt intent.amountMinor &&
    (Json.get settlement.fields "currency").eqStr intent.currency &&
    (Json.get settlement.fields "payee_did").eqStr intent.payeeDid &&
    (Json.get settlement.fields "payer_did").eqStr intent.payerDid

/-- The settled branch: an x402 retry returns the recorded event. -/
def recordedSettlement (now : ℤ) (tid : String) (p : Parties) (adapterId : String)
    (intent : SettlementIntent) (r : Readings) : Except Exc Preflight := do
  checkPayer p adapterId intent
  let raw := ((r.settled.getD []).getLast?.getD .null).fields
  let key ← settlementIdempotencyKey H intent
  require (isRetry raw adapterId intent key) (failed rejectBadState)
  (verifyTrade H now tid r.verifySettled).mapError asSettlementFailed
  return .recorded (TradeEvent.fromDict raw)

/-- The part of `settle_trade` before the adapter is called. -/
def preflight (now : ℤ) (tid settlerDid adapterId : String) (intent : SettlementIntent)
    (r : Readings) : Except Exc Preflight := do
  intent.validate
  require (intent.tradeId == tid) (failed rejectTradeMismatch)
  let events := r.events.getD []
  require (!events.isEmpty) (failed rejectSettlementTradeNotFound)
  (verifyTrade H now tid r.verify).mapError asSettlementFailed
  let opened ← openedPayload events
  let p := partiesOf H opened
  require (settlerDid == p.settlerDid) (failed rejectWrongSettler)
  let state ← tradeState H r.state
  if state == some TradeState.settled.wire && adapterId == adapterX402Testnet then
    recordedSettlement H now tid p adapterId intent r
  else
    require (state == some TradeState.verified.wire) (failed rejectBadState)
    checkIntent intent (tradeTerms opened)
    checkPayer p adapterId intent
    return .pay

/-- The clock readings of a call: during preflight, by the adapter, and by
    `record_settlement`. -/
structure Clock where
  preflight : ℤ
  settle : ℤ
  record : ℤ

/-- `settle_trade`. -/
def settleTrade (s : TradeStore) (tid : String) (settler : H.SecretKey) (a : Adapter)
    (intent : SettlementIntent) (nowMsOverride : ℤ) (t : Clock) :
    Except Exc (TradeEvent × TradeStore) := do
  match ← preflight H t.preflight tid (asDid H settler) a.adapterId intent
      (.same (s.getEvents H tid)) with
  | .recorded ev => return (ev, s)
  | .pay =>
    let r ← a.settle H intent t.settle
    recordSettlement H s tid settler (.obj r.toPayload) nowMsOverride t.record

/-! ## What preflight ensures -/

/-- The terms of a trade as an intent: the one payment that settles it. -/
def termsIntent (tid : String) (opened : Fields) (terms : Fields) : SettlementIntent :=
  { tradeId := tid, amountMinor := (safeInt (Json.get terms "amount_minor")).getD 0,
    currency := safeStr (Json.get terms "currency"), payeeDid := safeStr (Json.get terms "payee_did"),
    payerDid := (partiesOf H opened).publisherDid }

/-- What preflight has checked when the adapter is called. -/
structure Cleared (tid settlerDid adapterId : String) (intent : SettlementIntent)
    (opened : Fields) : Prop where
  valid : intent.validate = .ok ()
  tradeId : intent.tradeId = tid
  settler : settlerDid = (partiesOf H opened).settlerDid
  amount : ∀ terms, tradeTerms opened = some terms →
    Json.get terms "amount_minor" = .int intent.amountMinor
  currency : ∀ terms, tradeTerms opened = some terms →
    Json.get terms "currency" = .str intent.currency
  payee : ∀ terms, tradeTerms opened = some terms →
    Json.get terms "payee_did" = .str intent.payeeDid
  payer : adapterId = adapterX402Testnet → (partiesOf H opened).publisherDid ≠ "" ∧
    intent.payerDid = (partiesOf H opened).publisherDid

theorem checkIntent_eq_ok {intent : SettlementIntent} {terms : Option Fields} (hv : intent.Valid)
    (h : checkIntent intent terms = .ok ()) :
    (∀ t, terms = some t → Json.get t "amount_minor" = .int intent.amountMinor) ∧
    (∀ t, terms = some t → Json.get t "currency" = .str intent.currency) ∧
    (∀ t, terms = some t → Json.get t "payee_did" = .str intent.payeeDid) := by
  cases terms with
  | none => simp
  | some t =>
    rw [checkIntent, require_bind_eq_ok, require_bind_eq_ok, require_eq_ok, beq_iff_eq, beq_iff_eq,
      beq_iff_eq, safeStr_eq (ne_empty_of_mem_currencies hv.currency),
      safeStr_eq (ne_empty_of_startsWith hv.payee.1)] at h
    simp only [Option.some.injEq, forall_eq']
    exact ⟨Json.asInt_eq_some.1 h.1, h.2.1, h.2.2⟩

theorem preflight_pay {now : ℤ} {tid settlerDid adapterId : String} {intent : SettlementIntent}
    {r : Readings} (h : preflight H now tid settlerDid adapterId intent r = .ok .pay) :
    ∃ opened, openedPayload (r.events.getD []) = .ok opened ∧ r.events.getD [] ≠ [] ∧
      verifyTrade H now tid r.verify = .ok () ∧
      tradeState H r.state = .ok (some TradeState.verified.wire) ∧
      Cleared H tid settlerDid adapterId intent opened := by
  unfold preflight at h
  rw [unit_bind_eq_ok, require_bind_eq_ok, require_bind_eq_ok, mapError_bind_eq_ok] at h
  obtain ⟨hval, htid, hne, ⟨⟩, hver, h⟩ := h
  rw [bind_eq_ok] at h
  obtain ⟨opened, hop, h⟩ := h
  rw [require_bind_eq_ok, bind_eq_ok] at h
  obtain ⟨hsettler, state, hstate, h⟩ := h
  split_ifs at h with hc
  · unfold recordedSettlement at h
    simp only [bind_eq_ok, pure_eq_ok] at h
    obtain ⟨_, _, _, _, _, _, _, _, h⟩ := h
    cases h
  · rw [require_bind_eq_ok, unit_bind_eq_ok, unit_bind_eq_ok] at h
    obtain ⟨hs, hterms, hpayer, -⟩ := h
    have hv := SettlementIntent.valid_of_validate hval
    rw [beq_iff_eq] at htid hsettler hs
    obtain ⟨h₁, h₂, h₃⟩ := checkIntent_eq_ok hv hterms
    refine ⟨opened, hop, by simpa using hne, hver, hs ▸ hstate, hval, htid, hsettler, h₁, h₂, h₃, ?_⟩
    intro hx
    rw [checkPayer, require_eq_ok, hx] at hpayer
    simpa using hpayer

/-- The terms of a cleared x402 intent are the intent without its memo. -/
theorem Cleared.termsIntent_eq {tid settlerDid : String} {intent : SettlementIntent}
    {opened terms : Fields} (h : Cleared H tid settlerDid adapterX402Testnet intent opened)
    (ht : tradeTerms opened = some terms) :
    termsIntent H tid opened terms = { intent with memo := "" } := by
  simp only [termsIntent, h.amount terms ht, h.currency terms ht, h.payee terms ht, safeInt, safeStr,
    Json.asInt, Json.asStr, Option.getD_some, ← (h.payer rfl).2, ← h.tradeId]

/-! ## The recorded settlement -/

/-- The receipt an adapter turns into its result. -/
def Adapter.receipt (intent : SettlementIntent) (key : String) : Adapter → Except Exc RailReturn
  | .manual => .error (failed rejectReceiptNotFound)
  | .x402 rail => lookupOrPay rail intent key
  | .lookupOnly rail => do
    match ← rail.lookup key with
    | some ret => return ret
    | none => .error (failed rejectReceiptNotFound)

/-- An adapter over a rail returns its receipt, checked. -/
theorem settle_eq_ok {i : SettlementIntent} {now : ℤ} {r : SettlementResult} {a : Adapter}
    (ha : a.adapterId = adapterX402Testnet) (h : a.settle H i now = .ok r) :
    ∃ key network rc, settlementIdempotencyKey H i = .ok key ∧ a.receipt i key = .ok (.receipt rc) ∧
      network ∈ x402TestNetworks ∧ isWireToken network maxNetworkChars = true ∧
      safeStr rc.txRef ≠ "" ∧ isWireToken (safeStr rc.txRef) maxTxRefChars = true ∧
      r = x402Result i key (safeStr rc.txRef) network rc.proof.fields now := by
  have hr : ∃ key network ret rail, settlementIdempotencyKey H i = .ok key ∧
      railNetwork rail = .ok network ∧ a.receipt i key = .ok ret ∧
      resultFromReceipt H i ret network now = .ok r := by
    cases a with
    | manual => exact absurd ha (by decide)
    | x402 rail =>
      rw [Adapter.settle, x402Settle] at h
      simp only [bind_eq_ok] at h
      obtain ⟨-, -, n, hn, k, hk, ret, hret, hr⟩ := h
      exact ⟨k, n, ret, rail, hk, hn, hret, hr⟩
    | lookupOnly rail =>
      rw [Adapter.settle, bind_eq_ok] at h
      obtain ⟨o, ho, h⟩ := h
      unfold lookupSettlement at ho
      simp only [bind_eq_ok] at ho
      obtain ⟨-, -, n, hn, k, hk, l, hl, ho⟩ := ho
      cases l with
      | none => cases ho; cases h
      | some ret =>
        simp only [bind_eq_ok, pure_eq_ok] at ho
        obtain ⟨r', hr, rfl⟩ := ho
        cases h
        refine ⟨k, n, ret, rail, hk, hn, ?_, hr⟩
        rw [Adapter.receipt, hl]; rfl
  obtain ⟨key, network, ret, rail, hk, hn, hret, hr⟩ := hr
  obtain ⟨key', rc, hk', rfl, h₁, h₂, -, rfl⟩ := resultFromReceipt_eq_ok H hr
  rw [hk] at hk'
  cases hk'
  obtain ⟨-, h₃, h₄⟩ := railNetwork_eq_ok hn
  exact ⟨key, network, rc, hk, hret, h₄, h₃, h₁, h₂, rfl⟩

/-- The proof of a receipt stays within its limits once it carries the key. -/
def ProofFits (a : Adapter) (intent : SettlementIntent) : Prop :=
  ∀ key rc, settlementIdempotencyKey H intent = .ok key → a.receipt intent key = .ok (.receipt rc) →
    ∃ n, proofEncodedSize (.obj (Json.insert rc.proof.fields "idempotency_key" (.str key))) = .ok n

theorem get_toPayload (r : SettlementResult) :
    Json.get r.toPayload "adapter_id" = .str r.adapterId ∧
    Json.get r.toPayload "amount_minor" = .int r.amountMinor ∧
    Json.get r.toPayload "currency" = .str r.currency ∧
    Json.get r.toPayload "payee_did" = .str r.payeeDid ∧
    Json.get r.toPayload "payer_did" = .str r.payerDid ∧
    Json.get r.toPayload "tx_ref" = .str r.txRef ∧
    Json.get r.toPayload "network" = .str r.network ∧
    Json.get r.toPayload "proof" = .obj r.proof ∧
    Json.get r.toPayload "settled_at_ms" = .int r.settledAtMs := by
  simp [SettlementResult.toPayload, Json.get, Json.lookup_cons]

/-- When the record of an adapter passes `verify_settlement` against terms that
    the intent matches. -/
theorem verifySettlement_toPayload {r : SettlementResult} {i : SettlementIntent} {e : Expected}
    {nowv : ℤ} (hv : i.Valid)
    (hr : r.amountMinor = i.amountMinor ∧ r.currency = i.currency ∧ r.payeeDid = i.payeeDid ∧
      r.payerDid = i.payerDid)
    (he : e.amountMinor = i.amountMinor ∧ e.currency = i.currency ∧ e.payeeDid = i.payeeDid)
    (ha : r.adapterId ∈ knownAdapters)
    (ht : 0 < r.settledAtMs ∧ r.settledAtMs ≤ nowv + maxSettlementFutureSkewMs) :
    verifySettlement nowv (.obj r.toPayload) e = .ok () ↔
      (e.payerDid ≠ "" → i.payerDid = e.payerDid) ∧
      (r.adapterId = adapterX402Testnet → verifyExternal r.toPayload i.payerDid = .ok ()) ∧
      (r.adapterId ≠ adapterX402Testnet → r.txRef = "" ∧ r.network = "" ∧ r.proof = []) := by
  obtain ⟨g₁, g₂, g₃, g₄, g₅, g₆, g₇, g₈, g₉⟩ := get_toPayload r
  have hid : safeStr (Json.get r.toPayload "adapter_id") = r.adapterId := by rw [g₁]; rfl
  rw [verifySettlement_ok_iff]
  constructor
  · rintro ⟨s, payer, hs, h⟩
    cases hs
    have hp : payer = i.payerDid := by
      have := h.payer_eq
      rw [g₅, hr.2.2.2] at this
      exact (Json.str.inj this).symm
    subst hp
    refine ⟨h.payer_expected, fun hx => h.external (hid.trans hx), fun hx => ?_⟩
    obtain ⟨h₁, h₂, h₃⟩ := h.internal fun hc => hx (hid.symm.trans hc)
    rw [g₆] at h₁; rw [g₇] at h₂; rw [g₈] at h₃
    exact ⟨Json.str.inj h₁, Json.str.inj h₂, Json.obj.inj h₃⟩
  · rintro ⟨h₁, h₂, h₃⟩
    refine ⟨r.toPayload, i.payerDid, rfl, ?_⟩
    exact
      { keys := by simp [SettlementResult.toPayload, Json.keysEq, settlementPayloadFields]
        adapter := by rw [hid]; exact ha
        amount := by rw [g₂, hr.1, he.1]
        amount_pos := by rw [he.1]; exact hv.amount
        currency := by rw [g₃, hr.2.1, he.2.1]
        supported := by rw [he.2.1]; exact hv.currency
        payee := by rw [g₄, hr.2.2.1, he.2.2]
        payee_ok := by rw [he.2.2]; exact hv.payee
        payer_eq := by rw [g₅, hr.2.2.2]
        payer_ok := hv.payer
        payer_expected := h₁
        settledAt := ⟨_, g₉, ht.1, ht.2⟩
        external := fun hx => h₂ (hid.symm.trans hx)
        internal := fun hx => by
          obtain ⟨k₁, k₂, k₃⟩ := h₃ fun hc => hx (hid.trans hc)
          rw [g₆, g₇, g₈, k₁, k₂, k₃]; exact ⟨rfl, rfl, rfl⟩ }

theorem insert_ne_nil (kvs : Fields) (k : String) (v : Json) : Json.insert kvs k v ≠ [] := by
  cases kvs with
  | nil => simp [Json.insert]
  | cons p ps => rw [Json.insert]; split_ifs <;> simp

/-- The external part of the check of an x402 record is about the proof alone. -/
theorem verifyExternal_x402 {i : SettlementIntent} {key tx network : String} {proof : Fields}
    {now : ℤ} (hp : i.payerDid ≠ "") (htx : tx ≠ "")
    (htx' : isWireToken tx maxTxRefChars = true) (hn : network ∈ x402TestNetworks)
    (hn' : isWireToken network maxNetworkChars = true) :
    verifyExternal (x402Result i key tx network proof now).toPayload i.payerDid = .ok () ↔
      ∃ n, proofEncodedSize (.obj (Json.insert proof "idempotency_key" (.str key))) = .ok n := by
  obtain ⟨-, -, -, -, -, g₆, g₇, g₈, -⟩ := get_toPayload (x402Result i key tx network proof now)
  have k₆ : safeStr (Json.get (x402Result i key tx network proof now).toPayload "tx_ref") = tx := by
    rw [g₆]; rfl
  have k₇ : safeStr (Json.get (x402Result i key tx network proof now).toPayload "network") =
      network := by
    rw [g₇]; rfl
  have k₈ : Json.get (x402Result i key tx network proof now).toPayload "proof" =
      .obj (Json.insert proof "idempotency_key" (.str key)) := g₈
  have hne : network ≠ "" := by rintro rfl; exact absurd hn (by decide)
  have hproof : (Json.obj (Json.insert proof "idempotency_key" (.str key)) != .obj []) = true := by
    simp [insert_ne_nil]
  unfold verifyExternal
  simp only [k₆, k₇, k₈, Json.isObj, Bool.true_and, hproof, bne_iff_ne.2 hp, bne_iff_ne.2 htx, htx', bne_iff_ne.2 hne, hn',
    List.contains_iff_mem.2 hn, require_bind_eq_ok, mapError_bind_eq_ok, true_and]
  constructor
  · rintro ⟨n, hn, -⟩; exact ⟨n, hn⟩
  · rintro ⟨n, hn⟩; exact ⟨n, hn, rfl⟩

/-! ## When the settlement verifies -/

theorem textOf_of_get {d : Fields} {k v : String} (h : Json.get d k = .str v) : textOf H d k = v := by
  rw [textOf, Json.getD, lookup_of_get h (by simp)]; rfl

/-- The recorded event pays the signed terms, if there are any, from the bound
    publisher. -/
def PaysTerms (s : TradeStore) (tid : String) (ev : TradeEvent) : Prop :=
  ∀ opened terms, openedPayload ((s.getEvents H tid).getD []) = .ok opened →
    tradeTerms opened = some terms →
    ∃ st, ev.payload = .obj [("settlement", .obj st)] ∧
      Json.get st "amount_minor" = Json.get terms "amount_minor" ∧
      Json.get st "currency" = Json.get terms "currency" ∧
      Json.get st "payee_did" = Json.get terms "payee_did" ∧
      Json.get st "payer_did" = .str (partiesOf H opened).publisherDid

/-- Under signed terms, a manual settlement names the bound publisher as payer,
    and the proof of an x402 receipt leaves room for the key. -/
def SettlesCleanly (s : TradeStore) (tid : String) (a : Adapter) (intent : SettlementIntent) : Prop :=
  ∀ opened terms, openedPayload ((s.getEvents H tid).getD []) = .ok opened →
    tradeTerms opened = some terms →
    (a.adapterId = adapterManual → intent.payerDid = (partiesOf H opened).publisherDid) ∧
    (a.adapterId = adapterX402Testnet → ProofFits H a intent)

theorem preflight_recorded {now : ℤ} {tid settlerDid adapterId : String} {intent : SettlementIntent}
    {r : Readings} {ev : TradeEvent}
    (h : preflight H now tid settlerDid adapterId intent r = .ok (.recorded ev)) :
    tradeState H r.state = .ok (some TradeState.settled.wire) := by
  unfold preflight at h
  simp only [bind_eq_ok] at h
  obtain ⟨_, -, _, -, _, -, _, -, _, -, _, -, state, hstate, h⟩ := h
  split_ifs at h with hc
  · simp only [Bool.and_eq_true, beq_iff_eq] at hc
    rw [hstate, hc.1]
  · simp only [bind_eq_ok, pure_eq_ok] at h
    obtain ⟨_, -, _, -, _, -, h⟩ := h
    cases h

theorem adapterId_cases (a : Adapter) : a.adapterId = adapterManual ∨ a.adapterId = adapterX402Testnet := by
  cases a <;> simp [Adapter.adapterId]

/-- What `settle_trade` recorded. -/
theorem settleTrade_eq_ok {s s' : TradeStore} {tid : String} {settler : H.SecretKey} {a : Adapter}
    {intent : SettlementIntent} {ov : ℤ} {t : Clock} {ev : TradeEvent}
    (hstate : tradeState H (s.getEvents H tid) = .ok (some TradeState.verified.wire))
    (h : settleTrade H s tid settler a intent ov t = .ok (ev, s')) :
    ∃ opened r, openedPayload ((s.getEvents H tid).getD []) = .ok opened ∧
      Cleared H tid (asDid H settler) a.adapterId intent opened ∧
      a.settle H intent t.settle = .ok r ∧ ev.payload = .obj [("settlement", .obj r.toPayload)] ∧
      ∀ nowv, verifyTrade H nowv tid (s'.getEvents H tid) = .ok () ↔
        ∀ terms, tradeTerms opened = some terms → terms ≠ [] →
          checkSettlement H nowv terms (partiesOf H opened)
            [("settlement", .obj r.toPayload)] = .ok () := by
  unfold settleTrade at h
  rw [bind_eq_ok] at h
  obtain ⟨pf, hpf, h⟩ := h
  cases pf with
  | recorded ev' =>
    have := (preflight_recorded H hpf).symm.trans hstate
    exact absurd this (by decide)
  | pay =>
    obtain ⟨opened, hop, -, -, -, hcl⟩ := preflight_pay H hpf
    simp only [bind_eq_ok] at h
    obtain ⟨r, hr, h⟩ := h
    have hop' : openedPayload ((s.getEvents H tid).getD []) = .ok opened := hop
    unfold recordSettlement at h
    rw [bind_eq_ok] at h
    obtain ⟨ps, hps, h⟩ := h
    refine ⟨opened, r, hop', hcl, hr, appendEvent_payload H h, fun nowv => ?_⟩
    obtain ⟨opened', hop'', hiff⟩ := appendEvent_extends H nowv h hps rfl rfl (by decide)
    rw [hop'] at hop''
    cases hop''
    rw [parties, hop'] at hps
    cases hps
    rw [hiff, checkTerms_settlement]

/-- What a cleared settlement records, and when the record passes the terms
    check. -/
theorem checkSettlement_cleared {tid settlerDid : String} {a : Adapter} {intent : SettlementIntent}
    {opened terms : Fields} {r : SettlementResult} {now nowv : ℤ}
    (hcl : Cleared H tid settlerDid a.adapterId intent opened) (ht : tradeTerms opened = some terms)
    (hr : a.settle H intent now = .ok r) (hpos : 0 < now)
    (hskew : now ≤ nowv + maxSettlementFutureSkewMs) :
    (r.amountMinor = intent.amountMinor ∧ r.currency = intent.currency ∧
      r.payeeDid = intent.payeeDid ∧ r.payerDid = intent.payerDid) ∧
    (checkSettlement H nowv terms (partiesOf H opened) [("settlement", .obj r.toPayload)] = .ok () ↔
      ((partiesOf H opened).publisherDid ≠ "" → intent.payerDid = (partiesOf H opened).publisherDid) ∧
      (a.adapterId = adapterX402Testnet → ProofFits H a intent)) := by
  have hv := SettlementIntent.valid_of_validate hcl.valid
  have he : (termsExpected H terms (partiesOf H opened)
      ((safeInt (Json.get terms "amount_minor")).getD (-1))).amountMinor = intent.amountMinor ∧
      textOf H terms "currency" = intent.currency ∧
      textOf H terms "payee_did" = intent.payeeDid := by
    refine ⟨?_, textOf_of_get H (hcl.currency terms ht), textOf_of_get H (hcl.payee terms ht)⟩
    rw [hcl.amount terms ht]; rfl
  have hset : Json.getD [("settlement", Json.obj r.toPayload)] "settlement" (.obj []) =
      .obj r.toPayload := by
    simp [Json.getD, Json.lookup_cons]
  rcases adapterId_cases a with ha | ha
  · obtain rfl : a = .manual := by
      cases a with
      | manual => rfl
      | _ => simp [Adapter.adapterId, adapterX402Testnet, adapterManual] at ha
    obtain ⟨-, rfl⟩ := manualSettle_eq_ok.1 hr
    refine ⟨⟨rfl, rfl, rfl, rfl⟩, ?_⟩
    rw [checkSettlement, hset, Json.fields_obj,
      verifySettlement_toPayload hv ⟨rfl, rfl, rfl, rfl⟩ he (by simp [knownAdapters]) ⟨hpos, hskew⟩]
    refine and_congr Iff.rfl ⟨fun _ hx => absurd hx (by decide), fun _ => ⟨?_, ?_⟩⟩
    · intro hx; exact absurd hx (by simp [adapterManual, adapterX402Testnet])
    · intro _; exact ⟨rfl, rfl, rfl⟩
  · obtain ⟨key, network, rc, hk, hrec, hn, hn', htx, htx', rfl⟩ := settle_eq_ok H ha hr
    refine ⟨⟨rfl, rfl, rfl, rfl⟩, ?_⟩
    have hpayer := hcl.payer ha
    rw [checkSettlement, hset, Json.fields_obj,
      verifySettlement_toPayload hv ⟨rfl, rfl, rfl, rfl⟩ he (by simp [knownAdapters, x402Result])
        ⟨hpos, hskew⟩]
    refine and_congr Iff.rfl ?_
    have hne : intent.payerDid ≠ "" := by rw [hpayer.2]; exact hpayer.1
    rw [verifyExternal_x402 hne htx htx' hn hn']
    constructor
    · rintro ⟨hx, -⟩ - key' rc' hk' hrec'
      rw [hk] at hk'; cases hk'
      rw [hrec] at hrec'; cases hrec'
      exact hx rfl
    · intro hfit
      exact ⟨fun _ => hfit ha key rc hk hrec, fun hx => absurd rfl hx⟩

/-- **When a settled trade verifies.**  If `settle_trade` returns for a verified
    trade, the stored chain passes `verify_trade` and the record pays the terms
    from the publisher exactly if the manual payer is the publisher and the x402
    proof keeps within its limits with the key. -/
theorem settleTrade_verifies_iff {s s' : TradeStore} {tid : String} {settler : H.SecretKey}
    {a : Adapter} {intent : SettlementIntent} {ov nowv : ℤ} {t : Clock} {ev : TradeEvent}
    (hstate : tradeState H (s.getEvents H tid) = .ok (some TradeState.verified.wire))
    (h : settleTrade H s tid settler a intent ov t = .ok (ev, s')) (hpos : 0 < t.settle)
    (hskew : t.settle ≤ nowv + maxSettlementFutureSkewMs) :
    (verifyTrade H nowv tid (s'.getEvents H tid) = .ok () ∧ PaysTerms H s tid ev) ↔
      SettlesCleanly H s tid a intent := by
  obtain ⟨opened, r, hop, hcl, hr, hev, hver⟩ := settleTrade_eq_ok H hstate h
  rw [hver]
  constructor
  · rintro ⟨hterms, hpays⟩ opened' terms hop' ht
    rw [hop] at hop'; cases hop'
    have hne : terms ≠ [] := by
      rintro rfl; exact absurd (hcl.amount [] ht) (by simp [Json.get, Json.lookup])
    obtain ⟨⟨-, -, -, hrp⟩, hiff⟩ := checkSettlement_cleared H hcl ht hr hpos hskew
    refine ⟨fun _ => ?_, (hiff.1 (hterms terms ht hne)).2⟩
    obtain ⟨st, hst, -, -, -, hp⟩ := hpays opened terms hop ht
    rw [hev] at hst
    simp only [Json.obj.injEq, List.cons.injEq, Prod.mk.injEq, and_true, true_and] at hst
    subst hst
    rw [(get_toPayload r).2.2.2.2.1, hrp] at hp
    exact Json.str.inj hp
  · intro hc
    have hmeets : ∀ terms, tradeTerms opened = some terms →
        intent.payerDid = (partiesOf H opened).publisherDid := by
      intro terms ht
      rcases adapterId_cases a with ha | ha
      · exact (hc opened terms hop ht).1 ha
      · exact (hcl.payer ha).2
    constructor
    · intro terms ht hne
      obtain ⟨-, hiff⟩ := checkSettlement_cleared H hcl ht hr hpos hskew
      exact hiff.2 ⟨fun _ => hmeets terms ht, (hc opened terms hop ht).2⟩
    · intro opened' terms hop' ht
      rw [hop] at hop'; cases hop'
      obtain ⟨⟨h₁, h₂, h₃, h₄⟩, -⟩ := checkSettlement_cleared H hcl ht hr hpos hskew
      obtain ⟨-, g₂, g₃, g₄, g₅, -⟩ := get_toPayload r
      refine ⟨r.toPayload, hev, ?_, ?_, ?_, ?_⟩
      · rw [g₂, h₁, hcl.amount terms ht]
      · rw [g₃, h₂, hcl.currency terms ht]
      · rw [g₄, h₃, hcl.payee terms ht]
      · rw [g₅, h₄, hmeets terms ht]

/-- An intent for the terms of the sample trade. -/
def sampleIntent (payer : String) : SettlementIntent :=
  { tradeId := "t", amountMinor := 5, currency := "USDC", payeeDid := "did:c", payerDid := payer }

def sampleClock : Clock := ⟨10, 10, 10⟩

/-- A verified trade of the publisher `did:p`. -/
def publisherStore : TradeStore := verifiedStore [("publisher_did", .str "did:p")]

/-- Manual settlements of the trade that is verified, with a payer and without. -/
theorem manual_settlements :
    (tradeState checksumHost (publisherStore.getEvents checksumHost "t") =
      .ok (some TradeState.verified.wire) ∧
    (settleTrade checksumHost publisherStore "t" (4 : UInt8) .manual (sampleIntent "did:p") 0
      sampleClock).toOption.isSome = true) ∧
    verifyTrade checksumHost 10 "t" (publisherStore.getEvents checksumHost "t") = .ok () ∧
    (settleTrade checksumHost publisherStore "t" (4 : UInt8) .manual (sampleIntent "") 0
        sampleClock).toOption.map
      (fun r => verifyTrade checksumHost 10 "t" (r.2.getEvents checksumHost "t")) =
        some (.error (.tradeRejected rejectPayerMismatch)) := by
  decide +kernel

/-- A manual settlement is signed, on the trade that is verified. -/
def manualSettlement : PLift (
    tradeState checksumHost (publisherStore.getEvents checksumHost "t") =
      .ok (some TradeState.verified.wire) ∧
    (settleTrade checksumHost publisherStore "t" (4 : UInt8) .manual (sampleIntent "did:p") 0
      sampleClock).toOption.isSome = true) := ⟨manual_settlements.1⟩

theorem settleTrade_verifies_iff_manual :
    ∃ ev s', settleTrade checksumHost publisherStore "t" (4 : UInt8) .manual (sampleIntent "did:p")
        0 sampleClock = .ok (ev, s') ∧
      ((verifyTrade checksumHost 10 "t" (s'.getEvents checksumHost "t") = .ok () ∧
        PaysTerms checksumHost publisherStore "t" ev) ↔
      SettlesCleanly checksumHost publisherStore "t" .manual (sampleIntent "did:p")) := by
  obtain ⟨hverified, hsettled⟩ := manualSettlement.down
  obtain ⟨⟨ev, s'⟩, h⟩ := isOk_of_isSome hsettled
  exact ⟨ev, s', h, settleTrade_verifies_iff checksumHost hverified h (by decide) (by decide)⟩

/-- A manual settlement without a payer, on the same trade. -/
def unpaidSettlement : PLift (
    verifyTrade checksumHost 10 "t" (publisherStore.getEvents checksumHost "t") = .ok () ∧
    (settleTrade checksumHost publisherStore "t" (4 : UInt8) .manual (sampleIntent "") 0
        sampleClock).toOption.map
      (fun r => verifyTrade checksumHost 10 "t" (r.2.getEvents checksumHost "t")) =
        some (.error (.tradeRejected rejectPayerMismatch))) := ⟨manual_settlements.2⟩

/-- A manual settlement without a payer is signed and stored, and `verify_trade`
    then rejects the trade. -/
theorem settleTrade_unpaid_publisher :
    verifyTrade checksumHost 10 "t" (publisherStore.getEvents checksumHost "t") = .ok () ∧
    (settleTrade checksumHost publisherStore "t" (4 : UInt8) .manual (sampleIntent "") 0
        sampleClock).toOption.map
      (fun r => verifyTrade checksumHost 10 "t" (r.2.getEvents checksumHost "t")) =
        some (.error (.tradeRejected rejectPayerMismatch)) :=
  unpaidSettlement.down

end NthDao
