/-
  Settlement intents, adapters and the independent settlement check
  (`nth_dao/commerce/settlement.py`).

  * `SettlementIntent` with `validate` and `settlementIdempotencyKey`, the key
    that binds one payment to the obligation (the memo excluded);
  * `proofEncodedSize`: the resource limits of a provider proof;
  * `Adapter.settle`: the manual adapter, the x402 adapter over a payment rail
    (lookup, then pay, then the receipt checks of `resultFromReceipt`), and the
    lookup-only adapter of the reconciler;
  * `verifySettlement`: the check of a recorded settlement against the terms.

  A rail is a parameter: what `lookup` and `pay` return or raise.  The detail
  texts of the failures are left out; no code reads them.
-/
import NthDao.CanonicalJson
import NthDao.Identity
import NthDao.Py.Check
import NthDao.Py.Str

namespace NthDao

open Py

/-! ## Constants -/

def adapterManual : String := "manual"
def adapterX402Testnet : String := "x402-testnet"
def knownAdapters : List String := [adapterManual, adapterX402Testnet]
def supportedCurrencies : List String := ["USDC", "NTH-TEST", "credit"]
def x402TestNetworks : List String :=
  ["eip155:84532", "eip155:11155111", "eip155:421614", "solana:EtWTRABZaYq6iMfeYKouRu166VU2xqa1",
    "stellar:testnet", "aptos:2", "hedera:testnet", "tvm:-3"]
def settlementPayloadFields : List String :=
  ["adapter_id", "amount_minor", "currency", "payee_did", "payer_did", "tx_ref", "network",
    "proof", "settled_at_ms"]
def maxNetworkChars : ℕ := 128
def maxTxRefChars : ℕ := 512
def maxProofBytes : ℕ := 64 * 1024
def maxProofDepth : ℕ := 32
def maxProofNodes : ℕ := 4096
def maxProviderReferenceChars : ℕ := 256
def maxSettlementFutureSkewMs : ℤ := 5 * 60 * 1000

def rejectUnknownAdapter : String := "settlement-unknown-adapter"
def rejectAmountInvalid : String := "settlement-amount-invalid"
def rejectAmountMismatch : String := "settlement-amount-mismatch"
def rejectCurrencyUnsupported : String := "settlement-currency-unsupported"
def rejectCurrencyMismatch : String := "settlement-currency-mismatch"
def rejectPayeeMismatch : String := "settlement-payee-mismatch"
def rejectPayerMismatch : String := "settlement-payer-mismatch"
def rejectTxRefMissing : String := "settlement-tx-ref-missing"
def rejectNetworkMissing : String := "settlement-network-missing"
def rejectNetworkNotTestnet : String := "settlement-network-not-testnet"
def rejectProofMissing : String := "settlement-proof-missing"
def rejectReceiptInvalid : String := "settlement-receipt-invalid"
def rejectReceiptNotConfirmed : String := "settlement-receipt-not-confirmed"
def rejectReceiptTooLarge : String := "settlement-receipt-too-large"
def rejectReceiptNotFound : String := "settlement-receipt-not-found"
def rejectIdempotencyKeyMismatch : String := "settlement-idempotency-key-mismatch"
def rejectIntentInvalid : String := "settlement-intent-invalid"
def rejectSchemaInvalid : String := "settlement-schema-invalid"
def rejectSettledAtInvalid : String := "settlement-settled-at-invalid"
def rejectTradeMismatch : String := "settlement-trade-mismatch"
def rejectSettlementTradeNotFound : String := "settlement-trade-not-found"
def rejectBadState : String := "settlement-bad-state"
def rejectWrongSettler : String := "settlement-wrong-settler"

/-- `SettlementFailed`. -/
structure SettlementFailed where
  reason : String
  paymentMayHaveCommitted : Bool := false
  providerReference : String := ""
  evidenceDigest : String := ""
  deriving DecidableEq

/-- The exceptions of the commerce code and of a payment rail. -/
inductive Exc where
  | settlementFailed (f : SettlementFailed)
  | tradeRejected (reason : String)
  | tradeConflict
  | attemptRejected (reason : String)
  | attemptConflict
  | valueError
  | typeError
  | attributeError
  | timeoutError
  | connectionError
  | osError
  | runtimeError
  deriving DecidableEq

/-- `SettlementFailed(reason, …)`. -/
def failed (reason : String) : Exc := .settlementFailed { reason }

/-! ## Coercions of untrusted fields -/

/-- `_safe_int`. -/
def safeInt (v : Json) : Option ℤ := v.asInt

/-- `_safe_str`. -/
def safeStr (v : Json) : String := v.asStr.getD ""

/-- `_positive_amount`. -/
def positiveAmount (v : Json) : Option ℤ :=
  match safeInt v with
  | some n => if n ≤ 0 then none else some n
  | none => none

/-- `_is_wire_token`. -/
def isWireToken (value : String) (maxChars : ℕ) : Bool :=
  1 ≤ len value && len value ≤ maxChars &&
    (chars value).all fun c => 0x21 ≤ c.toNat && c.toNat ≤ 0x7E

/-! ## Proof limits -/

/-- The two kinds of errors of `_proof_encoded_size`. -/
inductive ProofError where
  | limitExceeded
  | notJson
  deriving DecidableEq

/-- The walk over the stack of values with their depth.  `budget` is the number
    of nodes left.  A value is a tree here; a container met for the second time
    is an `other`. -/
def proofWalk : ℕ → List (Json × ℕ) → Except ProofError Unit
  | _, [] => .ok ()
  | 0, _ :: _ => .error .limitExceeded
  | budget + 1, (value, depth) :: stack =>
    match value with
    | .null | .bool _ => proofWalk budget stack
    | .int n => if Nat.size n.natAbs > maxProofBytes * 4 then .error .limitExceeded
      else proofWalk budget stack
    | .str s => if len s > maxProofBytes then .error .limitExceeded
      else proofWalk budget stack
    | .other _ => .error .notJson
    | .arr xs =>
      if depth ≥ maxProofDepth ∧ xs ≠ [] then .error .limitExceeded
      else if xs.length > maxProofNodes then .error .limitExceeded
      else proofWalk budget ((xs.map (·, depth + 1)).reverse ++ stack)
    | .obj kvs =>
      if depth ≥ maxProofDepth ∧ kvs ≠ [] then .error .limitExceeded
      else if kvs.length > maxProofNodes then .error .limitExceeded
      else if kvs.any fun p => len p.1 > maxProofBytes then .error .limitExceeded
      else proofWalk budget ((kvs.map fun p => (p.2, depth + 1)).reverse ++ stack)

/-- `_proof_encoded_size`. -/
def proofEncodedSize (proof : Json) : Except ProofError ℕ :=
  if !proof.isObj then .error .notJson
  else match proofWalk maxProofNodes [(proof, 0)] with
    | .error e => .error e
    | .ok () => match canonicalJson (.obj [("proof", proof)]) with
      | none => .error .notJson
      | some encoded =>
        if encoded.length > maxProofBytes then .error .limitExceeded else .ok encoded.length

/-! ## Intents -/

/-- `SettlementIntent`. -/
structure SettlementIntent where
  tradeId : String
  amountMinor : ℤ
  currency : String
  payeeDid : String
  payerDid : String := ""
  memo : String := ""
  deriving DecidableEq

/-- The text bounds of a field: `value` is empty only if allowed, and not too
    long. -/
def textOk (value : String) (maxLength : ℕ) (allowEmpty : Bool) : Bool :=
  (allowEmpty || value != "") && len value ≤ maxLength

/-- A DID without whitespace. -/
def didOk (value : String) : Bool :=
  value == "" || (startsWith "did:" value && !(chars value).any isSpace)

/-- `SettlementIntent.validate`. -/
def SettlementIntent.validate (i : SettlementIntent) : Except Exc Unit := do
  require (textOk i.tradeId 256 false) (failed rejectIntentInvalid)
  require (textOk i.currency 32 false) (failed rejectIntentInvalid)
  require (textOk i.payeeDid 512 false) (failed rejectIntentInvalid)
  require (textOk i.payerDid 512 true) (failed rejectIntentInvalid)
  require (textOk i.memo 2048 true) (failed rejectIntentInvalid)
  require (didOk i.payeeDid) (failed rejectIntentInvalid)
  require (didOk i.payerDid) (failed rejectIntentInvalid)
  require (0 < i.amountMinor) (failed rejectAmountInvalid)
  require (supportedCurrencies.contains i.currency) (failed rejectCurrencyUnsupported)
  require (i.payeeDid != "") (failed rejectPayeeMismatch)

variable (H : Host)

/-- The object hashed into the idempotency key. -/
def SettlementIntent.keyBody (i : SettlementIntent) : Json :=
  .obj [("kind", .str "nth/commerce-settlement-intent@1"), ("trade_id", .str i.tradeId),
    ("amount_minor", .int i.amountMinor), ("currency", .str i.currency),
    ("payee_did", .str i.payeeDid), ("payer_did", .str i.payerDid)]

/-- `settlement_idempotency_key`. -/
def settlementIdempotencyKey (i : SettlementIntent) : Except Exc String := do
  i.validate
  let b ← expect (canonicalJson i.keyBody) .valueError
  return "nth-settlement:v1:sha256:" ++ H.sha256 b

/-! ## Results and receipts -/

/-- `SettlementResult`. -/
structure SettlementResult where
  adapterId : String
  amountMinor : ℤ
  currency : String
  payeeDid : String
  payerDid : String := ""
  txRef : String := ""
  network : String := ""
  proof : Fields := []
  settledAtMs : ℤ := 0

/-- `SettlementResult.to_payload`. -/
def SettlementResult.toPayload (r : SettlementResult) : Fields :=
  [("adapter_id", .str r.adapterId), ("amount_minor", .int r.amountMinor),
    ("currency", .str r.currency), ("payee_did", .str r.payeeDid), ("payer_did", .str r.payerDid),
    ("tx_ref", .str r.txRef), ("network", .str r.network), ("proof", .obj r.proof),
    ("settled_at_ms", .int r.settledAtMs)]

/-- `RailReceipt`: its fields are whatever the rail puts there. -/
structure RailReceipt where
  txRef : Json
  status : Json
  proof : Json
  idempotencyKey : Json
  deriving DecidableEq

/-- What a rail returns: a receipt, or an object of another type. -/
inductive RailReturn where
  | receipt (r : RailReceipt)
  | notReceipt (typeName : String)
  deriving DecidableEq

/-- `PaymentRail`: the declared network, and what `lookup` and `pay` return or
    raise. -/
structure PaymentRail where
  network : Json
  lookup : (idempotencyKey : String) → Except Exc (Option RailReturn)
  pay : (payeeDid : String) → (amountMinor : ℤ) → (currency memo idempotencyKey : String) →
    Except Exc RailReturn

/-- `type(v).__name__`. -/
def typeName : Json → String
  | .null => "NoneType"
  | .bool _ => "bool"
  | .int _ => "int"
  | .str _ => "str"
  | .arr _ => "list"
  | .obj _ => "dict"
  | .other _ => "float"

/-- The number of entries of a container. -/
def entries : Json → Option ℕ
  | .arr xs => some xs.length
  | .obj kvs => some kvs.length
  | _ => none

/-- The first `n` characters of a string. -/
def clip (n : ℕ) (s : String) : String := String.ofList ((chars s).take n)

/-- `"sha256:" + sha256(canonical_json(v)).hexdigest()`. -/
def digestOf (v : Json) : Option String := (canonicalJson v).map fun b => "sha256:" ++ H.sha256 b

/-- `_receipt_evidence`. -/
def receiptEvidence : RailReturn → String × String
  | .notReceipt t => ("", (digestOf H (.obj [("receipt_type", .str (clip 128 t))])).getD "")
  | .receipt r =>
    let txRef := safeStr r.txRef
    let providerReference := if isWireToken txRef maxProviderReferenceChars then txRef else ""
    let key := safeStr r.idempotencyKey
    let body : Fields :=
      [("receipt_type", .str "RailReceipt"), ("tx_ref", .str providerReference),
        ("tx_ref_length", .int (len txRef)),
        ("idempotency_key", .str (if isWireToken key 128 then key else "")),
        ("idempotency_key_length", .int (len key)), ("status", .str (clip 128 (safeStr r.status))),
        ("proof_type", .str (typeName r.proof))]
    let body := match proofEncodedSize r.proof, digestOf H (.obj [("proof", r.proof)]) with
      | .ok _, some d => body ++ [("proof_digest", .str d)]
      | _, _ => match entries r.proof with
        | some n => body ++ [("proof_entries", .int n)]
        | none => body
    (providerReference, (digestOf H (.obj body)).getD "")

/-- `_committed_receipt_failure`. -/
def committedReceiptFailure (reason : String) (receipt : RailReturn) : Exc :=
  .settlementFailed
    { reason, paymentMayHaveCommitted := true,
      providerReference := (receiptEvidence H receipt).1,
      evidenceDigest := (receiptEvidence H receipt).2 }

/-! ## Adapters -/

/-- `X402SettlementAdapter._network`. -/
def railNetwork (rail : PaymentRail) : Except Exc String := do
  let network := safeStr rail.network
  require (network != "") (failed rejectNetworkMissing)
  require (isWireToken network maxNetworkChars) (failed rejectReceiptInvalid)
  require (x402TestNetworks.contains network) (failed rejectNetworkNotTestnet)
  return network

/-- The reason a proof over the limits is refused with. -/
def proofReason : ProofError → String
  | .limitExceeded => rejectReceiptTooLarge
  | .notJson => rejectReceiptInvalid

/-- `X402SettlementAdapter._result_from_receipt` at clock reading `now`. -/
def resultFromReceipt (intent : SettlementIntent) (ret : RailReturn) (network : String) (now : ℤ) :
    Except Exc SettlementResult := do
  let key ← settlementIdempotencyKey H intent
  match ret with
  | .notReceipt _ => .error (committedReceiptFailure H rejectReceiptInvalid ret)
  | .receipt r =>
    require (r.idempotencyKey.eqStr key)
      (committedReceiptFailure H rejectIdempotencyKeyMismatch ret)
    require (r.status.eqStr "confirmed") (committedReceiptFailure H rejectReceiptNotConfirmed ret)
    let txRef := safeStr r.txRef
    require (txRef != "") (committedReceiptFailure H rejectTxRefMissing ret)
    require (isWireToken txRef maxTxRefChars) (committedReceiptFailure H rejectReceiptInvalid ret)
    -- a proof of another type than `dict` is read as an empty one
    let proof := r.proof.fields
    let _ ← (proofEncodedSize (.obj proof)).mapError
      fun e => committedReceiptFailure H (proofReason e) ret
    let proofKey := safeStr (Json.get proof "idempotency_key")
    require (proofKey == "" || proofKey == key)
      (committedReceiptFailure H rejectIdempotencyKeyMismatch ret)
    require (proof.any fun p => p.1 != "idempotency_key")
      (committedReceiptFailure H rejectProofMissing ret)
    return { adapterId := adapterX402Testnet, amountMinor := intent.amountMinor,
             currency := intent.currency, payeeDid := intent.payeeDid, payerDid := intent.payerDid,
             txRef, network, proof := Json.insert proof "idempotency_key" (.str key),
             settledAtMs := now }

/-- `X402SettlementAdapter.lookup_settlement`. -/
def lookupSettlement (rail : PaymentRail) (intent : SettlementIntent) (now : ℤ) :
    Except Exc (Option SettlementResult) := do
  intent.validate
  let network ← railNetwork rail
  let key ← settlementIdempotencyKey H intent
  match ← rail.lookup key with
  | none => return none
  | some ret => return some (← resultFromReceipt H intent ret network now)

/-- The receipt of an intent: an existing one, else the payment is made. -/
def lookupOrPay (rail : PaymentRail) (intent : SettlementIntent) (key : String) :
    Except Exc RailReturn := do
  match ← rail.lookup key with
  | some ret => return ret
  | none => rail.pay intent.payeeDid intent.amountMinor intent.currency intent.memo key

/-- `X402SettlementAdapter.settle`. -/
def x402Settle (rail : PaymentRail) (intent : SettlementIntent) (now : ℤ) :
    Except Exc SettlementResult := do
  intent.validate
  let network ← railNetwork rail
  let key ← settlementIdempotencyKey H intent
  let ret ← lookupOrPay rail intent key
  resultFromReceipt H intent ret network now

/-- `ManualSettlementAdapter.settle`. -/
def manualSettle (intent : SettlementIntent) (now : ℤ) : Except Exc SettlementResult := do
  intent.validate
  return { adapterId := adapterManual, amountMinor := intent.amountMinor,
           currency := intent.currency, payeeDid := intent.payeeDid, payerDid := intent.payerDid,
           settledAtMs := now }

/-- The settlement adapters: manual, x402, and the `_LookupOnlyX402Adapter` of
    the reconciler. -/
inductive Adapter where
  | manual
  | x402 (rail : PaymentRail)
  | lookupOnly (rail : PaymentRail)

/-- `adapter.adapter_id`. -/
def Adapter.adapterId : Adapter → String
  | .manual => adapterManual
  | .x402 _ | .lookupOnly _ => adapterX402Testnet

/-- `adapter.settle(intent)` at clock reading `now`. -/
def Adapter.settle (intent : SettlementIntent) (now : ℤ) : Adapter → Except Exc SettlementResult
  | .manual => manualSettle intent now
  | .x402 rail => x402Settle H rail intent now
  | .lookupOnly rail => do
    match ← lookupSettlement H rail intent now with
    | some r => .ok r
    | none => .error (failed rejectReceiptNotFound)

/-! ## Independent verification -/

/-- The part of `verify_settlement` on an external-rail record. -/
def verifyExternal (s : Fields) (payer : String) : Except String Unit := do
  require (payer != "") rejectPayerMismatch
  let txRef := safeStr (Json.get s "tx_ref")
  require (txRef != "") rejectTxRefMissing
  require (isWireToken txRef maxTxRefChars) rejectReceiptInvalid
  let network := safeStr (Json.get s "network")
  require (network != "") rejectNetworkMissing
  require (isWireToken network maxNetworkChars) rejectReceiptInvalid
  require (x402TestNetworks.contains network) rejectNetworkNotTestnet
  let proof := Json.get s "proof"
  require (proof.isObj && proof != .obj []) rejectProofMissing
  let _ ← (proofEncodedSize proof).mapError proofReason

/-- The terms a settlement is checked against. -/
structure Expected where
  amountMinor : ℤ
  currency : String
  payeeDid : String
  payerDid : String

/-- `verify_settlement` at clock reading `now`: `.ok ()` is `(True, "ok")`,
    `.error r` is `(False, r)`. -/
def verifySettlement (now : ℤ) (settlement : Json) (e : Expected) : Except String Unit := do
  let s := settlement.fields
  require (settlement.isObj && Json.keysEq s settlementPayloadFields) rejectSchemaInvalid
  let adapterId := safeStr (Json.get s "adapter_id")
  require (knownAdapters.contains adapterId) rejectUnknownAdapter
  let amount ← expect (positiveAmount (Json.get s "amount_minor")) rejectAmountInvalid
  require (amount == e.amountMinor) rejectAmountMismatch
  let currency := safeStr (Json.get s "currency")
  require (supportedCurrencies.contains currency) rejectCurrencyUnsupported
  require (currency == e.currency) rejectCurrencyMismatch
  let payee := safeStr (Json.get s "payee_did")
  require (startsWith "did:" payee && len payee ≤ 512 && !(chars payee).any isSpace)
    rejectSchemaInvalid
  require (payee == e.payeeDid) rejectPayeeMismatch
  let payer ← expect (Json.get s "payer_did").asStr rejectSchemaInvalid
  require (len payer ≤ 512 && (payer == "" || startsWith "did:" payer) &&
    !(chars payer).any isSpace) rejectSchemaInvalid
  require (e.payerDid == "" || payer == e.payerDid) rejectPayerMismatch
  let settledAt ← expect (positiveAmount (Json.get s "settled_at_ms")) rejectSettledAtInvalid
  require (settledAt ≤ now + maxSettlementFutureSkewMs) rejectSettledAtInvalid
  if adapterId == adapterX402Testnet then verifyExternal s payer
  else require (Json.get s "tx_ref" == .str "" && Json.get s "network" == .str "" &&
    Json.get s "proof" == .obj []) rejectSchemaInvalid

/-! ## What acceptance means -/

/-- A payer text that `verify_settlement` admits. -/
def PayerOk (payer : String) : Prop :=
  payer.length ≤ 512 ∧ (payer ≠ "" → startsWith "did:" payer = true) ∧
    payer.toList.any isSpace = false

/-- A payee text that `verify_settlement` admits. -/
def PayeeOk (payee : String) : Prop :=
  startsWith "did:" payee = true ∧ payee.length ≤ 512 ∧ payee.toList.any isSpace = false

/-- The record `s` with payer `payer` settles the terms `e`. -/
structure Settles (now : ℤ) (s : Fields) (e : Expected) (payer : String) : Prop where
  keys : Json.keysEq s settlementPayloadFields = true
  adapter : safeStr (Json.get s "adapter_id") ∈ knownAdapters
  amount : Json.get s "amount_minor" = .int e.amountMinor
  amount_pos : 0 < e.amountMinor
  currency : Json.get s "currency" = .str e.currency
  supported : e.currency ∈ supportedCurrencies
  payee : Json.get s "payee_did" = .str e.payeeDid
  payee_ok : PayeeOk e.payeeDid
  payer_eq : Json.get s "payer_did" = .str payer
  payer_ok : PayerOk payer
  payer_expected : e.payerDid ≠ "" → payer = e.payerDid
  settledAt : ∃ t, Json.get s "settled_at_ms" = .int t ∧ 0 < t ∧ t ≤ now + maxSettlementFutureSkewMs
  external : safeStr (Json.get s "adapter_id") = adapterX402Testnet → verifyExternal s payer = .ok ()
  internal : safeStr (Json.get s "adapter_id") ≠ adapterX402Testnet →
    Json.get s "tx_ref" = .str "" ∧ Json.get s "network" = .str "" ∧ Json.get s "proof" = .obj []

theorem positiveAmount_eq_some {v : Json} {n : ℤ} :
    positiveAmount v = some n ↔ v = .int n ∧ 0 < n := by
  unfold positiveAmount safeInt
  cases v <;> simp [Json.asInt]
  omega

/-- A string field that is not empty is that string. -/
theorem safeStr_eq {v : Json} {s : String} (hs : s ≠ "") : safeStr v = s ↔ v = .str s := by
  cases v <;> simp [safeStr, Json.asStr, Ne.symm hs]

theorem ne_empty_of_mem_currencies {c : String} (h : c ∈ supportedCurrencies) : c ≠ "" := by
  rintro rfl; exact absurd h (by decide)

theorem ne_empty_of_startsWith {s : String} (h : startsWith "did:" s = true) : s ≠ "" := by
  rintro rfl; exact absurd h (by decide)

/-- **What `verify_settlement` accepts**: exactly the records that settle the
    terms. -/
theorem verifySettlement_ok_iff {now : ℤ} {j : Json} {e : Expected} :
    verifySettlement now j e = .ok () ↔ ∃ s payer, j = .obj s ∧ Settles now s e payer := by
  unfold verifySettlement
  simp only [require_bind_eq_ok, expect_bind_eq_ok, Bool.and_eq_true, Bool.or_eq_true, beq_iff_eq,
    List.contains_iff_mem, positiveAmount_eq_some, Json.asStr_eq_some, decide_eq_true_iff,
    Bool.not_eq_eq_eq_not, Bool.not_true, chars_eq, len_eq]
  constructor
  · rintro ⟨⟨ho, hk⟩, ha, amount, ⟨hamt, hpos⟩, rfl, hs, hc, ⟨⟨hp₁, hp₂⟩, hp₃⟩, hp, payer, hpayer,
      ⟨⟨h₁, h₂⟩, h₃⟩, h₄, t, ⟨ht, htpos⟩, htle, hrest⟩
    cases j with
    | obj s =>
      rw [Json.fields_obj] at hrest
      have hc' := (safeStr_eq (ne_empty_of_mem_currencies (hc ▸ hs))).1 hc
      have hp' := (safeStr_eq (ne_empty_of_startsWith (hp ▸ hp₁))).1 hp
      rw [hc] at hs
      rw [hp] at hp₁ hp₂ hp₃
      refine ⟨s, payer, rfl, hk, ha, hamt, hpos, hc', hs, hp', ⟨hp₁, hp₂, hp₃⟩, hpayer,
        ⟨h₁, h₂.resolve_left, h₃⟩, h₄.resolve_left, ⟨t, ht, htpos, htle⟩, ?_, ?_⟩
      · intro hx; rwa [if_pos hx] at hrest
      · intro hx
        rw [if_neg hx, require_eq_ok] at hrest
        simpa [and_assoc] using hrest
    | _ => cases ho
  · rintro ⟨s, payer, rfl, h⟩
    have hc : safeStr (Json.get s "currency") = e.currency := by rw [h.currency]; rfl
    have hp : safeStr (Json.get s "payee_did") = e.payeeDid := by rw [h.payee]; rfl
    obtain ⟨t, ht, htpos, htle⟩ := h.settledAt
    simp only [Json.fields_obj, hc, hp]
    refine ⟨⟨rfl, h.keys⟩, h.adapter, e.amountMinor, ⟨h.amount, h.amount_pos⟩, rfl, h.supported,
      trivial, ⟨⟨h.payee_ok.1, h.payee_ok.2.1⟩, h.payee_ok.2.2⟩, trivial, payer, h.payer_eq,
      ⟨⟨h.payer_ok.1, or_iff_not_imp_left.2 h.payer_ok.2.1⟩, h.payer_ok.2.2⟩,
      or_iff_not_imp_left.2 h.payer_expected, t, ⟨ht, htpos⟩, htle, ?_⟩
    by_cases hx : safeStr (Json.get s "adapter_id") = adapterX402Testnet
    · exact (if_pos hx).trans (h.external hx)
    · obtain ⟨h₁, h₂, h₃⟩ := h.internal hx
      exact (if_neg hx).trans (require_eq_ok.2 (by simp [h₁, h₂, h₃]))

/-! ## What the adapters return -/

/-- What `validate` accepts. -/
structure SettlementIntent.Valid (i : SettlementIntent) : Prop where
  tradeId : i.tradeId ≠ "" ∧ i.tradeId.length ≤ 256
  amount : 0 < i.amountMinor
  currency : i.currency ∈ supportedCurrencies
  payee : PayeeOk i.payeeDid
  payer : PayerOk i.payerDid

theorem textOk_iff {v : String} {n : ℕ} {b : Bool} :
    textOk v n b = true ↔ (b = true ∨ v ≠ "") ∧ v.length ≤ n := by
  simp [textOk]

theorem didOk_iff {v : String} :
    didOk v = true ↔ v = "" ∨ (startsWith "did:" v = true ∧ v.toList.any isSpace = false) := by
  simp [didOk]

theorem SettlementIntent.valid_of_validate {i : SettlementIntent} (h : i.validate = .ok ()) :
    i.Valid := by
  unfold validate at h
  simp only [require_bind_eq_ok, require_eq_ok, textOk_iff, didOk_iff, Bool.false_eq_true, false_or,
    true_or, true_and, decide_eq_true_iff, List.contains_iff_mem, bne_iff_ne] at h
  obtain ⟨h₁, -, h₃, h₄, -, h₆, h₇, h₈, h₉, h₁₀⟩ := h
  have hp := h₆.resolve_left h₁₀
  refine ⟨h₁, h₈, h₉, ⟨hp.1, h₃.2, hp.2⟩, h₄, ?_, ?_⟩
  · intro hne; exact (h₇.resolve_left hne).1
  · rcases h₇ with h₇ | h₇
    · rw [h₇]; rfl
    · exact h₇.2

theorem settlementIdempotencyKey_eq_ok {i : SettlementIntent} {key : String} :
    settlementIdempotencyKey H i = .ok key ↔ i.validate = .ok () ∧
      ∃ b, canonicalJson i.keyBody = some b ∧ "nth-settlement:v1:sha256:" ++ H.sha256 b = key := by
  unfold settlementIdempotencyKey
  rw [unit_bind_eq_ok]
  simp only [expect_bind_eq_ok, pure_eq_ok]

/-- An intent without its memo has the same key. -/
theorem settlementIdempotencyKey_memo {i : SettlementIntent} {key : String}
    (h : settlementIdempotencyKey H i = .ok key) :
    settlementIdempotencyKey H { i with memo := "" } = .ok key := by
  obtain ⟨hv, b, hb, hkey⟩ := (settlementIdempotencyKey_eq_ok H).1 h
  refine (settlementIdempotencyKey_eq_ok H).2 ⟨?_, b, hb, hkey⟩
  unfold SettlementIntent.validate at hv ⊢
  simp only [require_bind_eq_ok] at hv ⊢
  exact ⟨hv.1, hv.2.1, hv.2.2.1, hv.2.2.2.1, by decide, hv.2.2.2.2.2⟩

/-- What the manual adapter returns. -/
theorem manualSettle_eq_ok {i : SettlementIntent} {now : ℤ} {r : SettlementResult} :
    manualSettle i now = .ok r ↔ i.validate = .ok () ∧ r =
      { adapterId := adapterManual, amountMinor := i.amountMinor, currency := i.currency,
        payeeDid := i.payeeDid, payerDid := i.payerDid, settledAtMs := now } := by
  unfold manualSettle
  rw [unit_bind_eq_ok, pure_eq_ok, eq_comm (a := r)]

/-- The result `resultFromReceipt` builds from the proof `proof`. -/
def x402Result (i : SettlementIntent) (key txRef network : String) (proof : Fields) (now : ℤ) :
    SettlementResult :=
  { adapterId := adapterX402Testnet, amountMinor := i.amountMinor, currency := i.currency,
    payeeDid := i.payeeDid, payerDid := i.payerDid, txRef, network,
    proof := Json.insert proof "idempotency_key" (.str key), settledAtMs := now }

/-- What a receipt is turned into. -/
theorem resultFromReceipt_eq_ok {i : SettlementIntent} {ret : RailReturn} {network : String}
    {now : ℤ} {r : SettlementResult} (h : resultFromReceipt H i ret network now = .ok r) :
    ∃ key rc, settlementIdempotencyKey H i = .ok key ∧ ret = .receipt rc ∧
      safeStr rc.txRef ≠ "" ∧ isWireToken (safeStr rc.txRef) maxTxRefChars = true ∧
      (∃ n, proofEncodedSize (.obj rc.proof.fields) = .ok n) ∧
      r = x402Result i key (safeStr rc.txRef) network rc.proof.fields now := by
  unfold resultFromReceipt at h
  rw [bind_eq_ok] at h
  obtain ⟨key, hkey, h⟩ := h
  cases ret with
  | notReceipt t => cases h
  | receipt rc =>
    simp only [require_bind_eq_ok, mapError_bind_eq_ok, pure_eq_ok, bne_iff_ne, ne_eq] at h
    obtain ⟨-, -, h₁, h₂, n, hn, -, -, rfl⟩ := h
    exact ⟨key, rc, hkey, rfl, h₁, h₂, ⟨n, hn⟩, rfl⟩

theorem railNetwork_eq_ok {rail : PaymentRail} {n : String} (h : railNetwork rail = .ok n) :
    n ≠ "" ∧ isWireToken n maxNetworkChars = true ∧ n ∈ x402TestNetworks := by
  unfold railNetwork at h
  simp only [require_bind_eq_ok, pure_eq_ok, bne_iff_ne, List.contains_iff_mem] at h
  obtain ⟨h₁, h₂, h₃, rfl⟩ := h
  exact ⟨h₁, h₂, h₃⟩

/-- What the adapters over a rail return: the receipt the rail gave, checked. -/
theorem railSettle_eq_ok {i : SettlementIntent} {now : ℤ} {r : SettlementResult} {rail : PaymentRail}
    {a : Adapter} (ha : a = .x402 rail ∨ a = .lookupOnly rail) (h : a.settle H i now = .ok r) :
    ∃ network ret, railNetwork rail = .ok network ∧
      resultFromReceipt H i ret network now = .ok r := by
  rcases ha with rfl | rfl
  · rw [Adapter.settle, x402Settle] at h
    simp only [bind_eq_ok] at h
    obtain ⟨-, -, n, hn, k, -, ret, -, hr⟩ := h
    exact ⟨n, ret, hn, hr⟩
  · rw [Adapter.settle, bind_eq_ok] at h
    obtain ⟨o, ho, h⟩ := h
    cases o with
    | none => cases h
    | some r' =>
      cases h
      unfold lookupSettlement at ho
      simp only [bind_eq_ok] at ho
      obtain ⟨-, -, n, hn, k, -, l, -, ho⟩ := ho
      cases l with
      | none => cases ho
      | some ret =>
        simp only [bind_eq_ok, pure_eq_ok, Option.some.injEq] at ho
        obtain ⟨r', hr, rfl⟩ := ho
        exact ⟨n, ret, hn, hr⟩

end NthDao
