/-
  Intent, cart and payment (`cart_satisfies_intent` of `nth_dao/mandate/cart.py`,
  `payment_satisfies_cart` and `complete_triad_chain` of
  `nth_dao/mandate/payment.py`).

  * `cartSatisfiesIntent`, `paymentSatisfiesCart` and `completeTriadChain`, with the
    reasons they give and the exceptions that they let out;
  * `cartGates`, `paymentGates`, `chainGates`: their checks as gates, and
    `completeTriadChain_follows`.
-/
import NthDao.Mandate.Integrity
import NthDao.Py.Decimal

namespace NthDao.Mandate

open Py Gates

variable (H : Host) (quote : Quoted → String)

/-! ## The parts of a mandate -/

/-- `x or []`. -/
def orEmpty (v : Json) : Json := if truthy v then v else .arr []

/-- `mandate.get("issuer", "")`. -/
def issuer (m : Fields) : Json := Json.getD m "issuer" (.str "")

/-- A field of `credentialSubject`. -/
def subjectField (m : Fields) (key : String) (default : Json) : Json :=
  Json.getD (subject m).fields key default

def cartTotal (cart : Fields) : Json := subjectField cart "total" (.obj [])
def cartValue (cart : Fields) : Json := Json.getD (cartTotal cart).fields "value" (.str "")
def cartCurrency (cart : Fields) : Json := Json.getD (cartTotal cart).fields "currency" (.str "")
def cartMethods (cart : Fields) : Json := orEmpty (subjectField cart "settlement_methods" (.arr []))
def constraints (intent : Fields) : Json := subjectField intent "constraints" (.obj [])
def maxAmount (intent : Fields) : Json := Json.get (constraints intent).fields "max_amount"
def maxValue (intent : Fields) : Json := Json.getD (maxAmount intent).fields "value" (.str "")
def maxCurrency (intent : Fields) : Json := Json.getD (maxAmount intent).fields "currency" (.str "")
def settlementChoice (payment : Fields) : Json := subjectField payment "settlement_choice" (.str "")
def payee (payment : Fields) : Json := subjectField payment "id" (.str "")

/-! ## The checks they share -/

/-- `f"{v[:16]}"`, `none` where the slice raises. -/
def sliced : Json → Option String
  | .str s => some (String.ofList ((chars s).take 16))
  | .arr xs => some (toStr H.isprintable (.arr (xs.take 16)))
  | _ => none

/-- A document names the digest of another one, or the reason shows the start of both. -/
def checkDigest (declared : Json) (actual : String) (reason : String → String → String) :
    Check Unit :=
  if declared.eqStr actual then return ()
  else match sliced H declared with
    | some text => .error (.refused (reason text (String.ofList ((chars actual).take 16))))
    | none => .error (.raised "TypeError")

/-- The payer is the issuer of the intent. -/
def checkContinuity (intent payment : Fields) : Check Unit :=
  require (truthy (issuer intent) && eqv (issuer intent) (issuer payment))
    (.refused ("issuer continuity broken: intent.issuer=" ++ repr_ H (issuer intent) ++
      " != payment.issuer=" ++ repr_ H (issuer payment) ++
      " (a different DAO cannot hijack an authorisation)"))

/-- The signature of a mandate, where it has not been checked before. -/
def checkSigned (requireSigned : Bool) (label : String) (kind : Kind) (m : Fields) : Check Unit :=
  if requireSigned then (verifyMandate H quote kind m).mapError (Stop.relabel (label ++ ·))
  else .ok ()

/-- A finite decimal. -/
def readAmount (label : String) (v : Json) : Check Decimal :=
  match decimalOf v with
  | .error e => .error (.raised e)
  | .ok none => .error (.refused (label ++ " not a valid decimal: " ++ repr_ H v))
  | .ok (some d) =>
    if d.isFinite then .ok d
    else .error (.refused (label ++ " must be finite, got " ++ repr_ H v))

/-- A list of `constraints`; the empty one allows nothing. -/
def allowList (intent : Fields) (key nothing : String) : Check (List Json) :=
  match Json.lookup (constraints intent).fields key with
  | none => .error (.refused ("intent." ++ key ++ " missing (malformed intent)"))
  | some (.arr []) => .error (.refused ("intent." ++ key ++ " is empty (fail-closed by issuer); no " ++
      nothing ++ " is authorised"))
  | some (.arr (x :: xs)) => .ok (x :: xs)
  | some _ => .error (.refused ("intent." ++ key ++ " must be a list"))

/-- What `for m in v` goes through, `none` where it raises. -/
def iterate : Json → Option (List Json)
  | .arr xs => some xs
  | .str s => some ((chars s).map fun c => .str (String.singleton c))
  | .obj kvs => some (kvs.map fun p => .str p.1)
  | _ => none

/-- `x in v`, `none` where it raises. -/
def isIn (x : Json) : Json → Option Bool
  | .arr xs => some (xs.any (eqv x))
  | .str s => match x with
    | .str t => some (decide (chars t <:+: chars s))
    | _ => none
  | .obj kvs => match x with
    | .str t => some (kvs.any fun p => p.1 == t)
    | .arr _ | .obj _ => none
    | _ => some false
  | _ => none

/-! ## The functions -/

/-- `cart_satisfies_intent`. -/
def cartSatisfiesIntent (cart intent : Fields) (requireSigned : Bool) : Check Unit := do
  checkSigned H quote requireSigned "intent must be signed: " intentKind intent
  checkSigned H quote requireSigned "cart must be signed: " cartKind cart
  require (subject cart).isObj (.refused "cart.credentialSubject malformed")
  let actual ← mandateDigest H intent
  checkDigest H (subjectField cart "intent_mandate_digest" (.str "")) actual fun declared actual =>
    "intent digest mismatch: cart binds to " ++ declared ++ "..., intent digest is " ++ actual ++ "..."
  let _ ← expect (if (subject intent).isObj then some () else none) (.raised "AttributeError")
  require (constraints intent).isObj (.refused "intent.credentialSubject.constraints malformed")
  require (cartTotal cart).isObj (.refused "cart.total malformed")
  let value ← readAmount H "cart.total.value" (cartValue cart)
  require value.isPositive
    (.refused ("cart.total.value must be positive, got " ++ repr_ H (cartValue cart)))
  require ((maxAmount intent).isObj && truthy (maxAmount intent))
    (.refused "intent.max_amount missing (malformed intent)")
  require (eqv (cartCurrency cart) (maxCurrency intent)) (.refused ("currency mismatch: cart " ++
    repr_ H (cartCurrency cart) ++ " != intent max_amount " ++ repr_ H (maxCurrency intent)))
  let max ← readAmount H "intent.max_amount.value" (maxValue intent)
  require (value.le max) (.refused ("total exceeds budget: cart " ++ value.str ++ " " ++
    toStr H.isprintable (cartCurrency cart) ++ " > intent max " ++ max.str ++ " " ++
    toStr H.isprintable (maxCurrency intent)))
  let counterparties ← allowList intent "allowed_counterparties" "counterparty"
  require (counterparties.any (eqv (issuer cart))) (.refused ("counterparty " ++
    repr_ H (issuer cart) ++ " not in intent allowed_counterparties list"))
  let allowed ← allowList intent "allowed_settlement_methods" "settlement rail"
  let methods ← expect (iterate (cartMethods cart)) (.raised "TypeError")
  require (methods.any fun m => allowed.any (eqv m)) (.refused ("no overlap between cart methods " ++
    toStr H.isprintable (cartMethods cart) ++ " and intent allowed_settlement_methods " ++
    toStr H.isprintable (.arr allowed)))

/-- `payment_satisfies_cart`. -/
def paymentSatisfiesCart (payment cart : Fields) (intent : Option Fields) (requireSigned : Bool) :
    Check Unit := do
  checkSigned H quote requireSigned "payment must be signed: " paymentKind payment
  checkSigned H quote requireSigned "cart must be signed: " cartKind cart
  require (subject payment).isObj (.refused "payment.credentialSubject malformed")
  let actual ← mandateDigest H cart
  checkDigest H (subjectField payment "cart_mandate_digest" (.str "")) actual fun declared actual =>
    "cart digest mismatch: payment binds to " ++ declared ++ "..., cart digest is " ++ actual ++ "..."
  require (subject cart).isObj (.refused "cart.credentialSubject malformed")
  let offered ← expect (isIn (settlementChoice payment) (cartMethods cart)) (.raised "TypeError")
  require offered (.refused ("settlement_choice " ++ repr_ H (settlementChoice payment) ++
    " not in cart's offered methods " ++ toStr H.isprintable (cartMethods cart)))
  require (eqv (payee payment) (issuer cart)) (.refused ("payee mismatch: payment.subject.id=" ++
    repr_ H (payee payment) ++ " but cart.issuer=" ++ repr_ H (issuer cart) ++
    " - payment would redirect funds to a third party"))
  match intent with
  | none => return ()
  | some intent => do
    checkSigned H quote requireSigned "intent must be signed: " intentKind intent
    checkContinuity H intent payment

/-- A mandate that is not expired. -/
def checkStatus (label : String) : ExpiryStatus → Check Unit
  | .valid => .ok ()
  | .expired => .error (.refused (label ++ ": expired"))
  | .malformed => .error (.refused (label ++ ": malformed validUntil"))

/-- `complete_triad_chain` of objects, with the moment that `now` or the clock names. -/
def completeTriadChain (fromisoformat : String → Option Moment) (now : Moment)
    (intent cart payment : Fields) : Check Unit := do
  checkContinuity H intent payment
  require (subject cart).isObj (.refused "cart vs intent: cart.credentialSubject malformed")
  let actual ← mandateDigest H intent
  checkDigest H (subjectField cart "intent_mandate_digest" (.str "")) actual fun declared actual =>
    "cart vs intent: digest mismatch (" ++ declared ++ "... != " ++ actual ++ "...)"
  require (subject payment).isObj (.refused "payment vs cart: payment.credentialSubject malformed")
  let actual ← mandateDigest H cart
  checkDigest H (subjectField payment "cart_mandate_digest" (.str "")) actual fun declared actual =>
    "payment vs cart: digest mismatch (" ++ declared ++ "... != " ++ actual ++ "...)"
  -- the three statuses are worked out before the first is looked at
  let intentStatus ← expiryStatus fromisoformat now intent
  let cartStatus ← expiryStatus fromisoformat now cart
  let paymentStatus ← expiryStatus fromisoformat now payment
  checkStatus "intent" intentStatus
  checkStatus "cart" cartStatus
  checkStatus "payment" paymentStatus
  (verifyMandate H quote intentKind intent).mapError (Stop.relabel ("intent: " ++ ·))
  (verifyMandate H quote cartKind cart).mapError (Stop.relabel ("cart: " ++ ·))
  (cartSatisfiesIntent H quote cart intent false).mapError (Stop.relabel ("cart vs intent: " ++ ·))
  (verifyMandate H quote paymentKind payment).mapError (Stop.relabel ("payment: " ++ ·))
  (paymentSatisfiesCart H quote payment cart (some intent) false).mapError
    (Stop.relabel ("payment vs cart: " ++ ·))

/-! ## Gates -/

/-- A value that reads as a finite decimal. -/
def amount (v : Json) : Option Decimal :=
  match decimalOf v with
  | .ok (some d) => if d.isFinite then some d else none
  | _ => none

/-- A list that is not empty. -/
def allowed (intent : Fields) (key : String) : Option (List Json) :=
  match Json.lookup (constraints intent).fields key with
  | some (.arr (x :: xs)) => some (x :: xs)
  | _ => none

/-- A field names the digest of a document. -/
def binds (declared : Json) (document : Fields) : Bool :=
  (documentHash H (stripProof document)).any fun d => declared.eqStr d

/-- The gates of a digest: the document can be hashed, and what is named in its
    place can be shown. -/
def digestGates (declared : Json) (document : Fields) : List Gate :=
  [{ readable := (documentHash H (stripProof document)).isSome },
    ⟨binds H declared document || (sliced H declared).isSome, binds H declared document⟩]

/-- The gate of an amount. -/
def amountGate (v : Json) : Gate := ⟨(decimalOf v).toOption.isSome, (amount v).isSome⟩

/-- The gate of the payer. -/
def continuityGate (intent payment : Fields) : Gate :=
  { passes := truthy (issuer intent) && eqv (issuer intent) (issuer payment) }

/-- The gates of `cart_satisfies_intent` for mandates that have been verified. -/
def cartGates (cart intent : Fields) : List Gate :=
  [{ passes := (subject cart).isObj }] ++
    digestGates H (subjectField cart "intent_mandate_digest" (.str "")) intent ++
    [{ readable := (subject intent).isObj }, { passes := (constraints intent).isObj },
      { passes := (cartTotal cart).isObj }, amountGate (cartValue cart),
      { passes := (amount (cartValue cart)).any Decimal.isPositive },
      { passes := (maxAmount intent).isObj && truthy (maxAmount intent) },
      { passes := eqv (cartCurrency cart) (maxCurrency intent) }, amountGate (maxValue intent),
      { passes := (amount (cartValue cart)).any fun v => (amount (maxValue intent)).any v.le },
      { passes := (allowed intent "allowed_counterparties").isSome },
      { passes := (allowed intent "allowed_counterparties").any fun l => l.any (eqv (issuer cart)) },
      { passes := (allowed intent "allowed_settlement_methods").isSome },
      { readable := (iterate (cartMethods cart)).isSome },
      { passes := (iterate (cartMethods cart)).any fun l => l.any fun m =>
          (allowed intent "allowed_settlement_methods").any fun l => l.any (eqv m) }]

/-- The gates of `payment_satisfies_cart` for mandates that have been verified. -/
def paymentGates (payment cart intent : Fields) : List Gate :=
  [{ passes := (subject payment).isObj }] ++
    digestGates H (subjectField payment "cart_mandate_digest" (.str "")) cart ++
    [{ passes := (subject cart).isObj },
      { readable := (isIn (settlementChoice payment) (cartMethods cart)).isSome },
      { passes := (isIn (settlementChoice payment) (cartMethods cart)).any id },
      { passes := eqv (payee payment) (issuer cart) }, continuityGate intent payment]

variable {H quote}

theorem checkDigest_follows {declared : Json} {document : Fields} {actual : String}
    (h : documentHash H (stripProof document) = some actual) (reason : String → String → String) :
    Gates.Follows (checkDigest H declared actual reason)
      [⟨binds H declared document || (sliced H declared).isSome, binds H declared document⟩] := by
  have hb : binds H declared document = declared.eqStr actual := by
    rw [binds, h]
    rfl
  rw [hb]
  unfold checkDigest
  cases hs : sliced H declared with
  | some text => exact .require_or (e := "") rfl
  | none => exact .require_or (r := "") rfl

/-- A digest is worked out and compared. -/
theorem digest_follows {α : Type} (declared : Json) (document : Fields)
    (reason : String → String → String) {rest : Check α} {gs : List Gate} (hrest : Gates.Follows rest gs) :
    Gates.Follows (do
      let actual ← mandateDigest H document
      checkDigest H declared actual reason
      rest) (digestGates H declared document ++ gs) := by
  have hread : Gates.Follows (mandateDigest H document)
      [{ readable := (documentHash H (stripProof document)).isSome }] := .read _ _
  refine hread.bind fun actual ha => ?_
  rw [mandateDigest, expect_eq_ok] at ha
  exact (checkDigest_follows ha reason).bind fun _ _ => hrest

theorem readAmount_follows (label : String) (v : Json) :
    Gates.Follows (readAmount H label v) [amountGate v] := by
  unfold readAmount amountGate amount
  cases decimalOf v with
  | error e => exact ⟨by simp [Open, Except.toOption], by simp [Raised, Handled, Except.toOption]⟩
  | ok o =>
    cases o with
    | none => exact ⟨by simp [Open, Except.toOption], by simp [Raised, Handled, Except.toOption]⟩
    | some d =>
      cases hd : d.isFinite with
      | false => exact ⟨by simp [Open, hd], by simp [Raised, Handled, Except.toOption, hd]⟩
      | true => exact ⟨by simp [Open, Except.toOption, hd], by simp [Raised, Handled, Except.toOption, hd]⟩

theorem readAmount_eq_ok {label : String} {v : Json} {d : Decimal} :
    readAmount H label v = .ok d ↔ amount v = some d := by
  unfold readAmount amount
  cases decimalOf v with
  | error e => simp
  | ok o =>
    cases o with
    | none => simp
    | some d' => cases hd : d'.isFinite <;> simp [hd]

theorem allowList_follows (intent : Fields) (key nothing : String) :
    Gates.Follows (allowList intent key nothing) [{ passes := (allowed intent key).isSome }] ∧
      ∀ l, allowList intent key nothing = .ok l ↔ allowed intent key = some l := by
  unfold allowList allowed
  have refused : ∀ reason : String, Gates.Follows (.error (.refused reason) : Check (List Json))
      [{ passes := (Option.none : Option (List Json)).isSome }] :=
    fun reason => ⟨by simp [Open], by simp [Raised, Handled]⟩
  cases Json.lookup (constraints intent).fields key with
  | none => exact ⟨refused _, by simp⟩
  | some v =>
    cases v with
    | arr xs =>
      cases xs with
      | nil => exact ⟨refused _, by simp⟩
      | cons x xs => exact ⟨⟨by simp [Open], by simp [Raised, Handled]⟩, by simp⟩
    | _ => exact ⟨refused _, by simp⟩

theorem cartSatisfiesIntent_follows (cart intent : Fields) :
    Gates.Follows (cartSatisfiesIntent H quote cart intent false) (cartGates H cart intent) := by
  unfold cartSatisfiesIntent cartGates
  refine (Follows.require _ _).bind fun _ _ => digest_follows _ _ _ ?_
  have hsubject : Gates.Follows (expect (if (subject intent).isObj then some () else none)
      (.raised "AttributeError") : Check Unit) [{ readable := (subject intent).isObj }] := by
    cases (subject intent).isObj
    · exact .read none _
    · exact .read (some ()) _
  refine hsubject.bind fun _ _ => (Follows.require _ _).bind fun _ _ =>
    (Follows.require _ _).bind fun _ _ => (readAmount_follows _ _).bind fun value hvalue => ?_
  rw [readAmount_eq_ok] at hvalue
  rw [hvalue]
  refine (Follows.require _ _).bind fun _ _ => (Follows.require _ _).bind fun _ _ =>
    (Follows.require _ _).bind fun _ _ => (readAmount_follows _ _).bind fun max hmax => ?_
  rw [readAmount_eq_ok] at hmax
  rw [hmax]
  refine (Follows.require _ _).bind fun _ _ =>
    (allowList_follows intent "allowed_counterparties" _).1.bind fun counterparties hc => ?_
  rw [(allowList_follows intent "allowed_counterparties" _).2] at hc
  rw [hc]
  refine (Follows.require _ _).bind fun _ _ =>
    (allowList_follows intent "allowed_settlement_methods" _).1.bind fun methods hm => ?_
  rw [(allowList_follows intent "allowed_settlement_methods" _).2] at hm
  rw [hm]
  refine (Follows.read _ _).bind fun l hl => ?_
  rw [expect_eq_ok] at hl
  rw [hl]
  exact Follows.require _ _

theorem checkContinuity_follows (intent payment : Fields) :
    Gates.Follows (checkContinuity H intent payment) [continuityGate intent payment] :=
  Follows.require _ _

theorem paymentSatisfiesCart_follows (payment cart intent : Fields) :
    Gates.Follows (paymentSatisfiesCart H quote payment cart (some intent) false)
      (paymentGates H payment cart intent) := by
  unfold paymentSatisfiesCart paymentGates
  refine (Follows.require _ _).bind fun _ _ => digest_follows _ _ _ ?_
  refine (Follows.require _ _).bind fun _ _ => (Follows.read _ _).bind fun offered ho => ?_
  rw [expect_eq_ok] at ho
  rw [ho]
  exact (Follows.require _ _).bind fun _ _ => (Follows.require _ _).bind fun _ _ =>
    checkContinuity_follows intent payment

/-! ## The whole chain -/

variable (fromisoformat : String → Option Moment)

variable (H quote) in
/-- The gates of `complete_triad_chain`. -/
def chainGates (now : Moment) (intent cart payment : Fields) : List Gate :=
  [continuityGate intent payment, { passes := (subject cart).isObj }] ++
    digestGates H (subjectField cart "intent_mandate_digest" (.str "")) intent ++
    [{ passes := (subject payment).isObj }] ++
    digestGates H (subjectField payment "cart_mandate_digest" (.str "")) cart ++
    [intent, cart, payment].map (fun m => { readable := comparable fromisoformat now m }) ++
    [intent, cart, payment].map (fun m => { passes := isFresh fromisoformat now m }) ++
    proofGates H quote intentKind intent ++ proofGates H quote cartKind cart ++
    cartGates H cart intent ++ proofGates H quote paymentKind payment ++
    paymentGates H payment cart intent

variable {fromisoformat}

theorem checkStatus_follows {now : Moment} {m : Fields} {status : ExpiryStatus} {label : String}
    (h : expiryStatus fromisoformat now m = .ok status) :
    Gates.Follows (checkStatus label status) [{ passes := isFresh fromisoformat now m }] := by
  have hiff := expiryStatus_valid_iff h
  cases hf : isFresh fromisoformat now m with
  | true =>
    obtain rfl := hiff.2 hf
    exact ⟨by simp [Open, checkStatus], by simp [Raised, Handled, checkStatus]⟩
  | false =>
    have hne : status ≠ .valid := fun hv => by simp [hf] at hiff; exact hiff hv
    cases status with
    | valid => exact absurd rfl hne
    | expired => exact ⟨by simp [Open, checkStatus], by simp [Raised, Handled, checkStatus]⟩
    | malformed => exact ⟨by simp [Open, checkStatus], by simp [Raised, Handled, checkStatus]⟩

/-- `complete_triad_chain` does what its gates say. -/
theorem completeTriadChain_follows (now : Moment) (intent cart payment : Fields) :
    Gates.Follows (completeTriadChain H quote fromisoformat now intent cart payment)
      (chainGates H quote fromisoformat now intent cart payment) := by
  unfold completeTriadChain chainGates
  simp only [List.append_assoc, List.map_cons, List.map_nil]
  refine (checkContinuity_follows intent payment).bind fun _ _ => ?_
  refine (Follows.require _ _).bind fun _ _ => digest_follows _ _ _ ?_
  refine (Follows.require _ _).bind fun _ _ => digest_follows _ _ _ ?_
  refine (expiryStatus_follows now intent).bind fun s₁ h₁ => ?_
  refine (expiryStatus_follows now cart).bind fun s₂ h₂ => ?_
  refine (expiryStatus_follows now payment).bind fun s₃ h₃ => ?_
  refine (checkStatus_follows h₁).bind fun _ _ => (checkStatus_follows h₂).bind fun _ _ =>
    (checkStatus_follows h₃).bind fun _ _ => ?_
  refine ((verifyMandate_follows intentKind intent).relabel _).bind fun _ _ => ?_
  refine ((verifyMandate_follows cartKind cart).relabel _).bind fun _ _ => ?_
  refine ((cartSatisfiesIntent_follows cart intent).relabel _).bind fun _ _ => ?_
  refine ((verifyMandate_follows paymentKind payment).relabel _).bind fun _ _ => ?_
  exact (paymentSatisfiesCart_follows payment cart intent).relabel _

end NthDao.Mandate
