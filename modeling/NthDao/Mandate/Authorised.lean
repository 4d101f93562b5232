/-
  What an accepted chain of mandates authorises.

  * `Authorised`: the signatures, the dates, the parties, the amount and the rail of
    a payment that is covered by its intent;
  * `authorised_iff`: the chain keeps this exactly where it can read what it looks
    at and the rail that is chosen is one of the intent's;
  * `chain_unsound`: a digest that is no text lets an exception out, and a rail that
    the intent does not list is accepted beside one that it does.
-/
import NthDao.Mandate.Triad

namespace NthDao.Mandate

open Py Gates

variable {H : Host} {quote : Quoted → String} {fromisoformat : String → Option Moment}
  {now : Moment} {intent cart payment : Fields}

/-! ## Authorised payments -/

/-- The rail that the payment chooses is offered by the cart, and is one that the
    intent allows. -/
def RailAuthorised (intent cart payment : Fields) : Prop :=
  ∃ offered allowed, subjectField cart "settlement_methods" (.arr []) = .arr offered ∧
    Json.lookup (constraints intent).fields "allowed_settlement_methods" = some (.arr allowed) ∧
    (∃ m ∈ offered, eqv (settlementChoice payment) m = true) ∧
    ∃ m ∈ allowed, eqv (settlementChoice payment) m = true

/-- The payment is covered by the intent. -/
structure Authorised (H : Host) (fromisoformat : String → Option Moment) (now : Moment)
    (intent cart payment : Fields) : Prop where
  signed : Signed H intentKind intent ∧ Signed H cartKind cart ∧ Signed H paymentKind payment
  fresh : ∃ current, now = .aware current ∧ ∀ m ∈ [intent, cart, payment],
    ∃ t, deadline fromisoformat m = some t ∧ current ≤ t
  payer : issuer payment = issuer intent
  payee : payee payment = issuer cart ∧ ∃ parties,
    Json.lookup (constraints intent).fields "allowed_counterparties" = some (.arr parties) ∧
      issuer cart ∈ parties
  total : ∃ value max, amount (cartValue cart) = some value ∧ amount (maxValue intent) = some max ∧
    0 < value.value ∧ value.value ≤ max.value ∧ eqv (cartCurrency cart) (maxCurrency intent) = true
  rail : RailAuthorised intent cart payment

/-! ## From the gates -/

theorem eqv_str {v : Json} {s : String} (h : eqv v (.str s) = true) : v = .str s := by
  cases v with
  | str t => rw [beq_iff_eq.1 (h : (t == s) = true)]
  | _ => cases h

theorem str_eqv {v : Json} {s : String} (h : eqv (.str s) v = true) : v = .str s := by
  cases v with
  | str t => rw [beq_iff_eq.1 (h : (s == t) = true)]
  | _ => cases h

theorem Signed.issuer {kind : Kind} {m : Fields} (h : Signed H kind m) :
    ∃ did, issuer m = .str did := by
  obtain ⟨did, _, _, _, _, _, hissuer, -⟩ := h
  refine ⟨did, ?_⟩
  rw [Json.get] at hissuer
  cases hl : Json.lookup m "issuer" with
  | none =>
    rw [hl] at hissuer
    cases hissuer
  | some v =>
    rw [hl] at hissuer
    rw [Mandate.issuer, Json.getD, hl]
    exact hissuer

theorem signed_of_open {kind : Kind} {m : Fields} (h : Open (proofGates H quote kind m)) :
    Signed H kind m := by
  obtain ⟨⟨⟩, hv⟩ := (verifyMandate_follows kind m).passes.2 h
  exact signed_of_verifyMandate hv

theorem amount_finite {v : Json} {d : Decimal} (h : amount v = some d) : d.isFinite = true := by
  unfold amount at h
  split at h
  · split_ifs at h with hf
    cases h
    exact hf
  · cases h

theorem lookup_of_allowed {key : String} {l : List Json} (h : allowed intent key = some l) :
    Json.lookup (constraints intent).fields key = some (.arr l) := by
  unfold allowed at h
  split at h
  next x xs hl =>
    cases h
    exact hl
  next => cases h

theorem isFresh_iff {m : Fields} : isFresh fromisoformat now m = true ↔
    ∃ current t, now = .aware current ∧ deadline fromisoformat m = some t ∧ current ≤ t := by
  unfold isFresh
  cases now with
  | naive => simp
  | aware current => cases deadline fromisoformat m <;> simp

/-- The amount and the parties that the gates of a cart let pass. -/
theorem total_of_open (h : Open (cartGates H cart intent)) :
    ∃ value max, amount (cartValue cart) = some value ∧ amount (maxValue intent) = some max ∧
      0 < value.value ∧ value.value ≤ max.value ∧
      eqv (cartCurrency cart) (maxCurrency intent) = true := by
  simp only [cartGates, digestGates, amountGate, Open, List.cons_append, List.nil_append,
    List.forall_mem_cons, Option.any_eq_true] at h
  obtain ⟨-, -, -, -, -, -, -, ⟨-, value, hv, hpos⟩, -, ⟨-, hcurrency⟩, -, ⟨-, value', hv', max, hm, hle⟩,
    -⟩ := h
  rw [hv] at hv'
  cases hv'
  refine ⟨value, max, hv, hm, ?_, ?_, hcurrency⟩
  · exact (Decimal.isPositive_iff (amount_finite hv)).1 hpos
  · exact (Decimal.le_iff (amount_finite hv) (amount_finite hm)).1 hle

theorem party_of_open (h : Open (cartGates H cart intent)) : ∃ parties,
    Json.lookup (constraints intent).fields "allowed_counterparties" = some (.arr parties) ∧
      parties.any (eqv (issuer cart)) = true := by
  simp only [cartGates, digestGates, Open, List.cons_append, List.nil_append,
    List.forall_mem_cons, Option.any_eq_true] at h
  obtain ⟨-, -, -, -, -, -, -, -, -, -, -, -, -, ⟨-, parties, hp, hany⟩, -⟩ := h
  exact ⟨parties, lookup_of_allowed hp, hany⟩

theorem methods_of_open (h : Open (cartGates H cart intent)) : ∃ methods,
    Json.lookup (constraints intent).fields "allowed_settlement_methods" = some (.arr methods) := by
  simp only [cartGates, digestGates, Open, List.cons_append, List.nil_append,
    List.forall_mem_cons, Option.isSome_iff_exists] at h
  obtain ⟨-, -, -, -, -, -, -, -, -, -, -, -, -, -, ⟨-, methods, hm⟩, -⟩ := h
  exact ⟨methods, lookup_of_allowed hm⟩

/-- What the gates of a payment let pass. -/
theorem payment_of_open (h : Open (paymentGates H payment cart intent)) :
    isIn (settlementChoice payment) (cartMethods cart) = some true ∧
      eqv (payee payment) (issuer cart) = true ∧ eqv (issuer intent) (issuer payment) = true := by
  simp only [paymentGates, digestGates, continuityGate, Open, List.cons_append, List.nil_append,
    List.forall_mem_cons, Option.any_eq_true, Bool.and_eq_true] at h
  obtain ⟨-, -, -, -, -, ⟨-, offered, ho, ht⟩, ⟨-, hp⟩, ⟨-, -, hi⟩, -⟩ := h
  refine ⟨?_, hp, hi⟩
  rw [ho, show offered = true from ht]

/-- Where all other gates let pass, the rail is the question. -/
theorem rail_iff (hc : Open (cartGates H cart intent))
    (hp : Open (paymentGates H payment cart intent)) :
    RailAuthorised intent cart payment ↔
      (∃ offered, subjectField cart "settlement_methods" (.arr []) = .arr offered) ∧
      ∃ methods, Json.lookup (constraints intent).fields "allowed_settlement_methods" =
        some (.arr methods) ∧ methods.any (eqv (settlementChoice payment)) = true := by
  constructor
  · rintro ⟨offered, methods, ho, hm, -, hany⟩
    exact ⟨⟨offered, ho⟩, methods, hm, List.any_eq_true.2 hany⟩
  · rintro ⟨⟨offered, ho⟩, methods, hm, hany⟩
    refine ⟨offered, methods, ho, hm, ?_, List.any_eq_true.1 hany⟩
    have hin := (payment_of_open hp).1
    rw [cartMethods, orEmpty, ho] at hin
    split_ifs at hin
    · exact List.any_eq_true.1 (Option.some.inj hin)
    · cases hin

theorem authorised_of_open (h : Open (chainGates H quote fromisoformat now intent cart payment))
    (hr : RailAuthorised intent cart payment) :
    Authorised H fromisoformat now intent cart payment := by
  simp only [chainGates, open_append] at h
  obtain ⟨⟨⟨⟨⟨⟨-, hfresh⟩, hi⟩, hc⟩, hcart⟩, hp⟩, hpay⟩ := h
  have hsi := signed_of_open hi
  have hsc := signed_of_open hc
  have hsp := signed_of_open hp
  obtain ⟨-, hpayee, hpayer⟩ := payment_of_open hpay
  obtain ⟨did, hdid⟩ := hsc.issuer
  refine ⟨⟨hsi, hsc, hsp⟩, ?_, ?_, ⟨?_, ?_⟩, total_of_open hcart, hr⟩
  · simp only [Open, List.map_cons, List.map_nil, List.forall_mem_cons, isFresh_iff] at hfresh
    obtain ⟨⟨-, current, t₁, hnow, hd₁, hle₁⟩, ⟨-, current₂, t₂, hnow₂, hd₂, hle₂⟩,
      ⟨-, current₃, t₃, hnow₃, hd₃, hle₃⟩, -⟩ := hfresh
    cases hnow.symm.trans hnow₂
    cases hnow.symm.trans hnow₃
    refine ⟨current, hnow, ?_⟩
    simp only [List.forall_mem_cons]
    exact ⟨⟨t₁, hd₁, hle₁⟩, ⟨t₂, hd₂, hle₂⟩, ⟨t₃, hd₃, hle₃⟩,
      fun _ hm => absurd hm List.not_mem_nil⟩
  · obtain ⟨payer, hpayer'⟩ := hsi.issuer
    rw [hpayer'] at hpayer ⊢
    exact str_eqv hpayer
  · rw [hdid] at hpayee ⊢
    exact eqv_str hpayee
  · obtain ⟨parties, hparties, hany⟩ := party_of_open hcart
    refine ⟨parties, hparties, ?_⟩
    obtain ⟨v, hv, he⟩ := List.any_eq_true.1 hany
    rw [hdid] at he ⊢
    exact str_eqv he ▸ hv

/-! ## The chain -/

/-- **Authorised payments**: `complete_triad_chain` lets no exception out and accepts
    only payments that their intents cover, exactly where each gate that is reached
    can read what it looks at, and where, if all gates let pass, the cart lists its
    rails and the intent lists the one that is chosen. -/
theorem authorised_iff :
    ((∀ e, completeTriadChain H quote fromisoformat now intent cart payment ≠ .error (.raised e)) ∧
      (completeTriadChain H quote fromisoformat now intent cart payment = .ok () →
        Authorised H fromisoformat now intent cart payment)) ↔
    Handled (chainGates H quote fromisoformat now intent cart payment) ∧
      (Open (chainGates H quote fromisoformat now intent cart payment) →
        (∃ offered, subjectField cart "settlement_methods" (.arr []) = .arr offered) ∧
        ∃ methods, Json.lookup (constraints intent).fields "allowed_settlement_methods" =
          some (.arr methods) ∧ methods.any (eqv (settlementChoice payment)) = true) := by
  have hf : Gates.Follows (completeTriadChain H quote fromisoformat now intent cart payment) _ :=
    completeTriadChain_follows now intent cart payment
  have hraised : (∀ e, completeTriadChain H quote fromisoformat now intent cart payment ≠
      .error (.raised e)) ↔ Handled (chainGates H quote fromisoformat now intent cart payment) := by
    rw [← not_iff_not, ← hf.raises, Raised]
    push Not
    rfl
  have hok : completeTriadChain H quote fromisoformat now intent cart payment = .ok () ↔
      Open (chainGates H quote fromisoformat now intent cart payment) := by
    rw [← hf.passes]
    exact ⟨fun h => ⟨(), h⟩, fun h => h.elim fun _ h => h⟩
  rw [hraised, hok]
  refine and_congr_right fun _ => forall_congr' fun ho => ?_
  have hparts := ho
  simp only [chainGates, open_append] at hparts
  obtain ⟨⟨⟨-, hcart⟩, -⟩, hpay⟩ := hparts
  rw [← rail_iff hcart hpay]
  exact ⟨fun h => h.rail, authorised_of_open ho⟩

/-! ## Samples -/

def sampleUntil : String := "2030-01-01T00:00:00+00:00"

def sampleIso (s : String) : Option Moment :=
  if s = sampleUntil then some (.aware 1893456000000000) else none

/-- The buyer and the seller. -/
def buyer : String := asDid checksumHost (1 : UInt8)
def seller : String := asDid checksumHost (2 : UInt8)

/-- A mandate without its proof. -/
def unsigned (issuer : String) (subject : Fields) : Fields :=
  [("issuer", .str issuer), ("validUntil", .str sampleUntil), ("credentialSubject", .obj subject)]

/-- Up to 100 for the seller, by one rail. -/
def sampleIntent : Except String Fields :=
  signMandate checksumHost intentKind (1 : UInt8) "t" (unsigned buyer [("constraints", .obj
    [("max_amount", .obj [("value", .str "100.00"), ("currency", .str "USDC")]),
      ("allowed_counterparties", .arr [.str seller]),
      ("allowed_settlement_methods", .arr [.str "x402:usdc"])])])

/-- The seller asks for 50, by that rail or by another one. -/
def sampleCart (intent : Fields) : Except String Fields :=
  signMandate checksumHost cartKind (2 : UInt8) "t" (unsigned seller
    [("intent_mandate_digest", .str ((documentHash checksumHost (stripProof intent)).getD "")),
      ("total", .obj [("value", .str "50.00"), ("currency", .str "USDC")]),
      ("settlement_methods", .arr [.str "x402:usdc", .str "manual:ach"])])

/-- The other rail is chosen. -/
def samplePayment (cart : Fields) : Except String Fields :=
  signMandate checksumHost paymentKind (1 : UInt8) "t" (unsigned buyer [("id", .str seller),
    ("cart_mandate_digest", .str ((documentHash checksumHost (stripProof cart)).getD "")),
    ("settlement_choice", .str "manual:ach")])

/-- Whether the chain of the samples is accepted, and whether its rail is one that
    the intent allows. -/
def sampleChain : Except String (Bool × Bool) := do
  let intent ← sampleIntent
  let cart ← sampleCart intent
  let payment ← samplePayment cart
  let verdict := completeTriadChain checksumHost (fun _ => "") sampleIso (.aware 0) intent cart payment
  return (verdict.toOption.isSome, (allowed intent "allowed_settlement_methods").any fun l =>
    l.any (eqv (settlementChoice payment)))

/-- The chain of the samples is accepted, by a rail that the intent does not allow. -/
def sampleChainAccepted : PLift (sampleChain = .ok (true, false)) := ⟨by decide +kernel⟩

/-- An exception, and a payment by a rail that the intent does not allow. -/
theorem chain_unsound :
    completeTriadChain checksumHost (fun _ => "") sampleIso (.aware 0) [("issuer", .str "a")]
        [("credentialSubject", .obj [("intent_mandate_digest", .int 5)])] [("issuer", .str "a")] =
      .error (.raised "TypeError") ∧
    ∃ intent cart payment,
      completeTriadChain checksumHost (fun _ => "") sampleIso (.aware 0) intent cart payment = .ok () ∧
        ¬ RailAuthorised intent cart payment := by
  refine ⟨by rfl, ?_⟩
  have h := sampleChainAccepted.down
  simp only [sampleChain, bind_eq_ok, pure_eq_ok, Prod.mk.injEq] at h
  obtain ⟨intent, -, cart, -, payment, -, hok, hrail⟩ := h
  refine ⟨intent, cart, payment, eq_ok_of_isSome hok, ?_⟩
  rintro ⟨_, methods, _, hm, _, hany⟩
  rw [allowed, hm] at hrail
  cases methods with
  | nil => simp at hany
  | cons m ms =>
    rw [Option.any_some, List.any_eq_false] at hrail
    obtain ⟨m', hm', he⟩ := hany
    exact hrail m' hm' he

end NthDao.Mandate
