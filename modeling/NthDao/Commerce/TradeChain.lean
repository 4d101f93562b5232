/-
  What `verify_trade` accepts.

  * `Entry`: the log entry an event stands for; `Signs` reads a stored event as
    a signed entry, `Admits` is the transition table with the roles and terms;
  * `verifyStep_ok_iff`: one turn of the loop accepts exactly the events that
    sign an admitted entry;
  * `verifyFrom_append`: verification composes along the chain;
  * `Path`: the entries of an accepted chain, from the opening one on.
-/
import NthDao.Commerce.Trade

namespace NthDao

open Py

variable (H : Host)

/-! ## Wire names -/

theorem TradeState.wire_injective : Function.Injective TradeState.wire := by
  intro a b h; cases a <;> cases b <;> first | rfl | exact absurd h (by decide)

theorem stateText_injective : Function.Injective stateText := by
  rintro (_ | a) (_ | b) h
  · rfl
  · cases b <;> exact absurd h (by decide)
  · cases a <;> exact absurd h (by decide)
  · rw [TradeState.wire_injective h]

theorem EventType.wire_injective : Function.Injective EventType.wire := by
  intro a b h; cases a <;> cases b <;> first | rfl | exact absurd h (by decide)

@[simp] theorem EventType.ofWire_eq_some {s : String} {t : EventType} :
    EventType.ofWire s = some t ↔ s = t.wire := by
  constructor
  · intro h
    have hb := List.find?_some h
    exact (beq_iff_eq.1 hb).symm
  · rintro rfl; cases t <;> decide

/-! ## Entries -/

/-- The log entry that an event stands for. -/
structure Entry where
  type : EventType
  actor : String
  payload : Fields
  new : TradeState

/-- The stored event `raw` is the entry `e` of trade `tid`, signed by its actor. -/
structure Signs (tid : String) (raw : Json) (e : Entry) : Prop where
  isObj : raw.isObj = true
  keys : Json.keysEq raw.fields tradeEventFields = true
  tradeId : (TradeEvent.fromDict raw.fields).tradeId = .str tid
  type : (TradeEvent.fromDict raw.fields).type = .str e.type.wire
  actor : (TradeEvent.fromDict raw.fields).actorDid = .str e.actor
  payload : (TradeEvent.fromDict raw.fields).payload = .obj e.payload
  new : (TradeEvent.fromDict raw.fields).newState = .str e.new.wire
  size : ∃ b, canonicalJson (.obj e.payload) = some b ∧ b.length ≤ maxTradePayloadBytes
  signed : verifyTradeEvent H (TradeEvent.fromDict raw.fields) = .ok ()

/-- `raw` stands at index `i`, after the state `s`. -/
structure Follows (i : ℕ) (s : Option TradeState) (raw : Json) : Prop where
  seq : (TradeEvent.fromDict raw.fields).seq.eqInt i = true
  prev : (TradeEvent.fromDict raw.fields).prevState = .str (stateText s)

/-- The transition table, the roles and the terms admit the entry `e`. -/
structure Admits (now : ℤ) (opened : Fields) (p : Progress) (e : Entry) : Prop where
  legal : p.state ∈ legalPrior e.type
  new : expectedNewState e.type e.payload = some e.new
  role : e.type ≠ .tradeOpened → e.actor ∈ roleDids p.parties e.type
  terms : e.type ≠ .tradeOpened → checkTerms H now opened p.parties e.type e.payload = .ok ()

/-- The progress after an entry: the opening one binds the parties. -/
def Progress.next (p : Progress) (e : Entry) : Progress :=
  if e.type = .tradeOpened then { parties := partiesOf H e.payload, state := some e.new }
  else { p with state := some e.new }

@[simp] theorem Progress.next_state (p : Progress) (e : Entry) : (p.next H e).state = some e.new := by
  unfold next; split_ifs <;> rfl

theorem Progress.next_parties {p : Progress} {e : Entry} (h : e.type ≠ .tradeOpened) :
    (p.next H e).parties = p.parties := by
  rw [next, if_neg h]

theorem fromDict_toDict (e : TradeEvent) : TradeEvent.fromDict e.toDict.fields = e := by
  simp [TradeEvent.fromDict, TradeEvent.toDict, Json.get, Json.lookup_cons]

theorem keysEq_toDict (e : TradeEvent) : Json.keysEq e.toDict.fields tradeEventFields = true := by
  simp [TradeEvent.toDict, Json.keysEq, tradeEventFields]

theorem verifyTradeEvent_actor {e : TradeEvent} (h : verifyTradeEvent H e = .ok ()) :
    ∃ did sig b, e.actorDid = .str did ∧ e.eventSig = .str sig ∧
      canonicalJson e.signingBody = some b ∧ verifySig H did b sig = true := by
  unfold verifyTradeEvent at h
  simp only [expect_bind_eq_ok, require_bind_eq_ok, require_eq_ok, Json.asStr_eq_some] at h
  obtain ⟨did, hd, -, -, -, sig, hs, -, b, hb, hv⟩ := h
  exact ⟨did, sig, b, hd, hs, hb, hv⟩

theorem isObj_iff {j : Json} : j.isObj = true ↔ ∃ kvs, j = .obj kvs := by
  cases j <;> simp [Json.isObj]

/-- **One turn of the loop** accepts exactly the events that follow the chain
    and sign an admitted entry. -/
theorem verifyStep_ok_iff {now : ℤ} {tid : String} {opened : Fields} {i : ℕ} {p p' : Progress}
    {raw : Json} : verifyStep H now tid opened i p raw = .ok p' ↔
      ∃ e, Signs H tid raw e ∧ Follows i p.state raw ∧ Admits H now opened p e ∧
        p' = p.next H e := by
  unfold verifyStep
  simp only [require_eq_ok, expect_bind_eq_ok, unit_bind_eq_ok, Bool.and_eq_true,
    Json.eqStr_iff, Option.bind_eq_some_iff, Json.asStr_eq_some, EventType.ofWire_eq_some,
    List.contains_iff_mem, decide_eq_true_iff]
  constructor
  · rintro ⟨⟨ho, hk⟩, ht, hp, b, hb, hlen, hseq, hsig, hprev, -, type, ⟨_, htype, rfl⟩, hlegal, new,
      hnew, hns, hrest⟩
    obtain ⟨payload, hp⟩ := isObj_iff.1 hp
    obtain ⟨did, -, -, hdid, -⟩ := verifyTradeEvent_actor H hsig
    rw [hp] at hb hnew
    have hs : Signs H tid raw ⟨type, did, payload, new⟩ :=
      ⟨ho, hk, ht, htype, hdid, hp, hns, ⟨b, hb, hlen⟩, hsig⟩
    refine ⟨_, hs, ⟨hseq, hprev⟩, ?_⟩
    by_cases ho : type = .tradeOpened
    · rw [if_pos ho, pure_eq_ok, hp] at hrest
      refine ⟨⟨hlegal, hnew, fun h => absurd ho h, fun h => absurd ho h⟩, ?_⟩
      rw [← hrest, Progress.next, if_pos ho]; rfl
    · rw [if_neg ho, require_bind_eq_ok, mapError_bind_eq_ok] at hrest
      obtain ⟨hrole, ⟨⟩, hterms, hp'⟩ := hrest
      rw [List.any_eq_true] at hrole
      obtain ⟨d, hd, hde⟩ := hrole
      rw [hdid, Json.eqStr_iff] at hde
      cases hde
      rw [hp] at hterms
      refine ⟨⟨hlegal, hnew, fun _ => hd, fun _ => hterms⟩, ?_⟩
      rw [← pure_eq_ok.1 hp', Progress.next, if_neg ho]
  · rintro ⟨e, hs, hf, ha, rfl⟩
    obtain ⟨b, hb, hlen⟩ := hs.size
    refine ⟨⟨hs.isObj, hs.keys⟩, hs.tradeId, by rw [hs.payload]; rfl, b, by rw [hs.payload, hb],
      hlen, hf.seq, hs.signed, hf.prev, by rw [hs.type]; rfl, e.type, ⟨_, hs.type, rfl⟩, ha.legal,
      e.new, by rw [hs.payload]; exact ha.new, hs.new, ?_⟩
    rw [hs.payload, Json.fields_obj, Progress.next]
    by_cases ho : e.type = .tradeOpened
    · rw [if_pos ho, if_pos ho]; rfl
    · rw [if_neg ho, if_neg ho, require_bind_eq_ok, mapError_bind_eq_ok]
      refine ⟨List.any_eq_true.2 ⟨e.actor, ha.role ho, ?_⟩, (), ha.terms ho, rfl⟩
      rw [hs.actor, Json.eqStr_iff]

/-! ## The chain -/

theorem verifyFrom_append {now : ℤ} {tid : String} {opened : Fields} (es fs : List Json) {i : ℕ}
    {p p' : Progress} : verifyFrom H now tid opened i p (es ++ fs) = .ok p' ↔
      ∃ q, verifyFrom H now tid opened i p es = .ok q ∧
        verifyFrom H now tid opened (i + es.length) q fs = .ok p' := by
  induction es generalizing i p with
  | nil => simp [verifyFrom]
  | cons raw es ih =>
    have hlen : i + 1 + es.length = i + (raw :: es).length := by simp; omega
    rw [List.cons_append, verifyFrom, bind_eq_ok]
    simp only [ih, hlen, verifyFrom, bind_eq_ok]
    constructor
    · rintro ⟨a, ha, q, hq, h⟩; exact ⟨q, ⟨a, ha, hq⟩, h⟩
    · rintro ⟨q, ⟨a, ha, hq⟩, h⟩; exact ⟨a, ha, q, hq, h⟩

theorem verifyFrom_singleton {now : ℤ} {tid : String} {opened : Fields} {i : ℕ} {p p' : Progress}
    {raw : Json} : verifyFrom H now tid opened i p [raw] = .ok p' ↔
      verifyStep H now tid opened i p raw = .ok p' := by
  simp [verifyFrom, bind_eq_ok]

theorem verifyTrade_ok_iff {now : ℤ} {tid : String} {es : Option (List Json)} :
    verifyTrade H now tid es = .ok () ↔ ∃ e l, es = some (e :: l) ∧ chainFits (e :: l) = true ∧
      ∃ p, verifyFrom H now tid (payloadOf e) 0 {} (e :: l) = .ok p := by
  rcases es with _ | _ | ⟨e, l⟩
  · simp [verifyTrade]
  · simp [verifyTrade]
  · rw [verifyTrade, require_bind_eq_ok, bind_eq_ok]
    constructor
    · rintro ⟨hf, p, hp, -⟩; exact ⟨e, l, rfl, hf, p, hp⟩
    · rintro ⟨_, _, ⟨⟩, hf, p, hp⟩; exact ⟨hf, p, hp, rfl⟩

/-- The entries after the opening one, from the state `s` on: each is legal in
    the state before it and signed by a party bound to its role. -/
inductive Path (p : Parties) : TradeState → List Entry → Prop
  | nil (s : TradeState) : Path p s []
  | cons {s : TradeState} {e : Entry} {es : List Entry} :
      some s ∈ legalPrior e.type → expectedNewState e.type e.payload = some e.new →
      e.actor ∈ roleDids p e.type → Path p e.new es → Path p s (e :: es)

theorem type_ne_opened {s : TradeState} {t : EventType} (h : some s ∈ legalPrior t) :
    t ≠ .tradeOpened := by
  rintro rfl; simp [legalPrior] at h

theorem type_eq_opened {t : EventType} (h : none ∈ legalPrior t) : t = .tradeOpened := by
  cases t <;> first | rfl | simp [legalPrior] at h

/-- The terms check of the entries, with the parties and terms of the opening one. -/
def TermsChecked (now : ℤ) (opened : Fields) (p : Parties) (e : Entry) : Prop :=
  checkTerms H now opened p e.type e.payload = .ok ()

/-- Past the opening event the loop follows a path. -/
theorem path_of_verifyFrom {now : ℤ} {tid : String} {opened : Fields} {p' : Progress} :
    ∀ {events : List Json} {i : ℕ} {p : Progress} {s : TradeState}, p.state = some s →
      verifyFrom H now tid opened i p events = .ok p' →
      ∃ es, List.Forall₂ (Signs H tid) events es ∧ Path p.parties s es ∧
        (∀ e ∈ es, TermsChecked H now opened p.parties e)
  | [], _, _, s, _, _ => ⟨[], .nil, .nil s, by simp⟩
  | raw :: events, i, p, s, hs, h => by
    rw [verifyFrom, bind_eq_ok] at h
    obtain ⟨q, hq, h⟩ := h
    obtain ⟨e, hsig, -, hadm, rfl⟩ := (verifyStep_ok_iff H).1 hq
    have hlegal := hs ▸ hadm.legal
    have hne := type_ne_opened hlegal
    obtain ⟨es, hf, hp, ht⟩ := path_of_verifyFrom (Progress.next_state H p e) h
    rw [Progress.next_parties H hne] at hp ht
    refine ⟨e :: es, .cons hsig hf, .cons hlegal hadm.new (hadm.role hne) hp, ?_⟩
    exact List.forall_mem_cons.2 ⟨hadm.terms hne, ht⟩

/-- The opening event alone binds the parties. -/
theorem parties_of_verifyFrom {now : ℤ} {tid : String} {opened : Fields} {p' : Progress} :
    ∀ {events : List Json} {i : ℕ} {p : Progress} {s : TradeState}, p.state = some s →
      verifyFrom H now tid opened i p events = .ok p' → p'.parties = p.parties
  | [], _, _, _, _, h => by cases h; rfl
  | raw :: events, i, p, s, hs, h => by
    rw [verifyFrom, bind_eq_ok] at h
    obtain ⟨q, hq, h⟩ := h
    obtain ⟨e, -, -, hadm, rfl⟩ := (verifyStep_ok_iff H).1 hq
    rw [parties_of_verifyFrom (Progress.next_state H p e) h]
    exact Progress.next_parties H (type_ne_opened (hs ▸ hadm.legal))

/-- The payload of an event that signs an entry. -/
theorem Signs.payloadOf_eq {tid : String} {raw : Json} {e : Entry} (h : Signs H tid raw e) :
    payloadOf raw = e.payload := by
  have := h.payload
  simp only [TradeEvent.fromDict] at this
  rw [payloadOf, this, Json.fields_obj]

/-- An accepted chain: the opening entry, then a path under the parties and the
    terms it binds. -/
theorem path_of_verifyTrade {now : ℤ} {tid : String} {events : List Json}
    (h : verifyTrade H now tid (some events) = .ok ()) :
    ∃ e es, List.Forall₂ (Signs H tid) events (e :: es) ∧ e.type = .tradeOpened ∧
      e.new = .executing ∧ Path (partiesOf H e.payload) e.new es ∧
      ∀ f ∈ es, TermsChecked H now e.payload (partiesOf H e.payload) f := by
  obtain ⟨raw, l, hev, -, p, hp⟩ := (verifyTrade_ok_iff H).1 h
  cases hev
  rw [verifyFrom, bind_eq_ok] at hp
  obtain ⟨q, hq, hp⟩ := hp
  obtain ⟨e, hsig, -, hadm, rfl⟩ := (verifyStep_ok_iff H).1 hq
  have ht := type_eq_opened hadm.legal
  have hnew : e.new = .executing := by
    have := hadm.new
    rw [ht, expectedNewState, Option.some.injEq] at this
    exact this.symm
  obtain ⟨es, hf, hpath, hterms⟩ := path_of_verifyFrom H (Progress.next_state H _ e) hp
  have hparties : (Progress.next H {} e).parties = partiesOf H e.payload := by
    rw [Progress.next, if_pos ht]
  rw [hparties] at hpath hterms
  rw [hsig.payloadOf_eq] at hterms
  exact ⟨e, es, .cons hsig hf, ht, hnew, hpath, hterms⟩

/-! ## What the terms check enforces -/

/-- The amount a settlement record refunds; without the field it is nothing. -/
def refundedOf (s : Fields) : ℤ := (number (Json.get s "refunded_amount_minor")).getD 0

/-- The record `s`, which leads to the state `new`, distributes the amount of the
    terms: `paid` to the payee, `refunded` back to the publisher. -/
structure Conserves (terms : Fields) (p : Parties) (new : TradeState) (s : Fields)
    (paid refunded : ℤ) : Prop where
  amount : Json.get terms "amount_minor" = .int (paid + refunded)
  amount_pos : 0 < paid + refunded
  paid_eq : number (Json.get s "amount_minor") = some paid
  refunded_eq : refundedOf s = refunded
  currency : Json.get s "currency" = .str (textOf H terms "currency")
  settle : new = .settled → refunded = 0
  refund : new = .refunded → paid = 0
  split : new = .splitSettled → 0 < paid ∧ 0 < refunded
  payer : new ≠ .settled ∨ p.publisherDid ≠ "" → Json.get s "payer_did" = .str p.publisherDid

theorem lookup_eq_none_of_keysEq {s : Fields} {fs : List String} {k : String}
    (h : Json.keysEq s fs = true) (hk : k ∉ fs) : Json.lookup s k = none := by
  rw [Json.keysEq, Bool.and_eq_true, List.all_eq_true] at h
  rw [Json.lookup_eq_none_iff, List.mem_map]
  rintro ⟨q, hq, rfl⟩
  exact hk (by simpa using h.1 q hq)

theorem lookup_of_getD {kvs : Fields} {k : String} {s : Fields} (hs : s ≠ [])
    (h : Json.getD kvs k (.obj []) = .obj s) : Json.lookup kvs k = some (.obj s) := by
  unfold Json.getD at h
  cases hl : Json.lookup kvs k with
  | none => rw [hl] at h; cases h; exact absurd rfl hs
  | some v => rw [hl] at h; cases h; rfl

theorem ne_nil_of_get {s : Fields} {k : String} {v : Json} (h : Json.get s k = v) (hv : v ≠ .null) :
    s ≠ [] := by
  rintro rfl; exact hv h.symm

/-- A settlement of the whole amount. -/
theorem Settles.conserves {now : ℤ} {s terms : Fields} {p : Parties} {amount : ℤ} {payer : String}
    (hamt : Json.get terms "amount_minor" = .int amount)
    (h : Settles now s (termsExpected H terms p amount) payer) :
    Conserves H terms p .settled s amount 0 where
  amount := by rw [hamt, add_zero]
  amount_pos := by rw [add_zero]; exact h.amount_pos
  paid_eq := by rw [h.amount]; rfl
  refunded_eq := by
    have hn := lookup_eq_none_of_keysEq (k := "refunded_amount_minor") h.keys (by decide)
    rw [refundedOf, Json.get, hn]; rfl
  currency := h.currency
  settle _ := rfl
  refund hn := by cases hn
  split hn := by cases hn
  payer hp := by
    have := h.payer_expected (hp.resolve_left (by simp))
    rw [h.payer_eq, this]; rfl

theorem refundOk_conserves {s terms : Fields} {p : Parties} {amount : ℤ}
    (hamt : Json.get terms "amount_minor" = .int amount) (hpos : 0 < amount)
    (h : refundOk s p amount (textOf H terms "currency") = true) :
    s ≠ [] ∧ Conserves H terms p .refunded s 0 amount := by
  simp only [refundOk, Bool.and_eq_true, Json.eqStr_iff, eqInt_iff] at h
  obtain ⟨⟨⟨⟨⟨ha, h₀⟩, h₁⟩, hc⟩, -⟩, hp⟩ := h
  refine ⟨ne_nil_of_get ha (by simp), ?_⟩
  refine ⟨by rw [hamt, zero_add], by omega, h₀, by rw [refundedOf, h₁]; rfl, hc, ?_, ?_, ?_, ?_⟩
  · intro hn; cases hn
  · intro _; rfl
  · intro hn; cases hn
  · intro _; exact hp

theorem splitOk_conserves {s terms : Fields} {p : Parties} {amount : ℤ}
    (hamt : Json.get terms "amount_minor" = .int amount)
    (h : splitOk s p amount (textOf H terms "currency") = true) :
    ∃ paid refunded, s ≠ [] ∧ Conserves H terms p .splitSettled s paid refunded := by
  unfold splitOk at h
  split at h
  · rename_i paid refunded hpaid hrefunded
    simp only [Bool.and_eq_true, Json.eqStr_iff, decide_eq_true_iff, beq_iff_eq] at h
    obtain ⟨⟨⟨⟨⟨⟨h₁, h₂⟩, hsum⟩, ha⟩, hc⟩, -⟩, hp⟩ := h
    rw [Json.asInt_eq_some] at hpaid hrefunded
    refine ⟨paid, refunded, ne_nil_of_get ha (by simp), by rw [hsum, hamt], by omega,
      by rw [hpaid]; rfl, by rw [refundedOf, hrefunded]; rfl, hc, ?_, ?_, ?_, ?_⟩
    · intro hn; cases hn
    · intro hn; cases hn
    · intro _; exact ⟨h₁, h₂⟩
    · intro _; exact hp
  · cases h

/-- The settlement of a direct settlement conserves the amount. -/
theorem checkSettlement_conserves {now : ℤ} {terms : Fields} {p : Parties} {payload : Fields}
    (h : checkSettlement H now terms p payload = .ok ()) :
    ∃ s paid refunded, Json.lookup payload "settlement" = some (.obj s) ∧
      Conserves H terms p .settled s paid refunded := by
  obtain ⟨s, payer, hs, hset⟩ := verifySettlement_ok_iff.1 h
  have hpos := hset.amount_pos
  cases hamt : safeInt (Json.get terms "amount_minor") with
  | none =>
    -- the sentinel `-1` is never paid
    rw [hamt] at hpos; exact absurd hpos (by simp [termsExpected])
  | some amount =>
    rw [hamt] at hset
    have hne := ne_nil_of_get hset.amount (by simp)
    cases hj : Json.getD payload "settlement" (.obj []) with
    | obj s' =>
      rw [hj, Json.fields_obj] at hs
      cases hs
      exact ⟨s, amount, 0, lookup_of_getD hne hj, hset.conserves H (Json.asInt_eq_some.1 hamt)⟩
    | _ => rw [hj] at hs; cases hs; exact absurd rfl hne

/-- The settlement of a resolution conserves the amount. -/
theorem checkResolution_conserves {now : ℤ} {terms : Fields} {p : Parties} {payload : Fields}
    {new : TradeState} (hnew : resolutionState (Json.get payload "resolution") = some new)
    (h : checkResolution H now terms p payload = .ok ()) :
    ∃ s paid refunded, Json.lookup payload "settlement" = some (.obj s) ∧
      Conserves H terms p new s paid refunded := by
  unfold checkResolution at h
  rw [require_bind_eq_ok, expect_bind_eq_ok] at h
  obtain ⟨ho, amount, hamt, h⟩ := h
  obtain ⟨s, hs⟩ := isObj_iff.1 ho
  obtain ⟨hamt, hpos⟩ := positiveAmount_eq_some.1 hamt
  rw [hnew, hs] at h
  have hnew' : new = .settled ∨ new = .refunded ∨ new = .splitSettled := by
    unfold resolutionState at hnew
    split_ifs at hnew <;> cases hnew <;> simp
  rcases hnew' with rfl | rfl | rfl
  · obtain ⟨s', payer, hs', hset⟩ := verifySettlement_ok_iff.1 h
    cases hs'
    exact ⟨s, amount, 0, lookup_of_getD (ne_nil_of_get hset.amount (by simp)) hs,
      hset.conserves H hamt⟩
  · obtain ⟨hne, hc⟩ := refundOk_conserves H hamt hpos (require_eq_ok.1 h)
    exact ⟨s, 0, amount, lookup_of_getD hne hs, hc⟩
  · obtain ⟨paid, refunded, hne, hc⟩ := splitOk_conserves H hamt (require_eq_ok.1 h)
    exact ⟨s, paid, refunded, lookup_of_getD hne hs, hc⟩

/-- Under terms, an entry that ends the trade conserves their amount. -/
theorem checkTerms_conserves {now : ℤ} {opened : Fields} {p : Parties} {e : Entry} {terms : Fields}
    (hterms : tradeTerms opened = some terms) (hne : terms ≠ [])
    (hnew : expectedNewState e.type e.payload = some e.new) (hterm : e.new.terminal = true)
    (h : TermsChecked H now opened p e) :
    ∃ s paid refunded, Json.lookup e.payload "settlement" = some (.obj s) ∧
      Conserves H terms p e.new s paid refunded := by
  unfold TermsChecked checkTerms at h
  obtain ⟨type, actor, payload, new⟩ := e
  cases terms with
  | nil => exact absurd rfl hne
  | cons t ts =>
    rw [hterms] at h
    cases type with
    | settlementRecorded => cases hnew; exact checkSettlement_conserves H h
    | disputeResolved => exact checkResolution_conserves H hnew h
    | verificationRecorded =>
      simp only [expectedNewState, verdictState] at hnew
      split_ifs at hnew <;> (cases hnew; cases hterm)
    | _ => cases hnew; cases hterm

/-! ## Soundness -/

theorem not_legal_of_terminal {s : TradeState} (h : s.terminal = true) (t : EventType) :
    some s ∉ legalPrior t := by
  cases s <;> first | exact absurd h (by decide) | (cases t <;> decide)

/-- Nothing follows a terminal state. -/
theorem Path.end_of_terminal {p : Parties} {s : TradeState} {es : List Entry} (h : Path p s es)
    (hs : s.terminal = true) : es = [] := by
  cases h with
  | nil => rfl
  | cons hl => exact absurd hl (not_legal_of_terminal hs _)

theorem Path.suffix {p : Parties} {s : TradeState} {pre post : List Entry} {e : Entry}
    (h : Path p s (pre ++ e :: post)) : Path p e.new post := by
  induction pre generalizing s with
  | nil => cases h; assumption
  | cons f pre ih => cases h with | cons _ _ _ hp => exact ih hp

theorem Path.forall_mem {p : Parties} {s : TradeState} {es : List Entry} (h : Path p s es) :
    ∀ e ∈ es, expectedNewState e.type e.payload = some e.new ∧ e.actor ∈ roleDids p e.type := by
  induction h with
  | nil => simp
  | cons _ hn hr _ ih => exact List.forall_mem_cons.2 ⟨⟨hn, hr⟩, ih⟩

/-- What the entries `e :: es` of an accepted chain guarantee. -/
structure Sound (e : Entry) (es : List Entry) : Prop where
  opened : e.type = .tradeOpened ∧ e.new = .executing
  path : Path (partiesOf H e.payload) e.new es
  bound : ∀ f ∈ es, f.actor ∈ roleDids (partiesOf H e.payload) f.type
  terminal : ∀ pre f post, e :: es = pre ++ f :: post → f.new.terminal = true → post = []
  verified : ∀ f ∈ e :: es, f.new = .verified → f.type = .verificationRecorded ∧
    Json.get f.payload "verdict" = .str "pass" ∧ f.actor = (partiesOf H e.payload).verifierDid
  money : ∀ terms, tradeTerms e.payload = some terms → terms ≠ [] →
    ∀ f ∈ e :: es, f.new.terminal = true → ∃ s paid refunded,
      Json.lookup f.payload "settlement" = some (.obj s) ∧
      Conserves H terms (partiesOf H e.payload) f.new s paid refunded

/-- Only a pass verdict leads to `verified`. -/
theorem verdict_of_verified {e : Entry} (h : expectedNewState e.type e.payload = some e.new)
    (hv : e.new = .verified) :
    e.type = .verificationRecorded ∧ Json.get e.payload "verdict" = .str "pass" := by
  rw [hv] at h
  cases ht : e.type with
  | verificationRecorded =>
    simp only [ht, expectedNewState, verdictState] at h
    split_ifs at h with h₁
    · exact ⟨rfl, Json.eqStr_iff.1 h₁⟩
    · cases h
  | disputeResolved =>
    simp only [ht, expectedNewState, resolutionState] at h
    split_ifs at h <;> cases h
  | _ => rw [ht] at h; cases h

/-- **Soundness of `verify_trade`.**  An accepted chain is a path of the state
    machine from `trade_opened` on; every event carries the signature of its
    actor, and past the opening one the actor is bound to the role; nothing
    follows a terminal state; `verified` is reached only by the verifier's pass
    verdict; and under non-empty terms the record that ends the trade
    distributes exactly the amount, paid by the publisher. -/
theorem verifyTrade_sound {now : ℤ} {tid : String} {events : List Json}
    (h : verifyTrade H now tid (some events) = .ok ()) :
    ∃ e es, List.Forall₂ (Signs H tid) events (e :: es) ∧ Sound H e es := by
  obtain ⟨e, es, hsigns, ht, hnew, hpath, hterms⟩ := path_of_verifyTrade H h
  refine ⟨e, es, hsigns, ⟨ht, hnew⟩, hpath, fun f hf => (hpath.forall_mem f hf).2, ?_, ?_, ?_⟩
  · intro pre f post heq hf
    cases pre with
    | nil => cases heq; rw [hnew] at hf; cases hf
    | cons e' pre => cases heq; exact (Path.suffix hpath).end_of_terminal hf
  · intro f hf hv
    rcases List.mem_cons.1 hf with rfl | hf
    · rw [hnew] at hv; cases hv
    · obtain ⟨hn, hr⟩ := hpath.forall_mem f hf
      obtain ⟨hft, hverdict⟩ := verdict_of_verified hn hv
      rw [hft] at hr
      simp only [roleDids, List.mem_filter, List.mem_singleton] at hr
      exact ⟨hft, hverdict, hr.1⟩
  · intro terms hterm hne f hf hfterm
    rcases List.mem_cons.1 hf with rfl | hf
    · rw [hnew] at hfterm; cases hfterm
    · exact checkTerms_conserves H hterm hne (hpath.forall_mem f hf).1 hfterm (hterms f hf)

/-! ## A chain with unbound roles -/

/-- The chain of the given signed steps. -/
def signChain (tid : String) : ℕ → Option TradeState →
    List (H.SecretKey × EventType × TradeState × Fields) → List Json
  | _, _, [] => []
  | i, prev, (k, type, new, payload) :: steps =>
    let e : TradeEvent :=
      { tradeId := .str tid, seq := .int i, type := .str type.wire, actorDid := .str (asDid H k),
        prevState := .str (stateText prev), newState := .str new.wire, payload := .obj payload,
        createdAtMs := .int 1 }
    ((signTradeEvent H k e).toOption.getD e).toDict :: signChain tid (i + 1) (some new) steps

/-- Terms of 5 USDC, and roles for the keys 2, 3 and 4. -/
def sampleOpened (publisher : Fields) : Fields :=
  [("claimant_did", .str (asDid checksumHost (2 : UInt8))),
    ("verifier_did", .str (asDid checksumHost (3 : UInt8))),
    ("settler_did", .str (asDid checksumHost (4 : UInt8))),
    ("terms", .obj [("amount_minor", .int 5), ("currency", .str "USDC"),
      ("payee_did", .str "did:c")])] ++ publisher

def sampleSettlement (payer : String) : Fields :=
  { adapterId := adapterManual, amountMinor := 5, currency := "USDC", payeeDid := "did:c",
    payerDid := payer, settledAtMs := 1 : SettlementResult }.toPayload

/-- A trade opened by key 1 and settled by `payer`. -/
def sampleChain (publisher : Fields) (payer : String) : List Json :=
  signChain checksumHost "t" 0 none
    [((1 : UInt8), .tradeOpened, .executing, sampleOpened publisher),
      ((2 : UInt8), .deliverySubmitted, .delivered, [("delivery", .obj [])]),
      ((3 : UInt8), .verificationRecorded, .verified, [("verdict", .str "pass")]),
      ((4 : UInt8), .settlementRecorded, .settled,
        [("settlement", .obj (sampleSettlement payer))])]

/-- The sample with a publisher is accepted. -/
def sampleChainVerified : PLift (verifyTrade checksumHost 10 "t"
    (some (sampleChain [("publisher_did", .str "did:p")] "did:p")) = .ok ()) := ⟨by decide +kernel⟩

theorem verifyTrade_sound_sample :
    ∃ e es, List.Forall₂ (Signs checksumHost "t")
      (sampleChain [("publisher_did", .str "did:p")] "did:p") (e :: es) ∧ Sound checksumHost e es :=
  verifyTrade_sound checksumHost sampleChainVerified.down

/-- The sample without a publisher is accepted. -/
def unboundChainVerified : PLift (verifyTrade checksumHost 10 "t"
    (some (sampleChain [] "did:mallory")) = .ok ()) := ⟨by decide +kernel⟩

/-- An accepted chain whose opening event is signed by none of the parties, and
    which settles its terms with a payer that nobody bound. -/
theorem verifyTrade_unbound :
    verifyTrade checksumHost 10 "t" (some (sampleChain [] "did:mallory")) = .ok () ∧
      (let p := partiesOf checksumHost (sampleOpened [])
       asDid checksumHost (1 : UInt8) ∉
          [p.claimantDid, p.publisherDid, p.verifierDid, p.settlerDid, p.resolverDid] ∧
        Json.get (sampleSettlement "did:mallory") "payer_did" ≠ .str p.publisherDid) :=
  ⟨unboundChainVerified.down, by decide⟩

end NthDao
