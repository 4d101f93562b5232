/-
  The transition functions extend the chains that `verify_trade` accepts.

  * `Call`: one call of a transition function;
  * `appendEvent_ok`: what a successful append did;
  * `verifyFrom_clock`: the clock only matters once a trade has ended;
  * `appendEvent_extends`: an appended event is accepted exactly if it meets
    the signed terms.
-/
import NthDao.Commerce.TradeChain

namespace NthDao

open Py

variable (H : Host)

/-- A call of a transition function. -/
inductive Call (K : Type) where
  | openTrade (authority : K) (claimRecord : Fields) (verifierDid settlerDid resolverDid : String)
      (terms : Option Fields)
  | submitDelivery (tradeId : String) (claimant : K) (delivery : Json)
  | recordVerification (tradeId : String) (verifier : K) (verdict : String) (result : Json)
  | recordSettlement (tradeId : String) (settler : K) (settlement : Json)
  | openDispute (tradeId : String) (disputant : K) (reason evidence : Json)
  | resolveDispute (tradeId : String) (resolver : K) (resolution : String)
      (settlement rationale : Json)

/-- The trade of a call. -/
def Call.tradeId {K : Type} : Call K → String
  | .openTrade _ claimRecord _ _ _ _ => textOf H claimRecord "announcement_id"
  | .submitDelivery tradeId _ _ | .recordVerification tradeId _ _ _
  | .recordSettlement tradeId _ _ | .openDispute tradeId _ _ _ | .resolveDispute tradeId _ _ _ _ =>
    tradeId

/-- The call, at clock reading `now`. -/
def Call.run (s : TradeStore) (nowMsOverride now : ℤ) :
    Call H.SecretKey → Except Exc (TradeEvent × TradeStore)
  | .openTrade authority claimRecord verifierDid settlerDid resolverDid terms =>
    NthDao.openTrade H s authority claimRecord verifierDid settlerDid resolverDid terms
      nowMsOverride now
  | .submitDelivery tradeId claimant delivery =>
    NthDao.submitDelivery H s tradeId claimant delivery nowMsOverride now
  | .recordVerification tradeId verifier verdict result =>
    NthDao.recordVerification H s tradeId verifier verdict result nowMsOverride now
  | .recordSettlement tradeId settler settlement =>
    NthDao.recordSettlement H s tradeId settler settlement nowMsOverride now
  | .openDispute tradeId disputant reason evidence =>
    NthDao.openDispute H s tradeId disputant reason evidence nowMsOverride now
  | .resolveDispute tradeId resolver resolution settlement rationale =>
    NthDao.resolveDispute H s tradeId resolver resolution settlement rationale nowMsOverride now

/-! ## What an append does -/

/-- The event that `_append_event` signs, before its signature. -/
def draft (tid : String) (actor : H.SecretKey) (type : EventType) (new : TradeState)
    (payload : Fields) (seq : ℕ) (prev : String) (createdAt : ℤ) : TradeEvent :=
  { tradeId := .str tid, seq := .int seq, type := .str type.wire, actorDid := .str (asDid H actor),
    prevState := .str prev, newState := .str new.wire, payload := .obj payload,
    createdAtMs := .int createdAt }

theorem appendEvent_ok {s s' : TradeStore} {tid : String} {actor : H.SecretKey} {type : EventType}
    {new : TradeState} {payload : Fields} {expectOpen : Bool} {allowed : Option (List String)}
    {ov now : ℤ} {ev : TradeEvent}
    (h : appendEvent H s tid actor type new payload expectOpen allowed ov now = .ok (ev, s')) :
    ∃ events prev,
      (∃ b, canonicalJson (.obj payload) = some b ∧ b.length ≤ maxTradePayloadBytes) ∧
      storedEvents (s.read H tid) = .ok events ∧
      (events ≠ [] → verifyTrade H now tid (s.getEvents H tid) = .ok ()) ∧
      priorState H type expectOpen allowed (asDid H actor) events = .ok prev ∧
      signTradeEvent H actor
        (draft H tid actor type new payload events.length prev (timestamp ov now)) = .ok ev ∧
      chainFits (events ++ [ev.toDict]) = true ∧
      s' = s.write H tid
        (.obj [("trade_id", .str tid), ("events", .arr (events ++ [ev.toDict]))]) := by
  unfold appendEvent at h
  rw [expect_bind_eq_ok] at h
  obtain ⟨b, hb, h⟩ := h
  rw [require_bind_eq_ok, bind_eq_ok] at h
  obtain ⟨hlen, events, hev, h⟩ := h
  rw [unit_bind_eq_ok, bind_eq_ok] at h
  obtain ⟨hver, prev, hprev, h⟩ := h
  rw [bind_eq_ok] at h
  obtain ⟨ev', hsign, h⟩ := h
  rw [require_bind_eq_ok, pure_eq_ok, Prod.mk.injEq] at h
  obtain ⟨hfits, rfl, rfl⟩ := h
  refine ⟨events, prev, ⟨b, hb, by simpa using hlen⟩, hev, ?_, hprev, hsign, hfits, rfl⟩
  intro hne
  rwa [verifyStored, if_neg (by simpa using hne)] at hver

theorem getEvents_write (s : TradeStore) (tid : String) (es : List Json) :
    (s.write H tid (.obj [("trade_id", .str tid), ("events", .arr es)])).getEvents H tid =
      some es := by
  have hg : Json.get [("trade_id", .str tid), ("events", .arr es)] "events" = .arr es := by
    simp [Json.get, Json.lookup_cons]
  rw [TradeStore.getEvents, TradeStore.read, TradeStore.write, if_pos rfl, TradeFile.events, hg]

theorem events_of_storedEvents {f : TradeFile} {es : List Json} (hne : es ≠ [])
    (h : storedEvents f = .ok es) : f.events = some es := by
  cases f with
  | absent => cases h; exact absurd rfl hne
  | unreadable => cases h
  | doc j =>
    cases j with
    | obj kvs =>
      unfold storedEvents Json.getD at h
      unfold TradeFile.events Json.get
      cases hl : Json.lookup kvs "events" with
      | none => simp [hl] at h; exact absurd h hne
      | some v => cases v <;> simp_all
    | _ => cases h

/-- A signed draft signs its entry. -/
theorem signs_of_sign {tid : String} {actor : H.SecretKey} {type : EventType} {new : TradeState}
    {payload : Fields} {seq : ℕ} {prev : String} {at' : ℤ} {ev : TradeEvent}
    (hp : ∃ b, canonicalJson (.obj payload) = some b ∧ b.length ≤ maxTradePayloadBytes)
    (h : signTradeEvent H actor (draft H tid actor type new payload seq prev at') = .ok ev) :
    Signs H tid ev.toDict ⟨type, asDid H actor, payload, new⟩ ∧
      TradeEvent.fromDict ev.toDict.fields = ev ∧ ev.seq = .int seq ∧ ev.prevState = .str prev ∧
      ev.newState = .str new.wire := by
  unfold signTradeEvent at h
  rw [expect_bind_eq_ok] at h
  obtain ⟨b, hb, h⟩ := h
  rw [pure_eq_ok] at h
  have hfrom := fromDict_toDict ev
  subst h
  have hsig : verifyTradeEvent H
      { draft H tid actor type new payload seq prev at' with
        eventSig := .str (signText H actor b) } = .ok () := by
    unfold verifyTradeEvent
    simp only [expect_bind_eq_ok, require_bind_eq_ok, require_eq_ok, Json.asStr_eq_some]
    refine ⟨_, rfl, isDidKey_asDid H actor, _, decodeDidKey_asDid H actor, _, rfl, ?_, b, hb,
      verifySig_signText H actor b⟩
    rw [len_eq, length_signText]; decide
  refine ⟨⟨rfl, keysEq_toDict _, ?_, ?_, ?_, ?_, ?_, hp, ?_⟩, hfrom, rfl, rfl, rfl⟩
  all_goals rw [hfrom]
  · rfl
  · rfl
  · rfl
  · rfl
  · rfl
  · exact hsig

theorem appendEvent_newState {s s' : TradeStore} {tid : String} {actor : H.SecretKey}
    {type : EventType} {new : TradeState} {payload : Fields} {expectOpen : Bool}
    {allowed : Option (List String)} {ov now : ℤ} {ev : TradeEvent}
    (h : appendEvent H s tid actor type new payload expectOpen allowed ov now = .ok (ev, s')) :
    ev.newState = .str new.wire := by
  obtain ⟨_, _, hp, -, -, -, hsign, -⟩ := appendEvent_ok H h
  exact (signs_of_sign H hp hsign).2.2.2.2

theorem appendEvent_payload {s s' : TradeStore} {tid : String} {actor : H.SecretKey}
    {type : EventType} {new : TradeState} {payload : Fields} {expectOpen : Bool}
    {allowed : Option (List String)} {ov now : ℤ} {ev : TradeEvent}
    (h : appendEvent H s tid actor type new payload expectOpen allowed ov now = .ok (ev, s')) :
    ev.payload = .obj payload := by
  obtain ⟨_, _, hp, -, -, -, hsign, -⟩ := appendEvent_ok H h
  obtain ⟨hs, hfrom, -⟩ := signs_of_sign H hp hsign
  rw [← hs.payload, hfrom]

/-! ## The stored chain -/

theorem lookup_of_get {kvs : Fields} {k : String} {v : Json} (h : Json.get kvs k = v)
    (hv : v ≠ .null) : Json.lookup kvs k = some v := by
  unfold Json.get at h
  cases hl : Json.lookup kvs k with
  | none => rw [hl] at h; exact absurd h.symm hv
  | some w => rw [hl] at h; exact congrArg some h

/-- An event stands for one entry. -/
theorem Signs.unique {tid : String} {raw : Json} {e f : Entry} (h : Signs H tid raw e)
    (h' : Signs H tid raw f) : e = f := by
  have ht : e.type.wire = f.type.wire := Json.str.inj (h.type.symm.trans h'.type)
  have ha : e.actor = f.actor := Json.str.inj (h.actor.symm.trans h'.actor)
  have hp : e.payload = f.payload := Json.obj.inj (h.payload.symm.trans h'.payload)
  have hn : e.new.wire = f.new.wire := Json.str.inj (h.new.symm.trans h'.new)
  obtain ⟨t, a, p, n⟩ := e
  obtain ⟨t', a', p', n'⟩ := f
  obtain rfl := EventType.wire_injective ht
  obtain rfl := TradeState.wire_injective hn
  cases ha; cases hp; rfl

/-- The state and the parties at the end of a verified chain are the ones the
    writer reads from it. -/
theorem opened_of_verifyFrom {now : ℤ} {tid : String} {e : Json} {es : List Json} {p : Progress}
    (h : verifyFrom H now tid (payloadOf e) 0 {} (e :: es) = .ok p) :
    openedPayload (e :: es) = .ok (payloadOf e) ∧ p.parties = partiesOf H (payloadOf e) := by
  rw [verifyFrom, bind_eq_ok] at h
  obtain ⟨q, hq, h⟩ := h
  obtain ⟨f, hsig, -, hadm, rfl⟩ := (verifyStep_ok_iff H).1 hq
  have ht := type_eq_opened hadm.legal
  obtain ⟨kvs, rfl⟩ := isObj_iff.1 hsig.isObj
  refine ⟨?_, ?_⟩
  · have hl : Json.lookup kvs "payload" = some (.obj f.payload) := lookup_of_get hsig.payload (by simp)
    rw [openedPayload, Json.getD, hl, Option.getD_some, hsig.payloadOf_eq]
  · have hparties : (Progress.next H {} f).parties = partiesOf H (payloadOf (.obj kvs)) := by
      rw [Progress.next, if_pos ht, hsig.payloadOf_eq]
    rw [← hparties]
    exact parties_of_verifyFrom H (Progress.next_state H _ f) h

theorem currentState_of_verifyFrom {now : ℤ} {tid : String} {opened : Fields} {es : List Json}
    {p₀ p : Progress} {i : ℕ} (hne : es ≠ []) (h : verifyFrom H now tid opened i p₀ es = .ok p) :
    currentState H es = .ok (stateText p.state) := by
  obtain ⟨l, raw, rfl⟩ := (List.eq_nil_or_concat' es).resolve_left hne
  obtain ⟨q, -, h⟩ := (verifyFrom_append H l [raw]).1 h
  obtain ⟨e, hsig, -, -, rfl⟩ := (verifyStep_ok_iff H).1 ((verifyFrom_singleton H).1 h)
  obtain ⟨kvs, rfl⟩ := isObj_iff.1 hsig.isObj
  have hl := lookup_of_get hsig.new (by simp)
  have ht : textOf H kvs "new_state" = e.new.wire := by
    rw [textOf, Json.getD]; rw [Json.fields_obj] at hl; rw [hl]; rfl
  rw [currentState, List.getLast?_concat, Progress.next_state]
  simp only [ht, stateText]

/-! ## The clock -/

/-- Only an entry that ends the trade is checked against the terms. -/
theorem checkTerms_of_not_terminal {now : ℤ} {opened : Fields} {p : Parties} (type : EventType)
    {payload : Fields} {new : TradeState} (hnew : expectedNewState type payload = some new)
    (h : new.terminal = false) : checkTerms H now opened p type payload = .ok () := by
  cases type with
  | settlementRecorded => cases hnew; cases h
  | disputeResolved =>
    simp only [expectedNewState, resolutionState] at hnew
    split_ifs at hnew <;> (cases hnew; cases h)
  | _ => unfold checkTerms; split <;> first | rfl | simp_all

/-- A chain that has not ended verifies at any time. -/
theorem verifyFrom_clock {now now' : ℤ} {tid : String} {opened : Fields} {p' : Progress}
    (hopen : ∀ s, p'.state = some s → s.terminal = false) :
    ∀ {es : List Json} {i : ℕ} {p : Progress}, verifyFrom H now tid opened i p es = .ok p' →
      verifyFrom H now' tid opened i p es = .ok p'
  | [], _, _, h => h
  | raw :: es, i, p, h => by
    rw [verifyFrom, bind_eq_ok] at h ⊢
    obtain ⟨q, hq, h⟩ := h
    obtain ⟨e, hsig, hf, hadm, rfl⟩ := (verifyStep_ok_iff H).1 hq
    have hnt : e.new.terminal = false := by
      cases es with
      | nil => cases h; exact hopen e.new (Progress.next_state H p e)
      | cons raw' es =>
        rw [verifyFrom, bind_eq_ok] at h
        obtain ⟨_, hr, -⟩ := h
        obtain ⟨f, -, -, hadm', -⟩ := (verifyStep_ok_iff H).1 hr
        have hl := hadm'.legal
        rw [Progress.next_state] at hl
        by_contra hc
        exact not_legal_of_terminal (by simpa using hc) f.type hl
    refine ⟨p.next H e, (verifyStep_ok_iff H).2 ⟨e, hsig, hf, ⟨hadm.legal, hadm.new, hadm.role, ?_⟩,
      rfl⟩, verifyFrom_clock hopen h⟩
    intro _
    exact checkTerms_of_not_terminal H _ hadm.new hnt

/-! ## Appended events -/

/-- A trade opened on an empty store is accepted. -/
theorem appendEvent_opens (nowv : ℤ) {s s' : TradeStore} {tid : String} {actor : H.SecretKey}
    {payload : Fields} {ov now : ℤ} {ev : TradeEvent}
    (h : appendEvent H s tid actor .tradeOpened .executing payload true none ov now =
      .ok (ev, s')) : verifyTrade H nowv tid (s'.getEvents H tid) = .ok () := by
  obtain ⟨events, prev, hp, -, -, hprior, hsign, hfits, rfl⟩ := appendEvent_ok H h
  unfold priorState at hprior
  rw [if_pos rfl, require_bind_eq_ok, pure_eq_ok, List.isEmpty_iff] at hprior
  obtain ⟨rfl, rfl⟩ := hprior
  obtain ⟨hs, hfrom, hseq, hprev, -⟩ := signs_of_sign H hp hsign
  rw [getEvents_write, verifyTrade_ok_iff]
  refine ⟨ev.toDict, [], rfl, hfits, _, (verifyFrom_singleton H).2 ((verifyStep_ok_iff H).2
    ⟨_, hs, ⟨?_, ?_⟩, ⟨?_, rfl, ?_, ?_⟩, rfl⟩)⟩
  · rw [hfrom, hseq]; rfl
  · rw [hfrom, hprev]; rfl
  · simp [legalPrior]
  · intro hne; exact absurd rfl hne
  · intro hne; exact absurd rfl hne

/-- An event appended to a chain is accepted exactly if it meets the terms. -/
theorem appendEvent_extends (nowv : ℤ) {s s' : TradeStore} {tid : String} {actor : H.SecretKey}
    {type : EventType} {new : TradeState} {payload : Fields} {dids : List String}
    {ov now : ℤ} {ev : TradeEvent} {ps : Parties}
    (h : appendEvent H s tid actor type new payload false (some dids) ov now = .ok (ev, s'))
    (hps : parties H ((s.getEvents H tid).getD []) = .ok ps)
    (hdids : dids.filter (· != "") = roleDids ps type)
    (hnew : expectedNewState type payload = some new) (hne : type ≠ .tradeOpened) :
    ∃ opened, openedPayload ((s.getEvents H tid).getD []) = .ok opened ∧
      (verifyTrade H nowv tid (s'.getEvents H tid) = .ok () ↔
        checkTerms H nowv opened ps type payload = .ok ()) := by
  obtain ⟨events, prev, hp, hstored, hver, hprior, hsign, hfits, rfl⟩ := appendEvent_ok H h
  unfold priorState at hprior
  rw [if_neg Bool.false_ne_true, require_bind_eq_ok, bind_eq_ok] at hprior
  obtain ⟨hempty, prev', hcur, hprior⟩ := hprior
  have hevents : events ≠ [] := by simpa using hempty
  simp only [require_bind_eq_ok, pure_eq_ok] at hprior
  obtain ⟨hlegal, hrole, rfl⟩ := hprior
  have hget := events_of_storedEvents hevents hstored
  obtain ⟨e, es, hes, -, p, hverify⟩ := (verifyTrade_ok_iff H).1 (hver hevents)
  have hget' : (s.getEvents H tid).getD [] = e :: es := by rw [hes]; rfl
  have heq : events = e :: es := by
    have := hget.symm.trans hes
    cases this; rfl
  subst heq
  rw [hget'] at hps ⊢
  obtain ⟨hopened, hparties⟩ := opened_of_verifyFrom H hverify
  obtain ⟨hs, hfrom, hseq, hprev, -⟩ := signs_of_sign H hp hsign
  rw [parties, hopened] at hps
  have hps' : p.parties = ps := by rw [hparties]; exact pure_eq_ok.1 hps
  rw [currentState_of_verifyFrom H hevents hverify] at hcur
  cases hcur
  have hstate : p.state ∈ legalPrior type := by
    rw [List.any_eq_true] at hlegal
    obtain ⟨st, hst, hb⟩ := hlegal
    rwa [← stateText_injective (beq_iff_eq.1 hb)]
  refine ⟨payloadOf e, hopened, ?_⟩
  rw [getEvents_write, verifyTrade_ok_iff]
  have hclock : verifyFrom H nowv tid (payloadOf e) 0 {} (e :: es) = .ok p := by
    refine verifyFrom_clock H (fun st hst => ?_) hverify
    rw [hst] at hstate
    by_contra hc
    exact not_legal_of_terminal (by simpa using hc) type hstate
  have hrole' : asDid H actor ∈ roleDids p.parties type := by
    rw [hps', ← hdids]; simpa using hrole
  constructor
  · rintro ⟨e', l, heq, -, q, hq⟩
    cases heq
    obtain ⟨p', hp', hlast⟩ := (verifyFrom_append H (e :: es) [ev.toDict]).1 hq
    rw [hclock] at hp'
    cases hp'
    obtain ⟨f, hf, -, hadm, -⟩ := (verifyStep_ok_iff H).1 ((verifyFrom_singleton H).1 hlast)
    obtain rfl := hs.unique H hf
    rw [← hps']
    exact hadm.terms hne
  · intro hterms
    refine ⟨e, es ++ [ev.toDict], rfl, hfits, _, (verifyFrom_append H (e :: es) [ev.toDict]).2
      ⟨p, hclock, (verifyFrom_singleton H).2 ((verifyStep_ok_iff H).2
        ⟨_, hs, ⟨?_, ?_⟩, ⟨hstate, hnew, fun _ => hrole', fun _ => ?_⟩, rfl⟩)⟩⟩
    · rw [hfrom, hseq]; simp [Json.eqInt]
    · rw [hfrom, hprev]
    · rw [hps']; exact hterms

/-! ## The transitions keep the chain -/

/-- The record of a settlement or a resolution meets the terms of the stored
    opening event, if it signed any; other calls record no settlement. -/
def Call.MeetsTerms {K : Type} (nowv : ℤ) (s : TradeStore) : Call K → Prop
  | .recordSettlement tid _ settlement =>
    ∀ opened terms, openedPayload ((s.getEvents H tid).getD []) = .ok opened →
      tradeTerms opened = some terms → terms ≠ [] →
      checkSettlement H nowv terms (partiesOf H opened) [("settlement", settlement)] = .ok ()
  | .resolveDispute tid _ resolution settlement rationale =>
    ∀ opened terms, openedPayload ((s.getEvents H tid).getD []) = .ok opened →
      tradeTerms opened = some terms → terms ≠ [] →
      checkResolution H nowv terms (partiesOf H opened)
        [("resolution", .str resolution),
          ("settlement", if truthy settlement then settlement else .obj []),
          ("rationale", rationale)] = .ok ()
  | _ => True

theorem checkTerms_settlement {now : ℤ} {opened : Fields} {p : Parties} {payload : Fields} :
    checkTerms H now opened p .settlementRecorded payload = .ok () ↔
      ∀ terms, tradeTerms opened = some terms → terms ≠ [] →
        checkSettlement H now terms p payload = .ok () := by
  unfold checkTerms
  rcases tradeTerms opened with _ | _ | ⟨t, ts⟩ <;> simp

theorem checkTerms_resolution {now : ℤ} {opened : Fields} {p : Parties} {payload : Fields} :
    checkTerms H now opened p .disputeResolved payload = .ok () ↔
      ∀ terms, tradeTerms opened = some terms → terms ≠ [] →
        checkResolution H now terms p payload = .ok () := by
  unfold checkTerms
  rcases tradeTerms opened with _ | _ | ⟨t, ts⟩ <;> simp

theorem terminal_of_resolutionState {j : Json} {new : TradeState}
    (h : resolutionState j = some new) : new.terminal = true := by
  unfold resolutionState at h
  split_ifs at h <;> (cases h; rfl)

/-- **Transitions and verification agree.**  After a successful call
    `verify_trade` accepts the stored chain exactly if the call meets the signed
    terms; a call that does not has ended the trade. -/
theorem run_verifies_iff {s s' : TradeStore} {c : Call H.SecretKey} {ov now nowv : ℤ}
    {ev : TradeEvent} (h : c.run H s ov now = .ok (ev, s')) :
    (verifyTrade H nowv (c.tradeId H) (s'.getEvents H (c.tradeId H)) = .ok () ↔
      c.MeetsTerms H nowv s) ∧
    (¬ c.MeetsTerms H nowv s → ∃ st : TradeState, ev.newState = .str st.wire ∧ st.terminal = true) := by
  cases c with
  | openTrade authority claimRecord verifierDid settlerDid resolverDid terms =>
    simp only [Call.run, NthDao.openTrade, bind_eq_ok] at h
    obtain ⟨⟨tid, payload⟩, hpay, h⟩ := h
    have htid : textOf H claimRecord "announcement_id" = tid := by
      simp only [openPayload, bind_eq_ok, pure_eq_ok, Prod.mk.injEq] at hpay
      obtain ⟨_, -, _, -, ht, -⟩ := hpay
      exact ht
    have hv := appendEvent_opens H nowv h
    simp only [Call.tradeId, Call.MeetsTerms, htid, hv]
    exact ⟨trivial, fun hn => absurd trivial hn⟩
  | submitDelivery tid claimant delivery =>
    simp only [Call.run, NthDao.submitDelivery, bind_eq_ok] at h
    obtain ⟨ps, hps, h⟩ := h
    obtain ⟨opened, -, hiff⟩ := appendEvent_extends H nowv h hps rfl rfl (by decide)
    have hv := hiff.2 (checkTerms_of_not_terminal H .deliverySubmitted rfl rfl)
    simp only [Call.tradeId, Call.MeetsTerms, hv]
    exact ⟨trivial, fun hn => absurd trivial hn⟩
  | recordVerification tid verifier verdict result =>
    simp only [Call.run, NthDao.recordVerification, bind_eq_ok, expect_eq_ok] at h
    obtain ⟨new, hnew, ps, hps, h⟩ := h
    have hnt : new.terminal = false := by
      unfold verdictState at hnew
      split_ifs at hnew <;> (cases hnew; rfl)
    have hexp : expectedNewState .verificationRecorded
        [("verdict", .str verdict), ("result", result)] = some new := hnew
    obtain ⟨opened, -, hiff⟩ := appendEvent_extends H nowv h hps rfl hexp (by decide)
    have hv := hiff.2 (checkTerms_of_not_terminal H _ hexp hnt)
    simp only [Call.tradeId, Call.MeetsTerms, hv]
    exact ⟨trivial, fun hn => absurd trivial hn⟩
  | openDispute tid disputant reason evidence =>
    simp only [Call.run, NthDao.openDispute, bind_eq_ok] at h
    obtain ⟨ps, hps, h⟩ := h
    obtain ⟨opened, -, hiff⟩ := appendEvent_extends H nowv h hps rfl rfl (by decide)
    have hv := hiff.2 (checkTerms_of_not_terminal H .disputeOpened rfl rfl)
    simp only [Call.tradeId, Call.MeetsTerms, hv]
    exact ⟨trivial, fun hn => absurd trivial hn⟩
  | recordSettlement tid settler settlement =>
    simp only [Call.run, NthDao.recordSettlement, bind_eq_ok] at h
    obtain ⟨ps, hps, h⟩ := h
    obtain ⟨opened, hop, hiff⟩ := appendEvent_extends H nowv h hps rfl rfl (by decide)
    refine ⟨?_, fun _ => ⟨.settled, (appendEvent_newState H h), rfl⟩⟩
    rw [parties, hop] at hps
    cases hps
    rw [Call.tradeId, hiff, checkTerms_settlement, Call.MeetsTerms]
    constructor
    · intro ht opened' terms ho; rw [hop] at ho; cases ho; exact ht terms
    · intro ht terms; exact ht opened terms hop
  | resolveDispute tid resolver resolution settlement rationale =>
    simp only [Call.run, NthDao.resolveDispute, bind_eq_ok, expect_eq_ok] at h
    obtain ⟨new, hnew, ps, hps, h⟩ := h
    obtain ⟨opened, hop, hiff⟩ := appendEvent_extends H nowv h hps rfl hnew (by decide)
    refine ⟨?_, fun _ => ⟨new, (appendEvent_newState H h), terminal_of_resolutionState hnew⟩⟩
    rw [parties, hop] at hps
    cases hps
    rw [Call.tradeId, hiff, checkTerms_resolution, Call.MeetsTerms]
    constructor
    · intro ht opened' terms ho; rw [hop] at ho; cases ho; exact ht terms
    · intro ht terms; exact ht opened terms hop

theorem isOk_of_isSome {ε α : Type} {x : Except ε α} (h : x.toOption.isSome = true) :
    ∃ a, x = .ok a := by
  cases x with
  | error e => cases h
  | ok a => exact ⟨a, rfl⟩

/-- A trade opened with terms by key 1. -/
def sampleCall : Call UInt8 :=
  .openTrade 1 [("announcement_id", .str "t"), ("claimant_did", .str "did:c"),
    ("publisher_did", .str "did:p")] "" "" "" (some [("amount_minor", .int 5),
      ("currency", .str "USDC")])

theorem run_verifies_iff_open :
    ∃ ev s', Call.run checksumHost (fun _ => .absent) 0 10 sampleCall = .ok (ev, s') ∧
      ((verifyTrade checksumHost 20 "t" (s'.getEvents checksumHost "t") = .ok () ↔
        sampleCall.MeetsTerms checksumHost 20 fun _ => .absent) ∧
      (¬ sampleCall.MeetsTerms checksumHost 20 (fun _ => .absent) →
        ∃ st : TradeState, ev.newState = .str st.wire ∧ st.terminal = true)) := by
  obtain ⟨⟨ev, s'⟩, h⟩ :=
    isOk_of_isSome (x := Call.run checksumHost (fun _ => .absent) 0 10 sampleCall)
      (by decide +kernel)
  exact ⟨ev, s', h, run_verifies_iff checksumHost h⟩

/-- A store with a verified trade. -/
def verifiedStore (publisher : Fields) : TradeStore := fun _ =>
  .doc (.obj [("trade_id", .str "t"), ("events", .arr ((sampleChain publisher "").take 3))])

/-- A settlement of 1 under terms of 5, on the sample. -/
def underpaidSample : PLift (
    verifyTrade checksumHost 10 "t" ((verifiedStore []).getEvents checksumHost "t") = .ok () ∧
    (recordSettlement checksumHost (verifiedStore []) "t" (4 : UInt8)
        (.obj (Json.insert (sampleSettlement "did:p") "amount_minor" (.int 1))) 0 10).toOption.map
      (fun r => verifyTrade checksumHost 10 "t" (r.2.getEvents checksumHost "t")) =
        some (.error (.tradeRejected rejectAmountMismatch))) := ⟨by decide +kernel⟩

/-- `record_settlement` writes a settlement of 1 under terms of 5; the stored
    chain, verified before, is rejected afterwards. -/
theorem recordSettlement_underpays :
    verifyTrade checksumHost 10 "t" ((verifiedStore []).getEvents checksumHost "t") = .ok () ∧
    (recordSettlement checksumHost (verifiedStore []) "t" (4 : UInt8)
        (.obj (Json.insert (sampleSettlement "did:p") "amount_minor" (.int 1))) 0 10).toOption.map
      (fun r => verifyTrade checksumHost 10 "t" (r.2.getEvents checksumHost "t")) =
        some (.error (.tradeRejected rejectAmountMismatch)) :=
  underpaidSample.down

end NthDao
