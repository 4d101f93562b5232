/-
  What the head of a trade chain identifies (`trade_chain_head` of
  `nth_dao/commerce/outbox.py`).

  * `tradeChainHead`: the hash of the last event;
  * `resign`: the opening event signed again with another time;
  * `headIdentifies_iff`: the head identifies an accepted chain exactly if the
    chain is its opening event; the events carry no link to the ones before.
-/
import NthDao.Commerce.TradeChain

namespace NthDao

open Py

variable (H : Host)

/-- The bytes hashed into the head of a chain. -/
def headBytes (events : List Json) : Option Bytes := events.getLast?.bind canonicalJson

/-- `trade_chain_head`, `none` where it raises. -/
def tradeChainHead (events : List Json) : Option String :=
  (headBytes events).map fun b => "sha256:" ++ H.sha256 b

/-- Every accepted chain with the head of `A`, in the absence of a collision of
    the two heads, is `A` up to the order of keys. -/
def HeadIdentifies (tid : String) (A : List Json) : Prop :=
  ∀ (now : ℤ) (B : List Json), (∀ e ∈ B, e.wf = true) →
    verifyTrade H now tid (some B) = .ok () →
    (∀ a b, headBytes A = some a → headBytes B = some b → H.sha256 a = H.sha256 b → a = b) →
    tradeChainHead H B = tradeChainHead H A → B.map Json.norm = A.map Json.norm

/-! ## Signing the opening event again -/

/-- Another time for an event. -/
def otherTime (t : Json) : Json := if t.eqInt 0 then .int 1 else .int 0

theorem otherTime_norm_ne (t : Json) : (otherTime t).norm ≠ t.norm := by
  unfold otherTime
  split_ifs with h <;> cases t <;> simp_all [Json.norm, Json.eqInt]
  rintro rfl; simp at h

theorem weight_otherTime (t : Json) : weight false (otherTime t) = 1 := by
  unfold otherTime; split_ifs <;> rfl

/-- The event with another time and signature. -/
def TradeEvent.restamp (e : TradeEvent) (t s : Json) : TradeEvent :=
  { e with createdAtMs := t, eventSig := s }

/-- A stored event has the items of the event it is read as. -/
theorem perm_toDict {kvs : Fields} (hwf : (Json.obj kvs).wf = true)
    (hk : Json.keysEq kvs tradeEventFields = true) :
    kvs.Perm (TradeEvent.fromDict kvs).toDict.fields :=
  perm_of_keysEq (Json.wf_obj.1 hwf).1 (by decide) hk

theorem mem_toDict {e : TradeEvent} {p : String × Json} (h : p ∈ e.signingBody.fields) :
    p ∈ e.toDict.fields :=
  List.mem_append_left [("event_sig", e.eventSig)] h

theorem weight_restamp_le {e : TradeEvent} {t s : Json}
    (ht : weight false t ≤ weight false e.createdAtMs)
    (hs : weight false s ≤ weight false e.eventSig) :
    weight false (e.restamp t s).toDict ≤ weight false e.toDict := by
  rw [TradeEvent.toDict, TradeEvent.toDict, weight_obj false (by simp), weight_obj false (by simp)]
  simp only [TradeEvent.restamp, List.map_cons, List.map_nil, List.sum_cons, List.sum_nil,
    itemWeight]
  omega

theorem encodable_restamp {e : TradeEvent} {t s : Json} (he : e.toDict.encodable = true)
    (ht : t.encodable = true) (hs : s.encodable = true) :
    (e.restamp t s).toDict.encodable = true := by
  rw [TradeEvent.toDict, Json.encodable_obj] at he ⊢
  simp only [TradeEvent.restamp, List.forall_mem_cons, List.not_mem_nil, false_implies,
    implies_true, and_true] at he ⊢
  simp only [he, ht, hs, and_self]

theorem wf_restamp {kvs : Fields} {t s : Json} (hwf : (Json.obj kvs).wf = true)
    (ht : t.wf = true) (hs : s.wf = true) :
    ((TradeEvent.fromDict kvs).restamp t s).toDict.wf = true := by
  rw [TradeEvent.toDict, Json.wf_obj]
  refine ⟨by simp, ?_⟩
  simp only [TradeEvent.restamp, TradeEvent.fromDict, List.forall_mem_cons, List.not_mem_nil,
    false_implies, implies_true, and_true]
  simp only [Json.wf_get hwf, ht, hs, and_self]

/-- Replacing an event by a smaller one keeps a chain within its limit. -/
theorem chainFits_replace {e e' : Json} {es : List Json} (h : chainFits (e :: es) = true)
    (he : e'.encodable = true) (hw : weight false e' ≤ weight false e) :
    chainFits (e' :: es) = true := by
  unfold chainFits at h ⊢
  cases hb : canonicalJson (.obj [("events", .arr (e :: es))]) with
  | none => rw [hb] at h; cases h
  | some b =>
    have henc := (canonicalJson_eq_some hb).1
    simp only [Json.encodable_obj, List.forall_mem_singleton, Json.encodable_arr,
      List.forall_mem_cons] at henc
    have henc' : (Json.obj [("events", .arr (e' :: es))]).encodable = true := by
      simp only [Json.encodable_obj, List.forall_mem_singleton, Json.encodable_arr,
        List.forall_mem_cons]
      exact ⟨he, henc.2⟩
    obtain ⟨b', hb'⟩ := canonicalJson_of_encodable henc'
    have hlen := canonicalJson_length hb
    have hlen' := canonicalJson_length hb'
    rw [weight_obj false (by simp)] at hlen hlen'
    simp only [List.map_cons, List.map_nil, List.sum_cons, List.sum_nil, itemWeight,
      weight_arr false (List.cons_ne_nil _ _)] at hlen hlen'
    simp only [hb, hb', decide_eq_true_iff] at h ⊢
    omega

theorem encodable_of_chainFits {es : List Json} (h : chainFits es = true) :
    ∀ e ∈ es, e.encodable = true := by
  unfold chainFits at h
  split at h
  · rename_i b hb
    have := (canonicalJson_eq_some hb).1
    simpa only [Json.encodable_obj, List.forall_mem_singleton, Json.encodable_arr] using this
  · cases h

theorem encodable_of_verifyTrade {now : ℤ} {tid : String} {es : List Json}
    (h : verifyTrade H now tid (some es) = .ok ()) : ∀ e ∈ es, e.encodable = true := by
  obtain ⟨_, _, heq, hfits, -⟩ := (verifyTrade_ok_iff H).1 h
  cases heq
  exact encodable_of_chainFits hfits

/-- The signer of the opening event can sign another one that the rest of the
    chain follows as well. -/
theorem exists_resigned {now : ℤ} {tid : String} {e : Json} {es : List Json} {k : H.SecretKey}
    (h : verifyTrade H now tid (some (e :: es)) = .ok ()) (hwf : e.wf = true)
    (hk : (TradeEvent.fromDict e.fields).actorDid = .str (asDid H k)) :
    ∃ e', e'.wf = true ∧ verifyTrade H now tid (some (e' :: es)) = .ok () ∧ e'.norm ≠ e.norm := by
  obtain ⟨_, _, heq, hfits, p, hp⟩ := (verifyTrade_ok_iff H).1 h
  cases heq
  rw [verifyFrom, bind_eq_ok] at hp
  obtain ⟨q, hq, hp⟩ := hp
  obtain ⟨f, hsig, hfol, hadm, rfl⟩ := (verifyStep_ok_iff H).1 hq
  obtain ⟨kvs, rfl⟩ := isObj_iff.1 hsig.isObj
  rw [Json.fields_obj] at hk
  obtain ⟨did, sig, b, hdid, hs, hb, hv⟩ := verifyTradeEvent_actor H hsig.signed
  obtain ⟨_, s, -, hlen, rfl, -⟩ := verifySig_eq_true H hv
  set ev := TradeEvent.fromDict kvs with hev
  have hperm := perm_toDict hwf hsig.keys
  have henc : ev.toDict.encodable = true := by
    have := encodable_of_chainFits hfits (.obj kvs) (by simp)
    rw [Json.encodable_obj] at this
    exact Json.encodable_obj.2 fun p hp => this p (hperm.mem_iff.2 hp)
  have htime : (otherTime ev.createdAtMs).encodable = true := by
    unfold otherTime; split_ifs <;> decide
  obtain ⟨b', hb'⟩ : ∃ b', canonicalJson (ev.restamp (otherTime ev.createdAtMs) .null).signingBody =
      some b' := by
    refine canonicalJson_of_encodable (Json.encodable_obj.2 fun p hp => ?_)
    have := Json.encodable_obj.1 (encodable_restamp (s := .null) henc htime rfl)
    exact this p (mem_toDict hp)
  set ev' := ev.restamp (otherTime ev.createdAtMs) (.str (signText H k b')) with hev'
  have hfrom := fromDict_toDict ev'
  have hsigned : verifyTradeEvent H ev' = .ok () := by
    unfold verifyTradeEvent
    simp only [expect_bind_eq_ok, require_bind_eq_ok, require_eq_ok, Json.asStr_eq_some]
    refine ⟨_, hk, isDidKey_asDid H k, _, decodeDidKey_asDid H k, _, rfl, ?_, b', hb',
      verifySig_signText H k b'⟩
    rw [len_eq, length_signText]; decide
  have hsigns : Signs H tid ev'.toDict f := by
    refine ⟨rfl, keysEq_toDict ev', ?_, ?_, ?_, ?_, ?_, hsig.size, ?_⟩ <;> rw [hfrom]
    · exact hsig.tradeId
    · exact hsig.type
    · exact hsig.actor
    · exact hsig.payload
    · exact hsig.new
    · exact hsigned
  have hfol' : Follows 0 none ev'.toDict := by
    constructor <;> rw [hfrom]
    · exact hfol.seq
    · exact hfol.prev
  have hpay : payloadOf ev'.toDict = payloadOf (.obj kvs) := by
    rw [hsigns.payloadOf_eq, hsig.payloadOf_eq]
  refine ⟨ev'.toDict, wf_restamp hwf ?_ rfl, ?_, ?_⟩
  · unfold otherTime; split_ifs <;> rfl
  · refine (verifyTrade_ok_iff H).2 ⟨_, _, rfl, chainFits_replace hfits ?_ ?_, p, ?_⟩
    · exact encodable_restamp henc htime rfl
    · rw [weight_obj_perm false hperm]
      refine weight_restamp_le ?_ ?_
      · rw [weight_otherTime]
        exact one_le_weight false (Json.encodable_obj.1 henc ("created_at_ms", _) (by simp))
      · rw [show ev.eventSig = _ from hs, weight_signature hlen, signText, weight_signature (H.sign_length k b')]
    · rw [hpay, verifyFrom, bind_eq_ok]
      exact ⟨_, (verifyStep_ok_iff H).2 ⟨f, hsigns, hfol', hadm, rfl⟩, hp⟩
  · intro hn
    have hg := congrArg (fun j => Json.get j.fields "created_at_ms") hn
    rw [Json.get_norm (Json.wf_obj.1 hwf).1] at hg
    have hn' : (ev'.toDict.fields.map Prod.fst).Nodup := by simp [TradeEvent.toDict]
    have hg' := Json.get_norm hn' "created_at_ms"
    rw [show (Json.obj ev'.toDict.fields) = ev'.toDict from rfl, hg] at hg'
    exact otherTime_norm_ne ev.createdAtMs hg'.symm

/-! ## Chains of one event -/

/-- The last event of an accepted chain carries the number of events before it. -/
theorem seq_of_verifyTrade {now : ℤ} {tid : String} {l : List Json} {e : Json}
    (h : verifyTrade H now tid (some (l ++ [e])) = .ok ()) :
    e.isObj = true ∧ (TradeEvent.fromDict e.fields).seq.eqInt l.length = true := by
  obtain ⟨x, xs, heq, -, p, hp⟩ := (verifyTrade_ok_iff H).1 h
  rw [← Option.some.inj heq] at hp
  obtain ⟨q, -, hq⟩ := (verifyFrom_append H l [e]).1 hp
  obtain ⟨f, hsig, hfol, -⟩ := (verifyStep_ok_iff H).1 ((verifyFrom_singleton H).1 hq)
  have := hfol.seq
  rw [Nat.zero_add] at this
  exact ⟨hsig.isObj, this⟩

/-- An opening event alone is identified by its hash. -/
theorem headIdentifies_singleton {now : ℤ} {tid : String} {a : Json} (hwf : a.wf = true)
    (h : verifyTrade H now tid (some [a]) = .ok ()) : HeadIdentifies H tid [a] := by
  intro now' B hB hv hcr hhead
  obtain ⟨hobj, hseq⟩ := seq_of_verifyTrade H (l := []) h
  have hne : B ≠ [] := by rintro rfl; cases hv
  obtain ⟨l, b, rfl⟩ := (List.eq_nil_or_concat' B).resolve_left hne
  obtain ⟨hobj', hseq'⟩ := seq_of_verifyTrade H hv
  obtain ⟨akvs, rfl⟩ := isObj_iff.1 hobj
  obtain ⟨bkvs, rfl⟩ := isObj_iff.1 hobj'
  have hbwf : (Json.obj bkvs).wf = true := hB _ (by simp)
  have henc := encodable_of_verifyTrade H h _ (List.mem_singleton.2 rfl)
  have henc' := encodable_of_verifyTrade H hv (.obj bkvs) (by simp)
  obtain ⟨x, hx⟩ := canonicalJson_of_encodable henc
  obtain ⟨y, hy⟩ := canonicalJson_of_encodable henc'
  have hxa : headBytes [.obj akvs] = some x := by simp [headBytes, hx]
  have hyb : headBytes (l ++ [.obj bkvs]) = some y := by simp [headBytes, hy]
  have hxy : x = y := by
    refine hcr x y hxa hyb ?_
    rw [tradeChainHead, tradeChainHead, hxa, hyb] at hhead
    simpa using hhead.symm
  have hnorm := canonicalJson_injective hbwf hwf hy (hxy ▸ hx)
  -- the sequence number is read from the common last event
  have hl : l = [] := by
    have hs : (Json.get bkvs "seq").norm = (Json.get akvs "seq").norm := by
      rw [← Json.get_norm (Json.wf_obj.1 hbwf).1, ← Json.get_norm (Json.wf_obj.1 hwf).1, hnorm]
    have h₁ : (Json.get akvs "seq").norm.eqInt l.length = true := by
      rw [← hs, Json.eqInt_norm]; exact hseq'
    have h₂ : (Json.get akvs "seq").norm.eqInt 0 = true := by
      rw [Json.eqInt_norm]; exact hseq
    rw [eqInt_iff] at h₁ h₂
    rw [h₁, Option.some.injEq] at h₂
    exact List.eq_nil_of_length_eq_zero (by exact_mod_cast h₂)
  subst hl
  simp [hnorm]

/-- **What the head of a chain identifies.**  An accepted chain whose opening
    event was signed with the key `k` is the only one with its head exactly if it
    has one event. -/
theorem headIdentifies_iff {now : ℤ} {tid : String} {A : List Json} {k : H.SecretKey}
    (hwf : ∀ e ∈ A, e.wf = true) (h : verifyTrade H now tid (some A) = .ok ())
    (hk : (TradeEvent.fromDict (A.headD .null).fields).actorDid = .str (asDid H k)) :
    HeadIdentifies H tid A ↔ A.length = 1 := by
  obtain ⟨e, es, heq, -⟩ := (verifyTrade_ok_iff H).1 h
  cases heq
  rw [List.forall_mem_cons] at hwf
  constructor
  · intro hid
    by_contra hlen
    have hes : es ≠ [] := by rintro rfl; exact hlen rfl
    obtain ⟨e', he', hv, hne⟩ := exists_resigned H h hwf.1 hk
    have hlast : headBytes (e' :: es) = headBytes (e :: es) := by
      obtain ⟨x, xs, rfl⟩ := List.exists_cons_of_ne_nil hes
      simp [headBytes, List.getLast?_cons_cons]
    have hB : ∀ x ∈ e' :: es, x.wf = true := List.forall_mem_cons.2 ⟨he', hwf.2⟩
    have := hid now (e' :: es) hB hv (fun a b ha hb _ => by
      rw [hlast, ha] at hb; exact Option.some.inj hb) (by rw [tradeChainHead, tradeChainHead, hlast])
    exact hne (List.cons.inj this).1
  · intro hlen
    obtain rfl : es = [] := List.eq_nil_of_length_eq_zero (by simpa using hlen)
    exact headIdentifies_singleton H hwf.1 h

/-- An opening event at time `t` by key 1, for the claimant with key 2. -/
def openingAt (t : ℤ) : Json :=
  let e : TradeEvent :=
    { tradeId := .str "t", seq := .int 0, type := .str "trade_opened",
      actorDid := .str (asDid checksumHost (1 : UInt8)), prevState := .str "",
      newState := .str "executing", createdAtMs := .int t,
      payload := .obj [("claimant_did", .str (asDid checksumHost (2 : UInt8)))] }
  ((signTradeEvent checksumHost (1 : UInt8) e).toOption.getD e).toDict

/-- The delivery that follows it. -/
def deliveredChain (t : ℤ) : List Json :=
  openingAt t :: signChain checksumHost "t" 1 (some .executing)
    [((2 : UInt8), .deliverySubmitted, .delivered, [("delivery", .obj [])])]

/-- The chain is accepted, whatever the time of its opening. -/
def deliveredVerified : PLift (verifyTrade checksumHost 10 "t" (some (deliveredChain 1)) = .ok () ∧
    verifyTrade checksumHost 10 "t" (some (deliveredChain 2)) = .ok ()) := ⟨by decide +kernel⟩

/-- What the two chains have in common, and that they differ. -/
def equalHeads : PLift ((tradeChainHead checksumHost (deliveredChain 1)).isSome = true ∧
    tradeChainHead checksumHost (deliveredChain 1) =
      tradeChainHead checksumHost (deliveredChain 2) ∧
    headBytes (deliveredChain 1) = headBytes (deliveredChain 2) ∧
    (deliveredChain 1).map Json.norm ≠ (deliveredChain 2).map Json.norm) := ⟨by decide +kernel⟩

theorem headIdentifies_iff_delivered :
    (HeadIdentifies checksumHost "t" (deliveredChain 1) ↔ (deliveredChain 1).length = 1) ∧
      (deliveredChain 1).length = 2 :=
  ⟨headIdentifies_iff checksumHost (k := (1 : UInt8)) (by decide)
    deliveredVerified.down.1 (by decide), rfl⟩

/-- Two accepted chains with the same head bytes that differ in the opening event. -/
theorem equal_heads_different_chains :
    verifyTrade checksumHost 10 "t" (some (deliveredChain 1)) = .ok () ∧
      verifyTrade checksumHost 10 "t" (some (deliveredChain 2)) = .ok () ∧
      (tradeChainHead checksumHost (deliveredChain 1)).isSome = true ∧
      tradeChainHead checksumHost (deliveredChain 1) =
        tradeChainHead checksumHost (deliveredChain 2) ∧
      headBytes (deliveredChain 1) = headBytes (deliveredChain 2) ∧
      (deliveredChain 1).map Json.norm ≠ (deliveredChain 2).map Json.norm :=
  ⟨deliveredVerified.down.1, deliveredVerified.down.2, equalHeads.down⟩

end NthDao
