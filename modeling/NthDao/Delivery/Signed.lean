/-
  Sound drafts are signed (`nth_dao/delivery/envelope.py`, `sign_envelope`).

  * `weight_toDict_le`: a valid envelope is well below the wire limit, since only
    its payload can be large;
  * `Draft.Sound`: what an author has to respect;
  * `signEnvelope_of_sound`: a sound draft is signed, and what is signed is valid.
-/
import Mathlib.Algebra.Order.BigOperators.Group.List
import NthDao.Delivery.OutboxGrowth
import NthDao.Py.Parsed

namespace NthDao

namespace Delivery

open Py TransportEnvelope

variable (H : Host)

/-! ## The size of a valid envelope -/

theorem weight_str_le {s : String} {n : ℕ} (h : s.length ≤ n) :
    weight false (.str s) ≤ 6 * n + 2 := by
  have := strWeight_le s
  rw [weight_str]
  omega

theorem weight_safeInt_le {j : Json} {path : String} {n : ℤ} (h : checkSafeInt j path = .ok n) :
    j = .int n ∧ weight false j ≤ maxIntDigits + 1 := by
  simp only [checkSafeInt, bind_eq_ok, expect_eq_ok, require_eq_ok, pure_eq_ok, Json.asInt_eq_some,
    Bool.and_eq_true, decide_eq_true_eq] at h
  obtain ⟨m, rfl, _, hm, rfl⟩ := h
  unfold maxSafeInteger at hm
  exact ⟨rfl, weight_int_le (Json.encodable_int (by omega))⟩

theorem length_of_isLabel {a : Char → Bool} {s : String} (h : isLabel a (chars s) = true) :
    s.length ≤ 128 := by
  simp only [isLabel, Bool.and_eq_true, decide_eq_true_eq, chars_eq, String.length_toList] at h
  exact h.1.1.1.2

theorem weight_recipient_le {j : Json} (h : validateRecipient j = .ok ()) :
    weight false j ≤ 1538 := by
  simp only [validateRecipient, bind_eq_ok, expect_eq_ok, require_eq_ok, Json.asStr_eq_some,
    Bool.and_eq_true, decide_eq_true_eq] at h
  obtain ⟨s, rfl, _, ⟨-, hlen⟩, -⟩ := h
  rw [len, chars_eq, String.length_toList] at hlen
  exact weight_str_le hlen

/-- At most three entries, each a number or a recipient. -/
theorem weight_routing_le {routing : Json} (hw : routing.wf = true)
    (h : validateRouting routing = .ok ()) : weight false routing ≤ 13300 := by
  simp only [validateRouting, bind_eq_ok, require_eq_ok, expect_eq_ok] at h
  obtain ⟨_, hobj, _, hall, l, hl, c, hc, limit, hlimit, count, hcount, _, -, _, -, hreply⟩ := h
  obtain ⟨kvs, rfl⟩ : ∃ kvs, routing = .obj kvs := ⟨_, Json.eq_obj_of_isObj hobj⟩
  rw [Json.fields_obj] at hall hl hc hreply
  rw [Json.wf_obj] at hw
  have hkeys : ∀ p ∈ kvs, p.1 ∈ ["hop_limit", "hop_count", "reply_to"] := fun p hp => by
    simpa using List.all_eq_true.1 hall p hp
  have hkey : ∀ k ∈ ["hop_limit", "hop_count", "reply_to"], strWeight false k ≤ 20 := by
    decide
  have hitem : ∀ p ∈ kvs, itemWeight false p ≤ 4400 := by
    rintro ⟨k, v⟩ hp
    have hv : weight false v ≤ maxIntDigits + 1 := by
      have hv := Json.lookup_of_mem hw.1 hp
      have hk := hkeys _ hp
      simp only [List.mem_cons, List.not_mem_nil, or_false] at hk
      rcases hk with rfl | rfl | rfl
      · cases hl.symm.trans hv
        exact (weight_safeInt_le hlimit).2
      · cases hc.symm.trans hv
        exact (weight_safeInt_le hcount).2
      · rw [hv, validateReplyTo] at hreply
        simp only [bind_eq_ok, require_eq_ok, expect_eq_ok, mapError_eq_ok] at hreply
        obtain ⟨_, -, _, -, hreply⟩ := hreply
        exact (weight_recipient_le hreply).trans (by decide)
    have hk : strWeight false k ≤ 20 := hkey k (hkeys _ hp)
    unfold maxIntDigits at hv
    change strWeight false k + weight false v + 2 ≤ 4400
    omega
  have hlen : kvs.length ≤ 3 := by
    have hsub : kvs.map Prod.fst ⊆ ["hop_limit", "hop_count", "reply_to"] := fun k hk => by
      obtain ⟨p, hp, rfl⟩ := List.mem_map.1 hk
      exact hkeys p hp
    simpa using (List.subperm_of_subset hw.1 hsub).length_le
  have hsum := List.sum_le_card_nsmul (kvs.map (itemWeight false)) 4400 fun x hx => by
    obtain ⟨p, hp, rfl⟩ := List.mem_map.1 hx
    exact hitem p hp
  rw [List.length_map, Nat.nsmul_eq_mul] at hsum
  rw [weight_obj false (List.ne_nil_of_mem (Json.mem_of_lookup hl))]
  omega

theorem weight_signature_le {e : TransportEnvelope} (h : checkSignature H e = .ok ()) :
    weight false e.signature ≤ 88 := by
  simp only [checkSignature, bind_eq_ok, require_eq_ok, expect_eq_ok, Json.asStr_eq_some] at h
  obtain ⟨signature, hs, _, -, sender, -, body, -, hverify⟩ := h
  obtain ⟨_, s, _, hlen, rfl, -⟩ := verifySig_eq_true H hverify
  rw [hs, weight_signature hlen]

/-- What the head bounds. -/
theorem weight_head_le {e : TransportEnvelope} (h : checkHead e = .ok ()) :
    weight false e.protocol + weight false e.version + weight false e.kind +
      weight false e.senderDid + weight false e.recipient + weight false e.daoId ≤ 4000 := by
  simp only [checkHead, bind_eq_ok, require_eq_ok, expect_eq_ok, Json.asStr_eq_some, Json.eqStr_iff,
    beq_iff_eq, Json.asInt_eq_some, Bool.and_eq_true] at h
  obtain ⟨_, hprotocol, _, hversion, _, -, kind, hkind, _, ⟨hlabel, -⟩, sender, hsender, _, hdid, _,
    hrecipient, hdao⟩ := h
  obtain ⟨pk, hpk⟩ := Option.isSome_iff_exists.1 hdid
  have h₁ : weight false (.str envelopeProtocol) + weight false (.int envelopeVersion) ≤ 40 := by
    decide
  have h₂ := weight_str_le (length_of_isLabel hlabel)
  have h₃ := weight_str_le (length_of_decodeDidKey hpk)
  have h₄ := weight_recipient_le hrecipient
  have h₅ : weight false e.daoId ≤ 770 := by
    split_ifs at hdao with hnull
    · rw [hnull]; decide
    · simp only [localId, bind_eq_ok, expect_eq_ok, require_eq_ok, Json.asStr_eq_some,
        Bool.and_eq_true, decide_eq_true_eq, chars_eq, String.length_toList] at hdao
      obtain ⟨s, hs, ⟨⟨-, hlen⟩, -⟩, -⟩ := hdao
      rw [hs]
      exact weight_str_le hlen
  rw [hprotocol, hversion, hkind, hsender]
  omega

/-- Without the null fields, an envelope is not larger. -/
theorem weight_toDict_le_asdict {e : TransportEnvelope} (hne : e.toDict ≠ []) :
    weight false (.obj e.toDict) ≤
      1 + 14 * 82 + (e.asdict.map fun p => weight false p.2).sum := by
  have hkey : ∀ k ∈ ["message_id", "kind", "sender_did", "recipient", "created_at_ms",
      "expires_at_ms", "nonce", "payload_hash", "payload", "routing", "signature", "protocol",
      "version", "dao_id"], strWeight false k ≤ 80 := by decide
  have hitem : ∀ p ∈ e.asdict, itemWeight false p ≤ weight false p.2 + 82 := by
    intro p hp
    have hk : strWeight false p.1 ≤ 80 := hkey p.1 (List.mem_map_of_mem hp)
    rw [itemWeight]
    omega
  have hsum := List.sum_le_sum hitem
  have hsub : (e.toDict.map (itemWeight false)).sum ≤ (e.asdict.map (itemWeight false)).sum :=
    (List.filter_sublist.map _).sum_le_sum fun _ _ => Nat.zero_le _
  rw [List.sum_map_add, List.map_const', List.sum_replicate, Nat.nsmul_eq_mul,
    show e.asdict.length = 14 from rfl] at hsum
  rw [weight_obj false hne]
  omega

/-- **A valid envelope is well below the wire limit**: only its payload can be
    large. -/
theorem weight_toDict_le {e : TransportEnvelope} (hw : e.wf = true) {nowMs : Option ℤ} {p : ℤ × ℤ}
    {id : String} (hid : e.messageId = .str id) (hlen : id.length = 71)
    (hhead : checkHead e = .ok ()) (hperiod : checkPeriod e nowMs = .ok p)
    (hnonce : checkNonce e = .ok ()) (hpayload : checkPayload H e = .ok ())
    (hrouting : validateRouting e.routing = .ok ()) (hsig : weight false e.signature ≤ 88) :
    weight false (.obj e.toDict) ≤ 300000 := by
  have hne : e.toDict ≠ [] := by
    refine List.ne_nil_of_mem (a := ("message_id", e.messageId)) (List.mem_filter.2 ⟨?_, ?_⟩)
    · exact List.mem_cons_self
    · rw [hid]; rfl
  have hle := weight_toDict_le_asdict hne
  have h₁ := weight_str_le hlen.le
  have h₂ := weight_head_le hhead
  have h₃ := weight_routing_le (e.wf_routing hw) hrouting
  simp only [checkPeriod, bind_eq_ok, require_eq_ok, pure_eq_ok] at hperiod
  obtain ⟨created, hcreated, _, -, expires, hexpires, -⟩ := hperiod
  have h₅ := (weight_safeInt_le hcreated).2
  have h₆ := (weight_safeInt_le hexpires).2
  simp only [checkNonce, bind_eq_ok, expect_eq_ok, require_eq_ok, Json.asStr_eq_some,
    Bool.and_eq_true, decide_eq_true_eq] at hnonce
  obtain ⟨nonce, hn, ⟨-, hnlen⟩, -⟩ := hnonce
  rw [len, chars_eq, String.length_toList] at hnlen
  have h₇ := weight_str_le hnlen
  simp only [checkPayload, bind_eq_ok, require_eq_ok, expect_eq_ok, Json.eqStr_iff,
    decide_eq_true_eq] at hpayload
  obtain ⟨_, -, _, -, encoded, hencoded, _, hsize, hhash⟩ := hpayload
  rw [canonicalJson_length hencoded] at hsize
  have h₈ := weight_str_le (length_of_isDigest (isDigest_digest H encoded)).le
  unfold maxIntDigits at h₅ h₆
  unfold maxPayloadBytes at hsize
  simp only [asdict, List.map_cons, List.map_nil, List.sum_cons, List.sum_nil, hid, hn, hhash] at hle
  omega

/-! ## Sound drafts -/

/-- What an author has to respect. -/
structure Draft.Sound (d : Draft) : Prop where
  kind : (isLabel isLowerAlnum (chars d.kind) && !hasDots (chars d.kind)) = true
  recipient : validateRecipient (.str d.recipient) = .ok ()
  daoId : d.daoId = .null ∨ localId d.daoId "dao_id" 128 = .ok ()
  created_pos : 0 < d.createdAtMs
  expires_gt : d.createdAtMs < d.expiresAtMs
  expires_le : d.expiresAtMs ≤ maxSafeInteger
  ttl : d.expiresAtMs - d.createdAtMs ≤ maxTtlMs
  nonce : (16 ≤ len d.nonce && len d.nonce ≤ 128 && (chars d.nonce).all isAsciiAlnum) = true
  payload_isObj : d.payload.isObj = true
  payload_shape : checkPayloadShape d.payload 0 = .ok ()
  payload_wf : d.payload.wf = true
  payload_size : ∃ b, canonicalJson d.payload = some b ∧ b.length ≤ maxPayloadBytes
  hopLimit : 0 ≤ d.hopLimit ∧ d.hopLimit ≤ maxHopLimit
  replyTo : d.replyTo = "" ∨ validateRecipient (.str d.replyTo) = .ok ()

/-- The envelope of a draft with an id and a signature. -/
def Draft.signed (d : Draft) (sender payloadHash id signature : String) : TransportEnvelope :=
  { d.envelope sender payloadHash with messageId := .str id, signature := .str signature }

section Bodies

variable (e : TransportEnvelope)

theorem signingBody_eq : e.signingBody = Json.insert
    ((e.asdict.filter fun p => p.1 != "signature").filter fun p => p.2 != .null) "routing"
      (authorRouting e.routing) := by
  rw [signingBody, get_routing, toDict, List.filter_comm]

theorem contentBody_eq : e.contentBody = Json.insert
    (((e.asdict.filter fun p => p.1 != "signature").filter fun p => p.1 != "message_id").filter
      fun p => p.2 != .null) "routing" (authorRouting e.routing) := by
  rw [contentBody, signingBody_eq, Json.filter_insert_of_pos (fun _ _ => by simp) (by simp),
    List.filter_comm]

end Bodies

/-- Neither the id nor the signature is part of the content. -/
theorem contentBody_signed (d : Draft) (sender payloadHash id signature : String) :
    (d.signed sender payloadHash id signature).contentBody =
      (d.envelope sender payloadHash).contentBody := by
  rw [contentBody_eq, contentBody_eq]
  rfl

/-- The signature is not signed. -/
theorem signingBody_signed (d : Draft) (sender payloadHash id signature : String) :
    (d.signed sender payloadHash id signature).signingBody =
      (d.signed sender payloadHash id "").signingBody := by
  rw [signingBody_eq, signingBody_eq]
  rfl

section Signing

variable {d : Draft} (hd : d.Sound) {sender payloadHash id signature : String}
include hd

theorem Draft.Sound.payload_ne : (d.payload != .null) = true := by
  rw [Json.eq_obj_of_isObj hd.payload_isObj]; rfl

theorem encodable_signed : ∀ p ∈ (d.signed sender payloadHash id signature).asdict,
    p.2.encodable = true := by
  have hint : ∀ n : ℤ, 0 ≤ n → n ≤ maxSafeInteger → (Json.int n).encodable = true := by
    intro n h0 hn
    unfold maxSafeInteger at hn
    exact Json.encodable_int (by omega)
  have h₁ := hint d.createdAtMs hd.created_pos.le (hd.expires_gt.le.trans hd.expires_le)
  have h₂ := hint d.expiresAtMs (hd.created_pos.trans hd.expires_gt).le hd.expires_le
  have h₃ : (Json.int d.hopLimit).encodable = true :=
    hint _ hd.hopLimit.1 (hd.hopLimit.2.trans (by decide))
  have h₄ : d.payload.encodable = true := by
    obtain ⟨b, hb, -⟩ := hd.payload_size
    exact (canonicalJson_eq_some hb).1
  have h₅ : d.daoId.encodable = true := by
    rcases hd.daoId with hdao | hdao
    · rw [hdao]; rfl
    · simp only [localId, bind_eq_ok, expect_eq_ok, Json.asStr_eq_some] at hdao
      obtain ⟨s, hs, -⟩ := hdao
      rw [hs]; rfl
  have h₆ : ∀ kvs : Fields, kvs = [] ∨ kvs = [("reply_to", .str d.replyTo)] →
      (Json.obj ([("hop_limit", .int d.hopLimit), ("hop_count", .int 0)] ++ kvs)).encodable = true := by
    intro kvs hkvs
    rw [Json.encodable_obj]
    rcases hkvs with rfl | rfl
    · simpa [h₃] using hint 0 le_rfl (by decide)
    · simpa [h₃] using ⟨hint 0 le_rfl (by decide), rfl⟩
  simp only [asdict, Draft.signed, Draft.envelope, List.forall_mem_cons]
  exact ⟨rfl, rfl, rfl, rfl, h₁, h₂, rfl, rfl, h₄, h₆ _ (by split_ifs <;> simp), rfl, rfl, rfl, h₅,
    by simp⟩

theorem wf_signed : (d.signed sender payloadHash id signature).wf = true := by
  have hrouting : ∀ kvs : Fields, kvs = [] ∨ kvs = [("reply_to", .str d.replyTo)] →
      (Json.obj ([("hop_limit", .int d.hopLimit), ("hop_count", .int 0)] ++ kvs)).wf = true := by
    intro kvs hkvs
    rw [Json.wf_obj]
    rcases hkvs with rfl | rfl
    · simp [Json.wf]
    · simp [Json.wf]
  have hdao : d.daoId.wf = true := by
    rcases hd.daoId with hdao | hdao
    · rw [hdao]; rfl
    · simp only [localId, bind_eq_ok, expect_eq_ok, Json.asStr_eq_some] at hdao
      obtain ⟨s, hs, -⟩ := hdao
      rw [hs]; rfl
  rw [wf, Json.wf_obj]
  refine ⟨nodup_asdict _, ?_⟩
  simp only [asdict, Draft.signed, Draft.envelope, List.forall_mem_cons]
  exact ⟨rfl, rfl, rfl, rfl, rfl, rfl, rfl, rfl, hd.payload_wf, hrouting _ (by split_ifs <;> simp),
    rfl, rfl, rfl, hdao, by simp⟩

theorem checkHead_signed (hsender : isDidKey sender = true) :
    checkHead (d.signed sender payloadHash id signature) = .ok () := by
  have hp := hd.payload_ne
  have hkeys : (Json.keysEq (d.signed sender payloadHash id signature).toDict ("dao_id" :: baseFields) ||
      Json.keysEq (d.signed sender payloadHash id signature).toDict baseFields) = true := by
    by_cases hdao : d.daoId = .null
    all_goals
      simp [toDict, asdict, Draft.signed, Draft.envelope, hdao, hp, Json.keysEq, baseFields]
  have hdao : (if d.daoId = .null then Except.ok () else localId d.daoId "dao_id" 128) = .ok () := by
    rcases hd.daoId with hdao | hdao
    · rw [if_pos hdao]
    · rw [hdao, ite_self]
  simp only [checkHead, hkeys, bind_eq_ok, require_eq_ok, expect_eq_ok, Json.asStr_eq_some]
  exact ⟨(), beq_self_eq_true envelopeProtocol, (), beq_self_eq_true (some envelopeVersion), (), trivial,
    d.kind, rfl, (), hd.kind, sender, rfl, (), hsender, (),
    hd.recipient, hdao⟩

theorem checkPeriod_signed : checkPeriod (d.signed sender payloadHash id signature) none =
    .ok (d.createdAtMs, d.expiresAtMs) := by
  have h₁ := hd.created_pos
  have h₂ := hd.expires_gt
  have h₃ := hd.expires_le
  simp only [checkPeriod, checkSafeInt, bind_eq_ok, require_eq_ok, expect_eq_ok, pure_eq_ok,
    Json.asInt_eq_some, Bool.and_eq_true, decide_eq_true_eq]
  exact ⟨_, ⟨_, rfl, (), ⟨by unfold maxSafeInteger; omega, by omega⟩, rfl⟩, (), h₁, _,
    ⟨_, rfl, (), ⟨by unfold maxSafeInteger; omega, h₃⟩, rfl⟩, (), h₂, (), hd.ttl, (), rfl, rfl⟩

theorem validateRouting_signed :
    validateRouting (d.signed sender payloadHash id signature).routing = .ok () := by
  obtain ⟨h0, hmax⟩ := hd.hopLimit
  have hsafe : ∀ (n : ℤ) (path : String), 0 ≤ n → n ≤ maxHopLimit →
      checkSafeInt (.int n) path = .ok n := by
    intro n path h0 hn
    unfold maxHopLimit at hn
    simp only [checkSafeInt, bind_eq_ok, expect_eq_ok, require_eq_ok, pure_eq_ok,
      Json.asInt_eq_some, Bool.and_eq_true, decide_eq_true_eq]
    exact ⟨n, rfl, (), by unfold maxSafeInteger; omega, rfl⟩
  have hsome : ∀ kvs : Fields, kvs = [] ∨ (kvs = [("reply_to", .str d.replyTo)] ∧
      d.replyTo ≠ "" ∧ validateRecipient (.str d.replyTo) = .ok ()) →
      validateRouting (.obj ([("hop_limit", .int d.hopLimit), ("hop_count", .int 0)] ++ kvs)) =
        .ok () := by
    intro kvs hkvs
    simp only [validateRouting, bind_eq_ok, require_eq_ok, expect_eq_ok, Json.fields_obj]
    refine ⟨(), rfl, (), ?_, .int d.hopLimit, rfl, .int 0, rfl, _, hsafe _ _ h0 hmax, 0,
      hsafe _ _ le_rfl (by decide), (), by simpa using ⟨h0, hmax⟩, (), by simpa using h0, ?_⟩
    · rcases hkvs with rfl | ⟨rfl, -⟩
      all_goals rfl
    · rcases hkvs with rfl | ⟨rfl, hne, hvalid⟩
      · rfl
      · rw [show Json.lookup ([("hop_limit", .int d.hopLimit), ("hop_count", .int 0)] ++
          [("reply_to", .str d.replyTo)]) "reply_to" = some (.str d.replyTo) from rfl]
        simp [validateReplyTo, hvalid, hne, Json.asStr, expect, require, ok_bind, Except.mapError]
  refine hsome _ ?_
  by_cases hreply : d.replyTo = ""
  · exact .inl (if_pos hreply)
  · exact .inr ⟨if_neg hreply, hreply, hd.replyTo.resolve_left hreply⟩

/-- An envelope of a sound draft is valid once its id and its signature are right. -/
theorem validateEnvelope_signed (hsender : isDidKey sender = true) {encoded : Bytes}
    (hencoded : canonicalJson d.payload = some encoded)
    (hid : contentAddress H (d.envelope sender (digest H encoded)) = some id) {b : Bool}
    (hsize : weight false (.str signature) ≤ 88)
    (hsig : b = true → checkSignature H (d.signed sender (digest H encoded) id signature) = .ok ()) :
    validateEnvelope H (d.signed sender (digest H encoded) id signature) none b = .ok () := by
  have hpayload : checkPayload H (d.signed sender (digest H encoded) id signature) = .ok () := by
    obtain ⟨b, hb, hle⟩ := hd.payload_size
    cases hencoded.symm.trans hb
    simp only [checkPayload, bind_eq_ok, require_eq_ok, expect_eq_ok, Json.eqStr_iff,
      decide_eq_true_eq]
    exact ⟨(), hd.payload_isObj, (), hd.payload_shape, encoded, hencoded, (), hle, rfl⟩
  have hnonce : checkNonce (d.signed sender (digest H encoded) id signature) = .ok () := by
    simp only [checkNonce, bind_eq_ok, require_eq_ok, expect_eq_ok, Json.asStr_eq_some]
    exact ⟨d.nonce, rfl, hd.nonce⟩
  have hlen : id.length = 71 := by
    obtain ⟨b, -, rfl⟩ := Option.map_eq_some_iff.1 hid
    exact length_of_isDigest (isDigest_digest H b)
  have hwire := @encodable_signed d hd sender (digest H encoded) id signature
  obtain ⟨wire, hwire⟩ := canonicalJson_isSome.2 fun p hp =>
    hwire p ((List.mem_filter (p := fun p => p.2 != .null)).1 hp).1
  have hle := weight_toDict_le H (wf_signed hd) rfl hlen (checkHead_signed hd hsender)
    (checkPeriod_signed hd) hnonce hpayload (validateRouting_signed hd) hsize
  simp only [validateEnvelope, bind_eq_ok, require_eq_ok, expect_eq_ok, Json.eqStr_iff]
  refine ⟨(), checkHead_signed hd hsender, _, checkPeriod_signed hd, (), hnonce, (), hpayload, (),
    validateRouting_signed hd, id, ?_, (), rfl, wire, hwire, (), ?_, ?_⟩
  · rw [contentAddress, contentBody_signed]
    exact hid
  · rw [canonicalJson_length hwire, decide_eq_true_eq]
    exact hle.trans (by decide)
  · cases b with
    | true => exact hsig rfl
    | false => rfl

end Signing

theorem encodable_signingBody {e : TransportEnvelope} (hobj : e.routing.isObj = true)
    (h : ∀ p ∈ e.asdict, p.2.encodable = true) : ∀ p ∈ e.signingBody, p.2.encodable = true := by
  intro p hp
  rw [signingBody, get_routing] at hp
  rcases Json.mem_insert hp with rfl | hp
  · have hr := h ("routing", e.routing) (by simp [asdict])
    rw [Json.eq_obj_of_isObj hobj, Json.encodable_obj] at hr
    exact Json.encodable_obj.2 fun q hq => hr q (List.mem_of_mem_filter hq)
  · exact h p (List.mem_of_mem_filter (List.mem_of_mem_filter hp))

/-- **A sound draft is signed**, and what is signed is valid. -/
theorem signEnvelope_of_sound {d : Draft} (hd : d.Sound) (k : H.SecretKey) :
    ∃ payloadHash id signature,
      signEnvelope H k d = .ok (d.signed (asDid H k) payloadHash id signature) ∧
      validateEnvelope H (d.signed (asDid H k) payloadHash id signature) none true = .ok () := by
  obtain ⟨encoded, hencoded, -⟩ := hd.payload_size
  set sender := asDid H k with hsender
  have hdid : isDidKey sender = true := isDidKey_asDid H k
  -- the bodies have a text
  obtain ⟨content, hcontent⟩ : ∃ b,
      canonicalJson (.obj (d.envelope sender (digest H encoded)).contentBody) = some b := by
    refine canonicalJson_isSome.2 fun p hp => ?_
    exact encodable_signingBody rfl (@encodable_signed d hd _ _ "" "") p (List.mem_of_mem_filter hp)
  have hid : contentAddress H (d.envelope sender (digest H encoded)) = some (digest H content) := by
    rw [contentAddress, hcontent]; rfl
  obtain ⟨body, hbody⟩ : ∃ b, canonicalJson (.obj
      (d.signed sender (digest H encoded) (digest H content) "").signingBody) = some b :=
    canonicalJson_isSome.2 (encodable_signingBody rfl (encodable_signed hd))
  have hunsigned : validateEnvelope H
      (d.signed sender (digest H encoded) (digest H content) "") none false = .ok () :=
    validateEnvelope_signed H hd hdid hencoded hid (by decide) (by simp)
  have hweight : weight false (.str (signText H k body)) ≤ 88 := by
    rw [signText, weight_signature (H.sign_length k body)]
  have hne : signText H k body ≠ "" := by
    intro h
    have := length_signText H k body
    rw [h] at this
    cases this
  have hsig : checkSignature H
      (d.signed sender (digest H encoded) (digest H content) (signText H k body)) = .ok () := by
    simp only [checkSignature, bind_eq_ok, expect_eq_ok, require_eq_ok, Json.asStr_eq_some]
    refine ⟨_, rfl, (), by simpa using hne, sender, rfl, body, ?_, ?_⟩
    · rw [signingBody_signed]
      exact hbody
    · exact verifySig_signText H k body
  have hvalid := validateEnvelope_signed H hd hdid hencoded hid hweight (b := true) fun _ => hsig
  refine ⟨_, _, _, ?_, hvalid⟩
  simp only [signEnvelope, bind_eq_ok, expect_eq_ok, require_eq_ok, pure_eq_ok]
  exact ⟨(), hd.payload_isObj, encoded, hencoded, _, hid, (), hunsigned, body, hbody, (), hvalid, rfl⟩

end Delivery

end NthDao
