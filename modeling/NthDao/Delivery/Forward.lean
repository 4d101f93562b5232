/-
  Forwarded envelopes (`nth_dao/delivery/envelope.py`, `forward_envelope`, and the
  match of acknowledgements in `nth_dao/delivery/outbox.py`).

  A relay sends an envelope on with its hop counter raised by one.  An outbox
  takes an acknowledgement of any copy that relays can have made.

  * `forwardEnvelope`, `forwards`: one relay, and a chain of relays;
  * `validateEnvelope_hopped`: a valid envelope is valid with every other counter
    within its budget;
  * `ack_matches_forwarded`: the digests that are matched are those of the
    forwarded copies.
-/
import NthDao.Delivery.Signed

namespace NthDao

namespace Delivery

open Py TransportEnvelope

variable (H : Host)

/-! ## Relays -/

/-- `envelope.routing["hop_count"]` and `envelope.routing["hop_limit"]`, once the
    routing is valid. -/
def hopCount (e : TransportEnvelope) : ℤ := (Json.get e.routing.fields "hop_count").asInt.getD 0
def hopLimit (e : TransportEnvelope) : ℤ := (Json.get e.routing.fields "hop_limit").asInt.getD 0

/-- The copy that a relay constructs: protocol and version are the defaults. -/
def forwardedCopy (e : TransportEnvelope) (routing : Fields) : TransportEnvelope :=
  { messageId := e.messageId, kind := e.kind, senderDid := e.senderDid, recipient := e.recipient,
    daoId := e.daoId, createdAtMs := e.createdAtMs, expiresAtMs := e.expiresAtMs,
    nonce := e.nonce, payloadHash := e.payloadHash, payload := e.payload,
    routing := .obj routing, signature := e.signature }

/-- `forward_envelope`. -/
def forwardEnvelope (e : TransportEnvelope) : Except String TransportEnvelope := do
  validateEnvelope H e none true
  require (hopCount e + 1 ≤ hopLimit e) "hop budget exhausted"
  let routing := Json.insert e.routing.fields "hop_count" (.int (hopCount e + 1))
  let forwarded := forwardedCopy e routing
  validateEnvelope H forwarded none true
  return forwarded

/-- `k` relays in a row. -/
def forwards : ℕ → TransportEnvelope → Except String TransportEnvelope
  | 0, e => .ok e
  | k + 1, e => do
    let e' ← forwardEnvelope H e
    forwards k e'

/-- The envelope with another hop counter. -/
def hopped (e : TransportEnvelope) (n : ℤ) : TransportEnvelope :=
  { e with routing := .obj (Json.insert e.routing.fields "hop_count" (.int n)) }

/-! ## What the hop counter is part of -/

section Hopped

variable {e : TransportEnvelope} (n : ℤ)

theorem asdict_hopped : (hopped e n).asdict = Json.insert e.asdict "routing"
    (.obj (Json.insert e.routing.fields "hop_count" (.int n))) := by
  simp [asdict, hopped, Json.insert]

/-- The copy that is rebuilt and the dict that is patched are the same wire object. -/
theorem toDict_hopped (hobj : e.routing.isObj = true) :
    (hopped e n).toDict = withHopCount e n := by
  rw [toDict, asdict_hopped, Json.filter_insert_of_pos ?_ (by simp), withHopCount, toDict]
  intro w hw
  obtain rfl : w = e.routing := by
    have := Json.lookup_of_mem e.nodup_asdict hw
    simpa [asdict, Json.lookup_cons] using this.symm
  rw [Json.eq_obj_of_isObj hobj]
  simp

theorem authorRouting_hopped :
    authorRouting (hopped e n).routing = authorRouting e.routing := by
  rw [hopped, authorRouting, Json.fields_obj, Json.filter_insert, authorRouting]

/-- The counter is not signed. -/
theorem signingBody_hopped (hobj : e.routing.isObj = true) :
    (hopped e n).signingBody = e.signingBody := by
  rw [signingBody, signingBody, get_routing, get_routing, authorRouting_hopped,
    toDict_hopped n hobj, withHopCount, Json.filter_insert_of_pos (fun _ _ => by simp) (by simp), Json.insert_insert]

/-- The counter is not part of the id. -/
theorem contentBody_hopped (hobj : e.routing.isObj = true) :
    (hopped e n).contentBody = e.contentBody := by
  rw [contentBody, signingBody_hopped n hobj, contentBody]

theorem hopped_hopped (m : ℤ) : hopped (hopped e n) m = hopped e m := by
  rw [hopped, hopped, Json.fields_obj, Json.insert_insert, hopped]

theorem hopCount_hopped : hopCount (hopped e n) = n := by
  rw [hopCount, hopped, Json.fields_obj, Json.get, Json.lookup_insert, if_pos rfl]
  rfl

theorem hopLimit_hopped : hopLimit (hopped e n) = hopLimit e := by
  rw [hopLimit, hopped, Json.fields_obj, Json.get, Json.lookup_insert, if_neg (by decide),
    hopLimit, Json.get]

theorem wf_hopped (hw : e.wf = true) : (hopped e n).wf = true := by
  have hr : (Json.obj (Json.insert e.routing.fields "hop_count" (.int n))).wf = true := by
    refine Json.wf_insert ?_ _ rfl
    have := e.wf_routing hw
    cases hc : e.routing with
    | obj kvs => rwa [hc] at this
    | _ => rfl
  rw [wf, asdict_hopped]
  exact Json.wf_insert hw _ hr

end Hopped

/-! ## Hops of a valid envelope -/

/-- What the routing of a valid envelope reads. -/
theorem validateRouting_hops {e : TransportEnvelope} (h : validateRouting e.routing = .ok ()) :
    e.routing.isObj = true ∧ Json.get e.routing.fields "hop_count" = .int (hopCount e) ∧
      Json.get e.routing.fields "hop_limit" = .int (hopLimit e) ∧ 0 ≤ hopCount e ∧
      hopCount e ≤ hopLimit e ∧ hopLimit e ≤ maxHopLimit := by
  simp only [validateRouting, checkSafeInt, bind_eq_ok, require_eq_ok, expect_eq_ok, pure_eq_ok,
    Json.asInt_eq_some, Bool.and_eq_true, decide_eq_true_eq] at h
  obtain ⟨_, hobj, _, -, _, hl, _, hc, _, ⟨limit, rfl, _, -, rfl⟩, _, ⟨count, rfl, _, -, rfl⟩, _, h₁,
    _, h₂, -⟩ := h
  have hcount : Json.get e.routing.fields "hop_count" = .int count := by rw [Json.get, hc]; rfl
  have hlimit : Json.get e.routing.fields "hop_limit" = .int limit := by rw [Json.get, hl]; rfl
  have hc' : hopCount e = count := by rw [hopCount, hcount]; rfl
  have hl' : hopLimit e = limit := by rw [hopLimit, hlimit]; rfl
  rw [hc', hl']
  exact ⟨hobj, hcount, hlimit, h₂.1, h₂.2, h₁.2⟩

theorem validateRouting_hopped {e : TransportEnvelope} (h : validateRouting e.routing = .ok ())
    {n : ℤ} (h0 : 0 ≤ n) (hn : n ≤ hopLimit e) : validateRouting (hopped e n).routing = .ok () := by
  obtain ⟨-, -, hget, -, -, hmax⟩ := validateRouting_hops h
  have hsafe : ∀ path, checkSafeInt (.int n) path = .ok n := fun path => by
    unfold maxHopLimit at hmax
    simp only [checkSafeInt, bind_eq_ok, expect_eq_ok, require_eq_ok, pure_eq_ok,
      Json.asInt_eq_some, Bool.and_eq_true, decide_eq_true_eq]
    exact ⟨n, rfl, (), by unfold maxSafeInteger; omega, rfl⟩
  simp only [validateRouting, bind_eq_ok, require_eq_ok, expect_eq_ok] at h ⊢
  obtain ⟨_, hobj, _, hall, l, hl, c, hc, limit, hlimit, count, hcount, _, h₁, _, h₂, h₃⟩ := h
  obtain rfl : hopLimit e = limit := by
    rw [Json.get, hl, Option.getD_some] at hget
    rw [hget] at hlimit
    simp only [checkSafeInt, bind_eq_ok, expect_eq_ok, pure_eq_ok, Json.asInt_eq_some] at hlimit
    obtain ⟨_, ⟨⟩, -, -, rfl⟩ := hlimit
    rfl
  refine ⟨(), rfl, (), ?_, l, ?_, .int n, ?_, _, hlimit, n, hsafe _, (), h₁, (), ?_, ?_⟩
  · rw [List.all_eq_true] at hall ⊢
    intro p hp
    rcases Json.mem_insert hp with rfl | hp
    · rfl
    · exact hall p hp
  · rw [hopped, Json.fields_obj, Json.lookup_insert, if_neg (by decide), hl]
  · rw [hopped, Json.fields_obj, Json.lookup_insert, if_pos rfl]
  · simp [h0, hn]
  · rwa [hopped, Json.fields_obj, Json.lookup_insert, if_neg (by decide)]

theorem checkHead_hopped {e : TransportEnvelope} (hobj : e.routing.isObj = true) (n : ℤ)
    (h : checkHead e = .ok ()) : checkHead (hopped e n) = .ok () := by
  have hmem : "routing" ∈ e.toDict.map Prod.fst := by
    refine List.mem_map.2 ⟨("routing", e.routing), List.mem_filter.2 ⟨by simp [asdict], ?_⟩, rfl⟩
    rw [Json.eq_obj_of_isObj hobj]; rfl
  have hkeys : ∀ fs, Json.keysEq (hopped e n).toDict fs = Json.keysEq e.toDict fs := by
    refine Json.keysEq_of_perm ?_
    rw [toDict_hopped n hobj, withHopCount, Json.keys_insert, if_pos hmem]
  rw [checkHead, hkeys, hkeys]
  exact h

/-- **A valid envelope is valid with every other counter** within its budget. -/
theorem validateEnvelope_hopped {e : TransportEnvelope} (hw : e.wf = true) {nowMs : Option ℤ}
    (h : validateEnvelope H e nowMs true = .ok ()) {n : ℤ} (h0 : 0 ≤ n) (hn : n ≤ hopLimit e) :
    validateEnvelope H (hopped e n) nowMs true = .ok () := by
  simp only [validateEnvelope, bind_eq_ok, require_eq_ok, expect_eq_ok, if_true, Json.eqStr_iff] at h ⊢
  obtain ⟨_, hhead, p, hperiod, _, hnonce, _, hpayload, _, hrouting, id, hid, _, heq, wire, hwire, _, -,
    hsig⟩ := h
  have hobj := (validateRouting_hops hrouting).1
  have hhead' := checkHead_hopped hobj n hhead
  have hrouting' := validateRouting_hopped hrouting h0 hn
  have hsig' : checkSignature H (hopped e n) = .ok () := by
    rw [checkSignature, signingBody_hopped n hobj]
    exact hsig
  have hid' : contentAddress H (hopped e n) = some id := by
    rw [contentAddress, contentBody_hopped n hobj]
    exact hid
  have hlen : id.length = 71 := by
    obtain ⟨b, -, rfl⟩ := Option.map_eq_some_iff.1 hid
    exact length_of_isDigest (isDigest_digest H b)
  obtain ⟨wire', hwire'⟩ : ∃ b, canonicalJson (.obj (hopped e n).toDict) = some b := by
    rw [toDict_hopped n hobj]
    refine canonicalJson_isSome.2 fun q hq => ?_
    rcases Json.mem_insert hq with rfl | hq
    · refine Json.encodable_obj.2 fun r hr => ?_
      rcases Json.mem_insert hr with rfl | hr
      · have := (validateRouting_hops hrouting).2.2.2.2.2
        unfold maxHopLimit at this
        exact Json.encodable_int (by omega)
      · have he := canonicalJson_isSome.1 ⟨wire, hwire⟩ ("routing", e.routing)
          (List.mem_filter.2 ⟨by simp [asdict], by rw [Json.eq_obj_of_isObj hobj]; rfl⟩)
        rw [Json.eq_obj_of_isObj hobj] at he
        exact Json.encodable_obj.1 he r hr
    · exact canonicalJson_isSome.1 ⟨wire, hwire⟩ q hq
  have hperiod' : checkPeriod (hopped e n) nowMs = .ok p := hperiod
  have hsize := weight_toDict_le H (wf_hopped n hw) heq hlen hhead' hperiod' hnonce hpayload
    hrouting' (weight_signature_le H hsig')
  refine ⟨(), hhead', p, hperiod, (), hnonce, (), hpayload, (), hrouting', id, hid', (), heq, wire',
    hwire', (), ?_, hsig'⟩
  rw [canonicalJson_length hwire', decide_eq_true_eq]
  exact hsize.trans (by decide)

/-! ## Chains of relays -/

theorem validateRouting_of_valid {e : TransportEnvelope} {nowMs : Option ℤ} {b : Bool}
    (h : validateEnvelope H e nowMs b = .ok ()) : validateRouting e.routing = .ok () := by
  simp only [validateEnvelope, bind_eq_ok] at h
  obtain ⟨_, -, _, -, _, -, _, -, _, hrouting, -⟩ := h
  exact hrouting

/-- The defaults are what a valid envelope has. -/
theorem forwardedCopy_of_valid {e : TransportEnvelope} {nowMs : Option ℤ} {b : Bool}
    (h : validateEnvelope H e nowMs b = .ok ()) (routing : Fields) :
    forwardedCopy e routing = { e with routing := .obj routing } := by
  simp only [validateEnvelope, checkHead, bind_eq_ok, require_eq_ok, Json.eqStr_iff, beq_iff_eq,
    Json.asInt_eq_some] at h
  obtain ⟨_, ⟨_, hprotocol, _, hversion, -⟩, -⟩ := h
  rw [forwardedCopy, hprotocol, hversion]

/-- What one relay returns. -/
theorem forwardEnvelope_eq_ok {e e' : TransportEnvelope} (hw : e.wf = true)
    (h : validateEnvelope H e none true = .ok ()) :
    forwardEnvelope H e = .ok e' ↔ hopCount e < hopLimit e ∧ e' = hopped e (hopCount e + 1) := by
  obtain ⟨-, -, -, h0, -, -⟩ := validateRouting_hops (validateRouting_of_valid H h)
  simp only [forwardEnvelope, bind_eq_ok, require_eq_ok, pure_eq_ok, forwardedCopy_of_valid H h,
    decide_eq_true_eq]
  constructor
  · rintro ⟨_, -, _, hlt, _, -, rfl⟩
    exact ⟨by omega, rfl⟩
  · rintro ⟨hlt, rfl⟩
    exact ⟨(), h, (), by omega, (), validateEnvelope_hopped H hw h (by omega) (by omega), rfl⟩

/-- What a chain of relays returns. -/
theorem forwards_eq_ok {e : TransportEnvelope} (hw : e.wf = true)
    (h : validateEnvelope H e none true = .ok ()) {k : ℕ} {e' : TransportEnvelope} :
    forwards H k e = .ok e' ↔ hopCount e + k ≤ hopLimit e ∧ e' = hopped e (hopCount e + k) := by
  induction k generalizing e with
  | zero =>
    obtain ⟨hobj, hcount, -, -, hle, -⟩ := validateRouting_hops (validateRouting_of_valid H h)
    have hself : hopped e (hopCount e) = e := by
      have hlookup : Json.lookup e.routing.fields "hop_count" = some (.int (hopCount e)) := by
        rw [Json.get] at hcount
        cases hl : Json.lookup e.routing.fields "hop_count" with
        | none => rw [hl] at hcount; cases hcount
        | some v => rw [hl] at hcount; exact congrArg some hcount
      rw [hopped, Json.insert_self hlookup, ← Json.eq_obj_of_isObj hobj]
    rw [forwards, Nat.cast_zero, add_zero, hself]
    constructor
    · rintro ⟨⟩; exact ⟨hle, rfl⟩
    · rintro ⟨-, rfl⟩; rfl
  | succ k ih =>
    obtain ⟨-, -, -, h0, -, -⟩ := validateRouting_hops (validateRouting_of_valid H h)
    have hnext : ∀ hlt : hopCount e < hopLimit e,
        forwards H k (hopped e (hopCount e + 1)) = .ok e' ↔
          hopCount e + (k + 1 : ℕ) ≤ hopLimit e ∧ e' = hopped e (hopCount e + (k + 1 : ℕ)) := by
      intro hlt
      rw [ih (wf_hopped _ hw) (validateEnvelope_hopped H hw h (by omega) (by omega)),
        hopCount_hopped, hopLimit_hopped, hopped_hopped, Nat.cast_succ, add_assoc, add_comm 1 (k : ℤ)]
    simp only [forwards, bind_eq_ok, forwardEnvelope_eq_ok H hw h]
    constructor
    · rintro ⟨_, ⟨hlt, rfl⟩, hk⟩
      exact (hnext hlt).1 hk
    · rintro ⟨hle, he⟩
      have hlt : hopCount e < hopLimit e := by omega
      exact ⟨_, ⟨hlt, rfl⟩, (hnext hlt).2 ⟨hle, he⟩⟩

/-! ## The match of an acknowledgement -/

/-- What the outbox matches, in terms of the copies. -/
theorem ackDigestMatchesEnvelope_iff {e : TransportEnvelope}
    (h : validateRouting e.routing = .ok ()) (d : String) :
    ackDigestMatchesEnvelope H d e = true ↔ ∃ k : ℕ, hopCount e + k ≤ hopLimit e ∧
      envelopeDigest H (hopped e (hopCount e + k)).toDict = some d := by
  obtain ⟨hobj, hcount, hlimit, -, hle, -⟩ := validateRouting_hops h
  rw [ackDigestMatchesEnvelope, hcount, hlimit]
  simp only [Json.asInt, List.any_eq_true, List.mem_range, beq_iff_eq, toDict_hopped _ hobj]
  constructor
  · rintro ⟨k, hk, hd⟩
    exact ⟨k, by omega, hd⟩
  · rintro ⟨k, hk, hd⟩
    exact ⟨k, by omega, hd⟩

end Delivery

end NthDao
