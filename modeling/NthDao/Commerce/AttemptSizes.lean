/-
  The sizes of the files of a payment attempt.

  * `lineBytes_eq`: the size of the anchors that `create` writes;
  * `created_fits`: the document of a created attempt fits its file, whatever
    its intent.
-/
import Mathlib.Algebra.Order.BigOperators.Group.List
import Mathlib.Algebra.Group.Nat.Defs
import NthDao.Commerce.AttemptRuns

namespace NthDao

open Py

variable {H : Host}

/-! ## Sizes -/

theorem strWeight_leaseId {s : String} (h : isLeaseId s = true) : strWeight false s = 34 :=
  strWeight_hex (List.nil_append _).symm (by simp) (by simpa [isLeaseId] using h)

theorem toList_of_startsWith {p s : String} (h : startsWith p s = true) :
    s.toList = p.toList ++ s.toList.drop p.toList.length := by
  simp only [startsWith, chars_eq, List.isPrefixOf_iff_prefix] at h
  obtain ⟨t, ht⟩ := h
  rw [← ht, List.drop_left]

theorem strWeight_attemptId {s : String} (h : isAttemptId s = true) : strWeight false s = 91 := by
  rw [isAttemptId, Bool.and_eq_true, chars_eq] at h
  exact strWeight_hex (toList_of_startsWith h.1) (List.all_eq_true.1 (by decide)) h.2

theorem strWeight_eventHash {s : String} (h : isEventHash s = true) : strWeight false s = 73 := by
  rw [isEventHash, Bool.and_eq_true, chars_eq] at h
  exact strWeight_hex (toList_of_startsWith h.1) (List.all_eq_true.1 (by decide)) h.2

theorem isEventHash_digest {v : Json} {d : String} (h : attemptEventHash H v = some d) :
    isEventHash d = true := by
  obtain ⟨b, -, rfl⟩ := Option.map_eq_some_iff.1 h
  have hl : ("sha256:" ++ H.sha256 b).toList = "sha256:".toList ++ (H.sha256 b).toList :=
    String.toList_append
  rw [isEventHash, startsWith, chars_eq, chars_eq, hl, Bool.and_eq_true]
  refine ⟨by simp, ?_⟩
  rw [show (7 : ℕ) = "sha256:".toList.length from rfl, List.drop_left]
  exact H.sha256_isHex b

/-- The size of the line that `create` prepares. -/
def createLineBytes (payer : String) (createdAtMs : ℤ) : ℕ :=
  401 + strWeight false payer + weight false (.int createdAtMs)

/-- The names of the fields of an anchor, as they are written. -/
theorem strWeight_anchorFields :
    ["operation_id", "phase", "attempt_id", "seq", "head_hash", "actor_did", "created_at_ms",
      "signature"].map (strWeight false) = [14, 7, 12, 5, 11, 11, 15, 11] := by decide

theorem lineBytes_eq {d : Document} {actor : H.SecretKey} {at' : ℤ} {op : String} {phase : Phase}
    {a : Anchor} (h : AnchorOf d actor at' op phase a) (hop : isLeaseId op = true)
    (hid : isAttemptId d.attemptId = true) (hh : isEventHash d.headHash = true)
    (hn : d.events.length = 1) :
    a.lineBytes = createLineBytes (asDid H actor) at' + (if phase = .prepared then 0 else 1) := by
  obtain ⟨b, hb⟩ := toDict_isSome.2 h.printable
  obtain ⟨m, hm⟩ := h.signature
  have hkeys := strWeight_anchorFields
  simp only [List.map_cons, List.map_nil, List.cons.injEq, and_true] at hkeys
  obtain ⟨k₁, k₂, k₃, k₄, k₅, k₆, k₇, k₈⟩ := hkeys
  have hseq : a.seq = 0 := by rw [h.seq_eq, hn]; rfl
  have hhash : a.headHash = d.headHash := congrArg Prod.snd h.head
  have hsig : strWeight false a.signature = 88 := by
    rw [hm, signText, ← weight_str]; exact weight_signature (H.sign_length _ _)
  have hphase : strWeight false a.phase.wire = 10 + (if phase = .prepared then 0 else 1) := by
    rw [h.phase]; cases phase <;> decide
  have hzero : weight false (.int 0) = 1 := by decide
  have hlen : b.length = weight false a.toDict := canonicalJson_length hb
  rw [canonicalJson_lineBytes hb, hlen, Anchor.toDict, weight_obj false (by simp)]
  simp only [List.map_cons, List.map_nil, List.sum_cons, List.sum_nil, itemWeight, k₁, k₂, k₃, k₄,
    k₅, k₆, k₇, k₈, weight_str, hsig, hphase, h.operationId, strWeight_leaseId hop, h.attemptId,
    strWeight_attemptId hid, hhash, strWeight_eventHash hh, hseq, hzero, h.actorDid, h.createdAtMs,
    createLineBytes]
  omega

/-- The texts of a created attempt that do not depend on its intent. -/
theorem strWeight_createdTexts :
    ∀ k ∈ ["attempt_id", "events", "head_hash", "seq", "type", "actor_did", "prev_state",
      "new_state", "payload", "prev_event_hash", "created_at_ms", "kind", "signature",
      "schema_version", "adapter_id", "intent", "trade_id", "amount_minor", "currency",
      "payee_did", "payer_did", "memo", "", AttemptType.created.wire, AttemptState.pending.wire,
      paymentAttemptKind, adapterX402Testnet], strWeight false k ≤ 40 := by decide

/-- The bounds that `validate` puts on the texts of an intent. -/
theorem SettlementIntent.length_of_validate {i : SettlementIntent} (h : i.validate = .ok ()) :
    i.tradeId.length ≤ 256 ∧ i.currency.length ≤ 32 ∧ i.payeeDid.length ≤ 512 ∧
      i.payerDid.length ≤ 512 ∧ i.memo.length ≤ 2048 := by
  unfold validate at h
  simp only [require_bind_eq_ok, require_eq_ok, textOk_iff] at h
  exact ⟨h.1.2, h.2.1.2, h.2.2.1.2, h.2.2.2.1.2, h.2.2.2.2.1.2⟩

theorem createId_eq_ok {actor : H.SecretKey} {intent : SettlementIntent} {adapterId id : String}
    {at' : ℤ} {payload : Fields}
    (h : createId H actor intent adapterId at' = .ok (id, payload)) :
    intentDict intent = .ok payload ∧ intent.payerDid ≠ "" ∧ asDid H actor = intent.payerDid ∧
      settlementIdempotencyKey H intent = .ok id ∧ isAttemptId id = true ∧ 0 < at' := by
  simp only [createId, bind_eq_ok, require_eq_ok, pure_eq_ok, Bool.and_eq_true, beq_iff_eq,
    bne_iff_ne, decide_eq_true_eq] at h
  obtain ⟨_, -, p, hp, _, ⟨hne, hd⟩, id', hk, _, hid, _, ht, he⟩ := h
  cases he
  exact ⟨hp, hne, hd, hk, hid, ht⟩

theorem intentDict_eq_ok {i : SettlementIntent} {payload : Fields} (h : intentDict i = .ok payload) :
    i.validate = .ok () ∧
      payload = [("trade_id", .str i.tradeId), ("amount_minor", .int i.amountMinor),
        ("currency", .str i.currency), ("payee_did", .str i.payeeDid),
        ("payer_did", .str i.payerDid), ("memo", .str i.memo)] := by
  simp only [intentDict, unit_bind_eq_ok, pure_eq_ok] at h
  exact ⟨h.1, h.2.symm⟩

/-- The size of an object with short names, from a bound on its values. -/
theorem fileWeight_obj_le (level n : ℕ) {kvs : Fields} (hne : kvs ≠ [])
    (h : ∀ p ∈ kvs, strWeight false p.1 ≤ 40 ∧ fileWeight (level + 1) p.2 ≤ n) :
    fileWeight level (.obj kvs) ≤ 2 * level + 2 + kvs.length * (n + 2 * level + 46) := by
  rw [fileWeight_obj level hne]
  have := List.sum_le_card_nsmul
    (kvs.map fun p => strWeight false p.1 + fileWeight (level + 1) p.2 + 2 * level + 6)
    (n + 2 * level + 46) (by
      intro x hx
      obtain ⟨p, hp, rfl⟩ := List.mem_map.1 hx
      have := h p hp
      omega)
  simp only [List.length_map, nsmul_eq_mul, Nat.cast_id] at this
  omega

theorem fileWeight_intent_le {i : SettlementIntent} {payload : Fields}
    (h : intentDict i = .ok payload) (ha : (Json.int i.amountMinor).encodable = true) :
    fileWeight 4 (.obj payload) ≤ 75000 := by
  obtain ⟨hval, rfl⟩ := intentDict_eq_ok h
  obtain ⟨h₁, h₂, h₃, h₄, h₅⟩ := SettlementIntent.length_of_validate hval
  have ha := weight_int_le ha
  have hstr : ∀ s : String, s.length ≤ 2048 → strWeight false s ≤ 12290 := fun s hs =>
    (strWeight_le s).trans (by omega)
  have hlit := fun {k : String} hk => strWeight_createdTexts k hk
  refine (fileWeight_obj_le 4 12290 (by simp) ?_).trans (by simp)
  simp only [List.forall_mem_cons, fileWeight_str, fileWeight_int]
  exact ⟨⟨hlit (by simp), hstr _ (by omega)⟩, ⟨hlit (by simp), ha.trans (by decide)⟩,
    ⟨hlit (by simp), hstr _ (by omega)⟩, ⟨hlit (by simp), hstr _ (by omega)⟩,
    ⟨hlit (by simp), hstr _ (by omega)⟩, ⟨hlit (by simp), hstr _ h₅⟩, by simp⟩

theorem fileWeight_created_le {id : String} {actor : H.SecretKey} {payload : Fields} {at' : ℤ}
    {e : AttemptEvent} (hid : isAttemptId id = true) (hp : fileWeight 4 (.obj payload) ≤ 75000)
    (h : signAttemptEvent H actor (createdEvent H id actor payload at') = .ok e) :
    fileWeight 2 e.toDict ≤ 840000 := by
  obtain ⟨-, b, hb, rfl⟩ := signAttemptEvent_eq_ok h
  have henc := (canonicalJson_eq_some hb).1
  simp only [AttemptEvent.signingBody, createdEvent, Json.encodable_obj, List.forall_mem_cons] at henc
  have ht := weight_int_le henc.2.2.2.2.2.2.2.2.1
  have hsig : strWeight false (signText H actor b) = 88 := by
    rw [signText, ← weight_str]; exact weight_signature (H.sign_length _ _)
  have hdid : strWeight false (asDid H actor) ≤ 338 :=
    (strWeight_le _).trans (by have := length_encodeDidKey (H.pubkey_length actor); rw [asDid]; omega)
  have hlit := fun {k : String} hk => strWeight_createdTexts k hk
  have hint : ∀ n : ℤ, n = 0 ∨ n = 1 → weight false (.int n) = 1 := by
    rintro n (rfl | rfl) <;> decide
  have hlit' : ∀ {k : String}, strWeight false k ≤ 40 → strWeight false k ≤ 76000 :=
    fun h => h.trans (by decide)
  have hpay : fileWeight 3 (.obj [("schema_version", .int 1),
      ("adapter_id", .str adapterX402Testnet), ("intent", .obj payload)]) ≤ 76000 := by
    have k₁ := hlit (k := "schema_version") (by simp)
    have k₂ := hlit (k := "adapter_id") (by simp)
    have k₃ := hlit (k := "intent") (by simp)
    have k₄ := hlit (k := adapterX402Testnet) (by simp)
    rw [fileWeight_obj 3 (by simp)]
    simp only [List.map_cons, List.map_nil, List.sum_cons, List.sum_nil, fileWeight_str,
      fileWeight_int, hint 1 (Or.inr rfl), Nat.reduceAdd]
    omega
  refine (fileWeight_obj_le 2 76000 (by simp) ?_).trans (by simp)
  simp only [List.forall_mem_cons, fileWeight_str, fileWeight_int, createdEvent,
    strWeight_attemptId hid, hint 0 (Or.inl rfl), hsig]
  exact ⟨⟨hlit (by simp), by decide⟩, ⟨hlit (by simp), by decide⟩,
    ⟨hlit (by simp), hlit' (hlit (by simp))⟩, ⟨hlit (by simp), hdid.trans (by decide)⟩,
    ⟨hlit (by simp), hlit' (hlit (by simp))⟩, ⟨hlit (by simp), hlit' (hlit (by simp))⟩,
    ⟨hlit (by simp), hpay⟩, ⟨hlit (by simp), hlit' (hlit (by simp))⟩,
    ⟨hlit (by simp), ht.trans (by decide)⟩, ⟨hlit (by simp), hlit' (hlit (by simp))⟩,
    ⟨hlit (by simp), by decide⟩, by simp⟩

/-- The document of a created attempt fits its file. -/
theorem created_fits {c : AttemptCall H} {id : String} {candidate : List Json} {d : Document}
    (h : Creates id c candidate) (hd : documentOf H id candidate = .ok d) :
    d.fileBytes ≤ maxFileBytes := by
  obtain ⟨intent, adapterId, payload, e, -, hc, he, rfl⟩ := h
  obtain ⟨hid', hev, -, hh⟩ := documentOf_eq_ok hd
  obtain ⟨hpay, -, -, hk, hid, -⟩ := createId_eq_ok hc
  obtain ⟨-, b, hb, -⟩ := (settlementIdempotencyKey_eq_ok H).1 hk
  have ha := Json.encodable_obj.1 (canonicalJson_eq_some hb).1 ("amount_minor", .int intent.amountMinor)
    (by simp)
  have hevent := fileWeight_created_le hid (fileWeight_intent_le hpay ha) he
  have k₁ := strWeight_createdTexts "attempt_id" (by simp)
  have k₂ := strWeight_createdTexts "events" (by simp)
  have k₃ := strWeight_createdTexts "head_hash" (by simp)
  rw [Document.fileBytes, Document.toDict, hid', hev, fileWeight_obj 0 (by simp)]
  simp only [List.map_cons, List.map_nil, List.sum_cons, List.sum_nil, fileWeight_str,
    fileWeight_arr _ (List.cons_ne_nil _ _), strWeight_attemptId hid,
    strWeight_eventHash (isEventHash_digest hh), maxFileBytes, Nat.reduceAdd]
  omega

end NthDao
