/-
  Histories of acceptances.

  * `Tracks`: what the scan of a history knows of its rows;
  * `EnvelopeFacts`: what a verified envelope says in bounded texts;
  * `contextOf_toDict`: a context is read from its document;
  * `readHistory_inserted`: a row that is inserted is read again, with all before it.
-/
import NthDao.Plugins.IntentAcceptance

namespace NthDao

namespace Plugins

open Py MarketIndex

variable {V : IntentHost}

/-! ## Scans -/

theorem headOf_append (records : List Record) (r : Record) (scope : String × String) :
    headOf (records ++ [r]) scope = if scopeOf r.envelope = scope
      then ⟨numberOf r.envelope "revision", r.envelopeDigest⟩ else headOf records scope := by
  rw [headOf, List.foldl_append]
  rfl

/-- What the state of a scan says of the rows before. -/
structure Tracks (rows : List Row) (s : Scan) : Prop where
  records : s.records = rows.map Row.toRecord
  heads : ∀ scope, s.head scope = headOf s.records scope
  nonces : ∀ k, k ∈ s.nonces ↔ ∃ r ∈ rows, r.nonceKey = k
  previous : s.previous = (s.records.getLast?.map Record.auditDigest).getD ""
  timestamp : s.timestamp = (s.records.getLast?.map Record.acceptedAtMs).getD 0

theorem tracks_nil : Tracks [] {} where
  records := rfl
  heads _ := rfl
  nonces _ := by simp
  previous := rfl
  timestamp := rfl

theorem Tracks.step {rows : List Row} {s s' : Scan} {row : Row} (ht : Tracks rows s)
    (h : verifyRow V s row = .ok s') : Tracks (rows ++ [row]) s' := by
  simp only [verifyRow, bind_eq_ok, require_eq_ok, expect_eq_ok, mapError_eq_ok, pure_eq_ok,
    beq_iff_eq] at h
  obtain ⟨_, -, envelope, henv, context, -, expected, -, _, -, _, -, _, -, _, -, _, hrow, _, -, _, -,
    rfl⟩ := h
  have henvelope : row.toRecord.envelope = envelope.fields := by rw [Record.envelope, henv]; rfl
  have hscope : scopeOf row.toRecord.envelope = row.scope := by
    rw [henvelope, hrow]
    rfl
  constructor
  · rw [List.map_append, ← ht.records]
    rfl
  · intro scope
    rw [headOf_append, hscope, henvelope, ← ht.heads]
    simp only [Scan.head, Dict.get_set]
    by_cases heq : row.scope = scope
    · rw [if_pos heq, if_pos heq.symm]
      rfl
    · rw [if_neg heq, if_neg (Ne.symm heq)]
  · intro k
    simp only [List.mem_cons, ht.nonces, List.mem_append, List.not_mem_nil, or_false]
    constructor
    · rintro (rfl | ⟨r, hr, rfl⟩)
      · exact ⟨row, .inr rfl, rfl⟩
      · exact ⟨r, .inl hr, rfl⟩
    · rintro ⟨r, hr | rfl, rfl⟩
      · exact .inr ⟨r, hr, rfl⟩
      · exact .inl rfl
  · simp
  · simp

theorem tracks_of_foldlM {pre rows : List Row} {s s' : Scan} (ht : Tracks pre s)
    (h : rows.foldlM (verifyRow V) s = .ok s') : Tracks (pre ++ rows) s' := by
  induction rows generalizing pre s with
  | nil =>
    rw [List.foldlM_nil, pure_eq_ok] at h
    rw [← h, List.append_nil]
    exact ht
  | cons row rows ih =>
    rw [List.foldlM_cons, bind_eq_ok] at h
    obtain ⟨s₁, h₁, h⟩ := h
    have := ih (ht.step h₁) h
    rwa [List.append_assoc] at this

theorem tracks_of_verifyRows {rows : List Row} {s : Scan} (h : verifyRows V rows = .ok s) :
    Tracks rows s := tracks_of_foldlM tracks_nil h

/-! ## Revisions -/

/-- What a row that verifies says of its scope. -/
theorem verifyRow_facts {s s' : Scan} {row : Row} (h : verifyRow V s row = .ok s') :
    s'.records = s.records ++ [row.toRecord] ∧ scopeOf row.envelope = row.scope ∧
      row.envelopeDigest = hashDocument V row.envelope ∧
      numberOf row.envelope "revision" = (s.head row.scope).revision + 1 := by
  simp only [verifyRow, bind_eq_ok, require_eq_ok, expect_eq_ok, mapError_eq_ok, pure_eq_ok,
    beq_iff_eq, Bool.and_eq_true] at h
  obtain ⟨_, -, envelope, henv, context, -, expected, -, _, -, _, -, _, ⟨hdigest, -⟩, _, -, _, hrow, _,
    ⟨hrevision, -⟩, _, -, rfl⟩ := h
  have henvelope : row.toRecord.envelope = envelope.fields := by rw [Record.envelope, henv]; rfl
  rw [henvelope]
  refine ⟨rfl, ?_, hdigest, hrevision⟩
  rw [hrow]
  rfl

/-- No record of a scope is past its head, and each has the digest of its envelope. -/
def BelowHead (V : IntentHost) (records : List Record) : Prop :=
  ∀ r ∈ records, numberOf r.envelope "revision" ≤ (headOf records (scopeOf r.envelope)).revision ∧
    r.envelopeDigest = hashDocument V r.envelope

theorem BelowHead.step {rows : List Row} {s s' : Scan} {row : Row} (ht : Tracks rows s)
    (hb : BelowHead V s.records) (h : verifyRow V s row = .ok s') : BelowHead V s'.records := by
  obtain ⟨hrecords, hscope, hdigest, hrevision⟩ := verifyRow_facts h
  rw [ht.heads] at hrevision
  intro r hr
  rw [hrecords] at hr ⊢
  rw [headOf_append, hscope]
  rcases List.mem_append.1 hr with hr | hr
  · refine ⟨?_, (hb r hr).2⟩
    have hle := (hb r hr).1
    split_ifs with hs
    · rw [← hs] at hle
      show _ ≤ numberOf row.envelope "revision"
      omega
    · exact hle
  · obtain rfl := List.mem_singleton.1 hr
    exact ⟨by rw [if_pos hscope.symm], hdigest⟩

theorem belowHead_of_foldlM {pre rows : List Row} {s s' : Scan} (ht : Tracks pre s)
    (hb : BelowHead V s.records) (h : rows.foldlM (verifyRow V) s = .ok s') :
    BelowHead V s'.records := by
  induction rows generalizing pre s with
  | nil =>
    rw [List.foldlM_nil, pure_eq_ok] at h
    exact h ▸ hb
  | cons row rows ih =>
    rw [List.foldlM_cons, bind_eq_ok] at h
    obtain ⟨s₁, h₁, h⟩ := h
    exact ih (ht.step h₁) (hb.step ht h₁) h

theorem belowHead_of_verifyRows {rows : List Row} {s : Scan} (h : verifyRows V rows = .ok s) :
    BelowHead V s.records :=
  belowHead_of_foldlM tracks_nil (fun _ hr => absurd hr List.not_mem_nil) h

/-! ## Envelopes -/

section Envelope

variable {d kvs : Fields}

theorem textOf_congr {k : String} (h : (Json.get d k).asStr = (Json.get kvs k).asStr) :
    textOf d k = textOf kvs k := by
  rw [textOf, textOf, h]

/-- The copy of a document reads as the document does. -/
theorem textOf_norm (hw : (Json.obj kvs).wf = true) (h : .obj d = (Json.obj kvs).norm) (k : String) :
    textOf d k = textOf kvs k := by
  have hd : d = (Json.obj kvs).norm.fields := by rw [← h]; rfl
  refine textOf_congr ?_
  rw [hd, Json.get_norm (Json.wf_obj.1 hw).1, Json.asStr_norm]

theorem numberOf_norm (hw : (Json.obj kvs).wf = true) (h : .obj d = (Json.obj kvs).norm) (k : String) :
    numberOf d k = numberOf kvs k := by
  have hd : d = (Json.obj kvs).norm.fields := by rw [← h]; rfl
  rw [numberOf, numberOf, hd, Json.get_norm (Json.wf_obj.1 hw).1, Json.asInt_norm]

theorem get_unsigned {k : String} (hk : k ≠ "signature") :
    Json.get (d.filter fun p => p.1 != "signature") k = Json.get d k := by
  rw [Json.get, Json.get, Json.lookup_filter_key d (· != "signature"), if_pos (by simpa using hk)]

theorem wf_filter (hw : (Json.obj d).wf = true) (q : String × Json → Bool) :
    (Json.obj (d.filter q)).wf = true := by
  rw [Json.wf_obj] at hw ⊢
  exact ⟨Json.nodup_filter hw.1 q, fun p hp => hw.2 p (List.mem_filter.1 hp).1⟩

/-- What a verified envelope says. -/
structure EnvelopeFacts (d : Fields) : Prop where
  signer : isBoundedDid (textOf d "signer_did") = true
  audience : isBoundedDid (textOf d "audience_did") = true
  scope : isExactId (textOf d "scope_id") = true
  nonce : isHex 32 (chars (textOf d "nonce")) = true
  lineage : isLineage (numberOf d "revision") (textOf d "previous_digest") = true

theorem envelopeFacts (hw : (Json.obj d).wf = true) {v : Json} (h : verifiedDocument V v = .ok d) :
    EnvelopeFacts d := by
  simp only [verifiedDocument, bind_eq_ok, require_eq_ok, pure_eq_ok] at h
  obtain ⟨document, -, _, -, body, hbody, _, -, hd⟩ := h
  obtain rfl : d = document := hd.symm
  simp only [validatedBody, bind_eq_ok, require_eq_ok, pure_eq_ok] at hbody
  obtain ⟨copy, hsnap, _, hsigner, _, haudience, _, hscope, _, -, _, hlineage, _, hnonce, _, -, _, -, -⟩ :=
    hbody
  have hwf := wf_filter hw fun p => p.1 != "signature"
  have hnorm := (snapshot_spec hwf hsnap).1
  have htext : ∀ k, k ≠ "signature" → textOf copy k = textOf d k := fun k hk =>
    (textOf_norm hwf hnorm k).trans (textOf_congr (by rw [get_unsigned hk]))
  have hnumber : numberOf copy "revision" = numberOf d "revision" := by
    rw [numberOf_norm hwf hnorm, numberOf, get_unsigned (by decide)]
    rfl
  rw [htext _ (by decide)] at hsigner haudience hscope hlineage hnonce
  rw [hnumber] at hlineage
  exact ⟨hsigner, haudience, hscope, hnonce, hlineage⟩

end Envelope

/-! ## Contexts -/

theorem wf_toDict (e : Expected) : (Json.obj e.toDict).wf = true := by
  rw [Json.wf_obj]
  refine ⟨by simp [Expected.toDict], ?_⟩
  simp only [Expected.toDict, List.forall_mem_cons, List.not_mem_nil, IsEmpty.forall_iff,
    implies_true, and_true]
  refine ⟨rfl, rfl, rfl, rfl, rfl, rfl, ?_, rfl, rfl⟩
  rw [Json.wf_arr]
  exact List.forall_mem_map.2 fun _ _ => rfl

theorem norm_texts (xs : List String) : (Json.arr (xs.map .str)).norm = .arr (xs.map .str) := by
  rw [Json.norm_arr, List.map_map]
  rfl

theorem mapM_asStr (xs : List String) : (xs.map Json.str).mapM Json.asStr = some xs := by
  induction xs with
  | nil => rfl
  | cons x xs ih => simp [List.mapM_cons, ih, Json.asStr]

/-- **A context is read from its text.** -/
theorem contextOf_text (c : Context) {t : String} (h : canonicalText c.toDict = some t) :
    ∃ doc, loads (chars t) = some doc ∧ doc.isObj = true ∧ contextOf doc.fields = some c ∧
      canonicalText doc.fields = some t := by
  have hwf := wf_toDict c.toExpected
  have hnodup := (Json.wf_obj.1 hwf).1
  have hobj : ((Json.obj c.toDict).norm).isObj = true := by rw [Json.isObj_norm]; rfl
  refine ⟨(Json.obj c.toDict).norm, loads_canonicalText hwf h, hobj, ?_, ?_⟩
  · have hget : ∀ k, Json.get (Json.obj c.toDict).norm.fields k = (Json.get c.toDict k).norm :=
      fun k => Json.get_norm hnodup k
    have hlookup : Json.lookup (Json.obj c.toDict).norm.fields "authorization_digest" =
        some (.str c.authorizationDigest) := by
      rw [Json.lookup_norm hnodup]
      simp [Expected.toDict, Json.lookup_cons, Json.norm]
    have hkeys : ((Json.obj c.toDict).norm.fields.all fun p => contextKeys.contains p.1) = true := by
      rw [List.all_eq_true]
      intro p hp
      have hmem := (Json.norm_fields_perm c.toDict).mem_iff.1 hp
      obtain ⟨q, hq, rfl⟩ := List.mem_map.1 hmem
      simp only [Expected.toDict, List.mem_cons, List.not_mem_nil, or_false] at hq
      rcases hq with rfl | rfl | rfl | rfl | rfl | rfl | rfl | rfl | rfl <;> rfl
    have hclasses : Json.get (Json.obj c.toDict).norm.fields "allowed_solver_classes" =
        .arr (c.allowedSolverClasses.map .str) := by
      rw [hget, ← norm_texts]
      simp [Expected.toDict, Json.get, Json.lookup_cons]
    rw [contextOf, hclasses]
    simp only [mapM_asStr, Option.bind_eq_bind, Option.bind_some, hkeys, if_true, hget, Json.asStr_norm,
      Json.asInt_norm, Json.getD, hlookup, Option.getD_some]
    simp [Expected.toDict, Json.get, Json.lookup_cons, Json.asStr, Json.asInt, Expected.context,
      c.valid]
  · rw [← h]
    refine canonicalText_congr ?_
    rw [← Json.eq_obj_of_isObj hobj, Json.norm_norm]

/-! ## Bounds -/

theorem bytes_contentHash (H : Host) (b : Bytes) : (utf8 (chars (contentHash H b))).length = 71 := by
  have hhex := H.sha256_isHex b
  rw [isHex, Bool.and_eq_true, beq_iff_eq, List.all_eq_true] at hhex
  have hlist : chars (contentHash H b) = "sha256:".toList ++ (H.sha256 b).toList := by
    rw [contentHash, chars_eq, String.toList_append]
  have hplain : ∀ c ∈ chars (contentHash H b), plain c = true := by
    intro c hc
    rw [hlist, List.mem_append] at hc
    rcases hc with hc | hc
    · exact List.all_eq_true.1 (by decide) c hc
    · exact plain_of_isHexChar (hhex.2 c hc)
  rw [utf8_length_plain hplain, hlist, List.length_append, hhex.1]
  rfl

theorem bytes_did {s : String} (h : isBoundedDid s = true) : (utf8 (chars s)).length ≤ 128 := by
  rw [isBoundedDid, Bool.and_eq_true, Option.any_eq_true] at h
  obtain ⟨-, pk, hpk, heq⟩ := h
  obtain rfl := beq_iff_eq.1 heq
  have hlen := length_of_decodeDidKey hpk
  rw [chars_eq, utf8_length_plain (plain_encodeDidKey pk), String.length_toList]
  omega

theorem plain_idChar {c : Char} (h : (isUpper c || isLower c || isDigit c ||
    ['.', '_', ':', '/', '-'].contains c) = true) : plain c = true := by
  simp only [isUpper, isLower, isDigit, Bool.or_eq_true, Bool.and_eq_true, decide_eq_true_eq,
    Char.le_def, UInt32.le_iff_toNat_le, List.contains_iff_mem, List.mem_cons, List.not_mem_nil,
    or_false] at h
  rcases h with ((h | h) | h) | rfl | rfl | rfl | rfl | rfl
  all_goals try decide
  all_goals
    simp only [plain, Bool.and_eq_true, decide_eq_true_eq, bne_iff_ne]
  · change 65 ≤ c.toNat ∧ c.toNat ≤ 90 at h
    omega
  · change 97 ≤ c.toNat ∧ c.toNat ≤ 122 at h
    omega
  · change 48 ≤ c.toNat ∧ c.toNat ≤ 57 at h
    omega

theorem bytes_id {s : String} (h : isExactId s = true) : (utf8 (chars s)).length ≤ 256 := by
  simp only [isExactId, Bool.and_eq_true, decide_eq_true_eq, List.all_eq_true] at h
  rw [utf8_length_plain fun c hc => plain_idChar (h.2 c hc)]
  exact h.1.1

theorem bytes_hex {n : ℕ} {s : String} (h : isHex n (chars s) = true) :
    (utf8 (chars s)).length = n := by
  rw [isHex, Bool.and_eq_true, beq_iff_eq, List.all_eq_true] at h
  rw [utf8_length_plain fun c hc => plain_of_isHexChar (h.2 c hc)]
  exact h.1

theorem lineage_safe {n : ℤ} {s : String} (h : isLineage n s = true) : isSafeInteger 1 n = true := by
  rw [isLineage, Bool.and_eq_true] at h
  exact h.1

/-- The text of an envelope that is copied is within its limit. -/
theorem bytes_envelope {v : Json} {d : Fields} {t : String} (hw : v.wf = true)
    (h : verifiedDocument V v = .ok d) (ht : canonicalText d = some t) :
    (utf8 (chars t)).length ≤ intentMaxDocumentBytes := by
  obtain ⟨hnorm, hidem⟩ := verifiedDocument_idem hw h
  simp only [verifiedDocument, bind_eq_ok] at hidem
  obtain ⟨document, hsnap, -⟩ := hidem
  simp only [snapshot, bind_eq_ok, expect_eq_ok, require_eq_ok, decide_eq_true_eq] at hsnap
  obtain ⟨_, -, _, -, encoded, henc, _, hlen, -⟩ := hsnap
  cases ht.symm.trans henc
  exact hlen

/-! ## Insertion -/

section Insert

variable {limits : Limits} {rows : List Row} {records : List Record} {head : Head}
  {governed : Option (Policy V)} {expected : Context} {document : Fields} {clock : Clock}
  {record : Record}

/-- What has been checked of a record that is made. -/
structure Made (limits : Limits) (rows : List Row) (records : List Record) (head : Head)
    (expected : Context) (document : Fields) (clock : Clock) (envelopeJson contextJson : String) :
    Prop where
  next : numberOf document "revision" = head.revision + 1 ∧
    textOf document "previous_digest" = head.digest
  fresh : ∀ r ∈ rows, r.nonceKey ≠
    (scopeOf document, textOf document "signer_did", textOf document "nonce")
  later : ∀ r, records.getLast? = some r → r.acceptedAtMs ≤ clock.now
  envelope : canonicalText document = some envelopeJson
  context : canonicalText expected.toDict = some contextJson
  contextBytes : (utf8 (chars contextJson)).length ≤ maxContextBytes
  room : records.length < limits.maxRecords ∧ (records.map Record.bytes).sum +
    (utf8 (chars envelopeJson)).length + (utf8 (chars contextJson)).length ≤ limits.maxBytes
  commit : isSafeInteger 0 clock.commit = true ∧ clock.now ≤ clock.commit
  live : numberOf document "issued_at_ms" ≤ clock.commit ∧
    clock.commit < numberOf document "expires_at_ms"

theorem made_of_appendRecord
    (h : appendRecord limits rows records head governed expected document clock = .ok record) :
    ∃ envelopeJson contextJson,
      Made limits rows records head expected document clock envelopeJson contextJson ∧
      record = nextRecord V records (hashDocument V document) envelopeJson contextJson clock.commit := by
  simp only [appendRecord, readClock, bind_eq_ok, expect_eq_ok, require_eq_ok, pure_eq_ok,
    Bool.and_eq_true, Bool.not_eq_true', beq_iff_eq, decide_eq_true_eq, List.any_eq_false] at h
  obtain ⟨_, hnext, _, hfresh, _, hlater, ej, hej, cj, hcj, _, hbytes, _, hroom, _, hsafe, _, hlive, _,
    -, _, hle, rfl⟩ := h
  refine ⟨ej, cj, ⟨hnext, hfresh, fun r hr => ?_, hej, hcj, hbytes, hroom, ⟨hsafe, hle⟩, hlive⟩, rfl⟩
  rw [hr, Option.all_some, decide_eq_true_eq] at hlater
  exact hlater

/-- An envelope that is accepted at one time is accepted while it is live. -/
theorem verifyIntentEnvelope_at {v : Json} {c : Context} {now now' : ℤ} {d : Fields}
    (h : verifyIntentEnvelope V v c now = .ok d) (hsafe : isSafeInteger 0 now' = true)
    (hlive : numberOf d "issued_at_ms" ≤ now' ∧ now' < numberOf d "expires_at_ms") :
    verifyIntentEnvelope V v c now' = .ok d := by
  simp only [verifyIntentEnvelope, bind_eq_ok, require_eq_ok, pure_eq_ok] at h ⊢
  obtain ⟨_, -, document, hdoc, _, hmatch, _, -, _, hclasses, _, hlevel, rfl⟩ := h
  refine ⟨(), ?_, document, hdoc, (), hmatch, (), ?_, (), hclasses, (), hlevel, rfl⟩
  · rw [isSafeInteger] at hsafe
    exact hsafe
  · rw [Bool.and_eq_true, decide_eq_true_eq, decide_eq_true_eq]
    exact hlive

variable {s : Scan} {v : Json} {d : Fields} {ej cj : String}

/-- The row of a record that is made verifies after the rows before. -/
theorem verifyRow_made (ht : Tracks rows s) (hw : v.wf = true) (hv : verifiedDocument V v = .ok d)
    (hok : verifyIntentEnvelope V (.obj d) expected clock.now = .ok d)
    (hm : Made limits rows s.records (headOf s.records (scopeOf d)) expected d clock ej cj)
    (hlast : (s.records.getLast?.map Record.acceptedAtMs).getD 0 ≤ clock.commit) :
    ∃ s', verifyRow V s
      (Row.ofRecord (nextRecord V s.records (hashDocument V d) ej cj clock.commit) d) = .ok s' := by
  have hnorm := (verifiedDocument_idem hw hv).1
  have hwf : (Json.obj d).wf = true := hnorm ▸ Json.wf_norm v hw
  have hself : (Json.obj d).norm = .obj d := by rw [hnorm, Json.norm_norm]
  have hload : loads (chars ej) = some (.obj d) := by
    rw [loads_canonicalText hwf hm.envelope, hself]
  obtain ⟨doc, hdoc, hobj, hctx, hctxt⟩ := contextOf_text expected hm.context
  have hlen := bytes_envelope hw hv hm.envelope
  have hfacts := envelopeFacts hwf hv
  simp only [verifyRow, bind_eq_ok, require_eq_ok, expect_eq_ok, mapError_eq_ok]
  refine ⟨_, (), ?_, .obj d, hload, doc, hdoc, expected, ?_, d, ?_, (), ?_, (), ?_, (), ?_, (), ?_, (),
    ?_, (), ?_, rfl⟩
  · simp only [Bool.and_eq_true, decide_eq_true_eq]
    exact ⟨hlen, hm.contextBytes⟩
  · rw [if_pos hobj, hctx]
  · exact verifyIntentEnvelope_at hok hm.commit.1 hm.live
  · simp only [Bool.and_eq_true, beq_iff_eq]
    exact ⟨hm.envelope, hctxt⟩
  · simp only [Bool.and_eq_true, beq_iff_eq]
    exact ⟨rfl, rfl⟩
  · simp only [Bool.and_eq_true, beq_iff_eq, decide_eq_true_eq]
    exact ⟨⟨rfl, ht.previous.symm⟩, ht.timestamp ▸ hlast⟩
  · rw [beq_iff_eq]
    rfl
  · simp only [Bool.and_eq_true, beq_iff_eq]
    have hhead : s.head (scopeOf d) = headOf s.records (scopeOf d) := ht.heads _
    exact ⟨(show _ = (s.head (scopeOf d)).revision + 1 from hhead ▸ hm.next.1),
      (show _ = (s.head (scopeOf d)).digest from hhead ▸ hm.next.2)⟩
  · rw [Bool.not_eq_true', ← Bool.not_eq_true, List.contains_iff_mem, ht.nonces]
    rintro ⟨r, hr, hk⟩
    exact hm.fresh r hr hk

/-- The columns of the row are within their bounds. -/
theorem bounded_made (hrows : ∀ r ∈ rows, r.bounded = true) (hrec : records = rows.map Row.toRecord)
    (hw : v.wf = true) (hv : verifiedDocument V v = .ok d)
    (hm : Made limits rows records head expected d clock ej cj) :
    (Row.ofRecord (nextRecord V records (hashDocument V d) ej cj clock.commit) d).bounded = true := by
  have hnorm := (verifiedDocument_idem hw hv).1
  have hwf : (Json.obj d).wf = true := hnorm ▸ Json.wf_norm v hw
  have hfacts := envelopeFacts hwf hv
  have hprev : (utf8 (chars ((records.getLast?.map Record.auditDigest).getD ""))).length ≤ 71 := by
    cases hl : records.getLast? with
    | none => exact Nat.zero_le _
    | some r =>
      have hmem := List.mem_of_getLast? hl
      rw [hrec] at hmem
      obtain ⟨row, hrow, rfl⟩ := List.mem_map.1 hmem
      have := hrows row hrow
      simp only [Row.bounded, Bool.and_eq_true, List.all_cons, decide_eq_true_eq] at this
      exact this.1.1.1.2.2.2.2.2.2.2.2.1
  have hseq : isSafeInteger 1 ((records.length : ℤ) + 1) = true := by
    have hlt := hm.room.1
    have hle := limits.records_le
    have hmax : (maxSafeInteger : ℤ) = 9007199254740991 := rfl
    rw [isSafeInteger, Bool.and_eq_true, decide_eq_true_eq, decide_eq_true_eq, hmax]
    omega
  simp only [Row.bounded, Row.ofRecord, nextRecord, Bool.and_eq_true, List.all_cons, List.all_nil,
    decide_eq_true_eq, and_true]
  refine ⟨⟨⟨⟨?_, ?_, ?_, ?_, ?_, ?_, hm.contextBytes, hprev, ?_⟩, hseq⟩, lineage_safe hfacts.lineage⟩,
    hm.commit.1⟩
  · exact (bytes_contentHash _ _).le
  · exact bytes_did hfacts.audience
  · exact bytes_id hfacts.scope
  · exact bytes_did hfacts.signer
  · exact (bytes_hex hfacts.nonce).le
  · exact bytes_envelope hw hv hm.envelope
  · exact (bytes_contentHash _ _).le

/-- What a history that is read is. -/
theorem readHistory_eq_ok : readHistory V limits rows = .ok records ↔
    (∀ r ∈ rows, r.bounded = true) ∧ rows.length ≤ limits.maxRecords ∧
      (rows.map fun r => r.bytes).sum ≤ limits.maxBytes ∧
      ∃ s, verifyRows V rows = .ok s ∧ s.records = records := by
  simp only [readHistory, readRows, bind_eq_ok, require_eq_ok, pure_eq_ok, List.all_eq_true,
    Bool.and_eq_true, decide_eq_true_eq]
  constructor
  · rintro ⟨_, ⟨_, hb, hl, hs⟩, s, hv, rfl⟩
    exact ⟨hb, hl, hs, s, hv, rfl⟩
  · rintro ⟨hb, hl, hs, s, hv, rfl⟩
    exact ⟨(), ⟨(), hb, hl, hs⟩, s, hv, rfl⟩

theorem records_of_readHistory (h : readHistory V limits rows = .ok records) :
    records = rows.map Row.toRecord := by
  obtain ⟨-, -, -, s, hs, rfl⟩ := readHistory_eq_ok.1 h
  exact (tracks_of_verifyRows hs).records

/-- **A row that is inserted is read again**, with all before it. -/
theorem readHistory_made (h : readHistory V limits rows = .ok records) (hw : v.wf = true)
    (hv : verifiedDocument V v = .ok d)
    (hok : verifyIntentEnvelope V (.obj d) expected clock.now = .ok d)
    (hm : Made limits rows records (headOf records (scopeOf d)) expected d clock ej cj) :
    readHistory V limits (rows ++
      [Row.ofRecord (nextRecord V records (hashDocument V d) ej cj clock.commit) d]) =
        .ok (records ++ [nextRecord V records (hashDocument V d) ej cj clock.commit]) := by
  obtain ⟨hb, -, -, s, hs, rfl⟩ := readHistory_eq_ok.1 h
  have ht := tracks_of_verifyRows hs
  have hlast : (s.records.getLast?.map Record.acceptedAtMs).getD 0 ≤ clock.commit := by
    cases hl : s.records.getLast? with
    | none =>
      have := hm.commit.1
      rw [isSafeInteger, Bool.and_eq_true, decide_eq_true_eq] at this
      exact this.1
    | some r => exact (hm.later r hl).trans hm.commit.2
  obtain ⟨s', hs'⟩ := verifyRow_made ht hw hv hok hm hlast
  have hrun : verifyRows V (rows ++
      [Row.ofRecord (nextRecord V s.records (hashDocument V d) ej cj clock.commit) d]) = .ok s' := by
    rw [verifyRows, List.foldlM_append, bind_eq_ok]
    refine ⟨s, hs, ?_⟩
    rw [List.foldlM_cons, hs', ok_bind, List.foldlM_nil]
    rfl
  have hbytes : (rows.map fun r => r.bytes).sum = (s.records.map Record.bytes).sum := by
    rw [ht.records, List.map_map]
    rfl
  refine readHistory_eq_ok.2 ⟨?_, ?_, ?_, s', hrun, ?_⟩
  · rw [List.forall_mem_append, List.forall_mem_singleton]
    exact ⟨hb, bounded_made hb ht.records hw hv hm⟩
  · have hroom := hm.room.1
    rw [ht.records, List.length_map] at hroom
    rw [List.length_append, List.length_singleton]
    omega
  · rw [List.map_append, List.sum_append, hbytes, List.map_singleton, List.sum_singleton]
    have hroom := hm.room.2
    have hnew : (Row.ofRecord (nextRecord V s.records (hashDocument V d) ej cj clock.commit) d).bytes =
        (utf8 (chars ej)).length + (utf8 (chars cj)).length := rfl
    rw [hnew]
    omega
  · rw [(ht.step hs').records, List.map_append, ← ht.records]
    rfl

end Insert

end Plugins

end NthDao
