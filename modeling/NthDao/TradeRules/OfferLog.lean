/-
  The entries of the offer log (`OfferStore` in `nth_dao/trade_rules/store.py`).

  * `entryDocument`: what an append writes, and `parseEntry`: what the scan makes of
    the bytes of a line;
  * `Provenance`: where a record came from, with the checks on it.

  * `parseEntry_entry`: a written entry reads back as its record;
  * `length_entry_le`: its line is within the limit of the reader;
  * `parseEntry_append`: two entries in one line are not read.
-/
import Mathlib.Data.List.DropRight
import NthDao.CanonicalText
import NthDao.Py.Utf8
import NthDao.TradeRules.Projection

namespace NthDao.TradeRules

open Py

/-! ## Constants -/

def maxStoredLineBytes : ℕ := maxTradeJsonBytes * 2 + 1
def offerLogEntryKind : String := "org.nthdao.trade.offer-log-entry"
def offerLogVersion : String := "1.0"
def offerLogCheckpointKind : String := "org.nthdao.trade.offer-log-checkpoint"
def entryBodyFields : List String :=
  ["kind", "protocol_version", "seq", "previous_entry_hash", "offer_digest", "offer",
    "received_at_ms", "source_kind", "source_id"]
def entryFields : List String := entryBodyFields ++ ["entry_hash"]
def genesisHash : String := "sha256:" ++ String.ofList (List.replicate 64 '0')
def maxReceivedAtMs : ℤ := 2 ^ 63 - 1

/-- The exceptions of the store. -/
inductive OfferStoreError where
  | error (text : String)
  | capacity (text : String)
  | corruption (text : String)
  | validation (text : String)

/-! ## Provenance -/

/-- `_SOURCE_KIND.fullmatch`. -/
def isSourceKind (s : String) : Bool :=
  match chars s with
  | [] => false
  | c :: r => ('a' ≤ c && c ≤ 'z') && r.length ≤ 63 &&
    r.all fun d => isLowerAlnum d || d == '.' || d == '_' || d == '-'

/-- `_is_source_id`. -/
def isSourceId (s : String) : Bool :=
  (utf8 (chars s)).length ≤ 1024 && (chars s).all fun c => 0x20 ≤ c.toNat

/-- When a record came and from where. -/
structure Provenance where
  receivedAtMs : ℤ
  sourceKind : String
  sourceId : String
  received : 0 ≤ receivedAtMs ∧ receivedAtMs ≤ maxReceivedAtMs
  kind : isSourceKind sourceKind = true
  id : isSourceId sourceId = true

/-- The provenance with the given parts, where they pass. -/
def provenance (receivedAtMs : ℤ) (sourceKind sourceId : String) : Option Provenance :=
  if h : (0 ≤ receivedAtMs ∧ receivedAtMs ≤ maxReceivedAtMs) ∧ isSourceKind sourceKind = true ∧
      isSourceId sourceId = true then
    some ⟨receivedAtMs, sourceKind, sourceId, h.1, h.2.1, h.2.2⟩
  else none

theorem provenance_eq (p : Provenance) :
    provenance p.receivedAtMs p.sourceKind p.sourceId = some p := by
  rw [provenance, dif_pos ⟨p.received, p.kind, p.id⟩]

/-! ## Entries -/

variable (H : Host)

/-- `_entry_hash`. -/
def entryHashOf (body : Fields) : Option String :=
  (canonicalJson (.obj body)).map fun b => "sha256:" ++ H.sha256 b

variable {H}

/-- The body in `_entry_document`. -/
def entryBody (seq : ℕ) (previousEntryHash : String) (offer : TradeOffer H) (p : Provenance) : Fields :=
  [("kind", .str offerLogEntryKind), ("protocol_version", .str offerLogVersion), ("seq", .int seq),
    ("previous_entry_hash", .str previousEntryHash), ("offer_digest", .str (offerDigest offer)),
    ("offer", offer.document), ("received_at_ms", .int p.receivedAtMs),
    ("source_kind", .str p.sourceKind), ("source_id", .str p.sourceId)]

/-- `_entry_document`. -/
def entryDocument (body : Fields) (entryHash : String) : Fields :=
  body ++ [("entry_hash", .str entryHash)]

/-- The record of an entry. -/
def entryRecord (seq : ℕ) (offer : TradeOffer H) (p : Provenance) (entryHash : String) :
    OfferRecord H where
  seq := seq
  digest := offerDigest offer
  offer := offer
  entryHash := entryHash
  receivedAtMs := p.receivedAtMs
  sourceKind := p.sourceKind
  sourceId := p.sourceId
  digest_eq := rfl

/-- The body that the scan hashes. -/
def readBody (document : Fields) : Fields := entryBodyFields.map fun f => (f, Json.get document f)

/-- `_strict_json`. -/
def strictJson (raw : Bytes) (label : String) : Except OfferStoreError Fields := do
  let value ← expect ((utf8Decode raw).bind strictLoads) (.corruption (label ++ " is not strict JSON"))
  require value.isObj (.corruption (label ++ " must be an object"))
  return value.fields

variable (H) in
/-- The checks of `_parse_entry` on the document of a line. -/
def checkEntry (document : Fields) (line : String) (expectedSeq : ℕ) (expectedPreviousHash : String) :
    Except OfferStoreError (OfferRecord H) := do
  require (Json.keysEq document entryFields) (.corruption (line ++ " has invalid envelope fields"))
  require ((Json.get document "kind").eqStr offerLogEntryKind &&
      (Json.get document "protocol_version").eqStr offerLogVersion &&
      (Json.get document "seq").asInt == some (expectedSeq : ℤ))
    (.corruption (line ++ " has invalid sequence metadata"))
  require ((Json.get document "previous_entry_hash").eqStr expectedPreviousHash)
    (.corruption (line ++ " breaks the entry hash chain"))
  let offerDigestText ← expect ((Json.get document "offer_digest").asStr.filter isDigest)
    (.corruption (line ++ " has invalid offer_digest"))
  let entryHash ← expect ((Json.get document "entry_hash").asStr.filter isDigest)
    (.corruption (line ++ " has invalid entry_hash"))
  let receivedAtMs ← expect (Json.get document "received_at_ms").asInt
    (.corruption (line ++ " has invalid provenance"))
  let sourceKind ← expect (Json.get document "source_kind").asStr
    (.corruption (line ++ " has invalid provenance"))
  let sourceId ← expect (Json.get document "source_id").asStr
    (.corruption (line ++ " has invalid provenance"))
  let p ← expect (provenance receivedAtMs sourceKind sourceId)
    (.corruption (line ++ " has invalid provenance"))
  require (entryHashOf H (readBody document) == some entryHash) (.corruption (line ++ " entry_hash mismatch"))
  let offer ← (SignedDocument.fromDict H (offerFormat H) (Json.get document "offer")).mapError fun e =>
    .corruption (line ++ " contains an invalid offer: " ++ e)
  require (offerDigest offer == offerDigestText) (.corruption (line ++ " offer_digest mismatch"))
  return entryRecord expectedSeq offer p entryHash

variable (H) in
/-- `_parse_entry`. -/
def parseEntry (raw : Bytes) (expectedSeq : ℕ) (expectedPreviousHash : String) :
    Except OfferStoreError (OfferRecord H) := do
  let line := "offer log line " ++ toString expectedSeq
  let document ← strictJson raw line
  checkEntry H document line expectedSeq expectedPreviousHash

/-! ## What is read -/

theorem strictJson_eq_ok {raw : Bytes} {label : String} {document : Fields} :
    strictJson raw label = .ok document ↔
      ∃ cs, utf8Decode raw = some cs ∧ strictLoads cs = some (.obj document) := by
  simp only [strictJson, expect_bind_eq_ok, require_bind_eq_ok, pure_eq_ok, Option.bind_eq_some_iff]
  constructor
  · rintro ⟨value, ⟨cs, hcs, hv⟩, ho, rfl⟩
    exact ⟨cs, hcs, by rw [hv, ← Json.eq_obj_of_isObj ho]⟩
  · rintro ⟨cs, hcs, hv⟩
    exact ⟨_, ⟨cs, hcs, hv⟩, rfl, rfl⟩

/-- What a line that is read is made of. -/
theorem parseEntry_eq_ok {raw : Bytes} {seq : ℕ} {previous : String} {r : OfferRecord H}
    (h : parseEntry H raw seq previous = .ok r) :
    (∃ cs v, utf8Decode raw = some cs ∧ strictLoads cs = some v) ∧ r.seq = seq ∧
      isDigest r.entryHash = true := by
  simp only [parseEntry, checkEntry, bind_eq_ok, expect_eq_ok, require_eq_ok, pure_eq_ok,
    strictJson_eq_ok,
    Option.filter_eq_some_iff] at h
  obtain ⟨document, ⟨cs, hcs, hv⟩, -, -, -, -, -, -, -, -, entryHash, ⟨-, hd⟩, -, -, -, -, -, -, p, -, -,
    -, offer, -, -, -, rfl⟩ := h
  exact ⟨⟨cs, _, hcs, hv⟩, rfl, hd⟩

theorem isDigest_entryHashOf {body : Fields} {entryHash : String}
    (h : entryHashOf H body = some entryHash) : isDigest entryHash = true := by
  obtain ⟨b, -, rfl⟩ := Option.map_eq_some_iff.1 h
  exact isDigest_sha256 b

/-! ## What is written -/

section

variable {seq : ℕ} {previous entryHash : String} {offer : TradeOffer H} {p : Provenance}

theorem nodup_entryDocument :
    ((entryDocument (entryBody seq previous offer p) entryHash).map Prod.fst).Nodup := by
  simp [entryDocument, entryBody]

theorem keysEq_entryDocument :
    Json.keysEq (entryDocument (entryBody seq previous offer p) entryHash) entryFields = true := rfl

theorem readBody_entryDocument :
    readBody (entryDocument (entryBody seq previous offer p) entryHash) =
      entryBody seq previous offer p := rfl

theorem readBody_norm {kvs : Fields} (h : (kvs.map Prod.fst).Nodup) :
    readBody (Json.obj kvs).norm.fields = (readBody kvs).map Json.normItem := by
  rw [readBody, readBody, List.map_map]
  exact List.map_congr_left fun f _ => by rw [Json.get_norm h]; rfl

/-- The hash does not see the order of keys. -/
theorem entryHashOf_normItem (body : Fields) :
    entryHashOf H (body.map Json.normItem) = entryHashOf H body := by
  have hn : canonicalJson (.obj (body.map Json.normItem)) = canonicalJson (.obj body) :=
    NthDao.canonicalJson_congr rfl rfl (Json.norm_obj_of_map (Json.map_normItem_idem _))
  rw [entryHashOf, hn, entryHashOf]

theorem wf_entryDocument :
    (Json.obj (entryDocument (entryBody seq previous offer p) entryHash)).wf = true := by
  refine Json.wf_obj.2 ⟨nodup_entryDocument, ?_⟩
  simp [entryDocument, entryBody, Json.wf, offer.wf_document]

/-- The document of an entry passes the checks. -/
theorem checkEntry_norm {line : String}
    (hh : entryHashOf H (entryBody seq previous offer p) = some entryHash) :
    checkEntry H (Json.obj (entryDocument (entryBody seq previous offer p) entryHash)).norm.fields line
      seq previous = .ok (entryRecord seq offer p entryHash) := by
  have hread : readBody (Json.obj (entryDocument (entryBody seq previous offer p)
      entryHash)).norm.fields = (entryBody seq previous offer p).map Json.normItem := by
    rw [readBody_norm nodup_entryDocument, readBody_entryDocument]
  have hoffer : SignedDocument.fromDict H (offerFormat H) offer.document.norm = .ok offer := by
    rw [offer.norm_document, offer.fromDict_document]
  simp only [checkEntry, Json.get_norm nodup_entryDocument, hread, entryHashOf_normItem, hh,
    Json.keysEq_norm, keysEq_entryDocument, Json.eqStr_norm, Json.asInt_norm, Json.asStr_norm]
  have hd : (some (offerDigest offer)).filter isDigest = some (offerDigest offer) := by
    rw [Option.filter_some, offerDigest, isDigest_digest offer, if_pos rfl]
  have he : (some entryHash).filter isDigest = some entryHash := by
    rw [Option.filter_some, isDigest_entryHashOf hh, if_pos rfl]
  simp [entryDocument, entryBody, Json.get, Json.lookup_cons, Json.eqStr, Json.asInt, Json.asStr,
    provenance_eq, hoffer, hd, he, require, expect, ok_bind, mapError_ok]

/-- **A written entry reads back as its record.** -/
theorem parseEntry_entry {payload : Bytes}
    (hh : entryHashOf H (entryBody seq previous offer p) = some entryHash)
    (hp : canonicalJson (.obj (entryDocument (entryBody seq previous offer p) entryHash)) =
      some payload) :
    parseEntry H payload seq previous = .ok (entryRecord seq offer p entryHash) := by
  obtain ⟨he, hb⟩ := canonicalJson_eq_some hp
  have hl : strictLoads (dumps false
      (Json.obj (entryDocument (entryBody seq previous offer p) entryHash)).norm) =
      some (.obj (Json.obj (entryDocument (entryBody seq previous offer p) entryHash)).norm.fields) := by
    rw [strictLoads_dumps false (Json.wf_norm _ wf_entryDocument) (by rw [Json.encodable_norm, he])]
    rw [Json.norm_obj, Json.fields_obj]
  refine bind_eq_ok.2 ⟨_, strictJson_eq_ok.2 ⟨_, ?_, hl⟩, checkEntry_norm hh⟩
  rw [hb, utf8Decode_utf8]

theorem weight_offer (offer : TradeOffer H) : weight false offer.document ≤ maxTradeJsonBytes := by
  obtain ⟨-, -, -, hc, hl⟩ := tradeCanonicalJson_eq_ok.1 offer.encodes
  rwa [← canonicalJson_length hc]

theorem strWeight_digest {s : String} (h : isDigest s = true) : strWeight false s ≤ 428 := by
  have hs := strWeight_le s
  rw [length_of_isDigest h] at hs
  exact hs

theorem strWeight_sourceKind (p : Provenance) : strWeight false p.sourceKind ≤ 386 := by
  have hs := strWeight_le p.sourceKind
  have hk := p.kind
  rw [isSourceKind, chars_eq] at hk
  have hl : p.sourceKind.length ≤ 64 := by
    rw [← String.length_toList]
    cases hc : p.sourceKind.toList with
    | nil => simp
    | cons c r =>
      rw [hc] at hk
      simp only [Bool.and_eq_true, decide_eq_true_eq] at hk
      rw [List.length_cons]
      omega
  omega

theorem strWeight_sourceId (p : Provenance) : strWeight false p.sourceId ≤ 6146 := by
  have hs := strWeight_le p.sourceId
  have hi := p.id
  simp only [isSourceId, chars_eq, Bool.and_eq_true, decide_eq_true_eq] at hi
  have hl := length_le_utf8 p.sourceId.toList
  rw [String.length_toList] at hl
  omega

/-- **The line of an entry is within the limit of the reader.** -/
theorem length_entry_le {payload : Bytes} (hprev : isDigest previous = true)
    (hh : entryHashOf H (entryBody seq previous offer p) = some entryHash)
    (hp : canonicalJson (.obj (entryDocument (entryBody seq previous offer p) entryHash)) =
      some payload) : payload.length + 1 ≤ maxStoredLineBytes := by
  have he := Json.encodable_obj.1 (canonicalJson_eq_some hp).1
  have hseq := weight_int_le (he ("seq", .int seq) (by simp [entryDocument, entryBody]))
  have hrecv := weight_int_le
    (he ("received_at_ms", .int p.receivedAtMs) (by simp [entryDocument, entryBody]))
  have hoffer := weight_offer offer
  have hd : strWeight false (offerDigest offer) ≤ 428 := strWeight_digest (isDigest_digest offer)
  have hhash := strWeight_digest (isDigest_entryHashOf hh)
  have hprev := strWeight_digest hprev
  have hkind := strWeight_sourceKind p
  have hid := strWeight_sourceId p
  have hkeys : ∀ s ∈ entryFields ++ [offerLogEntryKind, offerLogVersion], strWeight false s ≤ 200 := by
    intro s hs
    have := strWeight_le s
    have hl : ∀ s ∈ entryFields ++ [offerLogEntryKind, offerLogVersion], s.length ≤ 33 := by decide
    have := hl s hs
    omega
  simp only [entryFields, entryBodyFields, List.cons_append, List.nil_append, List.forall_mem_cons]
    at hkeys
  obtain ⟨k₁, k₂, k₃, k₄, k₅, k₆, k₇, k₈, k₉, k₁₀, v₁, v₂, -⟩ := hkeys
  rw [canonicalJson_length hp, weight_obj false (by simp [entryDocument, entryBody])]
  simp only [entryDocument, entryBody, List.cons_append, List.nil_append, List.map_cons, List.map_nil,
    List.sum_cons, List.sum_nil, itemWeight, weight_str]
  simp only [maxIntDigits, maxTradeJsonBytes, maxStoredLineBytes] at *
  omega

end

/-! ## Two entries in one line -/

/-- **What is read does not go on with an object.** -/
theorem strictJson_append {raw : Bytes} {cs w : List Char} {v : Json} {label : String}
    {kvs document : Fields} (hr : utf8Decode raw = some cs) (hv : strictLoads cs = some v)
    (hw : ∀ c ∈ w, isWs c = true) :
    strictJson (raw ++ utf8 w ++ utf8 (dumps false (.obj kvs))) label ≠ .ok document := by
  intro h
  obtain ⟨ds, hds, hl⟩ := strictJson_eq_ok.1 h
  rw [← utf8_of_utf8Decode hr, ← utf8_append, ← utf8_append, utf8Decode_utf8, Option.some.injEq,
    List.append_assoc] at hds
  rw [← hds, strictLoads_append_obj hv hw] at hl
  cases hl

/-- Two entries in one line are not read. -/
theorem parseEntry_append {raw : Bytes} {w : List Char} {seq seq' : ℕ} {previous previous' : String}
    {r r' : OfferRecord H} {kvs : Fields} (h : parseEntry H raw seq previous = .ok r)
    (hw : ∀ c ∈ w, isWs c = true) :
    parseEntry H (raw ++ utf8 w ++ utf8 (dumps false (.obj kvs))) seq' previous' ≠ .ok r' := by
  intro h'
  obtain ⟨⟨cs, v, hr, hv⟩, -⟩ := parseEntry_eq_ok h
  obtain ⟨document, hd, -⟩ := bind_eq_ok.1 h'
  exact strictJson_append hr hv hw hd

end NthDao.TradeRules
