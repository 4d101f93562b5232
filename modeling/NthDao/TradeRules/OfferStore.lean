/-
  The offer store (`OfferStore` in `nth_dao/trade_rules/store.py`): an append-only log of
  offers and a checkpoint of its head.

  * `scan`: the reader, which goes through the lines of the log, checks the chain of
    their hashes and rolls the checkpoint forward;
  * `publish`: the writer, which appends a line and replaces the checkpoint.

  An instance also keeps the records that it read last, for as long as the files stay
  as they were; the instances here start without.

  * `scan_idem`: the scan leaves files that scan alike;
  * `publish_readable_iff`: what `publish` leaves scans to the old records and the new
    one iff the log was whole, or the offer was there.
-/
import NthDao.Lines
import NthDao.TradeRules.OfferLog

namespace NthDao.TradeRules

open Py

variable {H : Host}

/-! ## Files -/

/-- The limits of a store. -/
structure OfferStoreConfig where
  maxRecords : ℕ
  maxBytes : ℕ
  maxRecords_pos : 1 ≤ maxRecords
  maxBytes_le : maxStoredLineBytes ≤ maxBytes

/-- `offers.jsonl` and `head.json`. -/
structure OfferFiles where
  log : Option Bytes
  checkpoint : Option Bytes

/-! ## The checkpoint -/

/-- A checkpoint that passed `_load_checkpoint_locked`. -/
structure Checkpoint where
  seq : ℤ
  entryHash : String
  seq_le : -1 ≤ seq
  hash : isDigest entryHash = true
  genesis : seq = -1 → entryHash = genesisHash

def checkpointFields : List String := ["kind", "protocol_version", "seq", "entry_hash"]

/-- `_checkpoint_document`. -/
def checkpointDocument (seq : ℤ) (entryHash : String) : Fields :=
  [("kind", .str offerLogCheckpointKind), ("protocol_version", .str offerLogVersion),
    ("seq", .int seq), ("entry_hash", .str entryHash)]

/-- The file of `_write_checkpoint_locked`. -/
def writeCheckpoint (seq : ℤ) (entryHash : String) : Except OfferStoreError Bytes := do
  let payload ← expect (canonicalJson (.obj (checkpointDocument seq entryHash)))
    (.error "the checkpoint has no canonical JSON")
  return payload ++ [10]

/-- The checks of `_load_checkpoint_locked` on a document. -/
def readCheckpoint (checkpoint : Fields) : Except OfferStoreError Checkpoint := do
  require (Json.keysEq checkpoint checkpointFields)
    (.corruption "offer log checkpoint has invalid fields")
  require ((Json.get checkpoint "kind").eqStr offerLogCheckpointKind &&
      (Json.get checkpoint "protocol_version").eqStr offerLogVersion)
    (.corruption "offer log checkpoint has invalid metadata")
  let seq ← expect (Json.get checkpoint "seq").asInt
    (.corruption "offer log checkpoint has invalid metadata")
  let entryHash ← expect (Json.get checkpoint "entry_hash").asStr
    (.corruption "offer log checkpoint has invalid metadata")
  if h : -1 ≤ seq ∧ isDigest entryHash = true then
    if hg : seq = -1 → entryHash = genesisHash then
      return ⟨seq, entryHash, h.1, h.2, hg⟩
    else .error (.corruption "offer log genesis checkpoint is invalid")
  else .error (.corruption "offer log checkpoint has invalid metadata")

/-- `_load_checkpoint_locked`. -/
def loadCheckpoint : Option Bytes → Except OfferStoreError (Option Checkpoint)
  | none => .ok none
  | some raw => do
    let document ← strictJson raw "offer log checkpoint"
    let checkpoint ← readCheckpoint document
    return some checkpoint

/-- The checks of a checkpoint against the records. -/
def Checkpoint.check (c : Checkpoint) (records : List (OfferRecord H)) :
    Except OfferStoreError Unit := do
  require (c.seq < records.length) (.corruption "offer log was truncated behind its checkpoint")
  if 0 ≤ c.seq then
    require (records[c.seq.toNat]?.any fun r => r.entryHash == c.entryHash)
      (.corruption "offer log checkpoint does not match its anchored entry")
  else
    require (c.entryHash == genesisHash) (.corruption "offer log genesis checkpoint is invalid")

/-- `_verify_checkpoint_locked`: the file after it. -/
def verifyCheckpoint (records : List (OfferRecord H)) (file : Option Bytes) :
    Except OfferStoreError (Option Bytes) := do
  let checkpoint ← loadCheckpoint file
  match records.getLast? with
  | none =>
    require (checkpoint.all fun c => c.seq == -1 && c.entryHash == genesisHash)
      (.corruption "offer log is missing records committed by its checkpoint")
    return file
  | some latest =>
    let c ← expect checkpoint (.corruption "offer log checkpoint is missing")
    c.check records
    if c.seq < latest.seq then
      let file ← writeCheckpoint latest.seq latest.entryHash
      return some file
    else return file

/-! ## The scan -/

/-- `b"\r\n"`. -/
def isNewline (b : UInt8) : Bool := b == 13 || b == 10

variable (H) in
/-- The body of the loop of `_scan_locked`. -/
def scanLine (config : OfferStoreConfig) (seq : ℕ) (previousEntryHash : String)
    (seenDigests : List String) (raw : Bytes) : Except OfferStoreError (OfferRecord H) := do
  let line := "offer log line " ++ toString seq
  require (seq < config.maxRecords) (.capacity "offer log exceeds configured max_records")
  require (raw.length ≤ maxStoredLineBytes) (.corruption (line ++ " exceeds the size limit"))
  let payload := raw.rdropWhile isNewline
  require (!payload.isEmpty) (.corruption (line ++ " is empty"))
  let record ← parseEntry H payload seq previousEntryHash
  require (!seenDigests.contains record.digest)
    (.corruption (line ++ " duplicates digest " ++ record.digest))
  return record

variable (H) in
/-- The loop of `_scan_locked`. -/
def scanLines (config : OfferStoreConfig) (seq : ℕ) (previousEntryHash : String)
    (seenDigests : List String) : List Bytes → Except OfferStoreError (List (OfferRecord H))
  | [] => return []
  | raw :: lines => do
    let record ← scanLine H config seq previousEntryHash seenDigests raw
    let records ← scanLines config (seq + 1) record.entryHash (seenDigests ++ [record.digest]) lines
    return record :: records

variable (H) in
/-- `_scan_locked`, and the files after it. -/
def scan (config : OfferStoreConfig) (files : OfferFiles) :
    Except OfferStoreError (List (OfferRecord H) × OfferFiles) :=
  match files.log with
  | none => do
    let checkpoint ← verifyCheckpoint (H := H) [] files.checkpoint
    return ([], ⟨none, checkpoint⟩)
  | some log => do
    require (log.length ≤ config.maxBytes) (.capacity "offer log exceeds configured max_bytes")
    let records ← scanLines H config 0 genesisHash [] (Lines.split 10 log)
    let checkpoint ← verifyCheckpoint records files.checkpoint
    return (records, ⟨some log, checkpoint⟩)

/-! ## Publishing -/

/-- What can be published. -/
inductive OfferValue (H : Host) where
  | offer (offer : TradeOffer H)
  | object (items : Fields)

/-- `_verified_offer`. -/
def verifiedOffer (value : OfferValue H) : Except OfferStoreError (TradeOffer H) :=
  (match value with
    | .offer o => SignedDocument.fromJson H (offerFormat H) o.canonicalBytes
    | .object items => SignedDocument.fromDict H (offerFormat H) (.obj items)).mapError fun e =>
    .validation ("offer rejected: " ++ e)

/-- The checkpoint before the first append. -/
def openLog (records : List (OfferRecord H)) (files : OfferFiles) : Except OfferStoreError OfferFiles :=
  if records.isEmpty && files.checkpoint.isNone then do
    let checkpoint ← writeCheckpoint (-1) genesisHash
    return { files with checkpoint := some checkpoint }
  else return files

/-- `_append_locked`: the log after it. -/
def appendEntry (config : OfferStoreConfig) (log : Option Bytes) (document : Fields) :
    Except OfferStoreError Bytes := do
  let payload ← expect (canonicalJson (.obj document)) (.error "the entry has no canonical JSON")
  require (payload.length ≤ maxStoredLineBytes && !payload.contains 10)
    (.error "canonical offer entry exceeds the storage limit")
  require ((log.getD []).length + payload.length + 1 ≤ config.maxBytes)
    (.capacity "offer log has reached configured max_bytes")
  return log.getD [] ++ (payload ++ [10])

/-- `OfferPublishResult`. -/
structure OfferPublishResult (H : Host) where
  record : OfferRecord H
  appended : Bool
  chain : Option OfferChainView

/-- The hash that the next entry names. -/
def headHash (genesis : String) (records : List (OfferRecord H)) : String :=
  (records.getLast?.map OfferRecord.entryHash).getD genesis

/-- The publisher and the id of an offer, as its class reads them. -/
def chainOf (records : List (OfferRecord H)) (offer : TradeOffer H) : Option OfferChainView := do
  let publisherDid ← (offer.field "publisher_did").asStr
  let offerId ← (offer.field "offer_id").asStr
  project records publisherDid offerId

/-- `publish`, and the files after it. -/
def publish (config : OfferStoreConfig) (files : OfferFiles) (value : OfferValue H)
    (receivedAtMs : ℤ) (sourceKind sourceId : String) :
    Except OfferStoreError (OfferPublishResult H × OfferFiles) := do
  require (isSourceKind sourceKind) (.validation "source_kind is invalid")
  require (isSourceId sourceId) (.validation "source_id is invalid")
  let p ← expect (provenance receivedAtMs sourceKind sourceId)
    (.validation "received_at_ms is invalid")
  let offer ← verifiedOffer value
  let (records, files) ← scan H config files
  match (deduplicate records).get (offerDigest offer) with
  | some record => return (⟨record, false, chainOf records offer⟩, files)
  | none =>
    require (records.length < config.maxRecords)
      (.capacity "offer log has reached configured max_records")
    let files ← openLog records files
    let body := entryBody records.length (headHash genesisHash records) offer p
    let entryHash ← expect (entryHashOf H body) (.error "the entry has no canonical JSON")
    let log ← appendEntry config files.log (entryDocument body entryHash)
    let checkpoint ← writeCheckpoint records.length entryHash
    let record := entryRecord records.length offer p entryHash
    return (⟨record, true, chainOf (records ++ [record]) offer⟩, ⟨some log, some checkpoint⟩)

/-! ## What the checkpoint says -/

theorem wf_checkpointDocument {seq : ℤ} {entryHash : String} :
    (Json.obj (checkpointDocument seq entryHash)).wf = true := by
  refine Json.wf_obj.2 ⟨by simp [checkpointDocument], ?_⟩
  simp [checkpointDocument, Json.wf]

/-- A written checkpoint is loaded. -/
theorem loadCheckpoint_written {c : Checkpoint} {file : Bytes}
    (h : writeCheckpoint c.seq c.entryHash = .ok file) :
    loadCheckpoint (some file) = .ok (some c) := by
  simp only [writeCheckpoint, expect_bind_eq_ok, pure_eq_ok] at h
  obtain ⟨payload, hp, rfl⟩ := h
  obtain ⟨he, rfl⟩ := canonicalJson_eq_some hp
  have hn : ((checkpointDocument c.seq c.entryHash).map Prod.fst).Nodup := by
    simp [checkpointDocument]
  have hl : strictLoads (dumps false (Json.obj (checkpointDocument c.seq c.entryHash)).norm ++ ['\n']) =
      some (.obj (Json.obj (checkpointDocument c.seq c.entryHash)).norm.fields) := by
    rw [strictLoads_dumps_append false (Json.wf_norm _ wf_checkpointDocument)
      (by rw [Json.encodable_norm, he]) (by simp [isWs]), Json.norm_obj, Json.fields_obj]
  have hd : strictJson (utf8 (dumps false (Json.obj (checkpointDocument c.seq c.entryHash)).norm) ++
      [10]) "offer log checkpoint" =
      .ok (Json.obj (checkpointDocument c.seq c.entryHash)).norm.fields := by
    refine strictJson_eq_ok.2 ⟨_, ?_, hl⟩
    rw [← utf8Decode_utf8, utf8_append]
    rfl
  have hr : readCheckpoint (Json.obj (checkpointDocument c.seq c.entryHash)).norm.fields = .ok c := by
    simp only [readCheckpoint, Json.get_norm hn, Json.keysEq_norm, Json.eqStr_norm, Json.asInt_norm,
      Json.asStr_norm]
    have hc : -1 ≤ c.seq ∧ isDigest c.entryHash = true := ⟨c.seq_le, c.hash⟩
    have hk : Json.keysEq (checkpointDocument c.seq c.entryHash) checkpointFields = true := rfl
    simp only [hk]
    simp [checkpointDocument, Json.get, Json.lookup_cons, Json.eqStr, Json.asInt, Json.asStr, require,
      expect, ok_bind, hc]
    rw [dif_pos c.genesis]
    rfl
  simp only [loadCheckpoint, hd, hr, ok_bind]
  rfl

/-- Records numbered from `seq` on, with hashes. -/
def Numbered (seq : ℕ) (records : List (OfferRecord H)) : Prop :=
  ∀ i r, records[i]? = some r → r.seq = seq + i ∧ isDigest r.entryHash = true

section

variable {records : List (OfferRecord H)} {latest : OfferRecord H}

theorem Numbered.getLast? (hn : Numbered 0 records) (hl : records.getLast? = some latest) :
    latest.seq + 1 = records.length ∧ records[latest.seq]? = some latest ∧
      isDigest latest.entryHash = true := by
  have hne : records ≠ [] := by rintro rfl; cases hl
  have hpos := List.length_pos_of_ne_nil hne
  rw [List.getLast?_eq_getElem?] at hl
  obtain ⟨hseq, hd⟩ := hn _ _ hl
  rw [Nat.zero_add] at hseq
  rw [hseq]
  exact ⟨by omega, hl, hd⟩

/-- The checkpoint of the last record stands. -/
theorem verifyCheckpoint_written (hn : Numbered 0 records) (hl : records.getLast? = some latest)
    {file : Bytes} (h : writeCheckpoint latest.seq latest.entryHash = .ok file) :
    verifyCheckpoint records (some file) = .ok (some file) := by
  obtain ⟨hlen, hget, hd⟩ := hn.getLast? hl
  have hload := loadCheckpoint_written (c := ⟨latest.seq, latest.entryHash, by omega, hd, by omega⟩) h
  have hcheck : Checkpoint.check ⟨latest.seq, latest.entryHash, by omega, hd, by omega⟩ records =
      .ok () := by
    rw [Checkpoint.check, require_bind_eq_ok, decide_eq_true_eq, if_pos (by simp), require_eq_ok,
      Int.toNat_natCast, hget]
    exact ⟨by simp only; omega, by simp⟩
  rw [verifyCheckpoint, hload, ok_bind, hl]
  simp only [expect, ok_bind, hcheck, lt_irrefl, if_false]
  rfl

theorem verifyCheckpoint_idem (hn : Numbered 0 records) {file file' : Option Bytes}
    (h : verifyCheckpoint records file = .ok file') : verifyCheckpoint records file' = .ok file' := by
  have hv := h
  simp only [verifyCheckpoint, bind_eq_ok] at h
  obtain ⟨checkpoint, -, h⟩ := h
  cases hl : records.getLast? with
  | none =>
    simp only [hl, require_eq_ok, bind_eq_ok, pure_eq_ok] at h
    obtain ⟨-, -, rfl⟩ := h
    exact hv
  | some latest =>
    simp only [hl, bind_eq_ok] at h
    obtain ⟨c, -, -, -, h⟩ := h
    split_ifs at h with hlt
    · simp only [bind_eq_ok, pure_eq_ok] at h
      obtain ⟨written, hw, rfl⟩ := h
      exact verifyCheckpoint_written hn hl hw
    · rw [pure_eq_ok] at h
      subst h
      exact hv

end

/-! ## What the scan reads -/

theorem headHash_cons (genesis : String) (r : OfferRecord H) (records : List (OfferRecord H)) :
    headHash genesis (r :: records) = headHash r.entryHash records := by
  cases records with
  | nil => rfl
  | cons s records => rw [headHash, headHash, List.getLast?_cons_cons, List.getLast?_cons]; rfl

variable {config : OfferStoreConfig}

/-- One more line. -/
theorem scanLines_concat {seq : ℕ} {previous : String} {seen : List String} {lines : List Bytes}
    {raw : Bytes} {ts : List (OfferRecord H)} :
    scanLines H config seq previous seen (lines ++ [raw]) = .ok ts ↔
      ∃ rs r, scanLines H config seq previous seen lines = .ok rs ∧
        scanLine H config (seq + rs.length) (headHash previous rs)
          (seen ++ rs.map OfferRecord.digest) raw = .ok r ∧ ts = rs ++ [r] := by
  induction lines generalizing seq previous seen ts with
  | nil =>
    simp only [List.nil_append, scanLines, bind_eq_ok, pure_eq_ok]
    constructor
    · rintro ⟨r, hr, _, rfl, rfl⟩
      exact ⟨[], r, rfl, by simpa [headHash] using hr, rfl⟩
    · rintro ⟨_, r, rfl, hr, rfl⟩
      exact ⟨r, by simpa [headHash] using hr, [], rfl, rfl⟩
  | cons line lines ih =>
    simp only [List.cons_append, scanLines, bind_eq_ok, pure_eq_ok, ih]
    constructor
    · rintro ⟨r, hr, _, ⟨rs, r', hrs, hr', rfl⟩, rfl⟩
      refine ⟨r :: rs, r', ⟨r, hr, rs, hrs, rfl⟩, ?_, rfl⟩
      rw [headHash_cons, List.length_cons, List.map_cons, ← Nat.add_assoc, Nat.add_right_comm]
      rwa [List.append_assoc] at hr'
    · rintro ⟨_, r', ⟨r, hr, rs, hrs, rfl⟩, hr', rfl⟩
      refine ⟨r, hr, rs ++ [r'], ⟨rs, r', hrs, ?_, rfl⟩, rfl⟩
      rw [headHash_cons, List.length_cons, List.map_cons, ← Nat.add_assoc, Nat.add_right_comm] at hr'
      rwa [List.append_assoc]

theorem scanLine_eq_ok {seq : ℕ} {previous : String} {seen : List String} {raw : Bytes}
    {r : OfferRecord H} : scanLine H config seq previous seen raw = .ok r ↔
      seq < config.maxRecords ∧ raw.length ≤ maxStoredLineBytes ∧
        raw.rdropWhile isNewline ≠ [] ∧ parseEntry H (raw.rdropWhile isNewline) seq previous = .ok r ∧
          r.digest ∉ seen := by
  simp only [scanLine, require_bind_eq_ok, decide_eq_true_eq, Bool.not_eq_true',
    List.isEmpty_eq_false_iff]
  simp only [bind_eq_ok, require_eq_ok, pure_eq_ok, Bool.not_eq_true', List.contains_eq_mem,
    decide_eq_false_iff_not]
  constructor
  · rintro ⟨h₁, h₂, h₃, r, h₄, -, h₅, rfl⟩
    exact ⟨h₁, h₂, h₃, h₄, h₅⟩
  · rintro ⟨h₁, h₂, h₃, h₄, h₅⟩
    exact ⟨h₁, h₂, h₃, r, h₄, (), h₅, rfl⟩

/-- The records are numbered by their lines. -/
theorem numbered_of_scanLines {seq : ℕ} {previous : String} {seen : List String} {lines : List Bytes}
    {rs : List (OfferRecord H)} (h : scanLines H config seq previous seen lines = .ok rs) :
    rs.length = lines.length ∧ Numbered seq rs := by
  induction lines generalizing seq previous seen rs with
  | nil =>
    cases h
    exact ⟨rfl, fun i r hr => by cases hr⟩
  | cons line lines ih =>
    simp only [scanLines, bind_eq_ok, pure_eq_ok] at h
    obtain ⟨r, hr, rs, hrs, rfl⟩ := h
    obtain ⟨hlen, hn⟩ := ih hrs
    refine ⟨by rw [List.length_cons, List.length_cons, hlen], fun i s hs => ?_⟩
    cases i with
    | zero =>
      cases hs
      exact (parseEntry_eq_ok (scanLine_eq_ok.1 hr).2.2.2.1).2
    | succ i =>
      obtain ⟨hseq, hd⟩ := hn i s hs
      exact ⟨by omega, hd⟩

/-- A scan that returns. -/
theorem scan_eq_ok {files files' : OfferFiles} {records : List (OfferRecord H)} :
    scan H config files = .ok (records, files') ↔
      (files.log.getD []).length ≤ config.maxBytes ∧
        scanLines H config 0 genesisHash [] (Lines.split 10 (files.log.getD [])) = .ok records ∧
          verifyCheckpoint records files.checkpoint = .ok files'.checkpoint ∧
            files'.log = files.log := by
  obtain ⟨log, checkpoint⟩ := files
  obtain ⟨log', checkpoint'⟩ := files'
  cases log with
  | none =>
    simp only [scan, bind_eq_ok, pure_eq_ok, Prod.mk.injEq, OfferFiles.mk.injEq, Option.getD_none,
      List.length_nil, Nat.zero_le, true_and, Lines.split, scanLines]
    constructor
    · rintro ⟨_, h, rfl, rfl, rfl⟩
      exact ⟨rfl, h, rfl⟩
    · rintro ⟨rfl, h, rfl⟩
      exact ⟨_, h, rfl, rfl, rfl⟩
  | some log =>
    simp only [scan, require_bind_eq_ok, decide_eq_true_eq, Option.getD_some]
    simp only [bind_eq_ok, pure_eq_ok, Prod.mk.injEq, OfferFiles.mk.injEq]
    constructor
    · rintro ⟨hl, _, hs, _, h, rfl, rfl, rfl⟩
      exact ⟨hl, hs, h, rfl⟩
    · rintro ⟨hl, hs, h, rfl⟩
      exact ⟨hl, _, hs, _, h, rfl, rfl, rfl⟩

/-- **The scan leaves files that scan alike.** -/
theorem scan_idem {files files' : OfferFiles} {records : List (OfferRecord H)}
    (h : scan H config files = .ok (records, files')) : scan H config files' = .ok (records, files') := by
  obtain ⟨hlen, hs, hv, hlog⟩ := scan_eq_ok.1 h
  rw [scan_eq_ok, hlog]
  exact ⟨hlen, hs, verifyCheckpoint_idem (numbered_of_scanLines hs).2 hv, rfl⟩

/-! ## What an append leaves -/

section

variable {offer : TradeOffer H} {p : Provenance} {records : List (OfferRecord H)}

theorem log_of_openLog {files files' : OfferFiles} (h : openLog records files = .ok files') :
    files'.log = files.log := by
  rw [openLog] at h
  split_ifs at h
  · simp only [bind_eq_ok, pure_eq_ok] at h
    obtain ⟨_, -, rfl⟩ := h
    rfl
  · rw [pure_eq_ok] at h
    rw [h]

/-- The entry behind the given records, with its bytes and the checkpoint. -/
structure Appended (config : OfferStoreConfig) (log : Bytes) (records : List (OfferRecord H))
    (offer : TradeOffer H) (p : Provenance) (entryHash : String) (payload checkpoint : Bytes) :
    Prop where
  fresh : ∀ r ∈ records, r.digest ≠ offerDigest offer
  room : records.length < config.maxRecords
  hash : entryHashOf H (entryBody records.length (headHash genesisHash records) offer p) =
    some entryHash
  encodes : canonicalJson (.obj (entryDocument
    (entryBody records.length (headHash genesisHash records) offer p) entryHash)) = some payload
  fits : log.length + payload.length + 1 ≤ config.maxBytes
  checkpoint : writeCheckpoint records.length entryHash = .ok checkpoint

/-- **What a publish does.** -/
theorem publish_eq_ok {files files' : OfferFiles} {value : OfferValue H} {receivedAtMs : ℤ}
    {sourceKind sourceId : String} {result : OfferPublishResult H} {scanned : OfferFiles}
    (hs : scan H config files = .ok (records, scanned)) (ho : verifiedOffer value = .ok offer)
    (h : publish config files value receivedAtMs sourceKind sourceId = .ok (result, files')) :
    ((∃ r ∈ records, r.digest = offerDigest offer) ∧ result.appended = false ∧ files' = scanned) ∨
      ∃ p entryHash payload checkpoint,
        Appended config (files.log.getD []) records offer p entryHash payload checkpoint ∧
          result.appended = true ∧ result.record = entryRecord records.length offer p entryHash ∧
            files' = ⟨some (files.log.getD [] ++ (payload ++ [10])), some checkpoint⟩ := by
  simp only [publish, require_bind_eq_ok, expect_bind_eq_ok, ho, hs, ok_bind] at h
  obtain ⟨-, -, p, -, h⟩ := h
  cases hget : (deduplicate records).get (offerDigest offer) with
  | some r =>
    simp only [hget, pure_eq_ok, Prod.mk.injEq] at h
    obtain ⟨rfl, rfl⟩ := h
    left
    refine ⟨?_, rfl, rfl⟩
    by_contra hne
    push Not at hne
    rw [get_deduplicate_eq_none.2 hne] at hget
    cases hget
  | none =>
    simp only [hget, appendEntry, bind_eq_ok, require_eq_ok, expect_eq_ok, pure_eq_ok,
      decide_eq_true_eq, Bool.and_eq_true, Prod.mk.injEq] at h
    obtain ⟨-, hroom, opened, hopen, entryHash, hhash, log, ⟨payload, hpayload, -, -, -, hfits, rfl⟩,
      checkpoint, hcheck, rfl, rfl⟩ := h
    have hlog : opened.log = files.log := by
      rw [log_of_openLog hopen, (scan_eq_ok.1 hs).2.2.2]
    rw [hlog] at hfits ⊢
    exact .inr ⟨p, entryHash, payload, checkpoint, ⟨get_deduplicate_eq_none.1 hget, hroom, hhash,
      hpayload, hfits, hcheck⟩, rfl, rfl, rfl⟩

/-! ## The bytes of a line -/

/-- The text of an object ends with a brace and has no newline. -/
theorem canonicalJson_line {kvs : Fields} {payload : Bytes}
    (h : canonicalJson (.obj kvs) = some payload) :
    (∃ t, payload = t ++ [125]) ∧ (10 : UInt8) ∉ payload := by
  obtain ⟨he, rfl⟩ := canonicalJson_eq_some h
  constructor
  · rw [Json.norm_obj, dumps, ← List.cons_append, utf8_append]
    exact ⟨_, rfl⟩
  · intro hm
    have := le_of_mem_utf8_of_le (le_of_mem_dumps _ (by rw [Json.encodable_norm, he])) hm
    simp at this

theorem rdropWhile_line {t payload : Bytes} (h : payload = t ++ [125]) (xs : Bytes) :
    (xs ++ payload ++ [10]).rdropWhile isNewline = xs ++ payload := by
  rw [List.rdropWhile_concat_pos _ _ _ (by decide), h, ← List.append_assoc,
    List.rdropWhile_concat_neg _ _ _ (by decide)]

/-- The ends of lines are whitespace. -/
theorem exists_newlines {w : Bytes} (h : ∀ b ∈ w, isNewline b = true) :
    ∃ cs, w = utf8 cs ∧ ∀ c ∈ cs, isWs c = true := by
  induction w with
  | nil => exact ⟨[], rfl, by simp⟩
  | cons b w ih =>
    rw [List.forall_mem_cons] at h
    obtain ⟨cs, rfl, hcs⟩ := ih h.2
    rcases Bool.or_eq_true_iff.1 h.1 with hb | hb
    · cases beq_iff_eq.1 hb
      exact ⟨'\r' :: cs, rfl, List.forall_mem_cons.2 ⟨rfl, hcs⟩⟩
    · cases beq_iff_eq.1 hb
      exact ⟨'\n' :: cs, rfl, List.forall_mem_cons.2 ⟨rfl, hcs⟩⟩

/-! ## What is read after an append -/

variable {log payload checkpoint : Bytes} {entryHash : String}

theorem isDigest_genesisHash : isDigest genesisHash = true := by decide

theorem isDigest_headHash (hn : Numbered 0 records) :
    isDigest (headHash genesisHash records) = true := by
  rw [headHash]
  cases hl : records.getLast? with
  | none => exact isDigest_genesisHash
  | some r => exact (hn.getLast? hl).2.2

/-- The line of an entry reads as its record, with its newline or without. -/
theorem Appended.scanLine_eq (ha : Appended config log records offer p entryHash payload checkpoint)
    (hs : scanLines H config 0 genesisHash [] (Lines.split 10 log) = .ok records) {raw : Bytes}
    (hraw : raw.rdropWhile isNewline = payload) (hlen : raw.length ≤ payload.length + 1) :
    scanLine H config (0 + records.length) (headHash genesisHash records)
      ([] ++ records.map OfferRecord.digest) raw =
      .ok (entryRecord records.length offer p entryHash) := by
  obtain ⟨⟨t, ht⟩, -⟩ := canonicalJson_line ha.encodes
  rw [scanLine_eq_ok, hraw, Nat.zero_add, List.nil_append]
  refine ⟨ha.room, ?_, by simp [ht], parseEntry_entry ha.hash ha.encodes, fun hm => ?_⟩
  · have := length_entry_le (isDigest_headHash (numbered_of_scanLines hs).2) ha.hash ha.encodes
    omega
  · obtain ⟨r, hr, hd⟩ := List.mem_map.1 hm
    exact ha.fresh r hr hd

/-- The line of an entry behind whole lines reads as its record. -/
theorem Appended.scan_whole (ha : Appended config log records offer p entryHash payload checkpoint)
    (hw : Lines.Whole 10 log)
    (hs : scanLines H config 0 genesisHash [] (Lines.split 10 log) = .ok records) :
    scan H config ⟨some (log ++ (payload ++ [10])), some checkpoint⟩ =
      .ok (records ++ [entryRecord records.length offer p entryHash],
        ⟨some (log ++ (payload ++ [10])), some checkpoint⟩) := by
  obtain ⟨⟨t, ht⟩, hnl⟩ := canonicalJson_line ha.encodes
  have hraw : (payload ++ [10]).rdropWhile isNewline = payload := by
    simpa using rdropWhile_line ht []
  have hlines : scanLines H config 0 genesisHash [] (Lines.split 10 (log ++ (payload ++ [10]))) =
      .ok (records ++ [entryRecord records.length offer p entryHash]) := by
    rw [Lines.split_append 10 hw, Lines.split_line 10 hnl]
    exact scanLines_concat.2 ⟨records, _, hs, ha.scanLine_eq hs hraw (by simp), rfl⟩
  refine scan_eq_ok.2 ⟨?_, hlines, ?_, rfl⟩
  · have := ha.fits
    simp only [Option.getD_some, List.length_append, List.length_singleton]
    omega
  · exact verifyCheckpoint_written (numbered_of_scanLines hlines).2 (List.getLast?_concat ..)
      ha.checkpoint

/-- **Behind a part of a line nothing is read any more.** -/
theorem Appended.scan_torn (ha : Appended config log records offer p entryHash payload checkpoint)
    (hw : ¬ Lines.Whole 10 log)
    (hs : scanLines H config 0 genesisHash [] (Lines.split 10 log) = .ok records)
    (checkpoint : Option Bytes) {x : List (OfferRecord H) × OfferFiles} :
    scan H config ⟨some (log ++ (payload ++ [10])), checkpoint⟩ ≠ .ok x := by
  intro hx
  obtain ⟨ts, files⟩ := x
  obtain ⟨⟨t, ht⟩, hnl⟩ := canonicalJson_line ha.encodes
  obtain ⟨whole, torn, rfl, hwhole, htorn⟩ := Lines.exists_torn 10 log
  have hne : torn ≠ [] := by
    rintro rfl
    rw [List.append_nil] at hw
    exact hw hwhole
  have hsplit : Lines.split 10 (whole ++ torn) = Lines.split 10 whole ++ [torn] := by
    rw [Lines.split_append 10 hwhole, Lines.split_of_not_mem 10 htorn hne]
  have hsplit' : Lines.split 10 (whole ++ torn ++ (payload ++ [10])) =
      Lines.split 10 whole ++ [torn ++ payload ++ [10]] := by
    rw [List.append_assoc, Lines.split_append 10 hwhole, ← List.append_assoc, Lines.split_line 10]
    simp [htorn, hnl]
  rw [hsplit] at hs
  obtain ⟨rs, r, -, hr, -⟩ := scanLines_concat.1 hs
  obtain ⟨-, hlines, -⟩ := scan_eq_ok.1 hx
  rw [Option.getD_some, hsplit'] at hlines
  obtain ⟨rs', r', -, hr', -⟩ := scanLines_concat.1 hlines
  -- the merged line starts with an entry that is read
  have hread := (scanLine_eq_ok.1 hr).2.2.2.1
  have hmerged := (scanLine_eq_ok.1 hr').2.2.2.1
  obtain ⟨cs, hcs, hws⟩ := exists_newlines (w := torn.rtakeWhile isNewline) fun b hb =>
    List.mem_rtakeWhile_imp hb
  rw [rdropWhile_line ht, ← List.rdropWhile_append_rtakeWhile (p := isNewline) (l := torn), hcs,
    (canonicalJson_eq_some ha.encodes).2, Json.norm_obj] at hmerged
  exact parseEntry_append hread hws hmerged

/-! ## Publishing to a log that was left open -/

/-- The records that a publish adds. -/
def OfferPublishResult.added (result : OfferPublishResult H) : List (OfferRecord H) :=
  if result.appended then [result.record] else []

/-- **What a publish leaves is read iff the log was whole, or the offer was there.** -/
theorem publish_readable_iff {files scanned files' : OfferFiles} {value : OfferValue H}
    {receivedAtMs : ℤ} {sourceKind sourceId : String} {result : OfferPublishResult H}
    (hs : scan H config files = .ok (records, scanned)) (ho : verifiedOffer value = .ok offer)
    (hp : publish config files value receivedAtMs sourceKind sourceId = .ok (result, files')) :
    (result.appended = true → result.record.offer = offer) ∧
      ((∃ after, scan H config files' = .ok (records ++ result.added, after)) ↔
        (∃ r ∈ records, r.digest = offerDigest offer) ∨ files.log.getD [] = [] ∨
          (files.log.getD []).getLast? = some 10) := by
  obtain ⟨-, hlines, -⟩ := scan_eq_ok.1 hs
  rw [← Lines.whole_iff]
  rcases publish_eq_ok hs ho hp with ⟨hdup, hno, rfl⟩ | ⟨p, entryHash, payload, checkpoint, ha, hyes, hr, rfl⟩
  · refine ⟨fun h => absurd (hno.symm.trans h) (by decide), ⟨fun _ => .inl hdup, fun _ => ?_⟩⟩
    rw [OfferPublishResult.added, if_neg (by rw [hno]; simp), List.append_nil]
    exact ⟨_, scan_idem hs⟩
  · refine ⟨fun _ => congrArg OfferRecord.offer hr, ⟨fun ⟨after, h⟩ => ?_, fun h => ?_⟩⟩
    · by_contra hc
      push Not at hc
      exact ha.scan_torn hc.2 hlines _ h
    · rcases h with ⟨r, hmem, hd⟩ | hw
      · exact absurd hd (ha.fresh r hmem)
      · rw [OfferPublishResult.added, if_pos hyes, hr]
        exact ⟨_, ha.scan_whole hw hlines⟩

/-! ## What is left by an append that stops -/

/-- The files when an append stops with the first `k` bytes of the log it would leave. -/
def stopped (opened after : OfferFiles) (k : ℕ) : OfferFiles :=
  ⟨after.log.map (·.take k), opened.checkpoint⟩

theorem Checkpoint.check_append {c : Checkpoint} {u : Unit} (h : c.check records = .ok u)
    (rs : List (OfferRecord H)) : c.check (records ++ rs) = .ok () := by
  rw [Checkpoint.check, require_bind_eq_ok, decide_eq_true_eq] at h ⊢
  obtain ⟨hlt, h⟩ := h
  refine ⟨by rw [List.length_append]; omega, ?_⟩
  split_ifs at h ⊢ with h0
  · rw [require_eq_ok] at h ⊢
    rwa [List.getElem?_append_left (by omega)]
  · rw [require_eq_ok] at h ⊢
    exact h

/-- **An entry without its newline is read**, and the checkpoint follows it. -/
theorem Appended.scan_cut (ha : Appended config log records offer p entryHash payload checkpoint)
    (hw : Lines.Whole 10 log)
    (hs : scanLines H config 0 genesisHash [] (Lines.split 10 log) = .ok records)
    {file : Option Bytes} {c : Checkpoint} (hc : loadCheckpoint file = .ok (some c))
    (hcheck : c.check records = .ok ()) :
    scan H config ⟨some (log ++ payload), file⟩ =
      .ok (records ++ [entryRecord records.length offer p entryHash],
        ⟨some (log ++ payload), some checkpoint⟩) := by
  obtain ⟨⟨t, ht⟩, hnl⟩ := canonicalJson_line ha.encodes
  have hraw : payload.rdropWhile isNewline = payload := by
    rw [ht, List.rdropWhile_concat_neg _ _ _ (by decide)]
  have hlines : scanLines H config 0 genesisHash [] (Lines.split 10 (log ++ payload)) =
      .ok (records ++ [entryRecord records.length offer p entryHash]) := by
    rw [Lines.split_append 10 hw, Lines.split_of_not_mem 10 hnl (by simp [ht])]
    exact scanLines_concat.2 ⟨records, _, hs, ha.scanLine_eq hs hraw (by omega), rfl⟩
  refine scan_eq_ok.2 ⟨?_, hlines, ?_, rfl⟩
  · have := ha.fits
    simp only [Option.getD_some, List.length_append]
    omega
  · have hlt : c.seq < ((entryRecord records.length offer p entryHash).seq : ℤ) := by
      rw [Checkpoint.check, require_bind_eq_ok, decide_eq_true_eq] at hcheck
      exact hcheck.1
    rw [verifyCheckpoint, hc, ok_bind, List.getLast?_concat]
    simp only [expect, ok_bind, c.check_append hcheck, if_pos hlt]
    rw [show (entryRecord records.length offer p entryHash).seq = records.length from rfl,
      show (entryRecord records.length offer p entryHash).entryHash = entryHash from rfl, ha.checkpoint]
    rfl

theorem encodable_entryBody (hseq : (Json.int records.length).encodable = true)
    {x : String × Json} (hx : x ∈ entryBody records.length (headHash genesisHash records) offer p) :
    x.2.encodable = true := by
  have hstr : ∀ s, (Json.str s).encodable = true := fun _ => rfl
  have hrecv : (Json.int p.receivedAtMs).encodable = true := by
    have := p.received
    exact Json.encodable_int (by unfold maxReceivedAtMs at this; omega)
  revert x
  simp [entryBody, hseq, hrecv, hstr, encodable_of_tradeCanonicalJson offer.encodes]

theorem exists_writeCheckpoint {seq : ℤ} (h : (Json.int seq).encodable = true) (entryHash : String) :
    ∃ file, writeCheckpoint seq entryHash = .ok file := by
  have hstr : ∀ s, (Json.str s).encodable = true := fun _ => rfl
  obtain ⟨c, hc⟩ := @canonicalJson_of_encodable (checkpointDocument seq entryHash)
    (Json.encodable_obj.2 (by simp [checkpointDocument, h, hstr]))
  exact ⟨c ++ [10], by rw [writeCheckpoint, hc]; rfl⟩

theorem exists_openLog (records : List (OfferRecord H)) (files : OfferFiles) :
    ∃ opened, openLog records files = .ok opened := by
  rw [openLog]
  split_ifs
  · obtain ⟨g, hg⟩ := @exists_writeCheckpoint (-1) (Json.encodable_int (by decide)) genesisHash
    exact ⟨_, by rw [hg]; rfl⟩
  · exact ⟨files, rfl⟩

/-- **A publish with room succeeds.** -/
theorem exists_publish {files scanned : OfferFiles} (p : Provenance)
    (hs : scan H config files = .ok (records, scanned))
    (hfresh : ∀ r ∈ records, r.digest ≠ offerDigest offer)
    (hroom : records.length < config.maxRecords) (hsmall : records.length < 10 ^ 20)
    (hfits : (files.log.getD []).length + maxStoredLineBytes ≤ config.maxBytes) :
    ∃ opened result files' entryHash payload checkpoint, openLog records scanned = .ok opened ∧
      publish config files (.offer offer) p.receivedAtMs p.sourceKind p.sourceId =
        .ok (result, files') ∧
      result.appended = true ∧ result.record = entryRecord records.length offer p entryHash ∧
      files' = ⟨some (files.log.getD [] ++ (payload ++ [10])), some checkpoint⟩ ∧
      Appended config (files.log.getD []) records offer p entryHash payload checkpoint := by
  have hseq : (Json.int records.length).encodable = true := Json.encodable_int (by simpa using hsmall)
  have hbody : ∀ x ∈ entryBody records.length (headHash genesisHash records) offer p,
      x.2.encodable = true := fun x hx => encodable_entryBody hseq hx
  obtain ⟨b, hb⟩ := canonicalJson_of_encodable (Json.encodable_obj.2 hbody)
  have hhash : entryHashOf H (entryBody records.length (headHash genesisHash records) offer p) =
      some ("sha256:" ++ H.sha256 b) := by
    rw [entryHashOf, hb]
    rfl
  obtain ⟨payload, hpayload⟩ := @canonicalJson_of_encodable (entryDocument
      (entryBody records.length (headHash genesisHash records) offer p) ("sha256:" ++ H.sha256 b)) (by
    refine Json.encodable_obj.2 fun x hx => ?_
    rcases List.mem_append.1 hx with hx | hx
    · exact hbody x hx
    · rw [List.mem_singleton.1 hx]
      rfl)
  obtain ⟨checkpoint, hcp⟩ := exists_writeCheckpoint hseq ("sha256:" ++ H.sha256 b)
  obtain ⟨opened, hopen⟩ := exists_openLog records scanned
  have hlog : opened.log = files.log := by
    rw [log_of_openLog hopen, (scan_eq_ok.1 hs).2.2.2]
  obtain ⟨-, hnl⟩ := canonicalJson_line hpayload
  have hlen := length_entry_le (isDigest_headHash (numbered_of_scanLines (scan_eq_ok.1 hs).2.1).2) hhash
    hpayload
  have ha : Appended config (files.log.getD []) records offer p ("sha256:" ++ H.sha256 b) payload
      checkpoint := ⟨hfresh, hroom, hhash, hpayload, by omega, hcp⟩
  let record := entryRecord records.length offer p ("sha256:" ++ H.sha256 b)
  refine ⟨opened, ⟨record, true, chainOf (records ++ [record]) offer⟩, _, _, payload, checkpoint, hopen,
    ?_, rfl, rfl, rfl, ha⟩
  have happend : appendEntry config opened.log (entryDocument
      (entryBody records.length (headHash genesisHash records) offer p) ("sha256:" ++ H.sha256 b)) =
      .ok (files.log.getD [] ++ (payload ++ [10])) := by
    simp only [appendEntry, hpayload, hlog, expect, ok_bind, require_bind_eq_ok, pure_eq_ok,
      Bool.and_eq_true, decide_eq_true_eq, Bool.not_eq_true', List.contains_eq_mem,
      decide_eq_false_iff_not]
    exact ⟨⟨by omega, hnl⟩, ha.fits, trivial⟩
  simp only [publish, p.kind, p.id, provenance_eq, verifiedOffer, offer.fromJson_canonical, hs,
    get_deduplicate_eq_none.2 hfresh, hroom, hopen, hhash, happend, hcp, require, expect, ok_bind,
    mapError_ok, if_true, decide_true]
  rfl

end

/-! ## A log that was left open -/

/-- The default limits. -/
def sampleConfig : OfferStoreConfig where
  maxRecords := 100000
  maxBytes := 64 * 1024 * 1024
  maxRecords_pos := by decide
  maxBytes_le := by decide

def sampleProvenance : Provenance where
  receivedAtMs := 0
  sourceKind := "local-library"
  sourceId := ""
  received := by decide
  kind := by decide +kernel
  id := by decide

/-- The draft of another offer, a day later. -/
def otherDraft : Json := .obj (sampleOfferBody 1 .null "2026-01-02T00:00:00Z")

def otherOffer : Json := sealDocument (offerFormat checksumHost) sampleKey otherDraft

theorem otherDraft_signer : Json.get otherDraft.fields "publisher_did" = .str sampleDid := by
  simp [otherDraft, Json.get, sampleOfferBody, Json.lookup_cons]

theorem otherDraft_checked :
    sealChecks (offerFormat checksumHost) sampleKey otherDraft = true := by decide +kernel

/-- The other offer passes the checks. -/
def otherDraftSealable :
    Sealable (offerFormat checksumHost) sampleKey otherDraft :=
  .ofChecks otherDraft_signer otherDraft_checked

theorem exists_otherOffer : ∃ o : TradeOffer checksumHost,
    SignedDocument.fromDict checksumHost (offerFormat checksumHost) otherOffer = .ok o ∧
      o.document = otherOffer.norm :=
  otherDraftSealable.exists_document (by decide)

/-- The hashes of the two offers, compared. -/
def hashesDiffer : PLift ((tradeCanonicalJson sampleOffer).toOption.map checksumHost.sha256 ≠
    (tradeCanonicalJson otherOffer).toOption.map checksumHost.sha256) := ⟨by decide +kernel⟩

theorem digests_differ {o o' : TradeOffer checksumHost}
    (h : SignedDocument.fromDict checksumHost (offerFormat checksumHost) sampleOffer = .ok o)
    (h' : SignedDocument.fromDict checksumHost (offerFormat checksumHost) otherOffer = .ok o') :
    offerDigest o ≠ offerDigest o' := by
  intro he
  have hsha : checksumHost.sha256 o.canonicalBytes = checksumHost.sha256 o'.canonicalBytes :=
    String.append_right_inj _ |>.1 he
  have hb := (SignedDocument.fromDict_eq_ok.1 h).2
  have hb' := (SignedDocument.fromDict_eq_ok.1 h').2
  have hne := hashesDiffer.down
  rw [hb, hb'] at hne
  exact hne (congrArg some hsha)

theorem scan_empty {config : OfferStoreConfig} :
    scan H config ⟨none, none⟩ = .ok ([], ⟨none, none⟩) :=
  scan_eq_ok.2 ⟨Nat.zero_le _, rfl, rfl, rfl⟩

/-- The first offer of a store is read. -/
theorem publish_readable_sample : ∃ (o : TradeOffer checksumHost)
    (result : OfferPublishResult checksumHost) (files after : OfferFiles),
    publish sampleConfig ⟨none, none⟩ (.offer o) 0 "local-library" "" = .ok (result, files) ∧
      scan checksumHost sampleConfig files = .ok ([] ++ result.added, after) := by
  obtain ⟨o, -, -⟩ := exists_sampleOffer
  obtain ⟨-, result, files, -, -, -, -, hp, -⟩ := @exists_publish _ sampleConfig o _ _ _
    sampleProvenance scan_empty (by simp) (by decide) (by decide) (by decide)
  have ho : verifiedOffer (.offer o) = .ok o := by
    rw [verifiedOffer, o.fromJson_canonical]
    rfl
  obtain ⟨after, hafter⟩ := (publish_readable_iff scan_empty ho hp).2.2 (.inr (.inl rfl))
  exact ⟨o, result, files, after, hp, hafter⟩

/-- An append stops before its newline; the next publish spoils the log. -/
theorem publish_unreadable : ∃ (o o' : TradeOffer checksumHost)
    (result result' : OfferPublishResult checksumHost) (opened files scanned files' : OfferFiles)
    (k : ℕ),
    openLog ([] : List (OfferRecord checksumHost)) ⟨none, none⟩ = .ok opened ∧
      publish sampleConfig ⟨none, none⟩ (.offer o) 0 "local-library" "" = .ok (result, files) ∧
      scan checksumHost sampleConfig (stopped opened files k) = .ok ([result.record], scanned) ∧
      publish sampleConfig (stopped opened files k) (.offer o') 0 "local-library" "" =
        .ok (result', files') ∧
      result'.appended = true ∧ result'.record.offer = o' ∧
      ∀ x, scan checksumHost sampleConfig files' ≠ .ok x := by
  obtain ⟨o, ho, -⟩ := exists_sampleOffer
  obtain ⟨o', ho', -⟩ := exists_otherOffer
  have hne := digests_differ ho ho'
  obtain ⟨opened, result, files, entryHash, payload, checkpoint, hopen, hp, -, hrec, rfl, ha⟩ :=
    @exists_publish _ sampleConfig o _ _ _ sampleProvenance scan_empty (by simp)
      (by decide) (by decide) (by decide)
  -- the checkpoint is still the one of the empty log
  simp only [openLog, List.isEmpty_nil, Option.isNone_none, Bool.and_self, if_true, bind_eq_ok,
    pure_eq_ok] at hopen
  obtain ⟨genesis, hg, rfl⟩ := hopen
  have hload := loadCheckpoint_written
    (c := ⟨-1, genesisHash, le_rfl, isDigest_genesisHash, fun _ => rfl⟩) hg
  obtain ⟨⟨t, ht⟩, -⟩ := canonicalJson_line ha.encodes
  have hcut : scan checksumHost sampleConfig ⟨some payload, some genesis⟩ =
      .ok ([entryRecord 0 o sampleProvenance entryHash], ⟨some payload, some checkpoint⟩) :=
    ha.scan_cut (fun l hl => absurd hl List.not_mem_nil) rfl hload (by
      rw [Checkpoint.check, if_neg (by simp), require_bind_eq_ok]
      simp [require])
  have hstop : stopped ⟨none, some genesis⟩ ⟨some ([] ++ (payload ++ [10])), some checkpoint⟩
      payload.length = ⟨some payload, some genesis⟩ := by
    simp [stopped]
  have hlen := length_entry_le isDigest_genesisHash ha.hash ha.encodes
  have hfits : payload.length + maxStoredLineBytes ≤ sampleConfig.maxBytes := by
    simp only [maxStoredLineBytes, maxTradeJsonBytes, sampleConfig] at hlen ⊢
    omega
  obtain ⟨-, result', files', entryHash', payload', checkpoint', -, hp', hyes, hrec', rfl, ha'⟩ :=
    @exists_publish _ sampleConfig o' _ _ _ sampleProvenance hcut (by simpa [entryRecord] using hne)
      (by simp [sampleConfig]) (by simp) hfits
  have hwhole : ¬ Lines.Whole 10 payload := by
    rw [Lines.whole_iff, ht]
    simp
  refine ⟨o, o', result, result', ⟨none, some genesis⟩, _, ⟨some payload, some checkpoint⟩,
    ⟨some (payload ++ (payload' ++ [10])), some checkpoint'⟩, payload.length, ?_, hp, ?_, ?_, hyes,
    congrArg OfferRecord.offer hrec', fun x => ha'.scan_torn hwhole (scan_eq_ok.1 hcut).2.1 _⟩
  · simp only [openLog, List.isEmpty_nil, Option.isNone_none, Bool.and_self, if_true, hg, ok_bind]
    rfl
  · rw [hrec]
    exact (congrArg _ hstop).trans hcut
  · exact (congrArg (fun f => publish sampleConfig f (.offer o') 0 "local-library" "") hstop).trans hp'

end NthDao.TradeRules
