/-
  The provider of the market index in memory
  (`nth_dao/plugins/builtin/memory_market_index.py`).

  * `MemoryMarketIndex`: the records and the receipts of mutations, with counters
    for every principal;
  * `purgeExpiredMutationReceipts`, `purgeExpiredRecords`: what time takes away;
  * `encodeCursor`, `decodeCursor`: the place of a search between two pages;
  * `invoke`: one invocation, with the readings of the clock in milliseconds.

  Case folding, the URL parser, the hashes and the MAC of a cursor are parameters.
-/
import NthDao.B64u
import NthDao.Plugins.MarketIndex
import NthDao.Py.Check
import NthDao.Py.Dict

namespace NthDao

namespace MarketIndex

open Py

/-! ## Quotas -/

def maxEntries : ℕ := 8192
def maxEntriesPerPrincipal : ℕ := 2048
def maxBytes : ℕ := 67108864
def maxBytesPerPrincipal : ℕ := 16777216
def maxMutationReceipts : ℕ := 8192
def maxMutationReceiptsPerPrincipal : ℕ := 2048

def pluginId : String := "org.nth-dao.market.memory-index"

/-- The latest reading: `int(value * 1_000)` of the largest `value` that is no
    more than `MARKET_INDEX_MAX_SAFE_INTEGER / 1_000`. -/
def maxReadingMs : ℕ := 9007199254740990

/-! ## State -/

/-- `_IndexedEntry`. -/
structure IndexedEntry where
  principal : String
  entryId : String
  entryJson : String
  entrySha256 : String
  byteLength : ℕ
  categories : List String
  intents : List String
  sourceProtocol : String
  publishedAtMs : ℕ
  notAfterMs : ℕ
  stale : Bool
  searchText : String
  title : String
  deriving DecidableEq

/-- `_MutationReceipt`, with the response as it parses. -/
structure MutationReceipt where
  requestJson : String
  response : IndexResponse
  expiresAtMs : ℕ
  deriving DecidableEq

/-- The state of `MemoryMarketIndexProvider`. A record is stored by its principal
    and its id, a receipt by its principal and the digest of its request. -/
structure MemoryMarketIndex where
  active : Bool
  records : Dict (String × String) IndexedEntry
  mutationReceipts : Dict (String × String) MutationReceipt
  principalMutationReceiptCounts : Dict String ℤ
  principalRevisions : Dict String ℕ
  principalCounts : Dict String ℤ
  principalBytes : Dict String ℤ
  totalBytes : ℤ
  lastNowMs : ℕ

/-- What a provider computes with. -/
structure Runtime where
  host : Host
  urlsplit : String → Option Commerce.SplitResult
  /-- `str.casefold` -/
  casefold : String → String
  /-- `hmac.new(cursor_secret, body, hashlib.sha256).digest()` -/
  mac : Bytes → Bytes
  length_mac : ∀ body, (mac body).length = 32

/-- The records are past their retention. -/
def IndexedEntry.isExpired (nowMs : ℕ) (record : IndexedEntry) : Bool :=
  record.notAfterMs != 0 && decide (record.notAfterMs + staleRetentionMs ≤ nowMs)

def MutationReceipt.isExpired (nowMs : ℕ) (receipt : MutationReceipt) : Bool :=
  decide (receipt.expiresAtMs ≤ nowMs)

namespace MemoryMarketIndex

/-- A new provider. -/
def init : MemoryMarketIndex := ⟨true, [], [], [], [], [], [], 0, 0⟩

/-- `deactivate`. -/
def deactivate (s : MemoryMarketIndex) : MemoryMarketIndex :=
  { init with active := false, lastNowMs := s.lastNowMs }

/-- `_principal_revisions.get(principal, 0)`. -/
def revision (s : MemoryMarketIndex) (principal : String) : ℕ :=
  (s.principalRevisions.get principal).getD 0

/-- The records of a principal. -/
def entriesOf (s : MemoryMarketIndex) (principal : String) : List IndexedEntry :=
  (s.records.filter fun x => x.1.1 == principal).map Prod.snd

/-- Whether a principal has a record or a receipt. -/
def holds (s : MemoryMarketIndex) (principal : String) : Bool :=
  (s.records.any fun x => x.1.1 == principal) || s.mutationReceipts.any fun x => x.1.1 == principal

/-- `_now_ms`: the time that it returns is kept as `lastNowMs`. -/
def tick (s : MemoryMarketIndex) (reading : ℕ) : Option MemoryMarketIndex :=
  if reading ≤ maxReadingMs then some { s with lastNowMs := max s.lastNowMs reading } else none

/-! ## Expiry -/

/-- `_cleanup_principal_if_unused`. -/
def cleanupPrincipalIfUnused (s : MemoryMarketIndex) (principal : String) : MemoryMarketIndex :=
  if s.holds principal then s
  else
    { s with
      principalRevisions := s.principalRevisions.pop principal
      principalCounts := s.principalCounts.pop principal
      principalBytes := s.principalBytes.pop principal
      principalMutationReceiptCounts := s.principalMutationReceiptCounts.pop principal }

/-- `_drop_mutation_receipt`. -/
def dropMutationReceipt (s : MemoryMarketIndex) (key : String × String) : MemoryMarketIndex :=
  let remaining := (s.principalMutationReceiptCounts.get key.1).getD 0 - 1
  { s with
    mutationReceipts := s.mutationReceipts.pop key
    principalMutationReceiptCounts :=
      if 0 < remaining then s.principalMutationReceiptCounts.set key.1 remaining
      else s.principalMutationReceiptCounts.pop key.1 }

/-- `_purge_expired_mutation_receipts`. -/
def purgeExpiredMutationReceipts (nowMs : ℕ) (s : MemoryMarketIndex) : MemoryMarketIndex :=
  ((s.mutationReceipts.filter fun x => x.2.isExpired nowMs).map Prod.fst).foldl
    (fun s key => (s.dropMutationReceipt key).cleanupPrincipalIfUnused key.1) s

/-- The state without the expired records of a principal, at its next revision. -/
def dropExpired (nowMs : ℕ) (s : MemoryMarketIndex) (principal : String) : MemoryMarketIndex :=
  let expired := s.records.filter fun x => x.2.principal == principal && x.2.isExpired nowMs
  let removedBytes : ℤ := (expired.map fun x => (x.2.byteLength : ℤ)).sum
  { s with
    records := s.records.filter fun x => !(x.2.principal == principal && x.2.isExpired nowMs)
    totalBytes := s.totalBytes - removedBytes
    principalBytes := s.principalBytes.set principal
      ((s.principalBytes.get principal).getD 0 - removedBytes)
    principalCounts := s.principalCounts.set principal
      ((s.principalCounts.get principal).getD 0 - expired.length)
    principalRevisions := s.principalRevisions.set principal (s.revision principal + 1) }

/-- The expired records of one principal. -/
def purgePrincipal (nowMs : ℕ) (s : MemoryMarketIndex) (principal : String) : MemoryMarketIndex :=
  (dropExpired nowMs s principal).cleanupPrincipalIfUnused principal

/-- `_next_revision_value`. -/
def nextRevisionValue (s : MemoryMarketIndex) (principal : String) : Except IndexFault ℕ := do
  require (decide (s.revision principal < maxSafeInteger))
    (.operation .limitExceeded "principal revision range is exhausted")
  .ok (s.revision principal + 1)

/-- `_purge_expired_records`. -/
def purgeExpiredRecords (nowMs : ℕ) (s : MemoryMarketIndex) : Except IndexFault MemoryMarketIndex := do
  let principals :=
    ((s.records.filter fun x => x.2.isExpired nowMs).map fun x => x.2.principal).dedup
  let _ ← principals.mapM s.nextRevisionValue
  .ok (principals.foldl (purgePrincipal nowMs) s)

/-! ## Responses -/

/-- `_base_response`. -/
def baseResponse (s : MemoryMarketIndex) (operation : Operation) (principal : String) :
    IndexResponse where
  changed := false
  detail := ""
  entryId := ""
  entryJson := ""
  entrySha256 := ""
  found := false
  indexId := pluginId
  items := []
  maxEntriesPerPrincipal := MarketIndex.maxEntriesPerPrincipal
  maxEntryBytes := MarketIndex.maxEntryBytes
  nextCursor := ""
  operation := operation
  ready := true
  removed := false
  replayed := false
  revision := s.revision principal

/-! ## Quotas -/

/-- `_check_mutation_receipt_quota`. -/
def checkMutationReceiptQuota (s : MemoryMarketIndex) (principal : String) (nowMs : ℕ) :
    Except IndexFault Unit := do
  require (decide (nowMs ≤ maxSafeInteger - mutationReplayWindowMs))
    (.operation .limitExceeded "mutation replay retention time exceeds the wire range")
  require (decide (s.mutationReceipts.length < maxMutationReceipts))
    (.operation .quotaExceeded "mutation replay retention capacity is full")
  require (decide ((s.principalMutationReceiptCounts.get principal).getD 0 <
      maxMutationReceiptsPerPrincipal))
    (.operation .quotaExceeded "principal mutation replay retention capacity is full")

/-- `_check_quota`. -/
def checkQuota (s : MemoryMarketIndex) (principal : String) (byteLength : ℕ)
    (existing : Option IndexedEntry) : Except IndexFault Unit := do
  require (decide (byteLength ≤ maxEntryBytes))
    (.operation .limitExceeded "entry exceeds wire limit")
  let oldBytes : ℤ := (existing.map fun e => (e.byteLength : ℤ)).getD 0
  require (existing.isSome || decide (s.records.length < maxEntries))
    (.operation .quotaExceeded "global entry quota is full")
  require (existing.isSome ||
      decide ((s.principalCounts.get principal).getD 0 < maxEntriesPerPrincipal))
    (.operation .quotaExceeded "principal entry quota is full")
  require (decide (s.totalBytes - oldBytes + byteLength ≤ maxBytes))
    (.operation .quotaExceeded "global byte quota is full")
  require (decide ((s.principalBytes.get principal).getD 0 - oldBytes + byteLength ≤
      maxBytesPerPrincipal))
    (.operation .quotaExceeded "principal byte quota is full")

end MemoryMarketIndex

/-! ## Digests and texts -/

namespace Runtime

variable (R : Runtime)

/-- `hashlib.sha256(text.encode("utf-8")).hexdigest()`. -/
def digest (text : String) : String := R.host.sha256 (utf8 (chars text))

/-- `payload["q"].strip().casefold()`. -/
def foldQuery (q : String) : String := R.casefold (String.ofList (Commerce.strip (chars q)))

/-- `_search_query_digest`: the document has no number but the limit. -/
def searchQueryDigest (query : SearchQuery) : String :=
  ((canonicalJson (.obj
    [("categories", strs query.categories), ("include_stale", .bool query.includeStale),
      ("intents", strs query.intents), ("limit", .int query.limit),
      ("q", .str (R.foldQuery query.q)), ("source_protocols", strs query.sourceProtocols),
      ("version", .int 1)])).map R.host.sha256).getD ""

/-- The record of an entry: `search_text` and `title` are folded. -/
def indexedEntry (principal entryId entryJson entrySha256 : String) (parsed : Fields) :
    IndexedEntry where
  principal := principal
  entryId := entryId
  entryJson := entryJson
  entrySha256 := entrySha256
  byteLength := (utf8 (chars entryJson)).length
  categories := texts parsed "categories"
  intents := texts parsed "intents"
  sourceProtocol := text parsed "source_protocol"
  publishedAtMs := number parsed "published_at_ms"
  notAfterMs := number parsed "not_after_ms"
  stale := flag parsed "stale"
  searchText := R.casefold (String.intercalate " "
    ([text parsed "title", text parsed "summary"] ++ texts parsed "categories" ++
      texts parsed "capabilities"))
  title := R.casefold (text parsed "title")

/-- `_checked`. -/
def checked (response : IndexResponse) : Except IndexFault IndexResponse := do
  require (validateMarketIndexOutput R.urlsplit R.host response) .schema
  .ok response

/-! ## Ranking -/

/-- `_score`. -/
def score (record : IndexedEntry) (query : String) : ℕ :=
  if query == "" then 0
  else if record.title == query then 100
  else if startsWith query record.title then 80
  else if chars query <:+: chars record.title then 60
  else if record.categories.any fun item => query == R.casefold item then 40
  else if chars query <:+: chars record.searchText then 20
  else 0

/-- A record that a search asks for. -/
def selects (query : SearchQuery) (snapshotMs : ℕ) (record : IndexedEntry) : Bool :=
  (query.includeStale || !(record.stale ||
      (record.notAfterMs != 0 && decide (record.notAfterMs ≤ snapshotMs)))) &&
    (query.categories.isEmpty || query.categories.any record.categories.contains) &&
    (query.intents.isEmpty || query.intents.any record.intents.contains) &&
    (query.sourceProtocols.isEmpty || query.sourceProtocols.contains record.sourceProtocol) &&
    (R.foldQuery query.q == "" || R.score record (R.foldQuery query.q) != 0)

/-- The key that a search sorts by. -/
def key (query : SearchQuery) (record : IndexedEntry) : ℤ ×ₗ ℤ ×ₗ String :=
  rankKey (R.score record (R.foldQuery query.q)) record.publishedAtMs record.entryId

/-- The records that a search asks for, after the key of its cursor, in order. -/
def ranked (query : SearchQuery) (snapshotMs : ℕ) (afterKey : Option (ℤ ×ₗ ℤ ×ₗ String))
    (records : List IndexedEntry) : List IndexedEntry :=
  (records.filter fun r =>
    R.selects query snapshotMs r && afterKey.all fun k => decide (k < R.key query r)).insertionSort
      fun a b => R.key query a ≤ R.key query b

def item (query : SearchQuery) (record : IndexedEntry) : SearchItem where
  entryId := record.entryId
  entryJson := record.entryJson
  entrySha256 := record.entrySha256
  score := R.score record (R.foldQuery query.q)

/-! ## Cursors -/

/-- The body of a cursor. -/
def cursorDict (principal querySha256 : String) (revision snapshotMs : ℤ)
    (key : ℤ ×ₗ ℤ ×ₗ String) : Fields :=
  [("entry_id", .str (ofLex (ofLex key).2).2), ("principal_sha256", .str (R.digest principal)),
    ("published_key", .int (ofLex (ofLex key).2).1), ("query_sha256", .str querySha256),
    ("revision", .int revision), ("score_key", .int (ofLex key).1),
    ("snapshot_ms", .int snapshotMs), ("version", .int 1)]

def cursorFields : List String :=
  ["entry_id", "principal_sha256", "published_key", "query_sha256", "revision", "score_key",
    "snapshot_ms", "version"]

/-- `_encode_cursor`: the integers are those of the wire, and so have a text. -/
def encodeCursor (principal querySha256 : String) (revision snapshotMs : ℕ)
    (key : ℤ ×ₗ ℤ ×ₗ String) : String :=
  ((canonicalJson (.obj (R.cursorDict principal querySha256 revision snapshotMs key))).map fun body =>
    b64uEncode (body ++ R.mac body)).getD ""

/-- What a cursor says. -/
structure CursorValue where
  revision : ℕ
  snapshotMs : ℕ
  key : ℤ ×ₗ ℤ ×ₗ String

/-- An integer of a cursor. -/
def safeInt (v : Json) : Option ℤ :=
  v.asInt.filter fun n => decide (-(maxSafeInteger : ℤ) ≤ n) && decide (n ≤ maxSafeInteger)

/-- The part of `_decode_cursor` before it reads the clock. -/
def openCursor (token principal querySha256 : String) : Option CursorValue := do
  let raw ← (b64uDecode token).filter fun raw => b64uEncode raw == token && decide (32 < raw.length)
  let body := raw.take (raw.length - 32)
  let signed ← (some body).filter fun body => raw.drop (raw.length - 32) == R.mac body
  let value ← (utf8Decode signed).bind loads
  let d ← (some value.fields).filter fun d =>
    value.isObj && Json.keysEq d cursorFields && canonicalJson value == some body &&
      (Json.get d "version").eqInt 1 &&
      Json.get d "principal_sha256" == .str (R.digest principal) &&
      Json.get d "query_sha256" == .str querySha256
  let entryId ← (Json.get d "entry_id").asStr.filter (isIdentifier 256)
  let publishedKey ← safeInt (Json.get d "published_key")
  let revision ← (safeInt (Json.get d "revision")).filter fun n => decide (0 ≤ n)
  let scoreKey ← safeInt (Json.get d "score_key")
  let snapshotMs ← (safeInt (Json.get d "snapshot_ms")).filter fun n => decide (0 ≤ n)
  some ⟨revision.toNat, snapshotMs.toNat, toLex (scoreKey, toLex (publishedKey, entryId))⟩

def invalidCursor : IndexFault := .operation .invalidCursor "search cursor is invalid"

/-- `_decode_cursor`. -/
def decodeCursor (s : MemoryMarketIndex) (token principal querySha256 : String) (reading : ℕ) :
    Except IndexFault CursorValue × MemoryMarketIndex :=
  match R.openCursor token principal querySha256 with
  | none => (.error invalidCursor, s)
  | some value =>
    match s.tick reading with
    | none => (.error .clock, s)
    | some s =>
      if value.snapshotMs ≤ s.lastNowMs ∧ s.lastNowMs - value.snapshotMs ≤ maxCursorAgeMs then
        (.ok value, s)
      else (.error invalidCursor, s)

/-! ## Operations -/

/-- `_get`. -/
def get (s : MemoryMarketIndex) (principal entryId : String) : Except IndexFault IndexResponse :=
  match s.records.get (principal, entryId) with
  | none => R.checked (s.baseResponse .get principal)
  | some record => R.checked { s.baseResponse .get principal with
      entryId := record.entryId
      entryJson := record.entryJson
      entrySha256 := record.entrySha256
      found := true }

/-- The snapshot of a search and the key that its page comes after. -/
def pageStart (s : MemoryMarketIndex) (query : SearchQuery) (principal : String) (reading : ℕ) :
    Except IndexFault (ℕ × Option (ℤ ×ₗ ℤ ×ₗ String)) × MemoryMarketIndex :=
  if query.cursor == "" then
    match s.tick reading with
    | none => (.error .clock, s)
    | some s => (.ok (s.lastNowMs, none), s)
  else
    match R.decodeCursor s query.cursor principal (R.searchQueryDigest query) reading with
    | (.error e, s) => (.error e, s)
    | (.ok value, s) =>
      if value.revision == s.revision principal then (.ok (value.snapshotMs, some value.key), s)
      else (.error (.operation .staleCursor "market index changed during pagination"), s)

/-- The response of a search. -/
def searchResponse (s : MemoryMarketIndex) (query : SearchQuery) (principal : String)
    (snapshotMs : ℕ) (ranked : List IndexedEntry) : IndexResponse :=
  let selected := ranked.take query.limit
  { s.baseResponse .search principal with
    items := selected.map (R.item query)
    found := !selected.isEmpty
    nextCursor := (selected.getLast?.filter fun _ => decide (query.limit < ranked.length)).elim "" fun last =>
      R.encodeCursor principal (R.searchQueryDigest query) (s.revision principal) snapshotMs
        (R.key query last) }

/-- `_search`. -/
def search (s : MemoryMarketIndex) (query : SearchQuery) (principal : String) (reading : ℕ) :
    Except IndexFault IndexResponse × MemoryMarketIndex :=
  match R.pageStart s query principal reading with
  | (.error e, s) => (.error e, s)
  | (.ok (snapshotMs, afterKey), s) =>
    (R.checked (R.searchResponse s query principal snapshotMs
      (R.ranked query snapshotMs afterKey (s.entriesOf principal))), s)

/-! ## Mutations -/

/-- The text of a request: every request that passes its checks has one. -/
def requestJson (request : IndexRequest) : String := (canonicalText request.toDict).getD ""

def isAscii (text : String) : Bool := (chars text).all fun c => decide (c.toNat < 128)

/-- `_replay_mutation`: the receipt of the request moves to the end. -/
def replayMutation (s : MemoryMarketIndex) (request : IndexRequest) (principal : String) :
    Except IndexFault (Option IndexResponse) × MemoryMarketIndex :=
  let text := requestJson request
  let key := (principal, R.digest text)
  match s.mutationReceipts.get key with
  | none => (.ok none, s)
  | some receipt =>
    if !(isAscii receipt.requestJson && isAscii text) then (.error .type, s)
    else if receipt.requestJson != text then
      (.error (.invocation "equal mutation digest binds unequal request"), s)
    else
      ((R.checked receipt.response).map some,
        { s with mutationReceipts := s.mutationReceipts.pop key ++ [(key, receipt)] })

/-- `_store_mutation_receipt`. -/
def storeMutationReceipt (s : MemoryMarketIndex) (request : IndexRequest) (principal : String)
    (response : IndexResponse) (nowMs : ℕ) : Except IndexFault MemoryMarketIndex := do
  let text := requestJson request
  let key := (principal, R.digest text)
  require (!s.mutationReceipts.has key) (.invocation "mutation receipt was inserted concurrently")
  .ok { s with
    mutationReceipts := s.mutationReceipts.set key
      ⟨text, { response with changed := false, replayed := true }, nowMs + mutationReplayWindowMs⟩
    principalMutationReceiptCounts := s.principalMutationReceiptCounts.set principal
      ((s.principalMutationReceiptCounts.get principal).getD 0 + 1) }

/-- `_upsert` before its receipt: the response, and the state with the record. -/
def upsert (s : MemoryMarketIndex)
    (principal entryId entryJson entrySha256 expected : String) (nowMs : ℕ) :
    Except IndexFault (IndexResponse × MemoryMarketIndex) :=
  let existing := s.records.get (principal, entryId)
  match existing.filter fun e => e.entrySha256 == entrySha256 with
  | some e => do
    require (e.entryJson == entryJson) (.invocation "equal market digest binds unequal content")
    s.checkMutationReceiptQuota principal nowMs
    let response ← R.checked { s.baseResponse .upsert principal with
      entryId := e.entryId
      entrySha256 := e.entrySha256
      found := true
      replayed := true }
    .ok (response, s)
  | none => do
    require (existing.isSome || expected == "")
      (.operation .conflict "entry does not exist for the expected content digest")
    require (existing.all fun e => expected == e.entrySha256)
      (.operation .conflict "expected content digest does not match the live entry")
    let parsed ← expect (canonicalMarketIndexEntry R.urlsplit entryJson) .schema
    let record := R.indexedEntry principal entryId entryJson entrySha256 parsed
    require (!record.isExpired nowMs)
      (.operation .expiredEntry "entry is already beyond the stale-retention horizon")
    s.checkQuota principal record.byteLength existing
    s.checkMutationReceiptQuota principal nowMs
    let revision ← s.nextRevisionValue principal
    let response ← R.checked { s.baseResponse .upsert principal with
      entryId := record.entryId
      entrySha256 := record.entrySha256
      changed := true
      found := true
      revision := revision }
    let previousBytes : ℤ := (existing.map fun e => (e.byteLength : ℤ)).getD 0
    .ok (response, { s with
      records := s.records.set (principal, entryId) record
      principalRevisions := s.principalRevisions.set principal revision
      totalBytes := s.totalBytes + (record.byteLength - previousBytes)
      principalBytes := s.principalBytes.set principal
        ((s.principalBytes.get principal).getD 0 + record.byteLength - previousBytes)
      principalCounts :=
        if existing.isNone then
          s.principalCounts.set principal ((s.principalCounts.get principal).getD 0 + 1)
        else s.principalCounts })

/-- `_remove` before its receipt. -/
def remove (s : MemoryMarketIndex) (principal entryId expected : String) (nowMs : ℕ) :
    Except IndexFault (IndexResponse × MemoryMarketIndex) := do
  let existing ← expect (s.records.get (principal, entryId))
    (.operation .conflict "entry does not exist for the expected content digest")
  require (existing.entrySha256 == expected)
    (.operation .conflict "expected content digest does not match the live entry")
  s.checkMutationReceiptQuota principal nowMs
  let revision ← s.nextRevisionValue principal
  let response ← R.checked { s.baseResponse .remove principal with
    entryId := existing.entryId
    entrySha256 := existing.entrySha256
    changed := true
    removed := true
    revision := revision }
  .ok (response, { s with
    records := s.records.pop (principal, entryId)
    principalRevisions := s.principalRevisions.set principal revision
    totalBytes := s.totalBytes - existing.byteLength
    principalBytes := s.principalBytes.set principal
      ((s.principalBytes.get principal).getD 0 - existing.byteLength)
    principalCounts := s.principalCounts.set principal
      ((s.principalCounts.get principal).getD 0 - 1) })

/-- A mutation that no receipt answers, and the receipt that it leaves. -/
def mutate (s : MemoryMarketIndex) (request : IndexRequest) (principal : String)
    (made : Except IndexFault (IndexResponse × MemoryMarketIndex)) :
    Except IndexFault IndexResponse × MemoryMarketIndex :=
  match R.replayMutation s request principal with
  | (.error e, s) => (.error e, s)
  | (.ok (some response), s) => (.ok response, s)
  | (.ok none, s) =>
    match made with
    | .error e => (.error e, s)
    | .ok (response, s) =>
      match R.storeMutationReceipt s request principal response s.lastNowMs with
      | .error e => (.error e, s)
      | .ok s => (.ok response, s)

/-- An operation on a state without expired records and receipts. -/
def answer (s : MemoryMarketIndex) (principal : String) (request : IndexRequest) (reading : ℕ) :
    Except IndexFault IndexResponse × MemoryMarketIndex :=
  match request with
  | .probe => (R.checked (s.baseResponse .probe principal), s)
  | .get entryId => (R.get s principal entryId, s)
  | .search query => R.search s query principal reading
  | .upsert entryId entryJson entrySha256 expected =>
    R.mutate s request principal
      (R.upsert s principal entryId entryJson entrySha256 expected s.lastNowMs)
  | .remove entryId expected =>
    R.mutate s request principal (R.remove s principal entryId expected s.lastNowMs)

/-- `invoke`, with the readings of the clock at its start and in a search. -/
def invoke (s : MemoryMarketIndex) (principal : String) (request : IndexRequest)
    (reading reading' : ℕ) : Except IndexFault IndexResponse × MemoryMarketIndex :=
  if validateMarketIndexInput R.urlsplit R.host request then
    if s.active then
      match s.tick reading with
      | none => (.error .clock, s)
      | some s =>
        let s := s.purgeExpiredMutationReceipts s.lastNowMs
        match s.purgeExpiredRecords s.lastNowMs with
        | .error e => (.error e, s)
        | .ok s => R.answer s principal request reading'
    else (.error (.operation .inactive "market index provider is inactive"), s)
  else (.error .schema, s)

end Runtime

end MarketIndex

end NthDao
