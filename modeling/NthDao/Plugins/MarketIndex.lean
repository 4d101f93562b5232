/-
  The wire of a market index (`nth_dao/plugins/market_index.py`).

  * `IndexRequest`, `IndexResponse`: the documents of an invocation;
  * `validateMarketIndexInput`, `validateMarketIndexOutput`: the checks on them;
  * `IndexFault`: what an invocation raises.
-/
import Mathlib.Data.Prod.Lex
import NthDao.Plugins.MarketEntry

namespace NthDao

namespace MarketIndex

open Py Plugins

/-! ## Faults -/

/-- The codes of `MARKET_INDEX_ERROR_MODEL`. -/
inductive IndexErrorCode where
  | conflict | expiredEntry | inactive | invalidCursor | limitExceeded | quotaExceeded | staleCursor
  deriving DecidableEq

/-- What an invocation raises. -/
inductive IndexFault where
  /-- `PluginSchemaError` -/
  | schema
  /-- `MarketIndexOperationError` -/
  | operation (code : IndexErrorCode) (detail : String)
  /-- `PluginInvocationError` -/
  | invocation (detail : String)
  /-- `hmac.compare_digest` of texts that are not ASCII -/
  | type
  /-- a reading that the clock may not give -/
  | clock
  deriving DecidableEq

/-! ## Requests -/

/-- The fields of a search. -/
structure SearchQuery where
  categories : List String
  cursor : String
  includeStale : Bool
  intents : List String
  limit : ℕ
  q : String
  sourceProtocols : List String
  deriving DecidableEq

/-- The input of an invocation, by operation. -/
inductive IndexRequest where
  | probe
  | get (entryId : String)
  | search (query : SearchQuery)
  | upsert (entryId entryJson entrySha256 expectedEntrySha256 : String)
  | remove (entryId expectedEntrySha256 : String)
  deriving DecidableEq

def strs (xs : List String) : Json := .arr (xs.map .str)

/-- The payload of a request. -/
def IndexRequest.toDict : IndexRequest → Fields
  | .probe => [("operation", .str "probe")]
  | .get entryId => [("entry_id", .str entryId), ("operation", .str "get")]
  | .search query =>
    [("categories", strs query.categories), ("cursor", .str query.cursor),
      ("include_stale", .bool query.includeStale), ("intents", strs query.intents),
      ("limit", .int query.limit), ("operation", .str "search"), ("q", .str query.q),
      ("source_protocols", strs query.sourceProtocols)]
  | .upsert entryId entryJson entrySha256 expectedEntrySha256 =>
    [("entry_id", .str entryId), ("entry_json", .str entryJson), ("entry_sha256", .str entrySha256),
      ("expected_entry_sha256", .str expectedEntrySha256), ("operation", .str "upsert")]
  | .remove entryId expectedEntrySha256 =>
    [("entry_id", .str entryId), ("expected_entry_sha256", .str expectedEntrySha256),
      ("operation", .str "remove")]

def operations : List String := ["get", "probe", "remove", "search", "upsert"]

/-- `MARKET_INDEX_INPUT_SCHEMA`. -/
def inputProperties : List (String × Schema) :=
  [("categories", .array 0 maxListItems (.string 1 64)),
    ("cursor", .string 0 maxCursorChars),
    ("entry_id", .string 1 256),
    ("entry_json", .string 2 maxEntryBytes),
    ("entry_sha256", .string 64 64),
    ("expected_entry_sha256", .string 0 64),
    ("include_stale", .boolean),
    ("intents", .array 0 intents.length (.choice intents)),
    ("limit", .integer 1 maxPageSize),
    ("operation", .choice operations),
    ("q", .string 0 maxQueryChars),
    ("source_protocols", .array 0 maxListItems (.string 1 256))]

def inputSchema : Schema := .object inputProperties ["operation"]

/-- `_validate_document_size`. -/
def isSized (d : Fields) : Bool :=
  (Json.obj d).encodable && decide (weight false (.obj d) ≤ maxDocumentBytes)

variable (urlsplit : String → Option Commerce.SplitResult) (H : Host)

/-- The digest that `market_index_entry_digest` gives a canonical entry. -/
def entryDigest (entryJson : String) : String := H.sha256 (utf8 (chars entryJson))

/-- `validate_market_index_input`. -/
def validateMarketIndexInput (r : IndexRequest) : Bool :=
  isSized r.toDict && validateInstance inputSchema (.obj r.toDict) &&
    match r with
    | .probe => true
    | .get entryId => isIdentifier 256 entryId
    | .search query =>
      isFilterList isCategory query.categories && isFilterList (fun _ => true) query.intents &&
        isFilterList (isIdentifier 256) query.sourceProtocols
    | .upsert entryId entryJson entrySha256 expected =>
      isIdentifier 256 entryId && (expected == "" || isRawSha256 expected) &&
        (canonicalMarketIndexEntry urlsplit entryJson).any fun entry =>
          isRawSha256 entrySha256 && entryDigest H entryJson == entrySha256 &&
            text entry "entry_id" == entryId
    | .remove entryId expected => isIdentifier 256 entryId && expected != "" && isRawSha256 expected

/-! ## Responses -/

inductive Operation where
  | get | probe | remove | search | upsert
  deriving DecidableEq

/-- The name of an operation on the wire. -/
def Operation.wire : Operation → String
  | .get => "get"
  | .probe => "probe"
  | .remove => "remove"
  | .search => "search"
  | .upsert => "upsert"

/-- An item of a search. -/
structure SearchItem where
  entryId : String
  entryJson : String
  entrySha256 : String
  score : ℕ
  deriving DecidableEq

def SearchItem.toDict (i : SearchItem) : Fields :=
  [("entry_id", .str i.entryId), ("entry_json", .str i.entryJson),
    ("entry_sha256", .str i.entrySha256), ("score", .int i.score)]

/-- The output of an invocation. -/
structure IndexResponse where
  changed : Bool
  detail : String
  entryId : String
  entryJson : String
  entrySha256 : String
  found : Bool
  indexId : String
  items : List SearchItem
  maxEntriesPerPrincipal : ℕ
  maxEntryBytes : ℕ
  nextCursor : String
  operation : Operation
  ready : Bool
  removed : Bool
  replayed : Bool
  revision : ℕ
  deriving DecidableEq

def IndexResponse.toDict (r : IndexResponse) : Fields :=
  [("changed", .bool r.changed), ("detail", .str r.detail), ("entry_id", .str r.entryId),
    ("entry_json", .str r.entryJson), ("entry_sha256", .str r.entrySha256),
    ("found", .bool r.found), ("index_id", .str r.indexId),
    ("items", .arr (r.items.map fun i => .obj i.toDict)),
    ("max_entries_per_principal", .int r.maxEntriesPerPrincipal),
    ("max_entry_bytes", .int r.maxEntryBytes), ("next_cursor", .str r.nextCursor),
    ("operation", .str r.operation.wire), ("ready", .bool r.ready), ("removed", .bool r.removed),
    ("replayed", .bool r.replayed), ("revision", .int r.revision)]

/-- `_SEARCH_ITEM_SCHEMA`. -/
def itemProperties : List (String × Schema) :=
  [("entry_id", .string 1 256), ("entry_json", .string 2 maxEntryBytes),
    ("entry_sha256", .string 64 64), ("score", safeNat)]

/-- `MARKET_INDEX_OUTPUT_SCHEMA`. -/
def outputProperties : List (String × Schema) :=
  [("changed", .boolean), ("detail", .string 0 2048), ("entry_id", .string 0 256),
    ("entry_json", .string 0 maxEntryBytes), ("entry_sha256", .string 0 64), ("found", .boolean),
    ("index_id", .string 1 128),
    ("items", .array 0 maxPageSize (.object itemProperties (itemProperties.map Prod.fst))),
    ("max_entries_per_principal", .integer 1 maxSafeInteger),
    ("max_entry_bytes", .integer 1 maxSafeInteger), ("next_cursor", .string 0 maxCursorChars),
    ("operation", .choice operations), ("ready", .boolean), ("removed", .boolean),
    ("replayed", .boolean), ("revision", safeNat)]

def outputSchema : Schema := .object outputProperties (outputProperties.map Prod.fst)

/-- The place of an item: by score, the latest publication first, then by id. -/
def rankKey (score published : ℤ) (entryId : String) : ℤ ×ₗ ℤ ×ₗ String :=
  toLex (-score, toLex (-published, entryId))

/-- `_validate_output_entry`. -/
def outputEntry (entryId entryJson entrySha256 : String) : Option Fields :=
  (canonicalMarketIndexEntry urlsplit entryJson).bind fun entry =>
    if isRawSha256 entrySha256 && entryDigest H entryJson == entrySha256 &&
        text entry "entry_id" == entryId then some entry
    else none

/-- The checks on the items of a search: entries that bind, each once, in order. -/
def itemsOk (xs : List SearchItem) : Bool :=
  (xs.all fun i => (outputEntry urlsplit H i.entryId i.entryJson i.entrySha256).isSome) &&
    decide (xs.map SearchItem.entryId).Nodup &&
    decide ((xs.map fun i => rankKey i.score
      (number ((outputEntry urlsplit H i.entryId i.entryJson i.entrySha256).getD [])
        "published_at_ms") i.entryId).Pairwise (· ≤ ·))

/-- `validate_market_index_output`. -/
def validateMarketIndexOutput (r : IndexResponse) : Bool :=
  isSized r.toDict && validateInstance outputSchema (.obj r.toDict) &&
    isIdentifier 128 r.indexId && r.ready && r.detail == "" &&
    decide (r.maxEntryBytes ≤ MarketIndex.maxEntryBytes) &&
    !(r.changed && r.operation != .remove && r.operation != .upsert) &&
    !(r.removed && r.operation != .remove) &&
    !(r.replayed && r.operation != .remove && r.operation != .upsert) &&
    let noEntry := r.entryId == "" && r.entryJson == "" && r.entrySha256 == ""
    match r.operation with
    | .search => noEntry && r.found == !r.items.isEmpty && itemsOk urlsplit H r.items
    | .probe =>
      r.items.isEmpty && r.nextCursor == "" && noEntry &&
        !(r.found || r.changed || r.removed || r.replayed)
    | .get =>
      r.items.isEmpty && r.nextCursor == "" && !(r.changed || r.removed || r.replayed) &&
        if r.found then (outputEntry urlsplit H r.entryId r.entryJson r.entrySha256).isSome
        else noEntry
    | .upsert =>
      r.items.isEmpty && r.nextCursor == "" && r.entryJson == "" &&
        (r.entryId == "" || isIdentifier 256 r.entryId) &&
        (r.entrySha256 == "" || isRawSha256 r.entrySha256) &&
        r.found && r.entryId != "" && r.entrySha256 != "" && !r.removed && r.changed != r.replayed
    | .remove =>
      r.items.isEmpty && r.nextCursor == "" && r.entryJson == "" &&
        (r.entryId == "" || isIdentifier 256 r.entryId) &&
        (r.entrySha256 == "" || isRawSha256 r.entrySha256) &&
        !r.found && r.removed && r.entryId != "" && r.changed != r.replayed

end MarketIndex

end NthDao
