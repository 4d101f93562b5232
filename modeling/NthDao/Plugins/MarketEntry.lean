/-
  Entries of a market index (`nth_dao/plugins/market_index.py`).

  An entry is a canonical JSON text that names its source object.

  * `isIdentifier`, `isCategory`: the texts that identify and classify;
  * `entrySchema`, `entrySemantics`: the checks on the fields;
  * `canonicalMarketIndexEntry`: the fields of a text that passes them;
  * `strWeight_entry_le`: what an entry weighs as a text in a response.

  The URL parser of the standard library is a parameter, as in the outbox.
-/
import NthDao.CanonicalText
import NthDao.Commerce.Outbox
import NthDao.Plugins.Schema
import NthDao.Py.Parsed

namespace NthDao

namespace MarketIndex

open Py Plugins

/-! ## Limits -/

def maxDocumentBytes : ℕ := 1048576
def maxEntryBytes : ℕ := 32768
def maxCursorChars : ℕ := 1024
def maxCursorAgeMs : ℕ := 300000
def mutationReplayWindowMs : ℕ := 300000
def staleRetentionMs : ℕ := 300000
def maxQueryChars : ℕ := 200
def maxPageSize : ℕ := 20
def maxSafeInteger : ℕ := 9007199254740991
def maxIdentifierChars : ℕ := 256
def maxListItems : ℕ := 32

def intents : List String := ["exchange", "provide", "request"]
def origins : List String := ["federated", "local"]

/-! ## Texts -/

def isLower (c : Char) : Bool := 'a' ≤ c && c ≤ 'z'
def isUpper (c : Char) : Bool := 'A' ≤ c && c ≤ 'Z'
def isDigit (c : Char) : Bool := '0' ≤ c && c ≤ '9'

/-- `validate_market_index_identifier`. -/
def isIdentifier (maximum : ℕ) (value : String) : Bool :=
  let cs := chars value
  let parts := cs.splitOnP fun c => c == '/' || c == ':'
  decide (cs.length ≤ maximum) && decide (cs.length ≤ 256) &&
    cs.head?.any (fun c => isUpper c || isLower c || isDigit c) &&
    cs.all (fun c => isUpper c || isLower c || isDigit c || ['.', '_', ':', '/', '-'].contains c) &&
    parts.all fun part => part != ['.'] && part != ['.', '.']

/-- `_CATEGORY_RE`. -/
def isCategory (value : String) : Bool :=
  let cs := chars value
  decide (cs.length ≤ 64) && cs.head?.any (fun c => isLower c || isDigit c) &&
    cs.all fun c => isLower c || isDigit c || ['.', '_', '-'].contains c

/-- `_RAW_SHA256_RE`. -/
def isRawSha256 (value : String) : Bool := isHex 64 (chars value)

/-- `_SHA256_RE`. -/
def isSha256 (value : String) : Bool :=
  startsWith "sha256:" value && isHex 64 ((chars value).drop 7)

/-- `_validate_filter_list`: the items in order, each once, and each of the right kind. -/
def isFilterList (item : String → Bool) (values : List String) : Bool :=
  decide (values.Pairwise (· < ·)) && values.all item

/-- `_validate_display_text`. -/
def isDisplayText (multiline : Bool) (value : String) : Bool :=
  (chars value).all fun c =>
    (0x20 ≤ c.toNat || (multiline && [0x09, 0x0a, 0x0d].contains c.toNat)) && c.toNat != 0x7f

/-! ## Fields -/

/-- A text field of a checked object. -/
def text (d : Fields) (k : String) : String := (Json.get d k).asStr.getD ""

/-- A number of a checked object. -/
def number (d : Fields) (k : String) : ℕ := ((Json.get d k).asInt.getD 0).toNat

/-- A flag of a checked object. -/
def flag (d : Fields) (k : String) : Bool := Json.get d k == .bool true

/-- The items of an array. -/
def items : Json → List Json
  | .arr xs => xs
  | _ => []

/-- The texts of a list of a checked object. -/
def texts (d : Fields) (k : String) : List String :=
  (items (Json.get d k)).map fun v => v.asStr.getD ""

/-- An integer of the wire: not negative, and exact in every language. -/
def safeNat : Schema := .integer 0 maxSafeInteger

/-- `_ENTRY_SCHEMA`: its properties, each of them required. -/
def entryProperties : List (String × Schema) :=
  [("capabilities", .array 0 maxListItems (.string 1 256)),
    ("categories", .array 1 maxListItems (.string 1 64)),
    ("entry_id", .string 1 256),
    ("intents", .array 1 intents.length (.choice intents)),
    ("last_verified_at_ms", safeNat),
    ("not_after_ms", safeNat),
    ("origin", .choice origins),
    ("projection_only", .boolean),
    ("published_at_ms", safeNat),
    ("publisher_did", .string 1 512),
    ("source_digest", .string 71 71),
    ("source_locator", .string 0 1024),
    ("source_object_id", .string 1 512),
    ("source_peer", .string 0 512),
    ("source_protocol", .string 1 256),
    ("stale", .boolean),
    ("summary", .string 0 2000),
    ("title", .string 1 200),
    ("version", .choice ["1"])]

def entrySchema : Schema := .object entryProperties (entryProperties.map Prod.fst)

mutual
/-- `_validate_object_keys`. -/
def objectKeysOk : Json → Bool
  | .arr xs => objectKeysOkList xs
  | .obj kvs => objectKeysOkFields kvs
  | _ => true
def objectKeysOkList : List Json → Bool
  | [] => true
  | x :: xs => objectKeysOk x && objectKeysOkList xs
def objectKeysOkFields : Fields → Bool
  | [] => true
  | (k, x) :: kvs =>
    (decide (1 ≤ len k) && decide (len k ≤ 256) &&
      (chars k).all fun c => 0x20 ≤ c.toNat && c.toNat ≤ 0x7e) &&
    objectKeysOk x && objectKeysOkFields kvs
end

mutual
/-- `_validate_safe_integers`. -/
def safeIntegers : Json → Bool
  | .int n => decide (n.natAbs ≤ maxSafeInteger)
  | .arr xs => safeIntegersList xs
  | .obj kvs => safeIntegersFields kvs
  | _ => true
def safeIntegersList : List Json → Bool
  | [] => true
  | x :: xs => safeIntegers x && safeIntegersList xs
def safeIntegersFields : Fields → Bool
  | [] => true
  | (_, x) :: kvs => safeIntegers x && safeIntegersFields kvs
end

variable (urlsplit : String → Option Commerce.SplitResult)

/-- A hint to a source: no control characters, no user in the URL. -/
def isSourceHint (value : String) : Bool :=
  (chars value).all (fun c => 0x20 ≤ c.toNat && c.toNat != 0x7f) &&
    (urlsplit value).any fun p => p.username.isNone && p.password.isNone

/-- `_validate_entry_semantics`. -/
def entrySemantics (d : Fields) : Bool :=
  isIdentifier 256 (text d "entry_id") && isIdentifier 256 (text d "source_protocol") &&
    isDidKey (text d "publisher_did") && isSha256 (text d "source_digest") &&
    isFilterList isCategory (texts d "categories") &&
    isFilterList (fun _ => true) (texts d "intents") &&
    isFilterList (isIdentifier 256) (texts d "capabilities") &&
    flag d "projection_only" &&
    !(text d "origin" == "local" && text d "source_peer" != "") &&
    !(text d "origin" == "federated" && text d "source_peer" == "") &&
    ["source_locator", "source_object_id", "source_peer"].all
      (fun field => isSourceHint urlsplit (text d field)) &&
    isDisplayText false (text d "title") && isDisplayText true (text d "summary") &&
    !(number d "not_after_ms" != 0 && decide (number d "not_after_ms" ≤ number d "published_at_ms")) &&
    !(number d "last_verified_at_ms" != 0 &&
      decide (number d "last_verified_at_ms" < number d "published_at_ms"))

/-- `canonical_market_index_entry`: the fields, none where it raises. -/
def canonicalMarketIndexEntry (value : String) : Option Fields :=
  if (utf8 (chars value)).length ≤ maxEntryBytes then
    (loads (chars value)).bind fun parsed =>
      if parsed.isObj && objectKeysOk parsed && safeIntegers parsed &&
          validateInstance entrySchema parsed && entrySemantics urlsplit parsed.fields &&
          canonicalText parsed.fields == some value then
        some parsed.fields
      else none
  else none

/-! ## Accepted entries -/

variable {urlsplit}

theorem canonicalMarketIndexEntry_eq_some {value : String} {d : Fields} :
    canonicalMarketIndexEntry urlsplit value = some d ↔
      (utf8 (chars value)).length ≤ maxEntryBytes ∧ loads (chars value) = some (.obj d) ∧
        objectKeysOk (.obj d) = true ∧ safeIntegers (.obj d) = true ∧
        validateInstance entrySchema (.obj d) = true ∧ entrySemantics urlsplit d = true ∧
        canonicalText d = some value := by
  rw [canonicalMarketIndexEntry, Option.ite_none_right_eq_some, Option.bind_eq_some_iff]
  refine and_congr_right fun _ => ?_
  constructor
  · rintro ⟨parsed, hparsed, h⟩
    rw [Option.ite_none_right_eq_some, Option.some.injEq] at h
    simp only [Bool.and_eq_true, beq_iff_eq] at h
    obtain ⟨⟨⟨⟨⟨⟨hobj, hkeys⟩, hints⟩, hschema⟩, hsem⟩, htext⟩, rfl⟩ := h
    rw [Json.eq_obj_of_isObj hobj] at hparsed hkeys hints hschema
    exact ⟨hparsed, hkeys, hints, hschema, hsem, htext⟩
  · rintro ⟨hparsed, hkeys, hints, hschema, hsem, htext⟩
    refine ⟨_, hparsed, ?_⟩
    rw [Json.fields_obj, hkeys, hints, hschema, hsem, htext]
    simp [Json.isObj]

theorem plain_of_isIdentifier {n : ℕ} {value : String} (h : isIdentifier n value = true) :
    ∀ c ∈ value.toList, plain c = true := by
  simp only [isIdentifier, chars_eq, Bool.and_eq_true, List.all_eq_true] at h
  intro c hc
  have hchar := h.1.2 c hc
  simp only [isUpper, isLower, isDigit, Bool.or_eq_true, Bool.and_eq_true, decide_eq_true_eq,
    List.contains_iff_mem, List.mem_cons, List.not_mem_nil, or_false] at hchar
  simp only [plain, Bool.and_eq_true, decide_eq_true_eq, bne_iff_ne]
  have hrange : ∀ {a b : Char}, a ≤ c ∧ c ≤ b → a.toNat ≤ c.toNat ∧ c.toNat ≤ b.toNat := fun h => h
  rcases hchar with ((hc | hc) | hc) | rfl | rfl | rfl | rfl | rfl
  · have h₁ : 65 ≤ c.toNat ∧ c.toNat ≤ 90 := hrange hc
    omega
  · have h₁ : 97 ≤ c.toNat ∧ c.toNat ≤ 122 := hrange hc
    omega
  · have h₁ : 48 ≤ c.toNat ∧ c.toNat ≤ 57 := hrange hc
    omega
  all_goals decide

theorem length_of_isIdentifier {n : ℕ} {value : String} (h : isIdentifier n value = true) :
    value.length ≤ 256 := by
  simp only [isIdentifier, chars_eq, Bool.and_eq_true, decide_eq_true_eq] at h
  rw [← String.length_toList]
  exact h.1.1.1.2

section Accepted

variable {value : String} {d : Fields} (h : canonicalMarketIndexEntry urlsplit value = some d)

include h

/-- A field of an accepted entry is an instance of its schema. -/
theorem entry_property {p : String × Schema} (hp : p ∈ entryProperties) :
    ∃ v, Json.lookup d p.1 = some v ∧ validateInstance p.2 v = true := by
  obtain ⟨-, -, -, -, hschema, -⟩ := canonicalMarketIndexEntry_eq_some.1 h
  obtain ⟨-, hreq, -, hprops⟩ := validateInstance_object.1 hschema
  obtain ⟨v, hv⟩ := Option.isSome_iff_exists.1 (hreq p.1 (List.mem_map_of_mem hp))
  exact ⟨v, hv, hprops p hp v hv⟩

theorem entry_key {p : String × Json} (hp : p ∈ d) : p.1 ∈ entryProperties.map Prod.fst := by
  obtain ⟨-, -, -, -, hschema, -⟩ := canonicalMarketIndexEntry_eq_some.1 h
  exact (validateInstance_object.1 hschema).2.2.1 p hp

theorem entry_wf : (Json.obj d).wf = true :=
  wf_loads (canonicalMarketIndexEntry_eq_some.1 h).2.1

theorem entry_nodup : (d.map Prod.fst).Nodup := (Json.wf_obj.1 (entry_wf h)).1

/-- The capabilities are identifiers, and so have no quotes but their own. -/
theorem quotes_capabilities_le {v : Json} (hv : Json.lookup d "capabilities" = some v) :
    quotes (dumps false v) ≤ 64 := by
  have hp : ("capabilities", Schema.array 0 maxListItems (.string 1 256)) ∈ entryProperties :=
    List.mem_cons_self
  obtain ⟨w, hw, hinst⟩ := entry_property h hp
  obtain rfl := Option.some.inj (hv.symm.trans hw)
  obtain ⟨-, -, -, -, -, hsem, -⟩ := canonicalMarketIndexEntry_eq_some.1 h
  simp only [entrySemantics, Bool.and_eq_true] at hsem
  have hids := hsem.1.1.1.1.1.1.1.1.2
  cases v with
  | arr xs =>
    simp only [validateInstance, Bool.and_eq_true, decide_eq_true_eq, List.all_eq_true] at hinst
    rw [isFilterList, Bool.and_eq_true, List.all_eq_true, texts, Json.get, hv] at hids
    have htwo : ∀ x ∈ xs, quotes (dumps false x) ≤ 2 := by
      intro x hx
      have hstr := hinst.2 x hx
      cases x with
      | str s =>
        have hid : isIdentifier 256 s = true :=
          hids.2 s (List.mem_map.2 ⟨.str s, hx, rfl⟩)
        exact (quotes_dumpsStr_plain (plain_of_isIdentifier hid)).le
      | _ => simp [validateInstance] at hstr
    have hle := List.sum_le_card_nsmul (xs.map fun x => quotes (dumps false x)) 2 fun n hn => by
      obtain ⟨x, hx, rfl⟩ := List.mem_map.1 hn
      exact htwo x hx
    rw [List.length_map, Nat.nsmul_eq_mul] at hle
    have hlen : xs.length ≤ 32 := hinst.1.2
    rw [quotes_dumps_arr]
    exact hle.trans (by omega)
  | _ => simp [validateInstance] at hinst

/-- The quotes of a field at most. -/
def entryQuotes (k : String) : ℕ :=
  if k = "capabilities" then 64
  else ((entryProperties.find? fun p => p.1 == k).bind fun p => p.2.maxQuotes).getD 0

theorem quotes_entry_le : quotes (dumps false (.obj d)) ≤ 16000 := by
  refine (quotes_obj_le (entry_nodup h) (fun p hp => entry_key h hp) (g := entryQuotes)
    fun p hp => ?_).trans (by decide)
  have hlook := Json.lookup_of_mem (entry_nodup h) hp
  by_cases hk : p.1 = "capabilities"
  · rw [entryQuotes, if_pos hk]
    exact quotes_capabilities_le h (by rw [← hk]; exact hlook)
  · rw [entryQuotes, if_neg hk]
    obtain ⟨q, hq, hqk⟩ := List.mem_map.1 (entry_key h hp)
    obtain ⟨r, hr⟩ : ∃ r, entryProperties.find? (fun p' => p'.1 == p.1) = some r := by
      rw [← Option.isSome_iff_exists, List.find?_isSome]
      exact ⟨q, hq, by simpa using hqk⟩
    have hrk : r.1 = p.1 := by simpa using List.find?_some hr
    have hmem := List.mem_of_find?_eq_some hr
    have hbound : ∀ r ∈ entryProperties, r.2.maxQuotes.isSome = true := by decide
    obtain ⟨n, hn⟩ := Option.isSome_iff_exists.1 (hbound r hmem)
    obtain ⟨v, hv, hinst⟩ := entry_property h hmem
    rw [hrk, hlook] at hv
    rw [hr, Option.bind_some, hn, Option.getD_some, Option.some.inj hv]
    exact quotes_le_of_validateInstance _ hn hinst

/-- What an entry weighs as a text inside a response. -/
theorem strWeight_entry_le : strWeight false value ≤ maxEntryBytes + 16002 := by
  obtain ⟨hlen, -, -, -, -, -, htext⟩ := canonicalMarketIndexEntry_eq_some.1 h
  obtain ⟨henc, hchars⟩ := canonicalText_eq_some htext
  have henc' : (Json.obj d).norm.encodable = true := by rw [Json.encodable_norm, henc]
  rw [chars_eq] at hchars hlen
  have hq := quotes_entry_le h
  rw [strWeight_of_dumps henc' hchars, quotes_norm, weight, ← hchars]
  omega

end Accepted

end MarketIndex

end NthDao
