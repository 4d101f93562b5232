/-
  The fold of the inbox journal.

  The four maps of an inbox hold one list of entries.

  * `Cache.of`: the maps of a list of entries; `Entries.accept`,
    `Entries.finish`, `Entries.drop`: what the operations do to the list;
  * `foldCache_accepted`, `foldCache_processed`, `foldCache_evicted`: what an event
    of the journal does to the maps of a list;
  * `fold_compact_ok`, `fold_compact_eq`: the events of a compaction fold to the
    maps they were made of.
-/
import NthDao.Delivery.Inbox
import NthDao.Delivery.OutboxFold
import NthDao.Py.Parsed

namespace NthDao

namespace Delivery

open Py

variable {H : Host}

/-! ## Entries -/

/-- A message that the inbox remembers, with its text while it is pending. -/
structure Entry where
  messageId : String
  sender : String
  nonce : String
  atMs : ℤ
  pending : Option String
  deriving DecidableEq

/-- The key of the replay check. -/
def Entry.key (e : Entry) : String × String := (e.sender, e.nonce)

/-- The pending item of an entry. -/
def Entry.item (e : Entry) : Option (String × String) := e.pending.map fun j => (e.messageId, j)

abbrev Entries := List Entry

namespace Entries

def ids (es : Entries) : List String := es.map Entry.messageId

def keys (es : Entries) : List (String × String) := es.map Entry.key

/-- Messages and keys occur once. -/
structure Distinct (es : Entries) : Prop where
  ids : es.ids.Nodup
  keys : es.keys.Nodup

/-- The entries without one. -/
def drop (es : Entries) (id : String) : Entries := es.filter fun e => e.messageId != id

/-- The entry is not pending any more. -/
def finish (es : Entries) (id : String) : Entries :=
  es.map fun e => if e.messageId = id then { e with pending := none } else e

/-- The entries without the evicted one. -/
def evict (es : Entries) : Option String → Entries
  | some id => es.drop id
  | none => es

/-- A new entry, in the place of the one that is evicted. -/
def accept (es : Entries) (e : Entry) (evicted : Option String) : Entries := es.evict evicted ++ [e]

/-- The pending texts in the order of acceptance. -/
def texts (es : Entries) : List String := es.filterMap Entry.pending

end Entries

/-- The pending texts without the evicted one. -/
def evictPending (pending : Dict String String) : Option String → Dict String String
  | some id => pending.pop id
  | none => pending

/-- The maps of a list of entries. -/
def Cache.of (es : Entries) : Cache where
  byMessageId := es.map fun e => (e.messageId, e.key)
  acceptedAtMs := es.map fun e => (e.messageId, e.atMs)
  nonces := es.map fun e => (e.key, e.messageId)
  pendingJson := es.filterMap Entry.item

@[simp] theorem Cache.of_nil : Cache.of [] = {} := rfl

namespace Entries

theorem Distinct.nil : Distinct [] := ⟨List.nodup_nil, List.nodup_nil⟩

theorem Distinct.filter {es : Entries} (h : es.Distinct) (q : Entry → Bool) :
    Distinct (es.filter q) :=
  ⟨h.ids.sublist (List.filter_sublist.map _), h.keys.sublist (List.filter_sublist.map _)⟩

theorem mem_ids_drop {es : Entries} {id x : String} (h : x ∈ (es.drop id).ids) :
    x ∈ es.ids ∧ x ≠ id := by
  obtain ⟨e, he, rfl⟩ := List.mem_map.1 h
  rw [drop, List.mem_filter, bne_iff_ne] at he
  exact ⟨List.mem_map_of_mem he.1, he.2⟩

theorem mem_drop {es : Entries} {id : String} {e : Entry} (h : e ∈ es.drop id) :
    e ∈ es ∧ e.messageId ≠ id := by
  rwa [drop, List.mem_filter, bne_iff_ne] at h

theorem Distinct.concat {es : Entries} (h : es.Distinct) {e : Entry} (hi : e.messageId ∉ es.ids)
    (hk : e.key ∉ es.keys) : Distinct (es ++ [e]) := by
  constructor
  · rw [Entries.ids, List.map_append]
    exact List.concat_eq_append ▸ (List.nodup_concat _ _).2 ⟨hi, h.ids⟩
  · rw [Entries.keys, List.map_append]
    exact List.concat_eq_append ▸ (List.nodup_concat _ _).2 ⟨hk, h.keys⟩

/-- The entries that an acceptance keeps. -/
theorem Distinct.accept {es : Entries} (h : es.Distinct) {e : Entry} (hi : e.messageId ∉ es.ids)
    (hk : e.key ∉ es.keys) (evicted : Option String) : Distinct (es.accept e evicted) := by
  cases evicted with
  | none => exact h.concat hi hk
  | some id =>
    refine (h.filter _).concat (fun hm => hi ?_) (fun hm => hk ?_)
    · exact (List.filter_sublist.map Entry.messageId).subset hm
    · exact (List.filter_sublist.map Entry.key).subset hm

@[simp] theorem ids_finish (es : Entries) (id : String) : (es.finish id).ids = es.ids := by
  rw [ids, finish, List.map_map]
  refine List.map_congr_left fun e _ => ?_
  by_cases h : e.messageId = id <;> simp [h]

@[simp] theorem keys_finish (es : Entries) (id : String) : (es.finish id).keys = es.keys := by
  rw [keys, finish, List.map_map]
  refine List.map_congr_left fun e _ => ?_
  by_cases h : e.messageId = id <;> simp [h, Entry.key]

theorem Distinct.finish {es : Entries} (h : es.Distinct) (id : String) : Distinct (es.finish id) :=
  ⟨by rw [ids_finish]; exact h.ids, by rw [keys_finish]; exact h.keys⟩

/-- Entries with one id, or one key, are equal. -/
theorem Distinct.eq_of_id {es : Entries} (h : es.Distinct) {e e' : Entry} (he : e ∈ es)
    (he' : e' ∈ es) (hi : e.messageId = e'.messageId) : e = e' :=
  List.inj_on_of_nodup_map h.ids he he' hi

theorem Distinct.eq_of_key {es : Entries} (h : es.Distinct) {e e' : Entry} (he : e ∈ es)
    (he' : e' ∈ es) (hk : e.key = e'.key) : e = e' :=
  List.inj_on_of_nodup_map h.keys he he' hk

end Entries

/-! ## The maps of entries -/

namespace Cache

open Entries

@[simp] theorem keys_byMessageId (es : Entries) :
    (Cache.of es).byMessageId.map Prod.fst = es.ids := by
  rw [Cache.of, List.map_map]; rfl

@[simp] theorem keys_acceptedAtMs (es : Entries) :
    (Cache.of es).acceptedAtMs.map Prod.fst = es.ids := by
  rw [Cache.of, List.map_map]; rfl

@[simp] theorem keys_nonces (es : Entries) : (Cache.of es).nonces.map Prod.fst = es.keys := by
  rw [Cache.of, List.map_map]; rfl

theorem has_byMessageId {es : Entries} {id : String} :
    (Cache.of es).byMessageId.has id = true ↔ id ∈ es.ids := by
  rw [Dict.has_iff, keys_byMessageId]

theorem has_nonces {es : Entries} {key : String × String} :
    (Cache.of es).nonces.has key = true ↔ key ∈ es.keys := by
  rw [Dict.has_iff, keys_nonces]

theorem mem_pendingJson {es : Entries} {id json : String} :
    (id, json) ∈ (Cache.of es).pendingJson ↔
      ∃ e ∈ es, e.messageId = id ∧ e.pending = some json := by
  rw [Cache.of, List.mem_filterMap]
  constructor
  · rintro ⟨e, he, h⟩
    obtain ⟨j, hj, h⟩ := Option.map_eq_some_iff.1 h
    cases h
    exact ⟨e, he, rfl, hj⟩
  · rintro ⟨e, he, rfl, hp⟩
    exact ⟨e, he, by rw [Entry.item, hp]; rfl⟩

theorem has_pendingJson {es : Entries} {id : String} :
    (Cache.of es).pendingJson.has id = true ↔ ∃ e ∈ es, e.messageId = id ∧ e.pending ≠ none := by
  rw [Dict.has_iff, List.mem_map]
  constructor
  · rintro ⟨⟨i, json⟩, hp, rfl⟩
    obtain ⟨e, he, hid, hj⟩ := mem_pendingJson.1 hp
    exact ⟨e, he, hid, by rw [hj]; exact Option.some_ne_none _⟩
  · rintro ⟨e, he, hid, hne⟩
    obtain ⟨json, hj⟩ := Option.ne_none_iff_exists'.1 hne
    exact ⟨(id, json), mem_pendingJson.2 ⟨e, he, hid, hj⟩, rfl⟩

/-- A message that is not remembered is not pending. -/
theorem not_mem_pending {es : Entries} {id : String} (h : id ∉ es.ids) :
    id ∉ (Cache.of es).pendingJson.map Prod.fst := by
  rw [← Dict.has_iff, has_pendingJson]
  rintro ⟨e, he, rfl, -⟩
  exact h (List.mem_map_of_mem he)

theorem get_byMessageId {es : Entries} (h : es.Distinct) {e : Entry} (he : e ∈ es) :
    (Cache.of es).byMessageId.get e.messageId = some e.key := by
  refine Dict.get_of_mem ?_ (List.mem_map.2 ⟨e, he, rfl⟩)
  rw [keys_byMessageId]
  exact h.ids

theorem of_get_byMessageId {es : Entries} {id : String} {key : String × String}
    (h : (Cache.of es).byMessageId.get id = some key) :
    ∃ e ∈ es, e.messageId = id ∧ e.key = key := by
  obtain ⟨e, he, hk⟩ := List.mem_map.1 (Dict.mem_of_get h)
  cases hk
  exact ⟨e, he, rfl, rfl⟩

theorem get_acceptedAtMs {es : Entries} (h : es.Distinct) {e : Entry} (he : e ∈ es) :
    (Cache.of es).acceptedAtMs.get e.messageId = some e.atMs := by
  refine Dict.get_of_mem ?_ (List.mem_map.2 ⟨e, he, rfl⟩)
  rw [keys_acceptedAtMs]
  exact h.ids

theorem nodup_pending {es : Entries} (h : es.Distinct) :
    ((Cache.of es).pendingJson.map Prod.fst).Nodup := by
  have hs : ((Cache.of es).pendingJson.map Prod.fst).Sublist es.ids := by
    show ((es.filterMap Entry.item).map Prod.fst).Sublist _
    have hmap : (es.filterMap Entry.item).map Prod.fst =
        (es.filter fun e => e.pending.isSome).map Entry.messageId := by
      clear h
      induction es with
      | nil => rfl
      | cons e es ih =>
        cases hp : e.pending with
        | none => simp [Entry.item, hp, ih]
        | some j => simp [Entry.item, hp, ih]
    rw [hmap]
    exact List.filter_sublist.map _
  exact h.ids.sublist hs

theorem get_pendingJson {es : Entries} (h : es.Distinct) {e : Entry} (he : e ∈ es) :
    (Cache.of es).pendingJson.get e.messageId = e.pending := by
  cases hp : e.pending with
  | some json =>
    exact Dict.get_of_mem (nodup_pending h) (mem_pendingJson.2 ⟨e, he, rfl, hp⟩)
  | none =>
    rw [Dict.get_eq_none, ← Dict.has_iff, has_pendingJson]
    rintro ⟨e', he', hid, hne⟩
    obtain rfl := h.eq_of_id he' he hid
    exact hne hp

theorem get_isSome_pending {es : Entries} (h : es.Distinct) {e : Entry} (he : e ∈ es) :
    (Cache.of es).pendingJson.has e.messageId = e.pending.isSome := by
  rw [← Dict.get_isSome, get_pendingJson h he]

/-- The pending texts are those of the entries. -/
theorem map_pendingJson (es : Entries) : (Cache.of es).pendingJson.map Prod.snd = es.texts := by
  show (es.filterMap Entry.item).map Prod.snd = _
  rw [List.map_filterMap]
  refine List.filterMap_congr fun e _ => ?_
  rw [Entry.item, Option.map_map]
  cases e.pending <;> rfl

theorem pop_byMessageId (es : Entries) (id : String) :
    (Cache.of es).byMessageId.pop id = (Cache.of (es.drop id)).byMessageId :=
  Dict.pop_map es Entry.messageId Entry.key id

theorem pop_acceptedAtMs (es : Entries) (id : String) :
    (Cache.of es).acceptedAtMs.pop id = (Cache.of (es.drop id)).acceptedAtMs :=
  Dict.pop_map es Entry.messageId Entry.atMs id

theorem pop_nonces {es : Entries} (h : es.Distinct) {e : Entry} (he : e ∈ es) :
    (Cache.of es).nonces.pop e.key = (Cache.of (es.drop e.messageId)).nonces := by
  refine Dict.pop_map_of es Entry.key Entry.messageId e.key fun e' he' => ?_
  rw [bne_eq_false_iff_eq]
  exact ⟨fun hk => by rw [h.eq_of_key he' he hk], fun hi => by rw [h.eq_of_id he' he hi]⟩

theorem pop_pendingJson (es : Entries) (id : String) :
    (Cache.of es).pendingJson.pop id = (Cache.of (es.drop id)).pendingJson := by
  show (es.filterMap Entry.item).filter _ = (es.filter _).filterMap Entry.item
  induction es with
  | nil => rfl
  | cons e es ih =>
    by_cases hid : e.messageId = id
    · cases hp : e.pending <;> simpa [Entry.item, hp, hid] using ih
    · cases hp : e.pending <;> simpa [Entry.item, hp, hid] using ih

/-- Forgetting a message drops its entry. -/
theorem forget_of {es : Entries} (h : es.Distinct) {e : Entry} (he : e ∈ es) :
    (Cache.of es).forget e.messageId e.key = Cache.of (es.drop e.messageId) := by
  rw [Cache.forget, pop_byMessageId, pop_acceptedAtMs, pop_nonces h he, pop_pendingJson]

theorem map_finish {β : Type} (es : Entries) (id : String) {g : Entry → β}
    (hg : ∀ e, g { e with pending := none } = g e) : (es.finish id).map g = es.map g := by
  rw [Entries.finish, List.map_map]
  refine List.map_congr_left fun e _ => ?_
  rw [Function.comp_apply]
  split_ifs
  · exact hg e
  · rfl

theorem filterMap_finish (es : Entries) (id : String) :
    (es.finish id).filterMap Entry.item = (Cache.of es).pendingJson.pop id := by
  show _ = (es.filterMap Entry.item).filter _
  induction es with
  | nil => rfl
  | cons e es ih =>
    rw [Entries.finish] at ih ⊢
    rw [List.map_cons]
    by_cases hid : e.messageId = id
    · rw [if_pos hid, List.filterMap_cons_none rfl, ih]
      cases hp : e.pending <;> simp [Entry.item, hp, hid]
    · rw [if_neg hid]
      cases hp : e.pending <;> simp [Entry.item, hp, hid, ih]

/-- Popping the pending text finishes the entry. -/
theorem finish_of (es : Entries) (id : String) :
    { Cache.of es with pendingJson := (Cache.of es).pendingJson.pop id } =
      Cache.of (es.finish id) := by
  rw [← filterMap_finish, Cache.of, Cache.of, map_finish es id fun _ => rfl,
    map_finish es id fun _ => rfl, map_finish es id fun _ => rfl]

/-- A new entry goes last in all maps. -/
theorem remember_of {es : Entries} {e : Entry} (hi : e.messageId ∉ es.ids) (hk : e.key ∉ es.keys)
    (pending : Dict String String) :
    ({ Cache.of es with pendingJson := pending }).remember e.messageId e.key e.atMs =
      { Cache.of (es ++ [e]) with pendingJson := pending } := by
  rw [Cache.remember, Dict.set_of_not_mem (by rwa [keys_byMessageId]),
    Dict.set_of_not_mem (by rwa [keys_acceptedAtMs]), Dict.set_of_not_mem (by rwa [keys_nonces])]
  simp [Cache.of]

end Cache

/-! ## Envelopes -/

theorem wf_fromDict {v : Json} (hv : v.wf = true) {e : TransportEnvelope}
    (h : TransportEnvelope.fromDict v = .ok e) : e.wf = true := by
  simp only [TransportEnvelope.fromDict, bind_eq_ok, require_eq_ok, pure_eq_ok] at h
  obtain ⟨_, hobj, _, -, rfl⟩ := h
  rw [Json.eq_obj_of_isObj hobj] at hv
  have hget : ∀ k, (Json.get v.fields k).wf = true := Json.wf_get hv
  rw [TransportEnvelope.wf, Json.wf_obj]
  refine ⟨TransportEnvelope.nodup_asdict _, fun p hp => ?_⟩
  simp only [TransportEnvelope.asdict, List.mem_cons, List.not_mem_nil, or_false] at hp
  rcases hp with rfl | rfl | rfl | rfl | rfl | rfl | rfl | rfl | rfl | rfl | rfl | rfl | rfl | rfl <;>
    exact hget _

/-- The source is a value of the interpreter. -/
def InboxSource.wf : InboxSource → Bool
  | .envelope e => e.wf
  | .dict kvs => (Json.obj kvs).wf
  | _ => true

theorem InboxSource.wf_parse {source : InboxSource} (hw : source.wf = true) {e : TransportEnvelope}
    (h : source.parse = .ok e) : e.wf = true := by
  cases source with
  | text s =>
    simp only [InboxSource.parse, parseText, parseDict, bind_eq_ok, require_eq_ok, expect_eq_ok,
      mapError_eq_ok, pure_eq_ok] at h
    obtain ⟨_, -, v, hv, e', he, _, -, _, -, rfl⟩ := h
    exact wf_fromDict (wf_loads hv) he
  | envelope e' => cases h; exact hw
  | dict kvs =>
    simp only [InboxSource.parse, parseDict, mapError_eq_ok] at h
    exact wf_fromDict hw h
  | other => cases h

/-- What is known of an envelope that has passed the checks. -/
structure Admitted.Facts (H : Host) (a : Admitted) : Prop where
  wf : a.envelope.wf = true
  text : canonicalText a.envelope.toDict = some a.json
  envelope : pendingEnvelope H a.id a.sender a.nonce a.json = .ok a.envelope.norm
  isDigest : isDigest a.id = true

/-- **An admitted envelope** is the one that the journal reads back. -/
theorem acceptArgs_ok {authorize : Option (TransportEnvelope → Option (Bool × String))}
    {source : InboxSource} (hw : source.wf = true) {now : ℤ} {a : Admitted}
    (h : acceptArgs H authorize source now = .ok a) : a.Facts H := by
  simp only [acceptArgs, bind_eq_ok, mapError_eq_ok, expect_eq_ok, pure_eq_ok,
    Json.asStr_eq_some] at h
  obtain ⟨e, hparse, _, -, _, hvalid, sha, -, _, -, json, hjson, id, hid, sender, hsender, nonce,
    hnonce, rfl⟩ := h
  have hwf := InboxSource.wf_parse hw hparse
  obtain ⟨i, c, x, hf⟩ := validateEnvelope_facts hvalid
  obtain rfl : i = id := by
    have := hf.id_eq.symm.trans hid
    simpa using this
  refine ⟨hwf, hjson, ?_, hf.id_isDigest⟩
  simp only [pendingEnvelope, bind_eq_ok, mapError_eq_ok, expect_eq_ok, require_eq_ok, pure_eq_ok,
    Json.eqStr_iff, Bool.and_eq_true, beq_iff_eq]
  refine ⟨_, loads_canonicalText (e.wf_toDict hwf) hjson, e.norm, e.fromDict_toDict hf.keys, json,
    ?_, (), rfl, (), validateEnvelope_norm H hwf (validateEnvelope_none H hvalid), (), ?_, (),
    ⟨?_, ?_⟩, rfl⟩
  · rw [canonicalText_congr e.norm_toDict, hjson]
  · rw [TransportEnvelope.norm, hid]; rfl
  · rw [TransportEnvelope.norm, hsender]; rfl
  · rw [TransportEnvelope.norm, hnonce]; rfl

/-- The text of a pending envelope is its canonical one. -/
theorem pendingEnvelope_text {id sender nonce json : String} {e : TransportEnvelope}
    (h : pendingEnvelope H id sender nonce json = .ok e) :
    (∃ parsed, loads (chars json) = some parsed ∧ TransportEnvelope.fromDict parsed = .ok e) ∧
      canonicalText e.toDict = some json := by
  simp only [pendingEnvelope, bind_eq_ok, mapError_eq_ok, expect_eq_ok, require_eq_ok, pure_eq_ok,
    beq_iff_eq] at h
  obtain ⟨parsed, hload, e', hdict, text, htext, _, rfl, _, -, _, -, _, -, rfl⟩ := h
  exact ⟨⟨parsed, hload, hdict⟩, htext⟩

/-! ## Events -/

theorem mem_keys_congr {xs ys : Fields} (h : ∀ k, Json.lookup xs k = Json.lookup ys k) (k : String) :
    k ∈ xs.map Prod.fst ↔ k ∈ ys.map Prod.fst := by
  rw [← Json.isSome_lookup, h, Json.isSome_lookup]

theorem CacheEvent.fieldsOk_congr {xs ys : Fields} (h : ∀ k, Json.lookup xs k = Json.lookup ys k)
    (kind : CacheEvent) : kind.fieldsOk xs = kind.fieldsOk ys := by
  have hkeys := mem_keys_congr h
  have hok : ∀ zs : Fields, CacheEvent.accepted.fieldsOk zs = true ↔
      (∀ f ∈ acceptedRequired, f ∈ zs.map Prod.fst) ∧
      ∀ k ∈ zs.map Prod.fst, k ∈ acceptedRequired ++ acceptedOptional := by
    intro zs
    simp [CacheEvent.fieldsOk, List.all_eq_true, List.any_eq_true]
  cases kind with
  | accepted =>
    rw [Bool.eq_iff_iff, hok, hok]
    simp only [hkeys]
  | processed => exact Json.keysEq_congr h _
  | evicted => exact Json.keysEq_congr h _

/-- The fold sees no order of keys. -/
theorem foldCache_congr {xs ys : Fields} (h : ∀ k, Json.lookup xs k = Json.lookup ys k)
    (c : Cache) : foldCache H xs c = foldCache H ys c := by
  have hg : ∀ k, Json.get xs k = Json.get ys k := fun k => by rw [Json.get, h, Json.get]
  have hf : ∀ kind : CacheEvent, kind.fieldsOk xs = kind.fieldsOk ys :=
    CacheEvent.fieldsOk_congr h
  simp only [foldCache, foldAccepted, hg, hf]

theorem filter_isDigest {s : String} (h : isDigest s = true) :
    (Json.str s).asStr.filter isDigest = some s := by
  simp [Json.asStr, Option.filter, h]

/-- What an accepted event says of an entry. -/
structure Accepts (H : Host) (event : Fields) (e : Entry) (evicted : Option String) : Prop where
  kind : Json.get event "event" = .str "accepted"
  fieldsOk : CacheEvent.accepted.fieldsOk event = true
  id : Json.get event "message_id" = .str e.messageId
  isDigest : isDigest e.messageId = true
  sender : Json.get event "sender_did" = .str e.sender
  nonce : Json.get event "nonce" = .str e.nonce
  evicted : Json.get event "evicted_message_id" = (evicted.map Json.str).getD .null
  json : Json.get event "envelope_json" = (e.pending.map Json.str).getD .null
  envelope : ∀ json, e.pending = some json →
    ∃ env, pendingEnvelope H e.messageId e.sender e.nonce json = .ok env

/-- The message that makes room: remembered, and processed. -/
def Entries.Evictable (es : Entries) (evicted : Option String) : Prop :=
  ∀ id, evicted = some id → ∃ e ∈ es, e.messageId = id ∧ e.pending = none ∧ isDigest id = true

theorem foldEvicted_of {es : Entries} (hd : es.Distinct) {evicted : Option String}
    (hev : es.Evictable evicted) {id : String} (hi : id ∉ es.ids) :
    ∃ r, foldEvicted id (Cache.of es) ((evicted.map Json.str).getD .null) = .ok r ∧
      ∀ pending : Dict String String, (match r with
        | some (evictedId, key) =>
          ({ Cache.of es with pendingJson := pending } : Cache).forget evictedId key
        | none => { Cache.of es with pendingJson := pending }) =
        { Cache.of (es.evict evicted) with pendingJson := evictPending pending evicted } := by
  cases evicted with
  | none => exact ⟨none, rfl, fun _ => rfl⟩
  | some id₀ =>
    obtain ⟨e, he, rfl, hp, hdig⟩ := hev id₀ rfl
    refine ⟨some (e.messageId, e.key), ?_, fun pending => ?_⟩
    · have hne : e.messageId ≠ id := fun h => hi (h ▸ List.mem_map_of_mem he)
      have hnot : (Cache.of es).pendingJson.has e.messageId = false := by
        rw [Cache.get_isSome_pending hd he, hp]; rfl
      show foldEvicted id (Cache.of es) (.str e.messageId) = _
      simp only [foldEvicted, filter_isDigest hdig, bind_eq_ok, expect_eq_ok, require_eq_ok, pure_eq_ok]
      exact ⟨_, rfl, (), by simpa using hne, _, Cache.get_byMessageId hd he, (), by rw [hnot]; rfl, rfl⟩
    · have hf := Cache.forget_of hd he
      rw [Cache.forget, Cache.mk.injEq] at hf
      simp only [Cache.forget, hf.1, hf.2.1, hf.2.2.1]
      rfl

/-- The pending texts after an acceptance. -/
theorem pendingJson_accept {es : Entries} {e : Entry} (hi : e.messageId ∉ es.ids)
    {evicted : Option String} (hne : evicted ≠ some e.messageId) {pending : Dict String String}
    (hp : pending = match e.pending with
      | some json => (Cache.of es).pendingJson.set e.messageId json
      | none => (Cache.of es).pendingJson) :
    evictPending pending evicted = (Cache.of (es.accept e evicted)).pendingJson := by
  have hset : pending = (Cache.of es).pendingJson ++ e.item.toList := by
    rw [hp, Entry.item]
    cases e.pending with
    | none => simp
    | some json => exact Dict.set_of_not_mem (Cache.not_mem_pending hi) json
  have hof : ∀ es' : Entries, (Cache.of (es' ++ [e])).pendingJson =
      (Cache.of es').pendingJson ++ e.item.toList := by
    intro es'
    show (es' ++ [e]).filterMap Entry.item = es'.filterMap Entry.item ++ _
    rw [List.filterMap_append]
    cases he : e.item <;> simp [he]
  cases evicted with
  | none => rw [hset]; exact (hof es).symm
  | some id =>
    have hkeep : Dict.pop e.item.toList id = e.item.toList := by
      refine Dict.pop_of_not_mem ?_
      rw [Entry.item]
      cases e.pending with
      | none => simp
      | some json => simpa using fun h => hne (by rw [h])
    rw [hset]
    show Dict.pop _ id = _
    rw [Dict.pop_append, hkeep, Cache.pop_pendingJson]
    exact (hof (es.drop id)).symm

/-- The new entry goes last, after the one it replaces has been dropped. -/
theorem remember_accept {es : Entries} {e : Entry} (hi : e.messageId ∉ es.ids)
    (hk : e.key ∉ es.keys) (evicted : Option String) (hne : evicted ≠ some e.messageId)
    {pending : Dict String String} (hp : pending = match e.pending with
      | some json => (Cache.of es).pendingJson.set e.messageId json
      | none => (Cache.of es).pendingJson) :
    Cache.remember { Cache.of (es.evict evicted) with pendingJson := evictPending pending evicted }
      e.messageId e.key e.atMs = Cache.of (es.accept e evicted) := by
  rw [pendingJson_accept hi hne hp, Cache.remember_of]
  · cases evicted <;> rfl
  · cases evicted with
    | none => exact hi
    | some id => exact fun h => hi (Entries.mem_ids_drop h).1
  · cases evicted with
    | none => exact hk
    | some id => exact fun h => hk ((List.filter_sublist.map Entry.key).subset h)

/-- **An accepted event** adds the entry, with the time it carries, to the maps. -/
theorem foldCache_accepted {es : Entries} (hd : es.Distinct) {event : Fields} {e : Entry}
    {evicted : Option String} (h : Accepts H event e evicted) (hev : es.Evictable evicted)
    (hi : e.messageId ∉ es.ids) (hk : e.key ∉ es.keys) :
    foldCache H event (Cache.of es) = (foldAcceptedAt (Json.get event "at_ms")).map fun atMs =>
      Cache.of (es.accept { e with atMs := atMs } evicted) := by
  obtain ⟨r, hr, hforget⟩ := foldEvicted_of hd hev hi
  have hne : evicted ≠ some e.messageId := by
    rintro rfl
    obtain ⟨e₀, he₀, hid, -⟩ := hev _ rfl
    exact hi (hid ▸ List.mem_map_of_mem he₀)
  have hid : (Cache.of es).byMessageId.has e.messageId = false := by
    rwa [Bool.eq_false_iff, ne_eq, Cache.has_byMessageId]
  have hkey : (Cache.of es).nonces.has (e.sender, e.nonce) = false := by
    rwa [Bool.eq_false_iff, ne_eq, Cache.has_nonces]
  obtain ⟨pending, hpending, hfold⟩ : ∃ pending : Dict String String,
      (pending = match e.pending with
        | some json => (Cache.of es).pendingJson.set e.messageId json
        | none => (Cache.of es).pendingJson) ∧
      foldPending H e.messageId e.sender e.nonce (Cache.of es) (Json.get event "envelope_json") =
        .ok { Cache.of es with pendingJson := pending } := by
    refine ⟨_, rfl, ?_⟩
    rw [h.json]
    cases hp : e.pending with
    | none => rfl
    | some json =>
      obtain ⟨env, henv⟩ := h.envelope json hp
      show foldPending H _ _ _ _ (.str json) = _
      simp only [foldPending, bind_eq_ok, expect_eq_ok, pure_eq_ok]
      exact ⟨json, rfl, env, henv, rfl⟩
  have hkind : (Json.get event "event").asStr.bind CacheEvent.ofText = some .accepted := by
    rw [h.kind]; rfl
  have hacc : foldCache H event (Cache.of es) = foldAccepted H event e.messageId (Cache.of es) := by
    rw [foldCache, hkind]
    show (require (CacheEvent.accepted.fieldsOk event) _ >>= _) = _
    rw [h.fieldsOk, h.id, filter_isDigest h.isDigest]
    rfl
  have hsender : (Json.get event "sender_did").asStr = some e.sender := by rw [h.sender]; rfl
  have hnonce : (Json.get event "nonce").asStr = some e.nonce := by rw [h.nonce]; rfl
  rw [hacc, foldAccepted, hsender, hnonce]
  simp only [expect, ok_bind, hid, hkey, h.evicted, hr, hfold]
  cases hat : foldAcceptedAt (Json.get event "at_ms") with
  | error reason => rfl
  | ok atMs =>
    have hrem := remember_accept (e := { e with atMs := atMs }) hi hk evicted hne hpending
    rw [← hforget pending] at hrem
    cases r <;> exact congrArg Except.ok hrem

/-- **A processed event** finishes the entry. -/
theorem foldCache_processed {es : Entries} {e : Entry} (he : e ∈ es)
    (hdig : isDigest e.messageId = true) (hp : e.pending ≠ none) :
    foldCache H (processedEvent e.messageId) (Cache.of es) =
      .ok (Cache.of (es.finish e.messageId)) := by
  have hid : (Cache.of es).byMessageId.has e.messageId = true :=
    Cache.has_byMessageId.2 (List.mem_map_of_mem he)
  have hpend : (Cache.of es).pendingJson.has e.messageId = true :=
    Cache.has_pendingJson.2 ⟨e, he, rfl, hp⟩
  simp only [foldCache, bind_eq_ok, expect_eq_ok, require_eq_ok]
  refine ⟨.processed, rfl, (), ?_, e.messageId, filter_isDigest hdig, ?_⟩
  · simp [CacheEvent.fieldsOk, processedEvent, Json.keysEq]
  · simp only [bind_eq_ok, require_eq_ok, pure_eq_ok]
    exact ⟨(), hid, (), hpend, Cache.finish_of es e.messageId⟩

/-- What holds of an entry. -/
structure Entry.Sound (H : Host) (e : Entry) : Prop where
  isDigest : isDigest e.messageId = true
  envelope : ∀ json, e.pending = some json →
    ∃ env, pendingEnvelope H e.messageId e.sender e.nonce json = .ok env
  encodable : (Json.int e.atMs).encodable = true

theorem Entry.Sound.finish {e : Entry} (h : e.Sound H) : Entry.Sound H { e with pending := none } where
  isDigest := h.isDigest
  envelope := fun _ hj => by cases hj
  encodable := h.encodable

theorem Entries.sound_finish {es : Entries} (h : ∀ e ∈ es, e.Sound H) (id : String) :
    ∀ e ∈ es.finish id, e.Sound H := by
  intro e he
  obtain ⟨e', he', rfl⟩ := List.mem_map.1 he
  split_ifs
  · exact (h e' he').finish
  · exact h e' he'

theorem Entries.mem_evict {es : Entries} {evicted : Option String} {e : Entry}
    (h : e ∈ es.evict evicted) : e ∈ es := by
  cases evicted with
  | none => exact h
  | some id => exact (Entries.mem_drop h).1

/-! ## Compaction -/

/-- The event that a compaction writes for an entry. -/
def Entry.event (e : Entry) : Fields :=
  [("event", .str "accepted"), ("message_id", .str e.messageId), ("sender_did", .str e.sender),
    ("nonce", .str e.nonce)] ++
    (if e.atMs = 0 then [] else [("at_ms", .int e.atMs)]) ++
    match e.pending with
    | some json => [("envelope_json", .str json)]
    | none => []

/-- The events of a compaction are those of the entries. -/
theorem map_compactEvent {es : Entries} (h : es.Distinct) :
    (Cache.of es).byMessageId.map (compactEvent (Cache.of es)) = es.map Entry.event := by
  show (es.map _).map _ = _
  rw [List.map_map]
  refine List.map_congr_left fun e he => ?_
  rw [Function.comp_apply, compactEvent, Cache.get_acceptedAtMs h he, Cache.get_pendingJson h he]
  rfl

theorem accepts_event {e : Entry} (h : e.Sound H) : Accepts H e.event e none := by
  refine ⟨rfl, ?_, rfl, h.isDigest, rfl, rfl, ?_, ?_, h.envelope⟩
  · by_cases ha : e.atMs = 0 <;> cases hp : e.pending <;>
      simp [Entry.event, ha, hp, CacheEvent.fieldsOk, acceptedRequired, acceptedOptional]
  · by_cases ha : e.atMs = 0 <;> cases hp : e.pending <;>
      simp [Entry.event, ha, hp, Json.get, Json.lookup]
  · by_cases ha : e.atMs = 0 <;> cases hp : e.pending <;>
      simp [Entry.event, ha, hp, Json.get, Json.lookup]

theorem flat_event (e : Entry) : Json.flat e.event = true := by
  by_cases ha : e.atMs = 0 <;> cases hp : e.pending <;>
    simp [Entry.event, ha, hp, Json.flat, Json.isScalar]

theorem encodable_event {e : Entry} (h : e.Sound H) : (Json.obj e.event).encodable = true := by
  rw [Json.encodable_obj]
  intro p hp
  have hint := h.encodable
  by_cases ha : e.atMs = 0 <;> cases hj : e.pending <;>
    simp only [Entry.event, ha, hj, if_true, if_false, List.append_nil, List.cons_append,
      List.nil_append, List.mem_cons, List.not_mem_nil, or_false] at hp <;>
    rcases hp with rfl | rfl | rfl | rfl | rfl | rfl <;> first | rfl | exact hint

/-- The time that the fold reads of a compacted event. -/
theorem foldAcceptedAt_event (e : Entry) : foldAcceptedAt (Json.get e.event "at_ms") =
    if 0 ≤ e.atMs then .ok e.atMs else .error "accepted event at_ms is invalid" := by
  by_cases ha : e.atMs = 0
  · have hget : Json.get e.event "at_ms" = .null := by
      cases hp : e.pending <;> simp [Entry.event, ha, hp, Json.get, Json.lookup]
    rw [hget, ha]
    rfl
  · have hget : Json.get e.event "at_ms" = .int e.atMs := by
      cases hp : e.pending <;> simp [Entry.event, ha, hp, Json.get, Json.lookup]
    rw [hget]
    show (require (1 ≤ e.atMs) _ >>= fun _ => Except.ok e.atMs) = _
    by_cases h1 : 1 ≤ e.atMs
    · rw [decide_eq_true h1, if_pos (by omega)]; rfl
    · rw [decide_eq_false h1, if_neg (by omega)]; rfl

/-- Events folded in turn. -/
def foldCaches (H : Host) (events : List Fields) (c : Cache) : Except String Cache :=
  events.foldlM (fun c e => foldCache H e c) c

theorem foldCaches_event {pre : Entries} {e : Entry} (h : e.Sound H)
    (hd : Entries.Distinct (pre ++ [e])) : foldCache H e.event (Cache.of pre) =
      if 0 ≤ e.atMs then .ok (Cache.of (pre ++ [e]))
      else .error "accepted event at_ms is invalid" := by
  have hids := hd.ids
  have hkeys := hd.keys
  rw [Entries.ids, List.map_append, List.nodup_append] at hids
  rw [Entries.keys, List.map_append, List.nodup_append] at hkeys
  have hpre : Entries.Distinct pre := ⟨hids.1, hkeys.1⟩
  rw [foldCache_accepted hpre (accepts_event h) (fun _ hid => by cases hid)
    (fun hm => hids.2.2 _ hm _ (by simp) rfl) (fun hm => hkeys.2.2 _ hm _ (by simp) rfl),
    foldAcceptedAt_event]
  split_ifs <;> rfl

/-- **A compacted journal** folds to the maps it was made of, if it folds at all;
    then no entry has a negative time. -/
theorem foldCaches_compact (pre : Entries) {es : Entries} (hs : ∀ e ∈ es, e.Sound H)
    (hd : Entries.Distinct (pre ++ es)) {c : Cache}
    (h : foldCaches H (es.map Entry.event) (Cache.of pre) = .ok c) :
    c = Cache.of (pre ++ es) ∧ ∀ e ∈ es, 0 ≤ e.atMs := by
  induction es generalizing pre with
  | nil =>
    cases h
    rw [List.append_nil]
    exact ⟨rfl, fun _ he => absurd he List.not_mem_nil⟩
  | cons e es ih =>
    rw [List.forall_mem_cons] at hs
    rw [List.append_cons] at hd ⊢
    have hd₁ : Entries.Distinct (pre ++ [e]) :=
      ⟨hd.ids.sublist ((List.sublist_append_left _ _).map _),
        hd.keys.sublist ((List.sublist_append_left _ _).map _)⟩
    rw [List.map_cons, foldCaches, List.foldlM_cons, foldCaches_event hs.1 hd₁] at h
    split_ifs at h with hat
    · obtain ⟨hc, ht⟩ := ih (pre ++ [e]) hs.2 hd h
      exact ⟨hc, List.forall_mem_cons.2 ⟨hat, ht⟩⟩
    · cases h

/-- It folds when no entry has a negative time. -/
theorem foldCaches_compact_ok (pre : Entries) {es : Entries} (hs : ∀ e ∈ es, e.Sound H)
    (hd : Entries.Distinct (pre ++ es)) (ht : ∀ e ∈ es, 0 ≤ e.atMs) :
    foldCaches H (es.map Entry.event) (Cache.of pre) = .ok (Cache.of (pre ++ es)) := by
  induction es generalizing pre with
  | nil => rw [List.append_nil]; rfl
  | cons e es ih =>
    rw [List.forall_mem_cons] at hs ht
    rw [List.append_cons] at hd ⊢
    have hd₁ : Entries.Distinct (pre ++ [e]) :=
      ⟨hd.ids.sublist ((List.sublist_append_left _ _).map _),
        hd.keys.sublist ((List.sublist_append_left _ _).map _)⟩
    rw [List.map_cons, foldCaches, List.foldlM_cons, foldCaches_event hs.1 hd₁, if_pos ht.1, ok_bind]
    exact ih (pre ++ [e]) hs.2 hd ht.2

end Delivery

end NthDao
