/-
  The caches of a log instance (`nth_dao/spine/log.py`).

  An instance remembers the events it has verified under a token of the file,
  an index of them by id, and for each shape of unique fields an index of their
  values.

  * `verifiedEventsCached`, `remember`, `semanticIndex`: the functions of the
    source that read and extend them;
  * `CacheOk`: what they hold, relative to the contents that the file has had;
  * `cacheOk_remember`: extending them keeps that, also where the old events are
    only equal to the first of the new ones;
  * `verifiedEventsCached_spec`: a cached read is a full verification.
-/
import NthDao.Py.Dict
import NthDao.Py.Parsed
import NthDao.Spine.Recovery

namespace NthDao

open Py

variable (H : Host)

/-- `MAX_SPINE_VERIFIED_CACHE_BYTES`. -/
def maxSpineVerifiedCacheBytes : ℕ := 16 * 1024 * 1024

/-- `MAX_SPINE_VERIFIED_CACHE_EVENTS`. -/
def maxSpineVerifiedCacheEvents : ℕ := 10000

/-- `MAX_SPINE_SEMANTIC_INDEX_SHAPES`. -/
def maxSpineSemanticIndexShapes : ℕ := 64

/-! ## Tokens -/

/-- What `os.fstat` says of a file besides its size. -/
structure Stat where
  dev : ℕ := 0
  ino : ℕ := 0
  mtimeNs : ℕ := 0
  ctimeNs : ℕ := 0
  deriving DecidableEq

/-- `StorageToken`. -/
structure StorageToken where
  stat : Stat
  size : ℕ
  digest : String
  deriving DecidableEq

/-- `storage_token`. -/
def storageToken (stat : Stat) : Option Bytes → StorageToken
  | none => ⟨{}, 0, ""⟩
  | some main => ⟨stat, main.length, H.sha256 main⟩

/-! ## Indexes -/

/-- Who has a value: a stored event or a planned one. -/
inductive Owner where
  | existing (seq : ℕ)
  | planned (i : ℕ)
  deriving DecidableEq

/-- The owners of the values of some fields. -/
abbrev SemanticIndex := Py.Dict (String × String) (List Owner)

/-- A non-empty `str` under the field. -/
def uniqueValue (payload : Fields) (field : String) : Option String :=
  (Json.get payload field).asStr.filter (· != "")

/-- The values of one event. -/
def indexEvent (eventType : String) (fields : List String) (owners : SemanticIndex)
    (e : SpineEvent) : SemanticIndex :=
  if e.type = eventType then
    fields.foldl (fun owners field =>
      match uniqueValue e.payload field with
      | some value => owners.addTo (field, value) (.existing e.seq)
      | none => owners) owners
  else owners

def indexEvents (eventType : String) (fields : List String) (owners : SemanticIndex)
    (events : List SpineEvent) : SemanticIndex :=
  events.foldl (indexEvent eventType fields) owners

/-- `{event.event_id: event for event in events}`, after `byId`. -/
def indexIds (byId : Py.Dict String SpineEvent) (events : List SpineEvent) :
    Py.Dict String SpineEvent :=
  events.foldl (fun d e => d.set e.contentHash e) byId

/-! ## The caches -/

/-- The cached attributes of an instance. -/
structure VerifiedCache where
  token : Option StorageToken := none
  events : List SpineEvent := []
  byId : Py.Dict String SpineEvent := []
  semantic : Py.Dict (String × List String) SemanticIndex := []

/-- A log that is not cached. -/
def oversize (events : List SpineEvent) (size : ℕ) : Bool :=
  maxSpineVerifiedCacheEvents < events.length || maxSpineVerifiedCacheBytes < size

/-- `==` of two tuples of events. -/
def eqvEvents : List SpineEvent → List SpineEvent → Bool
  | [], [] => true
  | e :: es, f :: fs => e.eqv f && eqvEvents es fs
  | _, _ => false

/-- `_remember_verified_unlocked`. -/
def remember (c : VerifiedCache) (events : List SpineEvent) (token : StorageToken) :
    VerifiedCache :=
  if oversize events token.size then {}
  else if c.events.length ≤ events.length && eqvEvents (events.take c.events.length) c.events then
    let appended := events.drop c.events.length
    { token := some token
      events := events
      byId := indexIds c.byId appended
      semantic := c.semantic.map fun p => (p.1, indexEvents p.1.1 p.1.2 p.2 appended) }
  else { token := some token, events := events, byId := indexIds [] events }

/-- `_verified_events_cached_unlocked`, of a file that does not change meanwhile. -/
def verifiedEventsCached (c : VerifiedCache) (stat : Stat) (main : Option Bytes) :
    Except String (List SpineEvent) × VerifiedCache :=
  let token := storageToken H stat main
  if c.token = some token then (.ok c.events, c)
  else
    match verifiedEvents H none main with
    | .error reason => (.error reason, {})
    | .ok events => (.ok events, remember c events token)

/-- `_semantic_index_unlocked`. -/
def semanticIndex (c : VerifiedCache) (eventType : String) (fields : List String)
    (events : List SpineEvent) : SemanticIndex × VerifiedCache :=
  match c.semantic.get (eventType, fields) with
  | some retained => (retained, c)
  | none =>
    let retained := indexEvents eventType fields [] events
    if c.token.isSome then
      -- the oldest shape makes room
      let semantic : Py.Dict (String × List String) SemanticIndex :=
        if maxSpineSemanticIndexShapes ≤ c.semantic.length then c.semantic.tail else c.semantic
      (retained, { c with semantic := semantic.set (eventType, fields) retained })
    else (retained, c)

/-- `_snapshot_event`: the wire form read back, with sorted keys. -/
def snapshotEvent (e : SpineEvent) : SpineEvent :=
  { e with payload := (Json.obj e.payload).norm.fields }

/-! ## What the caches hold -/

variable {H}

theorem indexEvents_append (eventType : String) (fields : List String) (owners : SemanticIndex)
    (es fs : List SpineEvent) : indexEvents eventType fields owners (es ++ fs) =
      indexEvents eventType fields (indexEvents eventType fields owners es) fs :=
  List.foldl_append

theorem indexIds_append (byId : Py.Dict String SpineEvent) (es fs : List SpineEvent) :
    indexIds byId (es ++ fs) = indexIds (indexIds byId es) fs :=
  List.foldl_append

theorem get_indexIds (byId : Py.Dict String SpineEvent) (es : List SpineEvent) (id : String) :
    (indexIds byId es).get id =
      (es.reverse.find? fun e => e.contentHash == id).or (byId.get id) := by
  have := Dict.get_foldl_set es SpineEvent.contentHash (fun e => e) byId id
  rwa [Option.map_id'] at this

/-- Contents of the file that its tokens and its events tell apart. -/
structure Separate (H : Host) (past : List (Option Bytes)) : Prop where
  /-- contents with one token have the same bytes -/
  files : ∀ m ∈ past, ∀ m' ∈ past, ∀ s s', storageToken H s m = storageToken H s' m' →
    m.getD [] = m'.getD []
  /-- equal events at one place of two contents have one wire form -/
  events : ∀ m ∈ past, ∀ m' ∈ past, ∀ es es', verifiedEvents H none m = .ok es →
    verifiedEvents H none m' = .ok es' → ∀ (i : ℕ) e e', es[i]? = some e → es'[i]? = some e' →
      e.eqv e' = true → snapshotEvent e = snapshotEvent e'

/-- The caches of an instance: the events of a content that the file has had,
    and their indexes. -/
structure CacheOk (H : Host) (past : List (Option Bytes)) (c : VerifiedCache) : Prop where
  origin : c.events = [] ∨ ∃ m ∈ past, verifiedEvents H none m = .ok c.events
  token : ∀ t, c.token = some t → oversize c.events t.size = false ∧
    ∃ m ∈ past, ∃ s, t = storageToken H s m ∧ verifiedEvents H none m = .ok c.events
  byId : ∀ id, (c.byId.get id).map snapshotEvent =
    ((indexIds [] c.events).get id).map snapshotEvent
  semantic : ∀ p ∈ c.semantic, p.2 = indexEvents p.1.1 p.1.2 [] c.events

theorem cacheOk_empty (past : List (Option Bytes)) : CacheOk H past {} :=
  ⟨.inl rfl, by simp, by simp [indexIds], by simp⟩

theorem CacheOk.mono {past past' : List (Option Bytes)} (hp : ∀ m ∈ past, m ∈ past')
    {c : VerifiedCache} (h : CacheOk H past c) : CacheOk H past' c := by
  refine ⟨h.origin.imp_right fun ⟨m, hm, he⟩ => ⟨m, hp m hm, he⟩, fun t ht => ?_, h.byId,
    h.semantic⟩
  obtain ⟨ho, m, hm, hs⟩ := h.token t ht
  exact ⟨ho, m, hp m hm, hs⟩

theorem Separate.mono {past past' : List (Option Bytes)} (hp : ∀ m ∈ past, m ∈ past')
    (h : Separate H past') : Separate H past :=
  ⟨fun m hm m' hm' => h.files m (hp m hm) m' (hp m' hm'),
    fun m hm m' hm' => h.events m (hp m hm) m' (hp m' hm')⟩

/-- Without its token a cache is as good as before. -/
theorem CacheOk.forget {past : List (Option Bytes)} {c : VerifiedCache} (h : CacheOk H past c) :
    CacheOk H past { c with token := none } :=
  ⟨h.origin, by simp, h.byId, h.semantic⟩

theorem getElem?_of_eqvEvents {es fs : List SpineEvent} (h : eqvEvents es fs = true) :
    es.length = fs.length ∧ ∀ (i : ℕ) e f, es[i]? = some e → fs[i]? = some f → e.eqv f = true := by
  induction es generalizing fs with
  | nil =>
    cases fs with
    | nil => simp
    | cons f fs => cases h
  | cons e es ih =>
    cases fs with
    | nil => cases h
    | cons f fs =>
      rw [eqvEvents, Bool.and_eq_true] at h
      obtain ⟨hlen, hall⟩ := ih h.2
      refine ⟨by simp [hlen], fun i x y hx hy => ?_⟩
      cases i with
      | zero =>
        obtain rfl : e = x := by simpa using hx
        obtain rfl : f = y := by simpa using hy
        exact h.1
      | succ i => exact hall i x y (by simpa using hx) (by simpa using hy)

/-! ## Verified events -/

/-- What the verification ensures of an event. -/
structure Verified (H : Host) (e : SpineEvent) : Prop where
  verifies : verifyEvent H e = .ok ()
  wf : (Json.obj e.payload).wf = true

theorem wf_fields {j : Json} (h : j.wf = true) : (Json.obj j.fields).wf = true := by
  cases j with
  | obj kvs => exact h
  | _ => rfl

theorem wf_decodeLine {raw : Bytes} {n : ℕ} {e : SpineEvent} (h : decodeLine raw n = .ok e) :
    (Json.obj e.payload).wf = true := by
  simp only [decodeLine, bind_eq_ok, expect_eq_ok, mapError_eq_ok] at h
  obtain ⟨_, -, doc, hdoc, h⟩ := h
  obtain ⟨cs, -, hload⟩ := Option.bind_eq_some_iff.1 hdoc
  have hwf := wf_fields (wf_loads hload)
  simp only [SpineEvent.fromDict, bind_eq_ok, pure_eq_ok] at h
  obtain ⟨_, -, _, -, _, -, _, -, _, -, _, -, _, -, _, -, _, -, _, -, rfl⟩ := h
  exact wf_fields (Json.wf_get hwf _)

theorem verified_scanLine {n : ℕ} {events events' : List SpineEvent} {raw : Bytes}
    (h : scanLine H n events raw = .ok events') (he : ∀ e ∈ events, Verified H e) :
    ∀ e ∈ events', Verified H e := by
  simp only [scanLine, bind_eq_ok, require_eq_ok] at h
  obtain ⟨_, -, h⟩ := h
  split_ifs at h
  · cases h
    exact he
  · simp only [bind_eq_ok, require_eq_ok, mapError_eq_ok, pure_eq_ok] at h
    obtain ⟨e, hdec, _, -, _, -, _, hver, rfl⟩ := h
    intro x hx
    rcases List.mem_append.1 hx with hx | hx
    · exact he x hx
    · rw [List.mem_singleton.1 hx]
      exact ⟨hver, wf_decodeLine hdec⟩

theorem verified_scanFrom {xs : List Bytes} {n c : ℕ} {events events' : List SpineEvent}
    (h : scanFrom H none n c events xs = .ok events') (he : ∀ e ∈ events, Verified H e) :
    ∀ e ∈ events', Verified H e := by
  induction xs generalizing n c events with
  | nil =>
    simp only [scanFrom, Option.all_none, require, if_true, ok_bind, pure_eq_ok] at h
    exact h ▸ he
  | cons raw xs ih =>
    obtain ⟨-, next, hl, h⟩ := scanFrom_cons_eq_ok.1 h
    exact ih h (verified_scanLine hl he)

theorem verified_of_verifiedEvents {main : Option Bytes} {events : List SpineEvent}
    (h : verifiedEvents H none main = .ok events) : ∀ e ∈ events, Verified H e :=
  verified_scanFrom (verifiedEvents_none.1 h) (by simp)

/-! ## The indexes of equal events -/

theorem uniqueValue_snapshotEvent {e : SpineEvent} (h : (Json.obj e.payload).wf = true)
    (field : String) :
    uniqueValue (snapshotEvent e).payload field = uniqueValue e.payload field := by
  rw [uniqueValue, uniqueValue, snapshotEvent, Json.get_norm (Json.wf_obj.1 h).1]
  cases Json.get e.payload field <;> rfl

theorem indexEvents_map_snapshotEvent (eventType : String) (fields : List String)
    (owners : SemanticIndex) {es : List SpineEvent} (h : ∀ e ∈ es, Verified H e) :
    indexEvents eventType fields owners (es.map snapshotEvent) =
      indexEvents eventType fields owners es := by
  induction es generalizing owners with
  | nil => rfl
  | cons e es ih =>
    have he : indexEvent eventType fields owners (snapshotEvent e) =
        indexEvent eventType fields owners e := by
      simp only [indexEvent, uniqueValue_snapshotEvent (h e (by simp)).wf]
      rfl
    simp only [indexEvents, List.map_cons, List.foldl_cons, he]
    exact ih _ fun x hx => h x (by simp [hx])

theorem get_indexIds_map_snapshotEvent (byId : Py.Dict String SpineEvent) (es : List SpineEvent)
    (id : String) : ((indexIds byId es).get id).map snapshotEvent =
      ((es.map snapshotEvent).reverse.find? fun e => e.contentHash == id).or
        ((byId.get id).map snapshotEvent) := by
  have hcomp : ((fun e : SpineEvent => e.contentHash == id) ∘ snapshotEvent) =
      fun e => e.contentHash == id := rfl
  rw [get_indexIds, ← List.map_reverse, List.find?_map, hcomp]
  cases es.reverse.find? fun e => e.contentHash == id <;> rfl

/-! ## Extending the caches -/

/-- Events equal to the first ones of a content have their wire forms. -/
theorem map_snapshotEvent_take {past : List (Option Bytes)} (hsep : Separate H past)
    {c : VerifiedCache} (h : CacheOk H past c) {m : Option Bytes} (hm : m ∈ past)
    {events : List SpineEvent} (hv : verifiedEvents H none m = .ok events)
    (heq : eqvEvents (events.take c.events.length) c.events = true) :
    (events.take c.events.length).map snapshotEvent = c.events.map snapshotEvent := by
  obtain ⟨hlen, hall⟩ := getElem?_of_eqvEvents heq
  refine List.ext_getElem? fun i => ?_
  rw [List.getElem?_map, List.getElem?_map]
  rcases Nat.lt_or_ge i c.events.length with hi | hi
  · obtain ⟨e, he⟩ : ∃ e, (events.take c.events.length)[i]? = some e :=
      ⟨_, List.getElem?_eq_getElem (by rw [hlen]; exact hi)⟩
    obtain ⟨f, hf⟩ : ∃ f, c.events[i]? = some f := ⟨_, List.getElem?_eq_getElem hi⟩
    have he' : events[i]? = some e := by
      rw [List.getElem?_take_of_lt hi] at he
      exact he
    rw [he, hf, Option.map_some, Option.map_some, Option.some_inj]
    rcases h.origin with hnil | ⟨m', hm', hv'⟩
    · rw [hnil] at hi
      cases hi
    · exact hsep.events m hm m' hm' _ _ hv hv' i e f he' hf (hall i e f he hf)
  · rw [List.getElem?_eq_none (by rw [hlen]; exact hi), List.getElem?_eq_none hi]

/-- Remembering the events of a content keeps the caches right. -/
theorem cacheOk_remember {past : List (Option Bytes)} (hsep : Separate H past) {c : VerifiedCache}
    (h : CacheOk H past c) {m : Option Bytes} (hm : m ∈ past) {events : List SpineEvent}
    (hv : verifiedEvents H none m = .ok events) (s : Stat) :
    CacheOk H past (remember c events (storageToken H s m)) := by
  unfold remember
  split_ifs with ho hext
  · exact cacheOk_empty past
  · have ho : oversize events (storageToken H s m).size = false := by simpa using ho
    rw [Bool.and_eq_true] at hext
    have hmap := map_snapshotEvent_take hsep h hm hv hext.2
    have hver := verified_of_verifiedEvents hv
    have hsplit := List.take_append_drop c.events.length events
    have hver' : ∀ e ∈ c.events, Verified H e := by
      rcases h.origin with hnil | ⟨m', -, hv'⟩
      · simp [hnil]
      · exact verified_of_verifiedEvents hv'
    refine ⟨.inr ⟨m, hm, hv⟩, ?_, fun id => ?_, fun p hp => ?_⟩
    · rintro t ⟨⟩
      exact ⟨ho, m, hm, s, rfl, hv⟩
    · conv_rhs => rw [← hsplit, indexIds_append]
      rw [get_indexIds_map_snapshotEvent, get_indexIds_map_snapshotEvent, h.byId id,
        get_indexIds_map_snapshotEvent, get_indexIds_map_snapshotEvent, hmap]
    · obtain ⟨q, hq, rfl⟩ := List.mem_map.1 hp
      have htake : indexEvents q.1.1 q.1.2 [] (events.take c.events.length) = q.2 := by
        rw [h.semantic q hq, ← indexEvents_map_snapshotEvent q.1.1 q.1.2 [] hver', ← hmap,
          indexEvents_map_snapshotEvent q.1.1 q.1.2 [] fun e he => hver e (List.mem_of_mem_take he)]
      conv_rhs => rw [← hsplit, indexEvents_append, htake]
  · have ho : oversize events (storageToken H s m).size = false := by simpa using ho
    refine ⟨.inr ⟨m, hm, hv⟩, ?_, fun id => rfl, by simp⟩
    rintro t ⟨⟩
    exact ⟨ho, m, hm, s, rfl, hv⟩

/-! ## Cached reads -/

/-- The caches after a read of `events` from the content `main`. -/
structure Loaded (H : Host) (past : List (Option Bytes)) (s : Stat) (main : Option Bytes)
    (events : List SpineEvent) (c : VerifiedCache) : Prop where
  ok : CacheOk H past c
  verified : verifiedEvents H none main = .ok events
  held : if oversize events (storageToken H s main).size then c = {}
    else c.events = events ∧ c.token = some (storageToken H s main)

theorem loaded_remember {past : List (Option Bytes)} (hsep : Separate H past) {c : VerifiedCache}
    (h : CacheOk H past c) {m : Option Bytes} (hm : m ∈ past) {events : List SpineEvent}
    (hv : verifiedEvents H none m = .ok events) (s : Stat) :
    Loaded H past s m events (remember c events (storageToken H s m)) := by
  refine ⟨cacheOk_remember hsep h hm hv s, hv, ?_⟩
  unfold remember
  split_ifs <;> simp

/-- **A cached read is a full verification**: it fails with the same reason, or
    returns the events of the content. -/
theorem verifiedEventsCached_spec {past : List (Option Bytes)} (hsep : Separate H past)
    {c : VerifiedCache} (h : CacheOk H past c) {m : Option Bytes} (hm : m ∈ past) (s : Stat) :
    (verifiedEventsCached H c s m).1 = verifiedEvents H none m ∧
      CacheOk H past (verifiedEventsCached H c s m).2 ∧
      ∀ events, verifiedEvents H none m = .ok events →
        Loaded H past s m events (verifiedEventsCached H c s m).2 := by
  unfold verifiedEventsCached
  by_cases ht : c.token = some (storageToken H s m)
  · obtain ⟨ho, m', hm', s', htok, hv⟩ := h.token _ ht
    have hbytes := hsep.files m hm m' hm' s s' htok
    have hv' : verifiedEvents H none m = .ok c.events := by
      rw [verifiedEvents_none] at hv ⊢
      rwa [hbytes]
    simp only [ht, if_true]
    refine ⟨hv'.symm, h, fun events hev => ?_⟩
    obtain rfl := Except.ok.inj (hv'.symm.trans hev)
    exact ⟨h, hv', by rw [ho]; exact ⟨rfl, ht⟩⟩
  · simp only [ht, if_false]
    cases hv : verifiedEvents H none m with
    | error reason => exact ⟨rfl, cacheOk_empty past, fun events hev => by cases hev⟩
    | ok events =>
      refine ⟨rfl, cacheOk_remember hsep h hm hv s, fun events' hev => ?_⟩
      obtain rfl := Except.ok.inj hev
      exact loaded_remember hsep h hm hv s

namespace Loaded

variable {past : List (Option Bytes)} {s : Stat} {main : Option Bytes} {events : List SpineEvent}
  {c : VerifiedCache}

/-- The semantic index is that of the events. -/
theorem semanticIndex_eq (h : Loaded H past s main events c) (eventType : String)
    (fields : List String) :
    (semanticIndex c eventType fields events).1 = indexEvents eventType fields [] events := by
  unfold semanticIndex
  cases hg : c.semantic.get (eventType, fields) with
  | none =>
    simp only
    split_ifs <;> rfl
  | some retained =>
    have hheld := h.held
    split_ifs at hheld
    · rw [hheld] at hg
      cases hg
    · exact hheld.1 ▸ h.ok.semantic _ (Dict.mem_of_get hg)

/-- Keeping a new index keeps the caches right. -/
theorem cacheOk_semanticIndex (h : Loaded H past s main events c) (eventType : String)
    (fields : List String) : CacheOk H past (semanticIndex c eventType fields events).2 := by
  have hset : c.events = events → ∀ kept : Py.Dict (String × List String) SemanticIndex,
      (∀ p ∈ kept, p ∈ c.semantic) → CacheOk H past { c with
        semantic := kept.set (eventType, fields) (indexEvents eventType fields [] events) } := by
    intro he kept hkept
    refine ⟨h.ok.origin, h.ok.token, h.ok.byId, fun p hp => ?_⟩
    rcases Dict.mem_set hp with hp | rfl
    · exact h.ok.semantic p (hkept p hp)
    · rw [he]
  unfold semanticIndex
  cases hg : c.semantic.get (eventType, fields) with
  | some retained => exact h.ok
  | none =>
    simp only
    have hheld := h.held
    split_ifs at hheld
    · rw [hheld]
      exact cacheOk_empty past
    · rw [hheld.2, Option.isSome_some, if_pos rfl]
      split_ifs
      · exact hheld.2 ▸ hset hheld.1 _ fun p hp => List.mem_of_mem_tail hp
      · exact hheld.2 ▸ hset hheld.1 _ fun p hp => hp

end Loaded

end NthDao
