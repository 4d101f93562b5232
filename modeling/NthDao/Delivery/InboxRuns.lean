/-
  Runs of the delivery inbox.

  Any number of processes open the inbox of a workspace and call it in any order,
  each call one step under the lock of the journal.  A process that starts again
  is a new process.

  * `InboxWorld.step`: a process starts, or makes a call; `log` is what has happened
    to the messages, and `replay log` the entries that are left of it;
  * `CacheFolds`: the journal folds to the maps of the entries, if it folds at all; with
    `strict` it does;
  * `Logged`: what a call does to the log;
  * `InboxWorld.Inv` and `inv_step`: the invariant of the runs.
-/
import NthDao.Delivery.InboxFold
import NthDao.Reach

namespace NthDao

namespace Delivery

open Py

variable (H : Host)

/-! ## Calls -/

/-- The calls of an inbox. -/
inductive InboxCall where
  | accept (source : InboxSource) (now : ℤ)
  | markProcessed (id : String)
  | pending (maxItems : ℕ)
  | acceptedAt (id : String)
  | entryCount
  | seen (id : String)

/-- The arguments are values of the interpreter. -/
def InboxCall.wf : InboxCall → Bool
  | .accept source _ => source.wf
  | _ => true

/-- What a call returns. -/
inductive InboxReply where
  | decision (d : InboxDecision)
  | flag (b : Bool)
  | envelopes (es : List TransportEnvelope)
  | time (t : Option ℤ)
  | count (n : ℕ)

/-- What happens to a message. -/
inductive InboxEvent where
  | accepted (a : Admitted) (atMs : ℤ)
  | evicted (id : String) (key : String × String)
  | processed (id : String)

namespace Inbox

/-- The body of a call under the lock: its reply, and what it did. -/
abbrev Body := Inbox → JournalFile →
  Except InboxFault (Inbox × JournalFile × (InboxReply × List InboxEvent))

/-- A body that only reads. -/
def reading {α : Type} (reply : α → InboxReply)
    (body : Inbox → JournalFile → Except InboxFault (Inbox × JournalFile × α)) : Body :=
  fun i f => (body i f).map fun s => (s.1, s.2.1, (reply s.2.2, []))

def acceptBody (a : Admitted) (now : ℤ) : Body := fun i f =>
  (acceptLocked a now i f).map fun s => (s.1, s.2.1, (.decision s.2.2.1,
    if s.2.2.1.accepted then s.2.2.2.toList.map (fun p => .evicted p.1 p.2) ++ [.accepted a now]
    else []))

def markBody (id : String) : Body := fun i f =>
  (markLocked id i f).map fun s => (s.1, s.2.1, (.flag s.2.2, if s.2.2 then [.processed id] else []))

def pendingBody (maxItems : ℕ) : Body := fun i f => do
  let s ← pendingLocked maxItems i f
  let es ← readPending s.2.2
  return (s.1, s.2.1, (.envelopes es, []))

/-- What a call does: what it returns before the lock, or its body. -/
def body (i : Inbox) : InboxCall → Except (Except InboxFault InboxReply) Body
  | .accept source now =>
    match acceptArgs H i.authorize source now with
    | .error d => .error (.ok (.decision d))
    | .ok a => .ok (acceptBody a now)
  | .markProcessed id =>
    if isDigest id then .ok (markBody id)
    else .error (.error (.error "message_id is not a content address"))
  | .pending maxItems =>
    if 1 ≤ maxItems then .ok (pendingBody maxItems)
    else .error (.error (.error "max_items must be a positive integer"))
  | .acceptedAt id =>
    if isDigest id then .ok (reading .time (acceptedAtLocked id))
    else .error (.error (.error "message_id is not a content address"))
  | .entryCount => .ok (reading .count countLocked)
  | .seen id => .ok (reading .flag (seenLocked id))

/-- One call: the process and the file after it, its reply, and what it did. -/
def call (i : Inbox) (f : JournalFile) (c : InboxCall) :
    (Inbox × JournalFile) × Except InboxFault InboxReply × List InboxEvent :=
  match body H i c with
  | .error r => ((i, f), r, [])
  | .ok b => match locked H i f b with
    | (s, .error e) => (s, .error e, [])
    | (s, .ok (r, events)) => (s, .ok r, events)

end Inbox

/-! ## Runs -/

/-- The journal, the processes, and what has happened. -/
structure InboxWorld where
  file : JournalFile := {}
  procs : List Inbox := []
  log : List InboxEvent := []

/-- What the processes do. -/
inductive InboxAct where
  | start (maxEntries : ℕ) (authorize : Option (TransportEnvelope → Option (Bool × String)))
  | call (i : ℕ) (c : InboxCall)

/-- One action; a process whose construction raises is not there. -/
def InboxWorld.step (w : InboxWorld) : InboxAct → Option InboxWorld
  | .start maxEntries authorize =>
    if 1 ≤ maxEntries then
      match Inbox.load H { maxEntries := maxEntries, authorize := authorize } w.file with
      | ((i, f), .ok ()) => some { w with file := f, procs := w.procs ++ [i] }
      | ((_, f), .error _) => some { w with file := f }
    else none
  | .call i c =>
    match w.procs[i]? with
    | none => none
    | some p =>
      if c.wf then
        let r := p.call H w.file c
        some { file := r.1.2, procs := w.procs.set i r.1.1, log := w.log ++ r.2.2 }
      else none

/-! ## The entries of a log -/

/-- The entry of an accepted message. -/
def Admitted.entry (a : Admitted) (atMs : ℤ) : Entry :=
  { messageId := a.id, sender := a.sender, nonce := a.nonce, atMs := atMs, pending := some a.json }

/-- One event of the log. -/
def Entries.after (es : Entries) : InboxEvent → Entries
  | .accepted a atMs => es ++ [a.entry atMs]
  | .evicted id _ => es.drop id
  | .processed id => es.finish id

/-- What is left of a log. -/
def replay (log : List InboxEvent) : Entries := log.foldl Entries.after []

theorem replay_append (log events : List InboxEvent) :
    replay (log ++ events) = events.foldl Entries.after (replay log) := List.foldl_append

/-! ## The journal -/

variable {strict : Prop}

/-- The journal folds to the maps of `es` if it folds at all, and then no entry has
    a negative time; with `strict` it does. -/
structure CacheFolds (strict : Prop) (f : JournalFile) (es : Entries) : Prop where
  tail : Jsonl.tail f.bytes = []
  distinct : es.Distinct
  sound : ∀ e ∈ es, e.Sound H
  eq : ∀ c, (inboxReader H).load f.bytes {} = .ok c → c = Cache.of es ∧ ∀ e ∈ es, 0 ≤ e.atMs
  ok : strict → (inboxReader H).load f.bytes {} = .ok (Cache.of es)
  times : strict → ∀ e ∈ es, 1 ≤ e.atMs

variable {H}

theorem inbox_load_append {raw : Bytes} (ht : Jsonl.tail raw = []) (events : List Fields)
    (hflat : ∀ e ∈ events, Json.flat e = true)
    (he : ∀ e ∈ events, (Json.obj e).encodable = true) :
    (inboxReader H).load (raw ++ Jsonl.eventsText events) {} =
      ((inboxReader H).load raw {} >>= foldCaches H events) ∧
    Jsonl.tail (raw ++ Jsonl.eventsText events) = [] :=
  (inboxReader H).load_append_flat (f := foldCache H) (fun _ _ _ => rfl)
    (fun c h => foldCache_congr h c) ht hflat he {}

namespace CacheFolds

variable {f : JournalFile} {es : Entries}

/-- An event appended to the journal. -/
theorem append (h : CacheFolds H strict f es) {event : Fields} (hflat : Json.flat event = true)
    (he : (Json.obj event).encodable = true) {es' : Entries} (hd : es'.Distinct)
    (hs : ∀ e ∈ es', e.Sound H) (ht : strict → ∀ e ∈ es', 1 ≤ e.atMs)
    (heq : ∀ c, foldCache H event (Cache.of es) = .ok c → (∀ e ∈ es, 0 ≤ e.atMs) →
      c = Cache.of es' ∧ ∀ e ∈ es', 0 ≤ e.atMs)
    (hok : strict → foldCache H event (Cache.of es) = .ok (Cache.of es')) :
    CacheFolds H strict (f.write (f.bytes ++ Jsonl.eventsText [event])) es' := by
  obtain ⟨hload, htail⟩ := inbox_load_append (H := H) h.tail [event]
    (by simpa using hflat) (by simpa using he)
  have hone : ∀ c, foldCaches H [event] c = foldCache H event c := by
    intro c
    rw [foldCaches, List.foldlM_cons]
    cases foldCache H event c <;> rfl
  refine ⟨htail, hd, hs, fun c hc => ?_, fun hstrict => ?_, ht⟩
  · rw [bytes_write, hload, bind_eq_ok] at hc
    obtain ⟨c₀, hc₀, hc⟩ := hc
    obtain ⟨hof, hpos⟩ := h.eq c₀ hc₀
    rw [hof, hone] at hc
    exact heq c hc hpos
  · rw [bytes_write, hload, h.ok hstrict, ok_bind, hone, hok hstrict]

/-- A compacted journal. -/
theorem compact (h : CacheFolds H strict f es) :
    CacheFolds H strict (f.write (Jsonl.eventsText (es.map Entry.event))) es := by
  obtain ⟨hload, htail⟩ := inbox_load_append (H := H) (show Jsonl.tail [] = [] from rfl)
    (es.map Entry.event)
    (by simpa using fun e _ => flat_event e) (by simpa using fun e he => encodable_event (h.sound e he))
  rw [List.nil_append, Jsonl.Reader.load_nil, ok_bind] at hload
  refine ⟨htail, h.distinct, h.sound, fun c hc => ?_, fun hstrict => ?_, h.times⟩
  · rw [bytes_write, hload] at hc
    exact foldCaches_compact [] h.sound h.distinct hc
  · rw [bytes_write, hload]
    exact foldCaches_compact_ok [] h.sound h.distinct
      fun e he => (by decide : (0 : ℤ) ≤ 1).trans (h.times hstrict e he)

end CacheFolds

variable (H) in
/-- A process that holds the entries of the journal. -/
structure Holds (strict : Prop) (i : Inbox) (f : JournalFile) (es : Entries) : Prop where
  folds : CacheFolds H strict f es
  cache : i.cache = Cache.of es
  stat : i.cacheStat = f.stat

/-! ## Writes -/

theorem encodeEvents_eq_ok {events : List Fields} {raw : Bytes} (h : encodeEvents events = .ok raw) :
    (∀ e ∈ events, (Json.obj e).encodable = true) ∧ raw = Jsonl.eventsText events := by
  simp only [encodeEvents, bind_eq_ok, expect_eq_ok, pure_eq_ok] at h
  obtain ⟨lines, hl, rfl⟩ := h
  exact canonical_lines hl

theorem encodeEvents_of {events : List Fields} (h : ∀ e ∈ events, (Json.obj e).encodable = true) :
    encodeEvents events = .ok (Jsonl.eventsText events) := by
  obtain ⟨lines, hl⟩ := exists_canonical_lines h
  simp only [encodeEvents, bind_eq_ok, expect_eq_ok, pure_eq_ok]
  exact ⟨lines, hl, (canonical_lines hl).2⟩

/-- What a process is opened with. -/
def Inbox.config (i : Inbox) : ℕ × Option (TransportEnvelope → Option (Bool × String)) :=
  (i.maxEntries, i.authorize)

/-- **A compaction** keeps the entries. -/
theorem compactJournal_of {i : Inbox} {f : JournalFile} {es : Entries}
    (h : CacheFolds H strict f es) (hc : i.cache = Cache.of es) :
    ∃ i' f', i.compactJournal f = .ok (i', f') ∧ Holds H strict i' f' es ∧ Newer f f' ∧
      i'.config = i.config := by
  have henc : encodeEvents (i.cache.byMessageId.map (compactEvent i.cache)) =
      .ok (Jsonl.eventsText (es.map Entry.event)) := by
    rw [hc, map_compactEvent h.distinct]
    exact encodeEvents_of (by simpa using fun e he => encodable_event (h.sound e he))
  refine ⟨{ i with cacheStat := (f.write (Jsonl.eventsText (es.map Entry.event))).stat },
    f.write (Jsonl.eventsText (es.map Entry.event)), ?_, ⟨h.compact, hc, rfl⟩, .inr (written_write _ _),
    rfl⟩
  rw [Inbox.compactJournal, henc]
  rfl

theorem compactIfOversized_ok {i i' : Inbox} {f f' : JournalFile} {es : Entries}
    (h : Holds H strict i f es) (hc : i.compactIfOversized f = .ok (i', f')) :
    Holds H strict i' f' es ∧ Newer f f' ∧ i'.config = i.config := by
  unfold Inbox.compactIfOversized at hc
  split_ifs at hc
  · obtain ⟨i₁, f₁, hok, hs, hn, hcfg⟩ := compactJournal_of h.folds h.cache
    rw [hok] at hc
    cases hc
    exact ⟨hs, hn, hcfg⟩
  · cases hc
    exact ⟨h, .inl rfl, rfl⟩

/-- A process that holds the entries can compact. -/
theorem compactIfOversized_isOk {i : Inbox} {f : JournalFile} {es : Entries}
    (h : Holds H strict i f es) : ∃ s, i.compactIfOversized f = .ok s := by
  unfold Inbox.compactIfOversized
  split_ifs
  · obtain ⟨i₁, f₁, hok, -⟩ := compactJournal_of h.folds h.cache
    exact ⟨_, hok⟩
  · exact ⟨_, rfl⟩

/-- **A process reads the journal**: it holds the entries, or the journal does not
    fold. -/
theorem load_of {f : JournalFile} {es : Entries} (h : CacheFolds H strict f es) (i : Inbox) :
    (∃ i' f', Inbox.load H i f = ((i', f'), .ok ()) ∧ Holds H strict i' f' es ∧ Newer f f' ∧
      i'.config = i.config) ∨
    (¬strict ∧ ∃ e, Inbox.load H i f = (({ i with cache := {} }, f), .error e)) := by
  unfold Inbox.load
  cases hj : f.journal with
  | none =>
    left
    have hb : f.bytes = [] := by rw [JournalFile.bytes, hj]; rfl
    have hes : Cache.of es = {} := (h.eq {} (by rw [hb, Jsonl.Reader.load_nil])).1.symm
    exact ⟨_, _, rfl, ⟨h, hes.symm, (stat_eq_none.2 hj).symm⟩, .inl rfl, rfl⟩
  | some raw =>
    have hb : f.bytes = raw := by rw [JournalFile.bytes, hj]; rfl
    cases hl : (inboxReader H).load raw {} with
    | error e =>
      refine .inr ⟨fun hs => ?_, .corrupt e, by simp only [hl]⟩
      have := h.ok hs
      rw [hb, hl] at this
      cases this
    | ok c =>
      left
      obtain rfl : c = Cache.of es := (h.eq c (hb ▸ hl)).1
      simp only [hl]
      split_ifs with hlen
      · obtain ⟨i', f', hok, hs, hn, hcfg⟩ := compactJournal_of (i := { i with cache := Cache.of es })
          h rfl
        rw [hok]
        exact ⟨i', f', rfl, hs, hn, hcfg⟩
      · exact ⟨_, _, rfl, ⟨h, rfl, rfl⟩, .inl rfl, rfl⟩

/-! ## The effect of a call -/

variable (H) in
/-- What a call of a process with `maxEntries` does to the log. -/
inductive Logged (strict : Prop) (maxEntries : ℕ) (es : Entries) : List InboxEvent → Prop
  | none : Logged strict maxEntries es []
  | accepted {a : Admitted} {now : ℤ} : a.Facts H → a.id ∉ es.ids → (a.sender, a.nonce) ∉ es.keys →
      (strict → 1 ≤ now) → es.length < maxEntries →
      Logged strict maxEntries es [.accepted a now]
  | replaced {a : Admitted} {now : ℤ} {e : Entry} : a.Facts H → a.id ∉ es.ids →
      (a.sender, a.nonce) ∉ es.keys → (strict → 1 ≤ now) → maxEntries ≤ es.length → e ∈ es →
      e.pending = none → Logged strict maxEntries es [.evicted e.messageId e.key, .accepted a now]
  | processed {e : Entry} : e ∈ es → e.pending ≠ none →
      Logged strict maxEntries es [.processed e.messageId]

theorem inbox_append_eq_ok {i i' : Inbox} {f f' : JournalFile} {event : Fields}
    (h : i.append f event = .ok (i', f')) : (Json.obj event).encodable = true ∧
      f' = f.write (f.bytes ++ Jsonl.eventsText [event]) ∧
      i' = { i with cacheStat := (f.write (f.bytes ++ Jsonl.eventsText [event])).stat } := by
  simp only [Inbox.append, bind_eq_ok, pure_eq_ok, Prod.mk.injEq] at h
  obtain ⟨line, hl, rfl, rfl⟩ := h
  obtain ⟨henc, rfl⟩ := encodeEvents_eq_ok hl
  exact ⟨henc _ (by simp), rfl, rfl⟩

/-- The message that gives way is the first that is not pending. -/
theorem evictee_ok {i : Inbox} {es : Entries} (hc : i.cache = Cache.of es)
    {evicted : Option (String × (String × String))} (h : i.evictee = .ok evicted) :
    (evicted = none ∧ es.length < i.maxEntries) ∨
      ∃ e ∈ es, evicted = some (e.messageId, e.key) ∧ e.pending = none ∧
        i.maxEntries ≤ es.length := by
  have hlen : i.cache.byMessageId.length = es.length := by
    rw [hc]; exact List.length_map _
  rw [Inbox.evictee, hlen] at h
  split_ifs at h with hfull
  · right
    simp only [bind_eq_ok, expect_eq_ok, pure_eq_ok] at h
    obtain ⟨p, hp, rfl⟩ := h
    have hnot := List.find?_some hp
    obtain ⟨e, he, rfl⟩ := List.mem_map.1 (hc ▸ List.mem_of_find?_eq_some hp)
    refine ⟨e, he, rfl, ?_, hfull⟩
    by_contra hne
    rw [hc, Cache.has_pendingJson.2 ⟨e, he, rfl, hne⟩] at hnot
    cases hnot
  · cases h
    exact .inl ⟨rfl, by omega⟩

theorem accepts_acceptedEvent {a : Admitted} (ha : a.Facts H) (now : ℤ) (evicted : Option String) :
    Accepts H (acceptedEvent a.id a.sender a.nonce now a.json evicted) (a.entry now) evicted := by
  refine ⟨rfl, ?_, rfl, ha.isDigest, rfl, rfl, ?_, rfl, fun json hj => ?_⟩
  · cases evicted <;>
      simp [acceptedEvent, CacheEvent.fieldsOk, acceptedRequired, acceptedOptional]
  · cases evicted <;> rfl
  · cases hj
    exact ⟨_, ha.envelope⟩

theorem flat_acceptedEvent (id sender nonce : String) (now : ℤ) (json : String)
    (evicted : Option String) :
    Json.flat (acceptedEvent id sender nonce now json evicted) = true := by
  cases evicted <;> simp [acceptedEvent, Json.flat, Json.isScalar]

/-- The maps after an acceptance, in the order of the updates in memory. -/
theorem remember_cache {es : Entries} (hd : es.Distinct) {a : Admitted} {now : ℤ}
    (hi : a.id ∉ es.ids) (hk : (a.entry now).key ∉ es.keys)
    {c : Cache} (hc : c = Cache.of es) (evicted : Option (String × (String × String))) :
    (∀ p, evicted = some p → ∃ e ∈ es, p = (e.messageId, e.key)) →
    (match evicted with
      | some (evictedId, key) => Cache.forget
          { c.remember a.id (a.sender, a.nonce) now with
            pendingJson := c.pendingJson.set a.id a.json } evictedId key
      | none => { c.remember a.id (a.sender, a.nonce) now with
            pendingJson := c.pendingJson.set a.id a.json }) =
      Cache.of (es.accept (a.entry now) (evicted.map Prod.fst)) := by
  intro hev
  subst hc
  have hrem : ({ (Cache.of es).remember a.id (a.sender, a.nonce) now with
      pendingJson := (Cache.of es).pendingJson.set a.id a.json } : Cache) =
      Cache.of (es ++ [a.entry now]) :=
    remember_accept (e := a.entry now) hi hk none (by simp) rfl
  rw [hrem]
  cases evicted with
  | none => rfl
  | some p =>
    obtain ⟨e, he, rfl⟩ := hev p rfl
    have hne : a.id ≠ e.messageId := fun h => hi (h ▸ List.mem_map_of_mem he)
    refine (Cache.forget_of (hd.concat hi hk) (List.mem_append_left _ he)).trans ?_
    congr 1
    show List.filter _ (es ++ [a.entry now]) = _
    rw [List.filter_append]
    congr 1
    simpa [Admitted.entry] using hne

theorem foldAcceptedAt_int {now at' : ℤ} (h : foldAcceptedAt (.int now) = .ok at') :
    at' = now ∧ 1 ≤ now := by
  simp only [foldAcceptedAt, Json.asInt, bind_eq_ok, expect_eq_ok, require_eq_ok, pure_eq_ok,
    Option.some.injEq, decide_eq_true_eq] at h
  obtain ⟨_, rfl, _, h1, rfl⟩ := h
  exact ⟨rfl, h1⟩

theorem foldAcceptedAt_of {now : ℤ} (h : 1 ≤ now) : foldAcceptedAt (.int now) = .ok now := by
  simp only [foldAcceptedAt, Json.asInt, bind_eq_ok, expect_eq_ok, require_eq_ok, pure_eq_ok]
  exact ⟨now, rfl, (), by simpa using h, rfl⟩

theorem encodable_acceptedEvent {id sender nonce json : String} {now : ℤ} {evicted : Option String}
    (h : (Json.obj (acceptedEvent id sender nonce now json evicted)).encodable = true) :
    (Json.int now).encodable = true :=
  Json.encodable_obj.1 h ("at_ms", .int now) (by simp [acceptedEvent])

/-- The maps of a process after its acceptance is in the journal. -/
def remembered (a : Admitted) (now : ℤ) (evicted : Option (String × (String × String))) (c : Cache) :
    Cache :=
  let c := { c.remember a.id (a.sender, a.nonce) now with
             pendingJson := c.pendingJson.set a.id a.json }
  match evicted with
  | some (evictedId, key) => c.forget evictedId key
  | none => c

/-- The record of an acceptance is in the journal. -/
theorem holds_remembered {a : Admitted} (ha : a.Facts H) {now : ℤ} (hnow : strict → 1 ≤ now)
    {i i₁ : Inbox} {f f₁ : JournalFile} {es : Entries} (h : Holds H strict i f es)
    (hi : a.id ∉ es.ids) (hk : (a.entry now).key ∉ es.keys)
    {ev : Option (String × (String × String))} (hev : i.evictee = .ok ev)
    (happ : i.append f (acceptedEvent a.id a.sender a.nonce now a.json (ev.map Prod.fst)) =
      .ok (i₁, f₁)) :
    Holds H strict { i₁ with cache := remembered a now ev i₁.cache } f₁
      (es.accept (a.entry now) (ev.map Prod.fst)) ∧ Written f f₁ ∧ i₁.config = i.config := by
  have hd := h.folds.distinct
  obtain ⟨henc, rfl, rfl⟩ := inbox_append_eq_ok happ
  have hcase := evictee_ok h.cache hev
  have hmem : ∀ p, ev = some p → ∃ e ∈ es, p = (e.messageId, e.key) := by
    rintro p rfl
    rcases hcase with ⟨hn, -⟩ | ⟨e, he, hp, -⟩
    · cases hn
    · exact ⟨e, he, Option.some.inj hp⟩
  have hevictable : es.Evictable (ev.map Prod.fst) := by
    intro id hid
    rcases hcase with ⟨rfl, -⟩ | ⟨e, he, rfl, hp, -⟩
    · cases hid
    · cases hid
      exact ⟨e, he, rfl, hp, (h.folds.sound e he).isDigest⟩
  have hfold := foldCache_accepted hd (accepts_acceptedEvent ha now (ev.map Prod.fst)) hevictable hi hk
  have hat : Json.get (acceptedEvent a.id a.sender a.nonce now a.json (ev.map Prod.fst)) "at_ms" =
      .int now := by cases ev <;> rfl
  rw [hat] at hfold
  have hsound : ∀ e ∈ es.accept (a.entry now) (ev.map Prod.fst), e.Sound H := by
    intro e he
    rcases List.mem_append.1 he with he | he
    · exact h.folds.sound e (Entries.mem_evict he)
    · rw [List.mem_singleton.1 he]
      exact ⟨ha.isDigest, fun json hj => by cases hj; exact ⟨_, ha.envelope⟩,
        encodable_acceptedEvent henc⟩
  have htimes : strict → ∀ e ∈ es.accept (a.entry now) (ev.map Prod.fst), 1 ≤ e.atMs := by
    intro hs e he
    rcases List.mem_append.1 he with he | he
    · exact h.folds.times hs e (Entries.mem_evict he)
    · rw [List.mem_singleton.1 he]
      exact hnow hs
  have hnew := h.folds.append (flat_acceptedEvent _ _ _ _ _ _) henc (hd.accept hi hk _) hsound htimes
    (fun c hc hpos => by
      rw [hfold, map_eq_ok] at hc
      obtain ⟨at', hat', rfl⟩ := hc
      obtain ⟨rfl, hone⟩ := foldAcceptedAt_int hat'
      refine ⟨rfl, fun e he => ?_⟩
      rcases List.mem_append.1 he with he | he
      · exact hpos e (Entries.mem_evict he)
      · rw [List.mem_singleton.1 he]
        exact (by decide : (0 : ℤ) ≤ 1).trans hone)
    (fun hs => by rw [hfold, foldAcceptedAt_of (hnow hs)]; rfl)
  exact ⟨⟨hnew, remember_cache hd hi hk h.cache ev hmem, rfl⟩, written_write _ _, rfl⟩

/-- **An acceptance** is one record of the journal and one entry. -/
theorem remember_of_holds {a : Admitted} (ha : a.Facts H) {now : ℤ} (hnow : strict → 1 ≤ now)
    {i i' : Inbox} {f f' : JournalFile} {es : Entries} (h : Holds H strict i f es)
    (hi : a.id ∉ es.ids) (hk : (a.entry now).key ∉ es.keys)
    {evicted : Option (String × (String × String))}
    (hr : Inbox.remember a now i f = .ok (i', f', evicted)) :
    Holds H strict i' f' (es.accept (a.entry now) (evicted.map Prod.fst)) ∧ Written f f' ∧
      i'.config = i.config ∧ Logged H strict i.maxEntries es
        (evicted.toList.map (fun p => .evicted p.1 p.2) ++ [.accepted a now]) := by
  simp only [Inbox.remember, bind_eq_ok, Prod.exists, pure_eq_ok, Prod.mk.injEq] at hr
  obtain ⟨ev, hev, i₁, f₁, happ, i₂, f₂, hcomp, rfl, rfl, rfl⟩ := hr
  obtain ⟨hrem, hwrit, hcfg⟩ := holds_remembered ha hnow h hi hk hev happ
  obtain ⟨hholds, hnewer, hcfg'⟩ := compactIfOversized_ok hrem hcomp
  refine ⟨hholds, hwrit.newer hnewer, hcfg'.trans hcfg, ?_⟩
  rcases evictee_ok h.cache hev with ⟨rfl, hlt⟩ | ⟨e, he, rfl, hp, hfull⟩
  · exact .accepted ha hi hk hnow hlt
  · exact .replaced ha hi hk hnow hfull he hp

/-- An acceptance succeeds when there is room and its record can be encoded. -/
theorem remember_isOk {a : Admitted} (ha : a.Facts H) {now : ℤ} (hnow : strict → 1 ≤ now)
    (henc : (Json.int now).encodable = true) {i : Inbox} {f : JournalFile} {es : Entries}
    (h : Holds H strict i f es) (hi : a.id ∉ es.ids) (hk : (a.entry now).key ∉ es.keys)
    {ev : Option (String × (String × String))} (hev : i.evictee = .ok ev) :
    ∃ i' f', Inbox.remember a now i f = .ok (i', f', ev) := by
  have hone : (Json.obj (acceptedEvent a.id a.sender a.nonce now a.json
      (ev.map Prod.fst))).encodable = true := by
    rw [Json.encodable_obj]
    intro p hp
    cases ev <;>
      simp only [acceptedEvent, Option.map_none, Option.map_some, List.append_nil, List.cons_append,
        List.nil_append, List.mem_cons, List.not_mem_nil, or_false] at hp <;>
      rcases hp with rfl | rfl | rfl | rfl | rfl | rfl | rfl <;> first | rfl | exact henc
  obtain ⟨i₁, f₁, happ⟩ : ∃ i₁ f₁, i.append f (acceptedEvent a.id a.sender a.nonce now a.json
      (ev.map Prod.fst)) = .ok (i₁, f₁) := by
    rw [Inbox.append, encodeEvents_of (by simpa using hone)]
    exact ⟨_, _, rfl⟩
  obtain ⟨hrem, -⟩ := holds_remembered ha hnow h hi hk hev happ
  obtain ⟨⟨i', f'⟩, hok⟩ := compactIfOversized_isOk hrem
  refine ⟨i', f', ?_⟩
  simp only [Inbox.remember, bind_eq_ok, Prod.exists, pure_eq_ok, Prod.mk.injEq]
  exact ⟨ev, hev, _, _, happ, i', f', hok, rfl, rfl, rfl⟩

/-- The entries after an acceptance, from the log. -/
theorem after_accepted (es : Entries) (a : Admitted) (now : ℤ)
    (evicted : Option (String × (String × String))) :
    (evicted.toList.map (fun p : String × (String × String) => InboxEvent.evicted p.1 p.2) ++
      [InboxEvent.accepted a now]).foldl Entries.after es = es.accept (a.entry now) (evicted.map Prod.fst) := by
  cases evicted <;> rfl

variable (H) in
/-- The process holds the entries after the events, and the events are such as a
    call leads to. -/
structure Effect (strict : Prop) (i : Inbox) (es : Entries) (f : JournalFile) (i' : Inbox)
    (f' : JournalFile) (events : List InboxEvent) : Prop where
  holds : Holds H strict i' f' (events.foldl Entries.after es)
  file : (f' = f ∧ events = []) ∨ Written f f'
  config : i'.config = i.config
  logged : Logged H strict i.maxEntries es events

theorem acceptBody_effect {a : Admitted} (ha : a.Facts H) {now : ℤ} (hnow : strict → 1 ≤ now)
    {i i' : Inbox} {f f' : JournalFile} {es : Entries} (h : Holds H strict i f es)
    {r : InboxReply} {events : List InboxEvent}
    (hb : Inbox.acceptBody a now i f = .ok (i', f', (r, events))) :
    Effect H strict i es f i' f' events := by
  obtain ⟨⟨i₁, f₁, d, evicted⟩, hl, heq⟩ := map_eq_ok.1 hb
  cases heq
  unfold Inbox.acceptLocked at hl
  split_ifs at hl with hid hkey
  · cases hl
    exact ⟨h, .inl ⟨rfl, rfl⟩, rfl, .none⟩
  · cases hl
    exact ⟨h, .inl ⟨rfl, rfl⟩, rfl, .none⟩
  · rw [h.cache, Cache.has_byMessageId] at hid
    rw [h.cache, Cache.has_nonces] at hkey
    split at hl
    · cases hl
      exact ⟨h, .inl ⟨rfl, rfl⟩, rfl, .none⟩
    · cases hl
    · rename_i i₂ f₂ ev hrem
      cases hl
      obtain ⟨hholds, hwrit, hcfg, hlog⟩ := remember_of_holds ha hnow h hid hkey hrem
      refine ⟨?_, .inr hwrit, hcfg, hlog⟩
      simp only [if_true]
      rw [after_accepted]
      exact hholds

theorem flat_processedEvent (id : String) : Json.flat (processedEvent id) = true := by
  simp [processedEvent, Json.flat, Json.isScalar]

/-- The record of a processed message is in the journal. -/
theorem holds_marked {i i₁ : Inbox} {f f₁ : JournalFile} {es : Entries} (h : Holds H strict i f es)
    {e : Entry} (he : e ∈ es) (hp : e.pending ≠ none)
    (happ : i.append f (processedEvent e.messageId) = .ok (i₁, f₁)) :
    Holds H strict { i₁ with cache := { i₁.cache with
        pendingJson := i₁.cache.pendingJson.pop e.messageId } } f₁ (es.finish e.messageId) ∧
      Written f f₁ ∧ i₁.config = i.config := by
  obtain ⟨henc, rfl, rfl⟩ := inbox_append_eq_ok happ
  have hfold := foldCache_processed (H := H) he (h.folds.sound e he).isDigest hp
  have hnew := h.folds.append (flat_processedEvent _) henc (h.folds.distinct.finish e.messageId)
    (Entries.sound_finish h.folds.sound _)
    (fun hs e' he' => by
      obtain ⟨e₀, he₀, rfl⟩ := List.mem_map.1 he'
      split_ifs <;> exact h.folds.times hs e₀ he₀)
    (fun c hc hpos => by
      rw [hfold] at hc
      cases hc
      refine ⟨rfl, fun e' he' => ?_⟩
      obtain ⟨e₀, he₀, rfl⟩ := List.mem_map.1 he'
      split_ifs <;> exact hpos e₀ he₀)
    (fun _ => hfold)
  have hcache : { i.cache with pendingJson := i.cache.pendingJson.pop e.messageId } =
      Cache.of (es.finish e.messageId) := by
    rw [h.cache]; exact Cache.finish_of es e.messageId
  exact ⟨⟨hnew, hcache, rfl⟩, written_write _ _, rfl⟩

theorem markBody_effect {id : String} {i i' : Inbox} {f f' : JournalFile} {es : Entries}
    (h : Holds H strict i f es) {r : InboxReply} {events : List InboxEvent}
    (hb : Inbox.markBody id i f = .ok (i', f', (r, events))) :
    Effect H strict i es f i' f' events := by
  obtain ⟨⟨i₁, f₁, b⟩, hl, heq⟩ := map_eq_ok.1 hb
  cases heq
  simp only [Inbox.markLocked, bind_eq_ok, require_eq_ok] at hl
  obtain ⟨_, -, hl⟩ := hl
  split_ifs at hl with hpend
  · simp only [bind_eq_ok, pure_eq_ok, Prod.exists, Prod.mk.injEq] at hl
    obtain ⟨i₂, f₂, happ, i₃, f₃, hcomp, rfl, rfl, rfl⟩ := hl
    rw [h.cache, Cache.has_pendingJson] at hpend
    obtain ⟨e, he, rfl, hp⟩ := hpend
    obtain ⟨hmark, hwrit, hcfg⟩ := holds_marked h he hp happ
    obtain ⟨hholds, hnewer, hcfg'⟩ := compactIfOversized_ok hmark hcomp
    exact ⟨hholds, .inr (hwrit.newer hnewer), hcfg'.trans hcfg, .processed he hp⟩
  · cases hl
    exact ⟨h, .inl ⟨rfl, rfl⟩, rfl, .none⟩

theorem reading_effect {α : Type} {reply : α → InboxReply}
    {body : Inbox → JournalFile → Except InboxFault (Inbox × JournalFile × α)}
    (hbody : ∀ i f i' f' x, body i f = .ok (i', f', x) → i' = i ∧ f' = f) {i i' : Inbox}
    {f f' : JournalFile} {es : Entries} (h : Holds H strict i f es) {r : InboxReply}
    {events : List InboxEvent} (hb : Inbox.reading reply body i f = .ok (i', f', (r, events))) :
    Effect H strict i es f i' f' events := by
  obtain ⟨⟨i₁, f₁, x⟩, hl, heq⟩ := map_eq_ok.1 hb
  cases heq
  obtain ⟨rfl, rfl⟩ := hbody _ _ _ _ _ hl
  exact ⟨h, .inl ⟨rfl, rfl⟩, rfl, .none⟩

variable (H) in
/-- The process accepts no envelope before the epoch. -/
def InboxCall.Timely (p : Inbox) : InboxCall → Prop
  | .accept source now => ∀ a, acceptArgs H p.authorize source now = .ok a → 1 ≤ now
  | _ => True

/-- **The body of a call** in a process that holds the entries. -/
theorem body_effect {p i i' : Inbox} {c : InboxCall} (hw : c.wf = true)
    (hnow : strict → c.Timely H p) {b : Inbox.Body} (hb : Inbox.body H p c = .ok b)
    {f f' : JournalFile} {es : Entries} (h : Holds H strict i f es) {r : InboxReply}
    {events : List InboxEvent} (hr : b i f = .ok (i', f', (r, events))) :
    Effect H strict i es f i' f' events := by
  cases c with
  | accept source now =>
    simp only [Inbox.body] at hb
    split at hb
    · cases hb
    · rename_i a ha
      cases hb
      exact acceptBody_effect (acceptArgs_ok hw ha) (fun hs => hnow hs a ha) h hr
  | markProcessed id =>
    simp only [Inbox.body] at hb
    split_ifs at hb
    cases hb
    exact markBody_effect h hr
  | pending maxItems =>
    simp only [Inbox.body] at hb
    split_ifs at hb
    cases hb
    simp only [Inbox.pendingBody, Inbox.pendingLocked, bind_eq_ok, pure_eq_ok, Prod.mk.injEq] at hr
    obtain ⟨s, hs, es', -, rfl, rfl, -, rfl⟩ := hr
    cases hs
    exact ⟨h, .inl ⟨rfl, rfl⟩, rfl, .none⟩
  | acceptedAt id =>
    simp only [Inbox.body] at hb
    split_ifs at hb
    cases hb
    exact reading_effect (fun i f i' f' x hx => by cases hx; exact ⟨rfl, rfl⟩) h hr
  | entryCount =>
    cases hb
    exact reading_effect (fun i f i' f' x hx => by cases hx; exact ⟨rfl, rfl⟩) h hr
  | seen id =>
    cases hb
    exact reading_effect (fun i f i' f' x hx => by cases hx; exact ⟨rfl, rfl⟩) h hr

/-! ## The invariant -/

variable (H) in
/-- The journal folds to the entries of the log, and so has every process whose
    fingerprint is the one of the file. -/
structure InboxWorld.Inv (strict : Prop) (w : InboxWorld) : Prop where
  folds : CacheFolds H strict w.file (replay w.log)
  current : Current Inbox.cacheStat Inbox.cache w.file w.procs (Cache.of (replay w.log))

/-- A process takes the lock: it holds the entries, or the journal does not fold. -/
theorem inbox_refold {w : InboxWorld} (h : w.Inv H strict) {p : Inbox} (hp : p ∈ w.procs) :
    (∃ i f, Inbox.refoldIfChanged H p w.file = ((i, f), .ok ()) ∧
      Holds H strict i f (replay w.log) ∧ Newer w.file f ∧ i.config = p.config) ∨
    (¬strict ∧ p.cacheStat ≠ w.file.stat ∧ ∃ e, Inbox.refoldIfChanged H p w.file =
      (({ p with cache := {} }, w.file), .error e)) := by
  unfold Inbox.refoldIfChanged
  split_ifs with hc
  · rcases load_of h.folds p with hl | ⟨hs, hl⟩
    · exact .inl hl
    · rw [Bool.and_eq_true, bne_iff_ne] at hc
      exact .inr ⟨hs, hc.2.symm, hl⟩
  · obtain ⟨hs, hm⟩ := h.current.mem_eq hp hc
    exact .inl ⟨p, w.file, rfl, ⟨h.folds, hm, hs⟩, .inl rfl, rfl⟩

/-- **A call** of a process in a reached world: it returns before the lock, the
    process holds the entries and runs the body, or the journal does not fold. -/
theorem call_effect {w : InboxWorld} (h : w.Inv H strict) {p : Inbox} (hp : p ∈ w.procs)
    {c : InboxCall} (hw : c.wf = true) (hnow : strict → c.Timely H p) :
    (∃ r, Inbox.body H p c = .error r ∧ p.call H w.file c = ((p, w.file), r, [])) ∨
    (∃ b i f i' f' r events, Inbox.body H p c = .ok b ∧ Holds H strict i f (replay w.log) ∧
      Newer w.file f ∧ i.config = p.config ∧ Effect H strict i (replay w.log) f i' f' events ∧
      p.call H w.file c = ((i', f'), r, events) ∧
      ((∃ a, b i f = .ok (i', f', (a, events)) ∧ r = .ok a) ∨
        ∃ e, b i f = .error e ∧ r = .error e ∧ events = [])) ∨
    (¬strict ∧ p.cacheStat ≠ w.file.stat ∧ ∃ e, p.call H w.file c =
      (({ p with cache := {} }, w.file), .error e, [])) := by
  unfold Inbox.call
  cases hb : Inbox.body H p c with
  | error r => exact .inl ⟨r, rfl, rfl⟩
  | ok b =>
    right
    unfold Inbox.locked
    rcases inbox_refold h hp with ⟨i, f, hr, hholds, hn, hcfg⟩ | ⟨hs, hne, e, hr⟩
    · left
      simp only [hr]
      cases hbody : b i f with
      | error e =>
        exact ⟨b, i, f, i, f, .error e, [], rfl, hholds, hn, hcfg, ⟨hholds, .inl ⟨rfl, rfl⟩, rfl, .none⟩,
          rfl, .inr ⟨e, hbody, rfl, rfl⟩⟩
      | ok s =>
        obtain ⟨i', f', a, events⟩ := s
        have heff := body_effect hw hnow hb hholds hbody
        exact ⟨b, i, f, i', f', .ok a, events, rfl, hholds, hn, hcfg, heff, rfl, .inl ⟨a, hbody, rfl⟩⟩
    · right
      simp only [hr]
      exact ⟨hs, hne, e, rfl⟩

variable (H) in
/-- The condition on a step: no envelope is accepted before the epoch. -/
def InboxWorld.Timely (w : InboxWorld) (a : InboxAct) : Prop :=
  ∀ i c, a = .call i c → ∀ p, w.procs[i]? = some p → c.Timely H p

/-- What an action does to the log and the processes. -/
inductive InboxWorld.Stepped (H : Host) (strict : Prop) (w w' : InboxWorld) : InboxAct → Prop
  | start {m : ℕ} {au : Option (TransportEnvelope → Option (Bool × String))} : w'.log = w.log →
      (w'.procs = w.procs ∨ ∃ p : Inbox, p.config = (m, au) ∧ w'.procs = w.procs ++ [p]) →
      Stepped H strict w w' (.start m au)
  | call {i : ℕ} {c : InboxCall} {p p' : Inbox} {events : List InboxEvent} :
      w.procs[i]? = some p → p'.config = p.config → w'.procs = w.procs.set i p' →
      w'.log = w.log ++ events → Logged H strict p.maxEntries (replay w.log) events →
      Stepped H strict w w' (.call i c)

/-- **The invariant is kept by every action.** -/
theorem inbox_inv_step {w w' : InboxWorld} (h : w.Inv H strict) {a : InboxAct}
    (hnow : strict → w.Timely H a) (hstep : w.step H a = some w') :
    w'.Inv H strict ∧ w.Stepped H strict w' a := by
  cases a with
  | start maxEntries authorize =>
    rw [InboxWorld.step, Option.ite_none_right_eq_some] at hstep
    obtain ⟨-, hstep⟩ := hstep
    rcases load_of h.folds { maxEntries := maxEntries, authorize := authorize } with
      ⟨i, f, hl, hholds, hn, hcfg⟩ | ⟨-, e, hl⟩
    · rw [hl] at hstep
      cases hstep
      have hcur : Current Inbox.cacheStat Inbox.cache f w.procs (Cache.of (replay w.log)) :=
        h.current.write (hn.imp_left fun hf => ⟨hf, rfl⟩)
      exact ⟨⟨hholds.folds, hcur.add hholds.stat hholds.cache⟩, .start rfl (.inr ⟨i, hcfg, rfl⟩)⟩
    · rw [hl] at hstep
      cases hstep
      exact ⟨h, .start rfl (.inl rfl)⟩
  | call i c =>
    rw [InboxWorld.step] at hstep
    split at hstep
    · cases hstep
    · rename_i p hi
      rw [Option.ite_none_right_eq_some] at hstep
      obtain ⟨hw, hstep⟩ := hstep
      cases hstep
      have hp : p ∈ w.procs := List.mem_of_getElem? hi
      rcases call_effect h hp hw (fun hs => hnow hs i c rfl p hi) with
        ⟨r, -, hc⟩ | ⟨b, i₁, f₁, i', f', r, events, -, -, hn, hcfg, heff, hc, -⟩ | ⟨hs, hne, e, hc⟩
      · rw [hc]
        refine ⟨⟨?_, ?_⟩, .call hi rfl rfl rfl .none⟩
        · rw [List.append_nil]; exact h.folds
        · obtain ⟨hlt, rfl⟩ := List.getElem?_eq_some_iff.1 hi
          rw [List.append_nil, List.set_getElem_self]
          exact h.current
      · rw [hc]
        have hmax : i₁.maxEntries = p.maxEntries := congrArg Prod.fst hcfg
        refine ⟨⟨?_, ?_⟩, .call hi (heff.config.trans hcfg) rfl rfl (hmax ▸ heff.logged)⟩
        · rw [replay_append]; exact heff.holds.folds
        · rw [replay_append]
          refine Current.set (h.current.write ?_) heff.holds.stat heff.holds.cache i
          rcases heff.file with ⟨rfl, rfl⟩ | hwrit
          · exact hn.imp_left fun hf => ⟨hf, rfl⟩
          · exact .inr (hn.written hwrit)
      · rw [hc]
        refine ⟨⟨?_, ?_⟩, .call hi
          (show Inbox.config { p with cache := {} } = p.config from rfl) rfl rfl .none⟩
        · rw [List.append_nil]; exact h.folds
        · rw [List.append_nil]
          exact h.current.keep hp
            (show Inbox.cacheStat { p with cache := {} } = p.cacheStat from rfl) hne i

theorem inbox_inv_start : ({} : InboxWorld).Inv H strict where
  folds := ⟨rfl, Entries.Distinct.nil, fun _ he => absurd he List.not_mem_nil,
    fun _ hc => by cases hc; exact ⟨rfl, fun _ he => absurd he List.not_mem_nil⟩, fun _ => rfl,
    fun _ _ he => absurd he List.not_mem_nil⟩
  current := .nil

end Delivery

end NthDao
