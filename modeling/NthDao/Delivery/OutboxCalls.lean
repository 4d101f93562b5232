/-
  Calls of the outbox that succeed.

  * `step_call`: a call of a process whose fingerprint is current;
  * `Solo`: one process and its journal, in a run without conditions; `Solo.enqueue`,
    `Solo.attempt`, `Solo.ack` and `Solo.compact` continue the run.
-/
import NthDao.Delivery.OutboxRuns

namespace NthDao

namespace Delivery

open Py Runs

variable {H : Host}

/-! ## Calls -/

theorem canonicalJson_line {event : Fields} (h : (Json.obj event).encodable = true) :
    canonicalJson (.obj event) = some (Jsonl.line event) := by
  rw [canonicalJson, if_pos h]; rfl

theorem append_of_encodable (o : Outbox) (f : JournalFile) {event : Fields}
    (h : (Json.obj event).encodable = true) : o.append f event =
      .ok ({ o with journalStat := (f.write (f.bytes ++ Jsonl.eventsText [event])).stat },
        f.write (f.bytes ++ Jsonl.eventsText [event])) := by
  have ht : Jsonl.line event ++ [Jsonl.nl] = Jsonl.eventsText [event] := by
    rw [Jsonl.eventsText_cons, Jsonl.eventsText_nil, List.append_nil]
  rw [Outbox.append, canonicalJson_line h, ← ht]
  rfl

theorem locked_of_current {o : Outbox} {f : JournalFile} (h : o.journalStat = f.stat)
    {b : Outbox → Except OutboxFault (Outbox × JournalFile × Records)} {o' : Outbox}
    {f' : JournalFile} {rs : Records} (hb : b o = .ok (o', f', rs)) :
    o.locked H f b = ((o', f'), .ok rs) := by
  have hr : o.refoldIfChanged H f = (o, .ok ()) := by
    rw [Outbox.refoldIfChanged, h]; simp
  simp only [Outbox.locked, hr, hb]

/-- A call of a process whose fingerprint is current. -/
theorem step_call {w : OutboxWorld} {i : ℕ} {o : Outbox} (hi : w.procs[i]? = some o)
    (hs : o.journalStat = w.file.stat) {c : OutboxCall} (hw : c.wf = true) {b : Outbox.Body}
    (hb : Outbox.body H c = .ok b) {o' : Outbox} {f' : JournalFile} (rs : Records)
    (h : b w.file o = .ok (o', f', rs)) : w.step H (.call i c) =
      some { file := f', procs := w.procs.set i o', turn := some i,
             delivered := w.delivered ++ o'.records.deliveredIds } := by
  simp only [OutboxWorld.step, hi, hw, if_true, hb, locked_of_current hs h]

theorem encodable_enqueuedEvent {r : OutboxRecord} {e : TransportEnvelope}
    (he : recordEnvelope H r = .ok e) {now : ℤ} (hnow : (Json.int now).encodable = true) :
    (Json.obj (enqueuedEvent r now)).encodable = true := by
  have hf := (recordEnvelope_facts he).1
  have hx := hf.expires_le
  have hc := hf.created_pos
  have hlt := hf.expires_gt
  unfold maxSafeInteger at hx
  rw [Json.encodable_obj]
  intro p hp
  simp only [enqueuedEvent, List.mem_cons, List.not_mem_nil, or_false] at hp
  rcases hp with rfl | rfl | rfl | rfl | rfl | rfl | rfl
  · rfl
  · rfl
  · rfl
  · rfl
  · exact Json.encodable_int (by omega)
  · exact Json.encodable_int (by omega)
  · exact hnow

/-- **A new message is queued.** -/
theorem step_enqueue {w : OutboxWorld} {i : ℕ} {o : Outbox} (hi : w.procs[i]? = some o)
    (hs : o.journalStat = w.file.stat) {e : TransportEnvelope} (hw : e.wf = true) {now : ℤ}
    {r : OutboxRecord} (hr : Outbox.enqueueArgs H e now = .ok r)
    (hnow : (Json.int now).encodable = true) (hnone : o.records.get r.messageId = none)
    (hcap : (o.records.countP fun r => !r.state.isTerminal) < o.maxPending) :
    w.step H (.call i (.enqueue e now)) = some
      { file := w.file.write (w.file.bytes ++ Jsonl.eventsText [enqueuedEvent r now])
        procs := w.procs.set i { o with
          records := o.records ++ [r]
          journalStat :=
            (w.file.write (w.file.bytes ++ Jsonl.eventsText [enqueuedEvent r now])).stat }
        turn := some i
        delivered := w.delivered ++ Records.deliveredIds (o.records ++ [r]) } := by
  have hb : Outbox.body H (.enqueue e now) = .ok (Outbox.one (Outbox.enqueueLocked r now)) := by
    rw [Outbox.body, hr]; rfl
  have henc := encodable_enqueuedEvent (enqueueArgs_ok hw hr).1 hnow
  have hwf : OutboxCall.wf (.enqueue e now) = true := hw
  refine step_call hi hs hwf hb [r] ?_
  simp only [Outbox.one, Outbox.enqueueLocked, hnone, append_of_encodable _ _ henc]
  simp [hcap, require, Except.map, bind, Except.bind, pure, Except.pure]

theorem encodable_attemptEvent (id : String) {a : OutboxAttempt}
    (h : (Json.int a.atMs).encodable = true) :
    (Json.obj (attemptEvent id a)).encodable = true := by
  rw [Json.encodable_obj]
  intro p hp
  rw [attemptEvent, List.mem_append] at hp
  rcases hp with hp | hp
  · simp only [List.mem_cons, List.not_mem_nil, or_false] at hp
    rcases hp with rfl | rfl | rfl | rfl | rfl
    · rfl
    · rfl
    · rfl
    · exact h
    · rfl
  · split_ifs at hp
    · cases hp
    · rw [List.mem_singleton.1 hp]; rfl

/-- **An attempt is recorded.** -/
theorem step_attempt {w : OutboxWorld} {i : ℕ} {o : Outbox} (hi : w.procs[i]? = some o)
    (hs : o.journalStat = w.file.stat) {r : OutboxRecord}
    (hr : o.records.get r.messageId = some r) (hq : r.state = .queued)
    (hl : r.attempts.length < maxAttemptsPerRecord) {transport outcome errorCode : String} {atMs : ℤ}
    {a : OutboxAttempt} (ha : Outbox.attemptArgs transport outcome atMs errorCode = .ok a)
    (hat : (Json.int a.atMs).encodable = true) :
    w.step H (.call i (.recordAttempt r.messageId transport outcome atMs errorCode)) = some
      { file := w.file.write (w.file.bytes ++ Jsonl.eventsText [attemptEvent r.messageId a])
        procs := w.procs.set i { o with
          records := o.records.set (Outbox.afterAttempt r a)
          journalStat :=
            (w.file.write (w.file.bytes ++ Jsonl.eventsText [attemptEvent r.messageId a])).stat }
        turn := some i
        delivered := w.delivered ++
          Records.deliveredIds (o.records.set (Outbox.afterAttempt r a)) } := by
  have hb : Outbox.body H (.recordAttempt r.messageId transport outcome atMs errorCode) =
      .ok (Outbox.one (Outbox.attemptLocked r.messageId a)) := by
    rw [Outbox.body, ha]; rfl
  have hlive : Outbox.requireLive o.records r.messageId = .ok r := by
    simp [Outbox.requireLive, hr, hq, expect, require, bind, Except.bind, pure, Except.pure]
  refine step_call hi hs rfl hb [Outbox.afterAttempt r a] ?_
  simp only [Outbox.one, Outbox.attemptLocked, hlive,
    append_of_encodable _ _ (encodable_attemptEvent r.messageId hat)]
  simp [hl, require, Except.map, bind, Except.bind, pure, Except.pure]

/-- A valid envelope passes the checks of `enqueue`. -/
theorem enqueueArgs_of_valid {e : TransportEnvelope} {now : ℤ} (hnow : 1 ≤ now)
    (h : validateEnvelope H e (some now) true = .ok ()) {id : String}
    (hid : e.messageId = .str id) :
    ∃ r, Outbox.enqueueArgs H e now = .ok r ∧ r.messageId = id := by
  obtain ⟨id', c, x, hf⟩ := validateEnvelope_facts h
  obtain rfl : id' = id := by simpa [hid] using hf.id_eq.symm
  obtain ⟨wire, hwire⟩ := hf.wire
  obtain ⟨henc, hbytes⟩ := canonicalJson_eq_some hwire
  have htext : canonicalText e.toDict = some (String.ofList (dumps false (Json.obj e.toDict).norm)) :=
    if_pos henc
  have hlen : wire.length ≤ maxEnvelopeBytes := by
    simp only [validateEnvelope, bind_eq_ok, require_eq_ok, expect_eq_ok, hwire,
      Option.some.injEq] at h
    obtain ⟨_, -, _, -, _, -, _, -, _, -, _, -, _, -, _, rfl, _, hle, -⟩ := h
    simpa using hle
  have hrec : Outbox.newRecord H e = some
      { messageId := id', envelopeJson := String.ofList (dumps false (Json.obj e.toDict).norm)
        envelopeSha256 := digest H wire, createdAtMs := c, expiresAtMs := x } := by
    simp [Outbox.newRecord, htext, envelopeDigest, hwire, hf.id_eq, hf.created_eq, hf.expires_eq,
      Json.asStr, Json.asInt]
  obtain ⟨r, hr⟩ : ∃ r, Outbox.enqueueArgs H e now = .ok r := by
    simp only [Outbox.enqueueArgs, Outbox.validateOperationTime, bind_eq_ok, require_eq_ok,
      expect_eq_ok, mapError_eq_ok, pure_eq_ok]
    refine ⟨_, (), by simpa using hnow, (), h, _, hrec, (), ?_, rfl⟩
    rw [chars_eq, String.toList_ofList, ← hbytes]
    simpa using hlen
  refine ⟨r, hr, ?_⟩
  simp only [Outbox.enqueueArgs, bind_eq_ok, expect_eq_ok, pure_eq_ok, hrec, Option.some.injEq] at hr
  obtain ⟨_, -, _, -, _, rfl, _, -, rfl⟩ := hr
  rfl

theorem encodable_deliveredEvent (id text : String) {now : ℤ}
    (h : (Json.int now).encodable = true) :
    (Json.obj (deliveredEvent id now text)).encodable = true := by
  rw [Json.encodable_obj]
  intro p hp
  simp only [deliveredEvent, List.mem_cons, List.not_mem_nil, or_false] at hp
  rcases hp with rfl | rfl | rfl | rfl
  · rfl
  · rfl
  · exact h
  · rfl

/-- **A message to a key is acknowledged** by its receiver. -/
theorem step_ack {w : OutboxWorld} {i : ℕ} {o : Outbox} (hi : w.procs[i]? = some o)
    (hs : o.journalStat = w.file.stat) {r : OutboxRecord}
    (hr : o.records.get r.messageId = some r) (hq : r.state = .queued) {e : TransportEnvelope}
    (he : recordEnvelope H r = .ok e) {ack : DeliveryAck} {sha receiver signature : String}
    {received now : ℤ} (hack : ack.Reads r.messageId sha receiver signature received)
    (hnow : 1 ≤ now) (hvalid : validateAck H ack (some now) true = .ok ())
    (hmatch : ackDigestMatchesEnvelope H sha e = true) (hto : e.recipient = .str receiver)
    (hkey : startsWith "did:key:" receiver = true) {text : String}
    (ht : canonicalText ack.toDict = some text) (henc : (Json.int now).encodable = true) :
    w.step H (.call i (.handleAck ack (some now) now now)) = some
      { file := w.file.write (w.file.bytes ++ Jsonl.eventsText [deliveredEvent r.messageId now text])
        procs := w.procs.set i { o with
          records := o.records.set
            { r with state := .delivered, deliveredBy := receiver, deliveredAtMs := received }
          journalStat :=
            (w.file.write (w.file.bytes ++
              Jsonl.eventsText [deliveredEvent r.messageId now text])).stat }
        turn := some i
        delivered := w.delivered ++ Records.deliveredIds (o.records.set
          { r with state := .delivered, deliveredBy := receiver, deliveredAtMs := received }) } := by
  have hb : Outbox.body H (.handleAck ack (some now) now now) =
      .ok (Outbox.one (Outbox.ackLocked H ack now)) := by
    simp only [Outbox.body, Outbox.ackArgs, Outbox.validateOperationTime, bind_eq_ok, require_eq_ok,
      mapError_eq_ok, pure_eq_ok]
    exact ⟨(), ⟨(), hvalid, by simpa using hnow⟩, rfl⟩
  have hauth : Outbox.authorizeReceiver o ack e = .ok () := by
    rw [Outbox.authorizeReceiver, hto, hack.eq]
    simp [Json.asStr, expect, hkey, require, bind, Except.bind]
  refine step_call hi hs rfl hb
    [{ r with state := .delivered, deliveredBy := receiver, deliveredAtMs := received }] ?_
  have hlocked : Outbox.ackLocked H ack now w.file o = .ok
      ({ o with
          records := o.records.set
            { r with state := .delivered, deliveredBy := receiver, deliveredAtMs := received }
          journalStat :=
            (w.file.write (w.file.bytes ++
              Jsonl.eventsText [deliveredEvent r.messageId now text])).stat },
        w.file.write (w.file.bytes ++ Jsonl.eventsText [deliveredEvent r.messageId now text]),
        { r with state := .delivered, deliveredBy := receiver, deliveredAtMs := received }) := by
    simp only [Outbox.ackLocked, bind_eq_ok, expect_eq_ok, require_eq_ok, mapError_eq_ok]
    refine ⟨r.messageId, by rw [hack.eq]; rfl, sha, by rw [hack.eq]; rfl, receiver,
      by rw [hack.eq]; rfl, received, by rw [hack.eq]; rfl, r, hr, e, he, (), hmatch, ?_⟩
    rw [if_neg (by rw [hq]; decide)]
    simp only [bind_eq_ok, expect_eq_ok, require_eq_ok, pure_eq_ok]
    exact ⟨(), by rw [hq]; rfl, (), hauth, text, ht, _,
      append_of_encodable o w.file (encodable_deliveredEvent r.messageId text henc), rfl⟩
  rw [Outbox.one, hlocked]
  rfl

/-- **The journal is compacted.** -/
theorem step_compact {w : OutboxWorld} {i : ℕ} {o : Outbox} (hi : w.procs[i]? = some o)
    (hs : o.journalStat = w.file.stat) {raw : Bytes}
    (hraw : Outbox.eventsText (o.records.keep.flatMap Outbox.compactEvents) = .ok raw) :
    w.step H (.call i .compact) = some
      { file := w.file.write raw
        procs := w.procs.set i { o with
          records := o.records.keep, journalStat := (w.file.write raw).stat }
        turn := some i
        delivered := w.delivered ++ Records.deliveredIds o.records.keep } := by
  refine step_call hi hs rfl rfl o.records.keep ?_
  have hlocked : Outbox.compactLocked w.file o = .ok
      ({ o with records := o.records.keep, journalStat := (w.file.write raw).stat },
        w.file.write raw, o.records.keep.length) := by
    simp only [Outbox.compactLocked, bind_eq_ok, pure_eq_ok]
    exact ⟨raw, hraw, rfl⟩
  rw [hlocked]
  rfl

/-! ## One process -/

theorem get_singleton (r : OutboxRecord) : Records.get [r] r.messageId = some r := by
  simp [Records.get]

theorem set_singleton {r q : OutboxRecord} (h : q.messageId = r.messageId) :
    Records.set [r] q = [q] := by
  simp [Records.set, h]

variable {cond : OutboxWorld → OutboxAct → Prop}

variable (H cond) in
/-- A run of one process, which holds `m` and whose journal folds to `v`. -/
structure Solo (n : ℕ) (w : OutboxWorld) (m v : Records) : Prop where
  reach : Reach (OutboxWorld.step H) cond {} w
  procs : w.procs = [⟨n, none, m, w.file.stat⟩]
  folds : Folds H w.file v

/-- The process alone, before its first call. -/
def soloStart (n : ℕ) : OutboxWorld := { procs := [⟨n, none, [], none⟩], turn := some 0 }

theorem Solo.start {n : ℕ} (h : 1 ≤ n) (hc : cond {} (.start n none)) :
    Solo H cond n (soloStart n) [] [] where
  reach := Reach.start.step hc (by simp [OutboxWorld.step, h, Outbox.load, soloStart])
  procs := rfl
  folds := ⟨rfl, rfl⟩

/-- The run goes on with a call that appends an event. -/
theorem Solo.append {n : ℕ} {w : OutboxWorld} {m m' v v' : Records} (h : Solo H cond n w m v)
    {a : OutboxAct} (hc : cond w a) {event : Fields} (hflat : Json.flat event = true)
    (henc : (Json.obj event).encodable = true) (hv : foldEvent H event v = .ok v')
    (hstep : w.step H a = some
      { file := w.file.write (w.file.bytes ++ Jsonl.eventsText [event])
        procs := w.procs.set 0 { (⟨n, none, m, w.file.stat⟩ : Outbox) with
          records := m'
          journalStat := (w.file.write (w.file.bytes ++ Jsonl.eventsText [event])).stat }
        turn := some 0
        delivered := w.delivered ++ Records.deliveredIds m' }) :
    ∃ w', Solo H cond n w' m' v' ∧ w'.delivered = w.delivered ++ Records.deliveredIds m' ∧
      w'.file.bytes = w.file.bytes ++ Jsonl.eventsText [event] := by
  refine ⟨_, ⟨h.reach.step hc hstep, ?_, folds_append h.folds hflat henc hv⟩, rfl, rfl⟩
  rw [h.procs]
  rfl

theorem Solo.enqueue {n : ℕ} {w : OutboxWorld} {m v : Records} (h : Solo H cond n w m v)
    {e : TransportEnvelope} (hw : e.wf = true) {now : ℤ} (hc : cond w (.call 0 (.enqueue e now)))
    {r : OutboxRecord} (hr : Outbox.enqueueArgs H e now = .ok r)
    (hnow : (Json.int now).encodable = true) (hm : m.get r.messageId = none)
    (hv : v.get r.messageId = none) (hcap : (m.countP fun r => !r.state.isTerminal) < n) :
    ∃ w', Solo H cond n w' (m ++ [r]) (v ++ [r]) ∧
      w'.delivered = w.delivered ++ Records.deliveredIds (m ++ [r]) ∧
      w'.file.bytes = w.file.bytes ++ Jsonl.eventsText [enqueuedEvent r now] := by
  obtain ⟨he, hfresh, hpos, -⟩ := enqueueArgs_ok hw hr
  refine h.append hc rfl (encodable_enqueuedEvent he hnow) ?_ ?_
  · rw [foldEvent_enqueued he (by omega) hv, ← hfresh]
  · exact step_enqueue (by rw [h.procs]; rfl) rfl hw hr hnow hm hcap

theorem Solo.attempt {n : ℕ} {w : OutboxWorld} {r s : OutboxRecord}
    (h : Solo H cond n w [r] [s]) (hid : s.messageId = r.messageId)
    (hd : isDigest r.messageId = true) (hr : r.state = .queued) (hs : s.state = .queued)
    (hl : r.attempts.length < maxAttemptsPerRecord) (hl' : s.attempts.length < maxAttemptsPerRecord)
    {transport outcome errorCode : String} {atMs : ℤ}
    (hc : cond w (.call 0 (.recordAttempt r.messageId transport outcome atMs errorCode)))
    {a : OutboxAttempt} (ha : Outbox.attemptArgs transport outcome atMs errorCode = .ok a)
    (hat : (Json.int a.atMs).encodable = true) :
    ∃ w', Solo H cond n w' [Outbox.afterAttempt r a] [s.attempted a] := by
  have hflat : Json.flat (attemptEvent r.messageId a) = true := by
    unfold attemptEvent
    split_ifs <;> rfl
  have hset : Records.set [r] (Outbox.afterAttempt r a) = [Outbox.afterAttempt r a] :=
    set_singleton rfl
  have hset' : Records.set [s] (s.attempted a) = [s.attempted a] := set_singleton rfl
  have hfold : foldEvent H (attemptEvent r.messageId a) [s] = .ok [s.attempted a] := by
    rw [← hid, foldEvent_attempt (hid ▸ hd) (attemptArgs_ok ha).1 hs hl' (get_singleton s), hset']
  have hstep := step_attempt (H := H) (w := w) (i := 0) (by rw [h.procs]; rfl) rfl
    (get_singleton r) hr hl ha hat
  obtain ⟨w', hw', -⟩ := h.append hc hflat (encodable_attemptEvent _ hat) hfold hstep
  exact ⟨w', hset ▸ hw'⟩

theorem Solo.ack {n : ℕ} {w : OutboxWorld} {r : OutboxRecord} (h : Solo H cond n w [r] [r])
    (hq : r.state = .queued) {e : TransportEnvelope} (he : recordEnvelope H r = .ok e)
    {ack : DeliveryAck} {sha receiver signature : String} {received now : ℤ}
    (hc : cond w (.call 0 (.handleAck ack (some now) now now)))
    (hack : ack.Reads r.messageId sha receiver signature received) (hnow : 1 ≤ now)
    (hvalid : validateAck H ack (some now) true = .ok ())
    (hmatch : ackDigestMatchesEnvelope H sha e = true) (hto : e.recipient = .str receiver)
    (hkey : startsWith "did:key:" receiver = true) (henc : (Json.int now).encodable = true) :
    ∃ w' r', Solo H cond n w' [r'] [r'] ∧ r'.state = .delivered ∧
      w'.delivered = w.delivered ++ [r.messageId] := by
  obtain ⟨text, ht⟩ := hack.json
  have hd := (recordEnvelope_facts he).1.id_isDigest
  have hset : Records.set [r]
      { r with state := .delivered, deliveredBy := receiver, deliveredAtMs := received } =
      [{ r with state := .delivered, deliveredBy := receiver, deliveredAtMs := received }] :=
    set_singleton rfl
  have hfold := foldEvent_delivered hd hq he hack (by omega) hvalid hmatch hto
    (fun _ => by rw [hto, hack.eq]) ht (get_singleton r)
  have hstep := step_ack (H := H) (w := w) (i := 0) (by rw [h.procs]; rfl) rfl (get_singleton r) hq
    he hack hnow hvalid hmatch hto hkey ht henc
  obtain ⟨w', hw', hds, -⟩ := h.append hc rfl (encodable_deliveredEvent _ text henc) hfold hstep
  refine ⟨w', { r with state := .delivered, deliveredBy := receiver, deliveredAtMs := received },
    hset ▸ hw', rfl, ?_⟩
  rw [hds]
  simp only [hset]
  rfl

/-- A compaction drops a delivered record. -/
theorem Solo.compact {n : ℕ} {w : OutboxWorld} {r : OutboxRecord} (h : Solo H cond n w [r] [r])
    (hd : r.state = .delivered) (hc : cond w (.call 0 .compact)) :
    ∃ w', Solo H cond n w' [] [] ∧ w'.delivered = w.delivered := by
  have hkeep : Records.keep [r] = [] := by
    rw [Records.keep, List.filter_cons, hd]
    rfl
  have hraw : Outbox.eventsText ((Records.keep [r]).flatMap Outbox.compactEvents) = .ok [] := by
    rw [hkeep]; rfl
  have hstep := step_compact (H := H) (w := w) (i := 0) (by rw [h.procs]; rfl) rfl hraw
  refine ⟨_, ⟨h.reach.step hc hstep, ?_, ⟨rfl, rfl⟩⟩, ?_⟩
  · simp only [h.procs, hkeep]
    rfl
  · simp only [hkeep]
    exact List.append_nil _

/-! ## A message that is queued -/

/-- The sample record, as `enqueue` makes it. -/
theorem exists_sampleRecord : ∃ r : OutboxRecord,
    Outbox.enqueueArgs checksumHost sampleEnvelope 1500 = .ok r ∧
    r.messageId = sampleMessageId ∧ r = r.fresh ∧
    recordEnvelope checksumHost r = .ok sampleEnvelope.norm := by
  have hv : validateEnvelope checksumHost sampleEnvelope (some 1500) true = .ok () :=
    validateEnvelope_some _ validate_sampleEnvelope rfl rfl rfl
  obtain ⟨r, hr, hid⟩ := enqueueArgs_of_valid (by decide) hv rfl
  obtain ⟨he, hfresh, -, -⟩ := enqueueArgs_ok sampleEnvelope_wf hr
  exact ⟨r, hr, hid, hfresh, he⟩

end Delivery

end NthDao
