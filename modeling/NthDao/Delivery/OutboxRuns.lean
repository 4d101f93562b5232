/-
  Runs of the durable outbox.

  Any number of processes open the outbox of a workspace and call it in any
  order, each call one step under the lock of the journal.

  * `OutboxWorld.step`: a process starts, or makes a call;
  * `Write`: one change of a process and the journal; every call is a sequence of
    them (`body_writes`);
  * `Synced.write`: after a write the fold of the journal still agrees with the
    memory of its writer, but for last error codes; `Exact.write`: it is equal to
    it when no attempt clears an error code;
  * `OutboxWorld.Inv` and `inv_step`: so do all processes whose fingerprint is the
    one of the file.
-/
import Mathlib.Logic.Relation
import NthDao.Delivery.OutboxFold
import NthDao.Reach

namespace NthDao

namespace Delivery

open Py Relation

variable (H : Host)

/-! ## Calls -/

/-- The calls of an outbox.  A time is the argument, or the reading of the clock
    where the argument is `None`; `handle_ack` reads the clock twice. -/
inductive OutboxCall where
  | enqueue (e : TransportEnvelope) (now : ℤ)
  | recordAttempt (id transport outcome : String) (atMs : ℤ) (errorCode : String)
  | handleAck (ack : DeliveryAck) (nowMs : Option ℤ) (clock₁ clock₂ : ℤ)
  | pending (now : ℤ)
  | get (id : String)
  | compact

/-- The arguments are values of the interpreter. -/
def OutboxCall.wf : OutboxCall → Bool
  | .enqueue e _ => e.wf
  | _ => true

namespace Outbox

/-- The body of a call under the lock, after the checks of its arguments. -/
abbrev Body := JournalFile → Outbox → Except OutboxFault (Outbox × JournalFile × Records)

/-- A body that returns one record. -/
def one (body : JournalFile → Outbox → Except OutboxFault (Outbox × JournalFile × OutboxRecord)) :
    Body := fun f o => (body f o).map fun s => (s.1, s.2.1, [s.2.2])

/-- What a call does: the checks of its arguments, then its body. -/
def body : OutboxCall → Except OutboxFault Body
  | .enqueue e now => do
    let record ← enqueueArgs H e now
    return one (enqueueLocked record now)
  | .recordAttempt id transport outcome atMs errorCode => do
    let a ← attemptArgs transport outcome atMs errorCode
    return one (attemptLocked id a)
  | .handleAck ack nowMs clock₁ clock₂ => do
    ackArgs H ack (nowMs.getD clock₁) (nowMs.getD clock₂)
    return one (ackLocked H ack (nowMs.getD clock₂))
  | .pending now => do
    validateOperationTime now "now_ms"
    return pendingLocked now
  | .get id => return fun f o => .ok (o, f, (o.records.get id).toList)
  | .compact => return fun f o => (compactLocked f o).map fun s => (s.1, s.2.1, s.1.records)

/-- One call: the process and the file after it, and the records it returns. -/
def call (o : Outbox) (f : JournalFile) (c : OutboxCall) :
    (Outbox × JournalFile) × Except OutboxFault Records :=
  match body H c with
  | .error r => ((o, f), .error r)
  | .ok b => locked H o f (b f)

end Outbox

/-! ## Runs -/

/-- The journal, the processes, the process that took the lock last, and the
    messages that have been marked delivered. -/
structure OutboxWorld where
  file : JournalFile := {}
  procs : List Outbox := []
  turn : Option ℕ := none
  delivered : List String := []

/-- What the processes do. -/
inductive OutboxAct where
  | start (maxPending : ℕ)
      (authorizeAck : Option (DeliveryAck → TransportEnvelope → Option (Bool × String)))
  | call (i : ℕ) (c : OutboxCall)

/-- The ids of the delivered records. -/
def Records.deliveredIds (rs : Records) : List String :=
  (rs.filter fun r => r.state == .delivered).map OutboxRecord.messageId

/-- One action; a process whose construction raises is not there. -/
def OutboxWorld.step (w : OutboxWorld) : OutboxAct → Option OutboxWorld
  | .start maxPending authorizeAck =>
    if 1 ≤ maxPending then
      match Outbox.load H { maxPending := maxPending, authorizeAck := authorizeAck } w.file with
      | (o, .ok ()) => some { w with procs := w.procs ++ [o], turn := some w.procs.length }
      | (_, .error _) => some w
    else none
  | .call i c =>
    match w.procs[i]? with
    | none => none
    | some o =>
      if c.wf then
        match Outbox.body H c with
        | .error _ => some w
        | .ok b =>
          let s := (o.locked H w.file (b w.file)).1
          some { file := s.2, procs := w.procs.set i s.1, turn := some i,
                 delivered := w.delivered ++ s.1.records.deliveredIds }
      else none

/-! ## Writes -/

variable {H}

/-- One event and its effect on the memory of its writer; `P` holds of the attempts
    and `Q` of the ids of new records. -/
inductive Change (P : OutboxRecord → OutboxAttempt → Prop) (Q : String → Prop) (m : Records) :
    Fields → Records → Prop
  | enqueue {r : OutboxRecord} {e : TransportEnvelope} {now : ℤ} : recordEnvelope H r = .ok e →
      r = r.fresh → 0 ≤ now → m.get r.messageId = none → Q r.messageId →
      Change P Q m (enqueuedEvent r now) (m ++ [r])
  | attempt {r : OutboxRecord} {a : OutboxAttempt} : m.get r.messageId = some r →
      r.state = .queued → r.attempts.length < maxAttemptsPerRecord → AttemptOk a → P r a →
      Change P Q m (attemptEvent r.messageId a) (m.set (Outbox.afterAttempt r a))
  | deliver {r : OutboxRecord} {event : Fields} {receiver : String} {received : ℤ} :
      m.get r.messageId = some r → r.state = .queued → Json.flat event = true →
      (∀ rs : Records, rs.get r.messageId = some r → foldEvent H event rs =
        .ok (rs.set { r with state := .delivered, deliveredBy := receiver, deliveredAtMs := received })) →
      Change P Q m event
        (m.set { r with state := .delivered, deliveredBy := receiver, deliveredAtMs := received })
  | expire {r : OutboxRecord} {now : ℤ} : m.get r.messageId = some r → r.state = .queued → 0 ≤ now →
      Change P Q m (expiredEvent r.messageId now) (m.set { r with state := .expired })

/-- The records that a compaction keeps. -/
def Records.keep (m : Records) : Records := m.filter fun r => !r.state.isTerminal

/-- One write of a process. -/
inductive Write (P : OutboxRecord → OutboxAttempt → Prop) (Q : String → Prop) :
    Outbox × JournalFile → Outbox × JournalFile → Prop
  | append {o : Outbox} {f : JournalFile} {event : Fields} {m : Records} :
      Change (H := H) P Q o.records event m → (Json.obj event).encodable = true →
      Write P Q (o, f) ({ o with
        records := m, journalStat := (f.write (f.bytes ++ Jsonl.eventsText [event])).stat },
        f.write (f.bytes ++ Jsonl.eventsText [event]))
  | compact {o : Outbox} {f : JournalFile} :
      (∀ e ∈ o.records.keep.flatMap Outbox.compactEvents, (Json.obj e).encodable = true) →
      Write P Q (o, f) ({ o with
        records := o.records.keep
        journalStat := (f.write (Jsonl.eventsText (o.records.keep.flatMap Outbox.compactEvents))).stat },
        f.write (Jsonl.eventsText (o.records.keep.flatMap Outbox.compactEvents)))

/-! ## Calls as writes -/

theorem append_eq_ok {o o' : Outbox} {f f' : JournalFile} {event : Fields}
    (h : o.append f event = .ok (o', f')) : (Json.obj event).encodable = true ∧
      f' = f.write (f.bytes ++ Jsonl.eventsText [event]) ∧
      o' = { o with journalStat := (f.write (f.bytes ++ Jsonl.eventsText [event])).stat } := by
  simp only [Outbox.append, bind_eq_ok, expect_eq_ok, pure_eq_ok, Prod.mk.injEq] at h
  obtain ⟨line, hl, ho, hf⟩ := h
  obtain ⟨he, hline⟩ := canonicalJson_eq_some hl
  have ht : line ++ [Jsonl.nl] = Jsonl.eventsText [event] := by
    rw [Jsonl.eventsText_cons, Jsonl.eventsText_nil, List.append_nil, hline]; rfl
  rw [ht] at ho hf
  exact ⟨he, hf.symm, ho.symm⟩

theorem attemptArgs_ok {transport outcome errorCode : String} {atMs : ℤ} {a : OutboxAttempt}
    (h : Outbox.attemptArgs transport outcome atMs errorCode = .ok a) :
    AttemptOk a ∧ a.errorCode = errorCode := by
  simp only [Outbox.attemptArgs, Outbox.validateOperationTime, validateErrorCode, Json.asStr,
    bind_eq_ok, require_eq_ok, expect_eq_ok, mapError_eq_ok, pure_eq_ok, Option.some.injEq] at h
  obtain ⟨_, h₁, o, -, c, ⟨_, rfl, _, hc, rfl⟩, _, h₂, rfl⟩ := h
  refine ⟨⟨h₁, ?_, by simpa using hc⟩, rfl⟩
  have : (1 : ℤ) ≤ atMs := by simpa using h₂
  exact le_trans (by decide) this

theorem enqueueArgs_ok {e : TransportEnvelope} (hw : e.wf = true) {now : ℤ} {r : OutboxRecord}
    (h : Outbox.enqueueArgs H e now = .ok r) :
    recordEnvelope H r = .ok e.norm ∧ r = r.fresh ∧ 1 ≤ now ∧ e.messageId = .str r.messageId := by
  simp only [Outbox.enqueueArgs, Outbox.validateOperationTime, bind_eq_ok, require_eq_ok,
    expect_eq_ok, mapError_eq_ok, pure_eq_ok] at h
  obtain ⟨_, hnow, _, hv, r', hr, _, -, rfl⟩ := h
  refine ⟨recordEnvelope_newRecord hw hv hr, ?_, by simpa using hnow, ?_⟩
  · simp only [Outbox.newRecord, Option.bind_eq_bind, Option.bind_eq_some_iff, Option.pure_def,
      Option.some.injEq] at hr
    obtain ⟨_, -, _, -, _, -, _, -, _, -, rfl⟩ := hr
    rfl
  · simp only [Outbox.newRecord, Option.bind_eq_bind, Option.bind_eq_some_iff, Option.pure_def,
      Option.some.injEq, Json.asStr_eq_some] at hr
    obtain ⟨_, -, _, -, _, hid, _, -, _, -, rfl⟩ := hr
    exact hid

theorem requireLive_ok {rs : Records} {id : String} {r : OutboxRecord}
    (h : Outbox.requireLive rs id = .ok r) : rs.get r.messageId = some r ∧ r.messageId = id ∧
      r.state = .queued := by
  simp only [Outbox.requireLive, bind_eq_ok, require_eq_ok, expect_eq_ok, pure_eq_ok] at h
  obtain ⟨r', hr, _, h₁, _, h₂, _, h₃, rfl⟩ := h
  have hid := (Records.get_eq_some hr).2
  refine ⟨hid ▸ hr, hid, ?_⟩
  revert h₁ h₂ h₃
  cases r'.state <;> simp

/-- The recipient of an envelope that validates is a text. -/
theorem recipient_of_recordEnvelope {r : OutboxRecord} {e : TransportEnvelope}
    (h : recordEnvelope H r = .ok e) : ∃ recipient, e.recipient = .str recipient := by
  simp only [recordEnvelope, mapError_eq_ok, bind_eq_ok, require_eq_ok, expect_eq_ok, pure_eq_ok] at h
  obtain ⟨_, -, e', -, _, -, _, -, _, hv, _, -, _, -, _, -, rfl⟩ := h
  simp only [validateEnvelope, checkHead, validateRecipient, bind_eq_ok, require_eq_ok, expect_eq_ok,
    Json.asStr_eq_some] at hv
  obtain ⟨_, ⟨_, -, _, -, _, -, _, -, _, -, _, -, _, -, _, ⟨s, hs, -⟩, -⟩, -⟩ := hv
  exact ⟨s, hs⟩

theorem authorizeReceiver_ok {o : Outbox} {ack : DeliveryAck} {e : TransportEnvelope}
    {recipient : String} (hr : e.recipient = .str recipient)
    (h : Outbox.authorizeReceiver o ack e = .ok ()) :
    startsWith "did:key:" recipient = true → ack.receiverDid = e.recipient := by
  intro hs
  simp only [Outbox.authorizeReceiver, hr, Json.asStr, expect, ok_bind, if_pos hs, require_eq_ok,
    beq_iff_eq] at h
  rw [h, hr]

variable (H) in
/-- The acknowledgement that passed at the first reading of the clock passes at
    the second. -/
def OutboxCall.AckHolds : OutboxCall → Prop
  | .handleAck ack nowMs clock₁ clock₂ =>
    validateAck H ack (some (nowMs.getD clock₁)) true = .ok () →
      validateAck H ack (some (nowMs.getD clock₂)) true = .ok ()
  | _ => True

/-- The attempts that the call may record meet `P`. -/
def OutboxCall.Meets (P : OutboxRecord → OutboxAttempt → Prop) (m : Records) : OutboxCall → Prop
  | .recordAttempt id _ _ _ errorCode =>
    ∀ r a, m.get id = some r → r.state = .queued → a.errorCode = errorCode → P r a
  | _ => True

/-- The call enqueues a new record under an id that meets `Q` only. -/
def OutboxCall.Enqueues (Q : String → Prop) (m : Records) : OutboxCall → Prop
  | .enqueue e _ => ∀ id, e.messageId = .str id → m.get id = none → Q id
  | _ => True

variable {P : OutboxRecord → OutboxAttempt → Prop} {Q : String → Prop}

theorem OutboxCall.meets_of_forall (h : ∀ r a, P r a) {m : Records} (c : OutboxCall) :
    c.Meets P m := by
  cases c with
  | recordAttempt => exact fun r a _ _ _ => h r a
  | _ => trivial

theorem OutboxCall.enqueues_of_forall (h : ∀ id, Q id) {m : Records} (c : OutboxCall) :
    c.Enqueues Q m := by
  cases c with
  | enqueue => exact fun id _ _ => h id
  | _ => trivial

theorem one_eq_ok {b : JournalFile → Outbox → Except OutboxFault (Outbox × JournalFile × OutboxRecord)}
    {f f' : JournalFile} {o o' : Outbox} {rs : Records} (h : Outbox.one b f o = .ok (o', f', rs)) :
    ∃ r, b f o = .ok (o', f', r) := by
  obtain ⟨⟨o₁, f₁, r⟩, hb, hs⟩ := map_eq_ok.1 h
  cases hs
  exact ⟨r, hb⟩

theorem enqueueLocked_writes {r r' : OutboxRecord} {e : TransportEnvelope} {now : ℤ}
    (he : recordEnvelope H r = .ok e) (hr : r = r.fresh) (hnow : 1 ≤ now) {f f' : JournalFile}
    {o o' : Outbox} (hQ : o.records.get r.messageId = none → Q r.messageId)
    (h : Outbox.enqueueLocked r now f o = .ok (o', f', r')) :
    ReflTransGen (Write (H := H) P Q) (o, f) (o', f') := by
  unfold Outbox.enqueueLocked at h
  split at h
  · simp only [require_bind_eq_ok, pure_eq_ok, Prod.mk.injEq] at h
    obtain ⟨-, rfl, rfl, -⟩ := h
    exact .refl
  · rename_i hnone
    simp only [bind_eq_ok, pure_eq_ok, Prod.mk.injEq, Prod.exists] at h
    obtain ⟨_, -, o₁, f₁, ha, rfl, rfl, -⟩ := h
    obtain ⟨henc, rfl, rfl⟩ := append_eq_ok ha
    exact .single (.append (.enqueue he hr (by omega) hnone (hQ hnone)) henc)

theorem attemptLocked_writes {id : String} {a : OutboxAttempt} (ha : AttemptOk a)
    {f f' : JournalFile} {o o' : Outbox} {r' : OutboxRecord}
    (hP : ∀ r, o.records.get id = some r → r.state = .queued → P r a)
    (h : Outbox.attemptLocked id a f o = .ok (o', f', r')) :
    ReflTransGen (Write (H := H) P Q) (o, f) (o', f') := by
  simp only [Outbox.attemptLocked, bind_eq_ok, require_eq_ok, pure_eq_ok, Prod.mk.injEq,
    Prod.exists] at h
  obtain ⟨r, hr, _, hl, o₁, f₁, happ, rfl, rfl, -⟩ := h
  obtain ⟨hget, rfl, hq⟩ := requireLive_ok hr
  obtain ⟨henc, rfl, rfl⟩ := append_eq_ok happ
  exact .single (.append (.attempt hget hq (by simpa using hl) ha (hP r hget hq)) henc)

theorem ackLocked_writes {ack : DeliveryAck} {now : ℤ} (hnow : 1 ≤ now)
    (hvalid : validateAck H ack (some now) true = .ok ()) {f f' : JournalFile} {o o' : Outbox}
    {r' : OutboxRecord} (h : Outbox.ackLocked H ack now f o = .ok (o', f', r')) :
    ReflTransGen (Write (H := H) P Q) (o, f) (o', f') := by
  obtain ⟨id, sha, receiver, signature, received, hack⟩ := validateAck_reads hvalid
  have hid : ack.messageId = .str id := by rw [hack.eq]
  have hsha : ack.envelopeSha256 = .str sha := by rw [hack.eq]
  have hby : ack.receiverDid = .str receiver := by rw [hack.eq]
  have hat : ack.receivedAtMs = .int received := by rw [hack.eq]
  simp only [Outbox.ackLocked, hid, hsha, hby, hat, Json.asStr, Json.asInt, bind_eq_ok, expect_eq_ok,
    require_eq_ok, mapError_eq_ok, Option.some.injEq] at h
  obtain ⟨_, rfl, _, rfl, _, rfl, _, rfl, r, hr, e, he, _, hm, h⟩ := h
  split_ifs at h with hd
  · simp only [bind_eq_ok, require_eq_ok, pure_eq_ok, Prod.mk.injEq] at h
    obtain ⟨_, -, rfl, rfl, -⟩ := h
    exact .refl
  · simp only [bind_eq_ok, expect_eq_ok, require_eq_ok, pure_eq_ok, Prod.mk.injEq, Prod.exists] at h
    obtain ⟨_, hq, _, hauth, text, htext, o₁, f₁, happ, rfl, rfl, -⟩ := h
    obtain ⟨-, rfl⟩ := Records.get_eq_some hr
    obtain ⟨recipient, hrec⟩ := recipient_of_recordEnvelope he
    obtain ⟨henc, rfl, rfl⟩ := append_eq_ok happ
    have hq : r.state = .queued := by simpa using hq
    refine .single (.append (.deliver hr hq rfl fun rs hrs => ?_) henc)
    exact foldEvent_delivered (recordEnvelope_facts he).1.id_isDigest hq he hack (by omega) hvalid hm
      hrec (authorizeReceiver_ok hrec hauth) htext hrs

theorem transitionExpired_write {now : ℤ} (hnow : 1 ≤ now) {o o' : Outbox} {f f' : JournalFile}
    {r : OutboxRecord} (hr : o.records.get r.messageId = some r) (hq : r.state = .queued)
    (h : Outbox.transitionExpired now (o, f) r = .ok (o', f')) :
    Write (H := H) P Q (o, f) (o', f') ∧ o'.records = o.records.set { r with state := .expired } := by
  simp only [Outbox.transitionExpired, bind_eq_ok, pure_eq_ok, Prod.mk.injEq, Prod.exists] at h
  obtain ⟨o₁, f₁, happ, rfl, rfl⟩ := h
  obtain ⟨henc, rfl, rfl⟩ := append_eq_ok happ
  exact ⟨.append (.expire hr hq (by omega)) henc, rfl⟩

/-- The records that expire are written one by one. -/
theorem foldlM_expired_writes {now : ℤ} (hnow : 1 ≤ now) {rs : Records} {o o' : Outbox}
    {f f' : JournalFile} (hn : (rs.map OutboxRecord.messageId).Nodup)
    (hrs : ∀ r ∈ rs, o.records.get r.messageId = some r ∧ r.state = .queued)
    (h : rs.foldlM (Outbox.transitionExpired now) (o, f) = .ok (o', f')) :
    ReflTransGen (Write (H := H) P Q) (o, f) (o', f') := by
  induction rs generalizing o f with
  | nil => cases h; exact .refl
  | cons r rs ih =>
    rw [List.map_cons, List.nodup_cons] at hn
    rw [List.forall_mem_cons] at hrs
    rw [List.foldlM_cons, bind_eq_ok] at h
    obtain ⟨⟨o₁, f₁⟩, h₁, h⟩ := h
    obtain ⟨hw, hrec⟩ := transitionExpired_write (P := P) (H := H) hnow hrs.1.1 hrs.1.2 h₁
    refine .head hw (ih hn.2 (fun q hq => ⟨?_, (hrs.2 q hq).2⟩) h)
    -- another record still stands under its id
    have hne : q.messageId ≠ r.messageId := fun he => hn.1 (he ▸ List.mem_map_of_mem hq)
    have hfind := (hrs.2 q hq).1
    rw [hrec]
    unfold Records.get Records.set at *
    rw [List.find?_map]
    have hc : ((fun p : OutboxRecord => p.messageId == q.messageId) ∘ fun p =>
        if p.messageId == r.messageId then { r with state := OutboxState.expired } else p) =
        fun p => p.messageId == q.messageId := by
      funext p
      by_cases hp : p.messageId = r.messageId <;> simp [hp]
    rw [hc, hfind, Option.map_some]
    simp [hne]

theorem pendingLocked_writes {now : ℤ} (hnow : 1 ≤ now) {o o' : Outbox} {f f' : JournalFile}
    {rs : Records} (hn : (o.records.map OutboxRecord.messageId).Nodup)
    (h : Outbox.pendingLocked now f o = .ok (o', f', rs)) :
    ReflTransGen (Write (H := H) P Q) (o, f) (o', f') := by
  simp only [Outbox.pendingLocked, bind_eq_ok, pure_eq_ok, Prod.mk.injEq, Prod.exists] at h
  obtain ⟨o₁, f₁, h, rfl, rfl, -⟩ := h
  refine foldlM_expired_writes hnow (hn.sublist (List.filter_sublist.map _)) (fun r hr => ?_) h
  rw [List.mem_filter, Bool.and_eq_true, beq_iff_eq] at hr
  exact ⟨Records.get_of_mem hn hr.1, hr.2.1⟩

theorem eventsText_eq_ok {events : List Fields} {raw : Bytes}
    (h : Outbox.eventsText events = .ok raw) :
    (∀ e ∈ events, (Json.obj e).encodable = true) ∧ raw = Jsonl.eventsText events := by
  simp only [Outbox.eventsText, bind_eq_ok, expect_eq_ok, pure_eq_ok] at h
  obtain ⟨lines, hl, rfl⟩ := h
  exact canonical_lines hl

theorem compactLocked_write {o o' : Outbox} {f f' : JournalFile} {n : ℕ}
    (h : Outbox.compactLocked f o = .ok (o', f', n)) : Write (H := H) P Q (o, f) (o', f') := by
  simp only [Outbox.compactLocked, bind_eq_ok, pure_eq_ok, Prod.mk.injEq] at h
  obtain ⟨raw, hraw, rfl, rfl, -⟩ := h
  obtain ⟨henc, rfl⟩ := eventsText_eq_ok hraw
  exact .compact henc

/-- **Every call is a sequence of writes.** -/
theorem body_writes {c : OutboxCall} (hw : c.wf = true) (hack : c.AckHolds H) {b : Outbox.Body}
    (hb : Outbox.body H c = .ok b) {o o' : Outbox} {f f' : JournalFile} {rs : Records}
    (hn : (o.records.map OutboxRecord.messageId).Nodup) (hP : c.Meets P o.records)
    (hQ : c.Enqueues Q o.records) (h : b f o = .ok (o', f', rs)) : ReflTransGen (Write (H := H) P Q) (o, f) (o', f') := by
  cases c with
  | enqueue e now =>
    simp only [Outbox.body, bind_eq_ok, pure_eq_ok] at hb
    obtain ⟨r, hr, rfl⟩ := hb
    obtain ⟨he, hfresh, hnow, hid⟩ := enqueueArgs_ok hw hr
    obtain ⟨r', hr'⟩ := one_eq_ok h
    exact enqueueLocked_writes he hfresh hnow (hQ r.messageId hid) hr'
  | recordAttempt id transport outcome atMs errorCode =>
    simp only [Outbox.body, bind_eq_ok, pure_eq_ok] at hb
    obtain ⟨a, ha, rfl⟩ := hb
    obtain ⟨hok, hcode⟩ := attemptArgs_ok ha
    obtain ⟨r', hr'⟩ := one_eq_ok h
    exact attemptLocked_writes hok (fun r hr hq => hP r a hr hq hcode) hr'
  | handleAck ack nowMs clock₁ clock₂ =>
    simp only [Outbox.body, Outbox.ackArgs, Outbox.validateOperationTime, bind_eq_ok, require_eq_ok,
      mapError_eq_ok, pure_eq_ok] at hb
    obtain ⟨_, ⟨_, hv, hnow⟩, rfl⟩ := hb
    obtain ⟨r', hr'⟩ := one_eq_ok h
    exact ackLocked_writes (by simpa using hnow) (hack hv) hr'
  | pending now =>
    simp only [Outbox.body, Outbox.validateOperationTime, bind_eq_ok, require_eq_ok, pure_eq_ok] at hb
    obtain ⟨_, hnow, rfl⟩ := hb
    exact pendingLocked_writes (by simpa using hnow) hn h
  | get id =>
    simp only [Outbox.body, pure_eq_ok] at hb
    subst hb
    cases h
    exact .refl
  | compact =>
    simp only [Outbox.body, pure_eq_ok] at hb
    subst hb
    obtain ⟨⟨o₁, f₁, n⟩, hc, hs⟩ := map_eq_ok.1 h
    cases hs
    exact .single (compactLocked_write hc)

/-! ## What a write preserves -/

variable (H) in
/-- The journal folds to `v`. -/
structure Folds (f : JournalFile) (v : Records) : Prop where
  whole : Jsonl.tail f.bytes = []
  load : (outboxReader H).load f.bytes [] = .ok v

variable (H) in
/-- The memory of a process agrees with the journal. -/
structure Synced (o : Outbox) (f : JournalFile) (v : Records) : Prop where
  folds : Folds H f v
  agree : v.Agree o.records
  sound : ∀ r ∈ o.records, Sound H r
  nodup : (o.records.map OutboxRecord.messageId).Nodup
  stat : o.journalStat = f.stat

theorem flat_of_change {m m' : Records} {event : Fields} (h : Change (H := H) P Q m event m') :
    Json.flat event = true := by
  cases h with
  | enqueue => rfl
  | attempt =>
    rename_i r a _ _ _ _ _
    unfold attemptEvent
    split_ifs <;> rfl
  | deliver _ _ h => exact h
  | expire => rfl

theorem flat_compactEvents {rs : Records} {e : Fields}
    (h : e ∈ rs.flatMap Outbox.compactEvents) : Json.flat e = true := by
  obtain ⟨r, -, h⟩ := List.mem_flatMap.1 h
  rcases List.mem_cons.1 h with rfl | h
  · rfl
  · obtain ⟨a, -, rfl⟩ := List.mem_map.1 h
    unfold attemptEvent
    split_ifs <;> rfl

/-- The records after a change are sound. -/
theorem sound_of_change {m m' : Records} {event : Fields} (h : Change (H := H) P Q m event m')
    (hs : ∀ r ∈ m, Sound H r) : ∀ r ∈ m', Sound H r := by
  cases h with
  | @enqueue r e now he hr _ _ _ =>
    intro q hq
    rcases List.mem_append.1 hq with hq | hq
    · exact hs q hq
    · rw [List.mem_singleton.1 hq, hr]
      refine ⟨⟨e, he⟩, ?_, ?_, ?_⟩ <;> simp [OutboxRecord.fresh]
  | @attempt r a hget hq hl ha _ =>
    intro q hmem
    rcases Records.mem_set hmem with rfl | ⟨hmem, -⟩
    · have h := hs r (Records.get_eq_some hget).1
      refine ⟨h.envelope, ?_, ?_, ?_⟩
      · intro b hb
        rcases List.mem_append.1 hb with hb | hb
        · exact h.attempts_ok b hb
        · rw [List.mem_singleton.1 hb]; exact ha
      · simp only [Outbox.afterAttempt, List.length_append, List.length_singleton]; omega
      · intro hq'
        have hrej : a.outcome ≠ .rejected := by
          intro he
          simp [Outbox.afterAttempt, he] at hq'
        refine ⟨fun b hb => ?_, (h.queued hq).2⟩
        rcases List.mem_append.1 hb with hb | hb
        · exact (h.queued hq).1 b hb
        · rw [List.mem_singleton.1 hb]; exact hrej
    · exact hs q hmem
  | deliver hget hq _ _ =>
    intro q hmem
    rcases Records.mem_set hmem with rfl | ⟨hmem, -⟩
    · have h := hs _ (Records.get_eq_some hget).1
      exact ⟨h.envelope, h.attempts_ok, h.attempts_le, fun hq' => by cases hq'⟩
    · exact hs q hmem
  | expire hget hq _ =>
    intro q hmem
    rcases Records.mem_set hmem with rfl | ⟨hmem, -⟩
    · have h := hs _ (Records.get_eq_some hget).1
      exact ⟨h.envelope, h.attempts_ok, h.attempts_le, fun hq' => by cases hq'⟩
    · exact hs q hmem

theorem nodup_of_change {m m' : Records} {event : Fields} (h : Change (H := H) P Q m event m')
    (hn : (m.map OutboxRecord.messageId).Nodup) : (m'.map OutboxRecord.messageId).Nodup := by
  cases h with
  | enqueue _ _ _ hnone _ =>
    rw [Records.get_eq_none] at hnone
    rw [List.map_append, List.nodup_append]
    refine ⟨hn, by simp, ?_⟩
    rintro a ha b hb rfl
    rw [List.map_singleton, List.mem_singleton] at hb
    exact hnone (hb ▸ ha)
  | _ => rwa [Records.ids_set]

/-- The fold of a change agrees with its effect on memory. -/
theorem fold_of_change {m m' : Records} {event : Fields} (h : Change (H := H) P Q m event m')
    (hs : ∀ r ∈ m, Sound H r) : ∃ v, foldEvent H event m = .ok v ∧ v.Agree m' := by
  cases h with
  | @enqueue r e now he hr hnow hnone _ =>
    refine ⟨_, foldEvent_enqueued he hnow hnone, ?_⟩
    rw [← hr]
    exact .refl _
  | @attempt r a hget hq hl ha _ =>
    refine ⟨_, foldEvent_attempt (hs r (Records.get_eq_some hget).1).id_isDigest ha hq hl hget, ?_⟩
    exact (Records.Agree.refl m).set rfl
  | deliver hget _ _ hfold => exact ⟨_, hfold m hget, .refl _⟩
  | @expire r now hget hq hnow =>
    exact ⟨_, foldEvent_expired (hs r (Records.get_eq_some hget).1).id_isDigest hq hnow hget, .refl _⟩

theorem folds_append {f : JournalFile} {v v' : Records} (h : Folds H f v) {event : Fields}
    (hflat : Json.flat event = true) (henc : (Json.obj event).encodable = true)
    (hv : foldEvent H event v = .ok v') :
    Folds H (f.write (f.bytes ++ Jsonl.eventsText [event])) v' := by
  obtain ⟨hload, htail⟩ := load_flat_events (H := H) h.whole [event] (by simpa using hflat)
    (by simpa using henc)
  refine ⟨htail, hload.trans ?_⟩
  rw [h.load, ok_bind, foldEvents, List.foldlM_cons, hv]
  rfl

/-- The fold of a compacted journal. -/
theorem folds_compact (f : JournalFile) {m : Records} (hs : ∀ r ∈ m, Sound H r)
    (hn : (m.map OutboxRecord.messageId).Nodup)
    (henc : ∀ e ∈ m.keep.flatMap Outbox.compactEvents, (Json.obj e).encodable = true) :
    Folds H (f.write (Jsonl.eventsText (m.keep.flatMap Outbox.compactEvents)))
      (m.keep.map OutboxRecord.refolded) := by
  obtain ⟨hload, htail⟩ := load_flat_events (H := H) (rfl : Jsonl.tail [] = []) _
    (fun e he => flat_compactEvents he) henc
  refine ⟨by rwa [List.nil_append] at htail, ?_⟩
  rw [List.nil_append] at hload
  refine hload.trans ?_
  rw [Jsonl.Reader.load_nil, ok_bind, fold_compact]
  · rfl
  · intro r hr
    rw [Records.keep, List.mem_filter] at hr
    refine ⟨hs r hr.1, ?_⟩
    revert hr
    cases r.state <;> simp [OutboxState.isTerminal]
  · exact hn.sublist (List.filter_sublist.map _)

/-- **The memory of the writer agrees with the journal after a write.** -/
theorem Synced.write {o o' : Outbox} {f f' : JournalFile} {v : Records} (h : Synced H o f v)
    (hw : Write (H := H) P Q (o, f) (o', f')) : ∃ v', Synced H o' f' v' := by
  cases hw with
  | append hc henc =>
    obtain ⟨m'', hm, hagree⟩ := fold_of_change hc h.sound
    obtain ⟨v', hv', hag⟩ := foldEvent_agree hm h.agree.symm
    exact ⟨v', folds_append h.folds (flat_of_change hc) henc hv', hag.symm.trans hagree,
      sound_of_change hc h.sound, nodup_of_change hc h.nodup, rfl⟩
  | compact henc =>
    exact ⟨_, folds_compact f h.sound h.nodup henc, agree_refolded _,
      fun r hr => h.sound r (List.mem_of_mem_filter hr),
      h.nodup.sublist (List.filter_sublist.map _), rfl⟩

/-! ## Processes that share the journal -/

/-- A relation between the fold of the journal and the memory of a process that
    implies agreement and that writes preserve. -/
structure Tracks (H : Host) (P : OutboxRecord → OutboxAttempt → Prop) (Q : String → Prop)
    (E : Records → Records → Prop) : Prop where
  agree : ∀ {v m : Records}, E v m → v.Agree m
  self : ∀ {v m : Records}, E v m → E v v
  nil : E [] []
  write : ∀ {o o' : Outbox} {f f' : JournalFile} {v : Records}, Synced H o f v → E v o.records →
    Write (H := H) P Q (o, f) (o', f') → ∃ v', Synced H o' f' v' ∧ E v' o'.records

/-- Agreement is tracked by all writes. -/
theorem tracks_agree : Tracks H P Q Records.Agree where
  agree h := h
  self _ := .refl _
  nil := .refl _
  write h _ hw := by
    obtain ⟨v', h'⟩ := h.write hw
    exact ⟨v', h', h'.agree⟩

variable {E : Records → Records → Prop}

theorem Tracks.writes (hE : Tracks H P Q E) {o o' : Outbox} {f f' : JournalFile} {v : Records}
    (h : Synced H o f v) (he : E v o.records)
    (hw : ReflTransGen (Write (H := H) P Q) (o, f) (o', f')) :
    ∃ v', Synced H o' f' v' ∧ E v' o'.records ∧
      ((o' = o ∧ f' = f) ∨ (f.mtime < f'.mtime ∧ f'.journal.isSome = true)) := by
  generalize hp : (o', f') = p at hw
  induction hw generalizing o' f' with
  | refl => cases hp; exact ⟨v, h, he, .inl ⟨rfl, rfl⟩⟩
  | @tail q p _ hlast ih =>
    obtain ⟨o₁, f₁⟩ := q
    obtain ⟨v₁, h₁, he₁, hm₁⟩ := ih rfl
    subst hp
    obtain ⟨v', h', he'⟩ := hE.write h₁ he₁ hlast
    have hlt : f₁.mtime < f'.mtime ∧ f'.journal.isSome = true := by
      cases hlast <;> exact ⟨Nat.lt_succ_self _, rfl⟩
    refine ⟨v', h', he', .inr ⟨?_, hlt.2⟩⟩
    rcases hm₁ with ⟨-, rfl⟩ | hm₁
    · exact hlt.1
    · exact hm₁.1.trans hlt.1

variable (H) in
/-- The invariant: the journal folds to `v`, and so has every process whose
    fingerprint is the one of the file; with `strict` the process that took the
    lock last is one of them. -/
structure OutboxWorld.Inv (E : Records → Records → Prop) (strict : Prop) (w : OutboxWorld)
    (v : Records) : Prop where
  folds : Folds H w.file v
  self : E v v
  sound : ∀ r ∈ v, Sound H r
  nodup : (v.map OutboxRecord.messageId).Nodup
  past : ∀ o ∈ w.procs, ∀ p, o.journalStat = some p → p.1 ≤ w.file.mtime
  absent : w.file.journal = none → ∀ o ∈ w.procs, o.journalStat = none
  agree : ∀ o ∈ w.procs, o.journalStat = w.file.stat → E v o.records
  turn : strict → ∀ i o, w.turn = some i → w.procs[i]? = some o → o.journalStat = w.file.stat

theorem load_of_folds {f : JournalFile} {v : Records} (h : Folds H f v) (o : Outbox) :
    (f.bytes.length ≤ maxJournalBytes ∧
      Outbox.load H o f = ({ o with records := v, journalStat := f.stat }, .ok ())) ∨
    (maxJournalBytes < f.bytes.length ∧ ∃ e, Outbox.load H o f = (o, .error e)) := by
  cases hj : f.journal with
  | none =>
    left
    have hb : f.bytes = [] := by rw [JournalFile.bytes, hj]; rfl
    have hv : v = [] := by
      have := h.load
      rw [hb, Jsonl.Reader.load_nil] at this
      cases this; rfl
    refine ⟨by rw [hb]; exact Nat.zero_le _, ?_⟩
    simp [Outbox.load, hj, hv, JournalFile.stat]
  | some raw =>
    have hb : f.bytes = raw := by rw [JournalFile.bytes, hj]; rfl
    have hl := h.load
    rw [hb] at hl ⊢
    by_cases hlen : maxJournalBytes < raw.length
    · right
      refine ⟨hlen, .corrupt "outbox journal exceeds 67108864 bytes", ?_⟩
      simp only [Outbox.load, hj, if_pos hlen]
    · left
      refine ⟨Nat.le_of_not_lt hlen, ?_⟩
      simp only [Outbox.load, hj, if_neg hlen, hl]

/-- A process takes the lock: it holds the fold, or the journal is too large for
    it to read. -/
theorem refold_of_inv {strict : Prop} {w : OutboxWorld} {v : Records} (hE : Tracks H P Q E)
    (h : w.Inv H E strict v) {o : Outbox} (ho : o ∈ w.procs) :
    (∃ o', Outbox.refoldIfChanged H o w.file = (o', .ok ()) ∧ Synced H o' w.file v ∧
      E v o'.records ∧ o'.maxPending = o.maxPending) ∨
    (∃ o' e, Outbox.refoldIfChanged H o w.file = (o', .error e) ∧ o'.journalStat = o.journalStat ∧
      o'.records = [] ∧ o.journalStat ≠ w.file.stat ∧
      maxJournalBytes < w.file.bytes.length) := by
  have synced : ∀ o' : Outbox, o'.journalStat = w.file.stat → E v o'.records →
      Synced H o' w.file v := by
    intro o' hs he
    have hag := hE.agree he
    refine ⟨h.folds, hag, fun r hr => ?_, hag.ids_eq ▸ h.nodup, hs⟩
    have hget := hag.get r.messageId
    rw [Records.get_of_mem (hag.ids_eq ▸ h.nodup) hr, Option.map_some, Option.map_eq_some_iff] at hget
    obtain ⟨s, hs', hstrip⟩ := hget
    exact (h.sound s (Records.get_eq_some hs').1).of_strip hstrip
  unfold Outbox.refoldIfChanged
  by_cases hc : (w.file.journal.isSome && w.file.stat != o.journalStat) = true
  · rw [if_pos hc]
    rw [Bool.and_eq_true, bne_iff_ne] at hc
    rcases load_of_folds h.folds { o with records := [] } with ⟨-, hl⟩ | ⟨hlen, e, hl⟩
    · exact .inl ⟨_, hl, synced _ rfl h.self, h.self, rfl⟩
    · exact .inr ⟨_, e, hl, rfl, rfl, Ne.symm hc.2, hlen⟩
  · rw [if_neg hc]
    have hs : o.journalStat = w.file.stat := by
      rw [Bool.and_eq_true, bne_iff_ne, not_and, not_not] at hc
      cases hj : w.file.journal with
      | none => rw [h.absent hj o ho, JournalFile.stat, hj]; rfl
      | some raw => exact (hc (by rw [hj]; rfl)).symm
    exact .inl ⟨o, rfl, synced o hs (h.agree o ho hs), h.agree o ho hs, rfl⟩

/-- **A call under the lock** is a sequence of writes of a process that holds the
    fold, or the journal is too large for it to read. -/
theorem locked_of_inv {strict : Prop} {w : OutboxWorld} {v : Records} (hE : Tracks H P Q E)
    (h : w.Inv H E strict v) {o : Outbox} (ho : o ∈ w.procs) {c : OutboxCall} (hw : c.wf = true)
    (hack : c.AckHolds H) (hP : ∀ m, E v m → c.Meets P m ∧ c.Enqueues Q m) {b : Outbox.Body}
    (hb : Outbox.body H c = .ok b) {o' : Outbox} {f' : JournalFile}
    {result : Except OutboxFault Records}
    (hl : o.locked H w.file (b w.file) = ((o', f'), result)) :
    (∃ o₁, Synced H o₁ w.file v ∧ E v o₁.records ∧ o₁.maxPending = o.maxPending ∧
      ReflTransGen (Write (H := H) P Q) (o₁, w.file) (o', f') ∧
      ((o' = o₁ ∧ f' = w.file ∧ ∃ e, result = .error e) ∨
        ∃ rs, result = .ok rs ∧ b w.file o₁ = .ok (o', f', rs))) ∨
    (f' = w.file ∧ o'.journalStat = o.journalStat ∧ o'.records = [] ∧
      o.journalStat ≠ w.file.stat ∧ maxJournalBytes < w.file.bytes.length ∧
      ∃ e, result = .error e) := by
  unfold Outbox.locked at hl
  rcases refold_of_inv hE h ho with ⟨o₁, hr, hs, he, hcap⟩ | ⟨o₁, e, hr, hstat, hnil, hne, hlen⟩
  · left
    simp only [hr] at hl
    refine ⟨o₁, hs, he, hcap, ?_⟩
    cases hbody : b w.file o₁ with
    | error r =>
      simp only [hbody, Prod.mk.injEq] at hl
      obtain ⟨⟨rfl, rfl⟩, rfl⟩ := hl
      exact ⟨.refl, .inl ⟨rfl, rfl, r, rfl⟩⟩
    | ok s =>
      obtain ⟨o₂, f₂, rs₂⟩ := s
      simp only [hbody, Prod.mk.injEq] at hl
      obtain ⟨⟨rfl, rfl⟩, rfl⟩ := hl
      obtain ⟨hmeets, henq⟩ := hP _ he
      exact ⟨body_writes hw hack hb hs.nodup hmeets henq hbody, .inr ⟨rs₂, rfl, rfl⟩⟩
  · right
    simp only [hr, Prod.mk.injEq] at hl
    obtain ⟨⟨rfl, rfl⟩, rfl⟩ := hl
    exact ⟨rfl, hstat, hnil, hne, hlen, e, rfl⟩

/-- The process of the action reads the journal: it is small enough or unchanged. -/
def OutboxWorld.Readable (w : OutboxWorld) : OutboxAct → Prop
  | .call i _ => ∀ o, w.procs[i]? = some o → o.journalStat = w.file.stat ∨
      w.file.bytes.length ≤ maxJournalBytes
  | .start _ _ => True

/-- The processes after one of them has made a call. -/
theorem inv_of_call {strict : Prop} {w : OutboxWorld} {v v' : Records} (h : w.Inv H E strict v)
    (hE : Tracks H P Q E) {i : ℕ} {o o' : Outbox} (hi : w.procs[i]? = some o) {f' : JournalFile}
    (hs : Synced H o' f' v') (he : E v' o'.records)
    (hm : (f' = w.file ∧ v' = v) ∨ (w.file.mtime < f'.mtime ∧ f'.journal.isSome = true))
    (ds : List String) : OutboxWorld.Inv H E strict
      { file := f', procs := w.procs.set i o', turn := some i, delivered := ds } v' := by
  have hlt : i < w.procs.length := (List.getElem?_eq_some_iff.1 hi).1
  have hle : w.file.mtime ≤ f'.mtime := by
    rcases hm with ⟨rfl, -⟩ | hm
    · exact le_rfl
    · exact hm.1.le
  -- another process has the fingerprint of the new file only if nothing was written
  have other : ∀ q ∈ w.procs, q.journalStat = f'.stat → f' = w.file ∧ v' = v := by
    intro q hq hstat
    rcases hm with hm | ⟨hm, hsome⟩
    · exact hm
    · obtain ⟨raw, hraw⟩ := Option.isSome_iff_exists.1 hsome
      have := h.past q hq (f'.mtime, raw.length) (by rw [hstat, JournalFile.stat, hraw]; rfl)
      omega
  refine ⟨hs.folds, hE.self he, fun r hr => ?_, hs.agree.ids_eq ▸ hs.nodup, ?_, ?_, ?_, ?_⟩
  · have hget := hs.agree.get r.messageId
    rw [Records.get_of_mem (hs.agree.ids_eq ▸ hs.nodup) hr, Option.map_some, eq_comm,
      Option.map_eq_some_iff] at hget
    obtain ⟨s, hs', hstrip⟩ := hget
    exact (hs.sound s (Records.get_eq_some hs').1).of_strip hstrip
  · intro q hq p hp
    rcases List.mem_or_eq_of_mem_set hq with hq | rfl
    · exact (h.past q hq p hp).trans hle
    · rw [hs.stat, JournalFile.stat, Option.map_eq_some_iff] at hp
      obtain ⟨raw, -, rfl⟩ := hp
      exact le_rfl
  · intro hnone q hq
    rcases List.mem_or_eq_of_mem_set hq with hq' | rfl
    · rcases hm with ⟨rfl, -⟩ | ⟨-, hsome⟩
      · exact h.absent hnone q hq'
      · exact absurd hsome (by rw [show f'.journal = none from hnone]; simp)
    · rw [hs.stat, JournalFile.stat, show f'.journal = none from hnone]; rfl
  · intro q hq hstat
    rcases List.mem_or_eq_of_mem_set hq with hq' | rfl
    · obtain ⟨rfl, rfl⟩ := other q hq' hstat
      exact h.agree q hq' hstat
    · exact he
  · intro _ j q hj hq
    cases hj
    rw [List.getElem?_set_self hlt] at hq
    cases hq
    exact hs.stat

variable (H P Q E) in
/-- What an action does to the journal and its fold: nothing, or a process that
    holds the fold makes its writes. -/
inductive Stepped (w w' : OutboxWorld) (v v' : Records) : OutboxAct → Prop
  | idle {a : OutboxAct} : w'.file = w.file → w'.delivered = w.delivered → v' = v →
      Stepped w w' v v' a
  | call {i : ℕ} {c : OutboxCall} {b : Outbox.Body} {p o o' : Outbox} : c.wf = true →
      Outbox.body H c = .ok b → w.procs[i]? = some p → o.maxPending = p.maxPending →
      Synced H o w.file v → E v o.records →
      ReflTransGen (Write (H := H) P Q) (o, w.file) (o', w'.file) → Synced H o' w'.file v' →
      ((o' = o ∧ w'.file = w.file) ∨ ∃ rs, b w.file o = .ok (o', w'.file, rs)) →
      w'.delivered = w.delivered ++ o'.records.deliveredIds → Stepped w w' v v' (.call i c)

/-- **The invariant is kept by every action** that meets the conditions. -/
theorem inv_step {strict : Prop} {w w' : OutboxWorld} {v : Records} (h : w.Inv H E strict v)
    (hE : Tracks H P Q E) {a : OutboxAct} (hack : ∀ i c, a = .call i c → c.AckHolds H)
    (hP : ∀ i c m, a = .call i c → E v m → c.Meets P m ∧ c.Enqueues Q m)
    (hread : strict → w.Readable a) (hstep : w.step H a = some w') :
    ∃ v', w'.Inv H E strict v' ∧ Stepped H P Q E w w' v v' a := by
  cases a with
  | start maxPending authorizeAck =>
    rw [OutboxWorld.step, Option.ite_none_right_eq_some] at hstep
    obtain ⟨-, hstep⟩ := hstep
    rcases load_of_folds h.folds { maxPending := maxPending, authorizeAck := authorizeAck }
      with ⟨-, hl⟩ | ⟨-, e, hl⟩
    · rw [hl] at hstep
      cases hstep
      refine ⟨v, ⟨h.folds, h.self, h.sound, h.nodup, ?_, ?_, ?_, ?_⟩, .idle rfl rfl rfl⟩
      · intro q hq p hp
        rcases List.mem_append.1 hq with hq | hq
        · exact h.past q hq p hp
        · rw [List.mem_singleton.1 hq, JournalFile.stat, Option.map_eq_some_iff] at hp
          obtain ⟨raw, -, rfl⟩ := hp
          exact le_rfl
      · intro hnone q hq
        rcases List.mem_append.1 hq with hq | hq
        · exact h.absent hnone q hq
        · rw [List.mem_singleton.1 hq, JournalFile.stat, show w.file.journal = none from hnone]; rfl
      · intro q hq hstat
        rcases List.mem_append.1 hq with hq | hq
        · exact h.agree q hq hstat
        · rw [List.mem_singleton.1 hq]; exact h.self
      · intro _ i q hi hq
        cases hi
        rw [List.getElem?_concat_length] at hq
        cases hq; rfl
    · rw [hl] at hstep
      cases hstep
      exact ⟨v, h, .idle rfl rfl rfl⟩
  | call i c =>
    rw [OutboxWorld.step] at hstep
    split at hstep
    · cases hstep
    · rename_i o hi
      rw [Option.ite_none_right_eq_some] at hstep
      obtain ⟨hw, hstep⟩ := hstep
      split at hstep
      · cases hstep
        exact ⟨v, h, .idle rfl rfl rfl⟩
      · rename_i b hb
        cases hstep
        have ho : o ∈ w.procs := List.mem_of_getElem? hi
        obtain ⟨⟨⟨o', f'⟩, result⟩, hl⟩ : ∃ s, o.locked H w.file (b w.file) = s := ⟨_, rfl⟩
        rw [hl]
        rcases locked_of_inv hE h ho hw (hack i c rfl) (fun m => hP i c m rfl) hb hl with
          ⟨o₁, hs, he, hcap, hwrites, hres⟩ | ⟨rfl, hstat, hnil, hne, hlen, -⟩
        · have hres' : (o' = o₁ ∧ f' = w.file) ∨ ∃ rs, b w.file o₁ = .ok (o', f', rs) := by
            rcases hres with ⟨ho', hf', -⟩ | ⟨rs, -, hrs⟩
            · exact .inl ⟨ho', hf'⟩
            · exact .inr ⟨rs, hrs⟩
          obtain ⟨v', hs', he', hm⟩ := hE.writes hs he hwrites
          rcases hm with ⟨rfl, rfl⟩ | hm
          · exact ⟨v, inv_of_call h hE hi hs he (.inl ⟨rfl, rfl⟩) _,
              .call hw hb hi hcap hs he hwrites hs hres' rfl⟩
          · exact ⟨v', inv_of_call h hE hi hs' he' (.inr hm) _,
              .call hw hb hi hcap hs he hwrites hs' hres' rfl⟩
        · refine ⟨v, ⟨h.folds, h.self, h.sound, h.nodup, ?_, ?_, ?_, ?_⟩, .idle rfl ?_ rfl⟩
          · intro q hq p hp
            rcases List.mem_or_eq_of_mem_set hq with hq | rfl
            · exact h.past q hq p hp
            · exact h.past o ho p (hstat ▸ hp)
          · intro hnone q hq
            rcases List.mem_or_eq_of_mem_set hq with hq | rfl
            · exact h.absent hnone q hq
            · rw [hstat]; exact h.absent hnone o ho
          · intro q hq hcur
            rcases List.mem_or_eq_of_mem_set hq with hq | rfl
            · exact h.agree q hq hcur
            · exact absurd (hstat ▸ hcur) hne
          · intro hstrict
            rcases hread hstrict o hi with hcur | hle
            · exact absurd hcur hne
            · exact absurd hlen (by omega)
          · simp [hnil, Records.deliveredIds]

theorem inv_start {strict : Prop} (hE : Tracks H P Q E) : ({} : OutboxWorld).Inv H E strict [] where
  folds := ⟨rfl, rfl⟩
  self := hE.nil
  sound := fun _ hr => absurd hr List.not_mem_nil
  nodup := List.nodup_nil
  past := fun _ ho => absurd ho List.not_mem_nil
  absent := fun _ _ ho => absurd ho List.not_mem_nil
  agree := fun _ ho => absurd ho List.not_mem_nil
  turn := fun _ _ _ hi => by cases hi

end Delivery

end NthDao
