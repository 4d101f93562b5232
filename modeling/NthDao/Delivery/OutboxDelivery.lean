/-
  Delivered messages of the outbox.

  * `delivered_stays_delivered`: if no message is enqueued again after a compaction
    dropped its delivered record, a delivered message has no queued record in any
    reached state, no `pending` returns it, and every id has one record at most;
  * `delivered_queued_again`: after such a compaction a delivered message is queued
    again.
-/
import NthDao.Delivery.OutboxCalls

namespace NthDao

namespace Delivery

open Py Runs Relation

variable {H : Host} {P : OutboxRecord → OutboxAttempt → Prop}

/-! ## Settled records -/

/-- The records of the ids in `ds` are delivered. -/
def Settled (ds : List String) (m : Records) : Prop :=
  ∀ r ∈ m, r.messageId ∈ ds → r.state = .delivered

theorem Records.Agree.mem {rs ss : Records} (h : rs.Agree ss) {r : OutboxRecord} (hr : r ∈ rs) :
    ∃ s ∈ ss, s.strip = r.strip := by
  have hmem : r.strip ∈ rs.map OutboxRecord.strip := List.mem_map_of_mem hr
  rw [h] at hmem
  exact List.mem_map.1 hmem

theorem Settled.agree {ds : List String} {m v : Records} (h : Settled ds m) (ha : v.Agree m) :
    Settled ds v := by
  intro r hr hd
  obtain ⟨s, hs, hstrip⟩ := ha.mem hr
  have hid : s.strip.messageId = r.strip.messageId := by rw [hstrip]
  have hstate : s.strip.state = r.strip.state := by rw [hstrip]
  have hdel : s.state = .delivered := h s hs (hid.symm ▸ hd)
  exact hstate.symm.trans hdel

/-- A queued record is not settled. -/
theorem Settled.not_mem {ds : List String} {m : Records} (h : Settled ds m) {r : OutboxRecord}
    (hr : r ∈ m) (hq : r.state = .queued) : r.messageId ∉ ds := by
  intro hd
  have := h r hr hd
  rw [hq] at this
  cases this

/-- A change of a queued record, or of a new one, leaves the settled ones. -/
theorem Settled.change {ds : List String} {m m' : Records} {event : Fields} (h : Settled ds m)
    (hc : Change (H := H) P (· ∉ ds) m event m') : Settled ds m' := by
  cases hc with
  | enqueue _ _ _ _ hnew =>
    intro q hq hd
    rcases List.mem_append.1 hq with hq | hq
    · exact h q hq hd
    · rw [List.mem_singleton.1 hq] at hd
      exact absurd hd hnew
  | @attempt r a hget hq _ _ _ =>
    intro q hmem hd
    rcases Records.mem_set hmem with rfl | ⟨hmem, -⟩
    · have hnot := h.not_mem (Records.get_eq_some hget).1 hq
      exact absurd hd hnot
    · exact h q hmem hd
  | deliver =>
    intro q hmem hd
    rcases Records.mem_set hmem with rfl | ⟨hmem, -⟩
    · rfl
    · exact h q hmem hd
  | @expire r now hget hq _ =>
    intro q hmem hd
    rcases Records.mem_set hmem with rfl | ⟨hmem, -⟩
    · have hnot := h.not_mem (Records.get_eq_some hget).1 hq
      exact absurd hd hnot
    · exact h q hmem hd

theorem Settled.writes {ds : List String} {o o' : Outbox} {f f' : JournalFile}
    (h : Settled ds o.records)
    (hw : ReflTransGen (Write (H := H) P (· ∉ ds)) (o, f) (o', f')) : Settled ds o'.records := by
  generalize hp : (o', f') = p at hw
  induction hw generalizing o' f' with
  | refl => cases hp; exact h
  | @tail q p _ hlast ih =>
    obtain ⟨o₁, f₁⟩ := q
    have h₁ := ih rfl
    subst hp
    cases hlast with
    | append hc _ => exact h₁.change hc
    | compact _ => exact fun r hr => h₁ r (List.mem_of_mem_filter hr)

/-- The delivered records are settled. -/
theorem Settled.delivered {ds : List String} {m : Records} (h : Settled ds m)
    (hn : (m.map OutboxRecord.messageId).Nodup) : Settled (ds ++ m.deliveredIds) m := by
  intro r hr hd
  rcases List.mem_append.1 hd with hd | hd
  · exact h r hr hd
  · obtain ⟨s, hs, hid⟩ := List.mem_map.1 hd
    rw [List.mem_filter, beq_iff_eq] at hs
    have hget := Records.get_of_mem hn hs.1
    rw [hid, Records.get_of_mem hn hr, Option.some.injEq] at hget
    rw [hget]
    exact hs.2

/-! ## Runs -/

variable (H) in
/-- The acknowledgement of the call holds at both readings of the clock, and the
    message it enqueues has not been delivered, or its record is still there. -/
def OutboxWorld.NoRequeue (w : OutboxWorld) (a : OutboxAct) : Prop :=
  ∀ i c, a = .call i c → c.AckHolds H ∧
    ∀ v, (outboxReader H).load w.file.bytes [] = .ok v → c.Enqueues (· ∉ w.delivered) v

/-- The condition on the fold holds of the memory. -/
theorem OutboxCall.Enqueues.agree {Q : String → Prop} {c : OutboxCall} {v m : Records}
    (h : c.Enqueues Q v) (ha : v.Agree m) : c.Enqueues Q m := by
  cases c with
  | enqueue e now => exact fun id hid hm => h id hid ((ha.get_eq_none id).2 hm)
  | _ => trivial

/-- The invariant of the runs. -/
theorem settled_of_reach {w : OutboxWorld}
    (h : Reach (OutboxWorld.step H) (OutboxWorld.NoRequeue H) {} w) :
    ∃ v, w.Inv H Records.Agree False v ∧ Settled w.delivered v := by
  refine h.invariant (P := fun w => ∃ v, w.Inv H Records.Agree False v ∧ Settled w.delivered v)
    ⟨[], inv_start (tracks_agree (P := fun _ _ => True) (Q := fun _ => True)),
      fun _ hr => absurd hr List.not_mem_nil⟩ ?_
  rintro s a s' ⟨v, hv, hset⟩ hcond hstep
  have hmeets : ∀ i c m, a = .call i c → v.Agree m →
      c.Meets (fun _ _ => True) m ∧ c.Enqueues (· ∉ s.delivered) m := by
    intro i c m ha hagree
    exact ⟨c.meets_of_forall fun _ _ => trivial, ((hcond i c ha).2 v hv.folds.load).agree hagree⟩
  obtain ⟨v', hv', hst⟩ := inv_step hv tracks_agree (fun i c ha => (hcond i c ha).1) hmeets
    (fun hf => hf.elim) hstep
  refine ⟨v', hv', ?_⟩
  cases hst with
  | idle _ hd hvv => rw [hd, hvv]; exact hset
  | @call i c b p o o' _ _ _ _ hs hagree hwrites hs' _ hd =>
    have hm : Settled s.delivered o'.records := (hset.agree hs.agree.symm).writes hwrites
    rw [hd]
    exact (hm.delivered hs'.nodup).agree hs'.agree

/-- What a call does in a reached state: it raises and writes nothing, or a process
    that holds the fold makes its writes. -/
theorem call_of_inv {Q : String → Prop} {w : OutboxWorld} {v : Records}
    (h : w.Inv H Records.Agree False v) {o : Outbox} (ho : o ∈ w.procs) (c : OutboxCall)
    (hw : c.wf = true) (hack : c.AckHolds H) (hQ : ∀ m : Records, v.Agree m → c.Enqueues Q m) :
    (∃ e, (o.call H w.file c).2 = .error e ∧ (o.call H w.file c).1.2 = w.file) ∨
    ∃ b o₁ o' f' rs, Outbox.body H c = .ok b ∧ v.Agree o₁.records ∧
      ReflTransGen (Write (H := H) (fun _ _ => True) Q) (o₁, w.file) (o', f') ∧
      b w.file o₁ = .ok (o', f', rs) ∧ o.call H w.file c = ((o', f'), .ok rs) := by
  cases hb : Outbox.body H c with
  | error e => exact .inl ⟨e, by rw [Outbox.call, hb], by rw [Outbox.call, hb]⟩
  | ok b =>
    obtain ⟨⟨⟨o', f'⟩, result⟩, hl⟩ : ∃ s, o.locked H w.file (b w.file) = s := ⟨_, rfl⟩
    have hcall : o.call H w.file c = ((o', f'), result) := by rw [Outbox.call, hb, ← hl]
    rw [hcall]
    rcases locked_of_inv tracks_agree h ho hw hack
      (fun m hm => ⟨c.meets_of_forall fun _ _ => trivial, hQ m hm⟩) hb hl with
      ⟨o₁, -, hag, -, hwrites, ⟨-, hf, e, he⟩ | ⟨rs, hok, hbody⟩⟩ | ⟨hf, -, -, -, -, e, he⟩
    · exact .inl ⟨e, he, hf⟩
    · exact .inr ⟨b, o₁, o', f', rs, rfl, hag, hwrites, hbody, by rw [hok]⟩
    · exact .inl ⟨e, he, hf⟩

/-- What `pending` returns is not settled. -/
theorem pending_not_settled {w : OutboxWorld} {v : Records} (h : w.Inv H Records.Agree False v)
    (hset : Settled w.delivered v) {o : Outbox} (ho : o ∈ w.procs) {now : ℤ} {rs : Records}
    (hrs : (o.call H w.file (.pending now)).2 = .ok rs) :
    ∀ r ∈ rs, r.state = .queued ∧ r.messageId ∉ w.delivered := by
  rcases call_of_inv (Q := (· ∉ w.delivered)) h ho (.pending now) rfl trivial
    (fun _ _ => trivial) with ⟨e, he, -⟩ | ⟨b, o₁, o', f', rs', hb, hag, hwrites, hbody, hcall⟩
  · rw [he] at hrs; cases hrs
  · rw [hcall] at hrs
    cases hrs
    have hm : Settled w.delivered o'.records := (hset.agree hag.symm).writes hwrites
    simp only [Outbox.body, bind_eq_ok, pure_eq_ok] at hb
    obtain ⟨_, -, rfl⟩ := hb
    simp only [Outbox.pendingLocked, bind_eq_ok, pure_eq_ok, Prod.mk.injEq, Prod.exists] at hbody
    obtain ⟨o₂, f₂, -, rfl, rfl, rfl⟩ := hbody
    intro r hr
    rw [List.mem_filter, beq_iff_eq] at hr
    exact ⟨hr.2, hm.not_mem hr.1 hr.2⟩

/-- A message that has a record is not enqueued again. -/
theorem enqueue_of_get {w : OutboxWorld} {v : Records} (h : w.Inv H Records.Agree False v)
    {o : Outbox} (ho : o ∈ w.procs) {e : TransportEnvelope} (now : ℤ) {id : String}
    (hw : e.wf = true) (hid : e.messageId = .str id) (hsome : v.get id ≠ none) :
    (o.call H w.file (.enqueue e now)).1.2 = w.file := by
  rcases call_of_inv (Q := fun _ => True) h ho (.enqueue e now) hw trivial
    (fun _ _ _ _ _ => trivial) with ⟨-, -, hf⟩ | ⟨b, o₁, o', f', rs, hb, hag, -, hbody, hcall⟩
  · exact hf
  · rw [hcall]
    simp only [Outbox.body, bind_eq_ok, pure_eq_ok] at hb
    obtain ⟨r, hr, rfl⟩ := hb
    obtain ⟨-, -, -, hrid⟩ := enqueueArgs_ok hw hr
    obtain rfl : id = r.messageId := by
      rw [hid, Json.str.injEq] at hrid
      exact hrid
    obtain ⟨r', hr'⟩ := one_eq_ok hbody
    obtain ⟨q, hq⟩ := Option.ne_none_iff_exists'.1 (mt (hag.get_eq_none _).2 hsome)
    simp only [Outbox.enqueueLocked, hq, bind_eq_ok, pure_eq_ok, Prod.mk.injEq] at hr'
    obtain ⟨_, -, -, rfl, -⟩ := hr'
    rfl

/-- **A delivered message is not pending again**, and an id has one record. -/
theorem delivered_stays_delivered {w : OutboxWorld}
    (h : Reach (OutboxWorld.step H) (OutboxWorld.NoRequeue H) {} w) :
    ∃ v, (outboxReader H).load w.file.bytes [] = .ok v ∧
      (v.map OutboxRecord.messageId).Nodup ∧ Settled w.delivered v ∧
      (∀ o ∈ w.procs, o.journalStat = w.file.stat →
        (o.records.map OutboxRecord.messageId).Nodup ∧ Settled w.delivered o.records) ∧
      (∀ o ∈ w.procs, ∀ now rs, (o.call H w.file (.pending now)).2 = .ok rs →
        ∀ r ∈ rs, r.state = .queued ∧ r.messageId ∉ w.delivered) ∧
      ∀ o ∈ w.procs, ∀ e now id, e.wf = true → e.messageId = .str id → v.get id ≠ none →
        (o.call H w.file (.enqueue e now)).1.2 = w.file := by
  obtain ⟨v, hv, hset⟩ := settled_of_reach h
  refine ⟨v, hv.folds.load, hv.nodup, hset, fun o ho hs => ?_,
    fun o ho now rs hrs => pending_not_settled hv hset ho hrs,
    fun o ho e now id hw hid hsome => enqueue_of_get hv ho now hw hid hsome⟩
  have hag : v.Agree o.records := hv.agree o ho hs
  exact ⟨hag.ids_eq ▸ hv.nodup, hset.agree hag.symm⟩

/-! ## A message that is delivered -/

/-- The sample acknowledgement passes, and names the sample envelope. -/
def sampleAckChecks : PLift (
    (validateAck checksumHost sampleAck (some 2500) true).toOption.isSome = true ∧
    ackDigestMatchesEnvelope checksumHost
      "sha256:000000000000000000000000000000000000000000000000d1f789a2d7b02331"
      sampleEnvelope.norm = true) := ⟨by decide +kernel⟩

theorem validate_sampleAck : validateAck checksumHost sampleAck (some 2500) true = .ok () :=
  eq_ok_of_isSome sampleAckChecks.down.1

/-- The acknowledgement names the sample envelope. -/
theorem sampleAck_matches :
    ackDigestMatchesEnvelope checksumHost
      "sha256:000000000000000000000000000000000000000000000000d1f789a2d7b02331"
      sampleEnvelope.norm = true :=
  sampleAckChecks.down.2

/-- The sample message is queued and delivered. -/
theorem exists_sampleDelivered (cond : OutboxWorld → OutboxAct → Prop)
    (h₀ : cond {} (.start 8 none))
    (h₁ : cond (soloStart 8) (.call 0 (.enqueue sampleEnvelope 1500)))
    (h₂ : ∀ w, cond w (.call 0 (.handleAck sampleAck (some 2500) 2500 2500))) :
    ∃ w r, Solo checksumHost cond 8 w [r] [r] ∧ r.state = .delivered ∧
      sampleMessageId ∈ w.delivered := by
  obtain ⟨r, hr, hid, hfresh, he⟩ := exists_sampleRecord
  have hq : r.state = .queued := by rw [hfresh]; rfl
  obtain ⟨w₁, hw₁, -⟩ := (Solo.start (by decide) h₀).enqueue sampleEnvelope_wf h₁ hr (by decide) rfl
    rfl (by decide)
  obtain ⟨id, sha, receiver, signature, received, hreads⟩ := validateAck_reads validate_sampleAck
  have hack := hreads.eq
  rw [sampleAck] at hack
  cases hack
  rw [← hid] at hreads
  obtain ⟨w₂, r₂, hw₂, hd₂, hds₂⟩ := hw₁.ack hq he (h₂ w₁) hreads (by decide) validate_sampleAck
    sampleAck_matches rfl (by decide) (by decide)
  exact ⟨w₂, r₂, hw₂, hd₂, by rw [hds₂, hid]; simp⟩

/-- The theorem on a delivered message. -/
theorem delivered_stays_sample : ∃ w : OutboxWorld,
    Reach (OutboxWorld.step checksumHost) (OutboxWorld.NoRequeue checksumHost) {} w ∧
    sampleMessageId ∈ w.delivered ∧
    ∃ v, (outboxReader checksumHost).load w.file.bytes [] = .ok v ∧ Settled w.delivered v := by
  obtain ⟨w, r, hw, -, hd⟩ := exists_sampleDelivered (OutboxWorld.NoRequeue checksumHost)
    (fun i c h => by cases h)
    (fun i c h => by cases h; exact ⟨trivial, fun v _ id _ _ => List.not_mem_nil⟩)
    (fun w i c h => by cases h; exact ⟨fun h => h, fun v _ => trivial⟩)
  obtain ⟨v, hv, -, hset, -⟩ := delivered_stays_delivered hw.reach
  exact ⟨w, hw.reach, hd, v, hv, hset⟩

/-- **A delivered message is queued again** after a compaction. -/
theorem delivered_queued_again : ∃ (w : OutboxWorld) (r : OutboxRecord),
    Reach (OutboxWorld.step checksumHost) (fun _ _ => True) {} w ∧
    sampleMessageId ∈ w.delivered ∧
    (outboxReader checksumHost).load w.file.bytes [] = .ok [r] ∧ r.messageId = sampleMessageId ∧
    r.state = .queued := by
  obtain ⟨w, r, hw, hd, hds⟩ := exists_sampleDelivered (fun _ _ => True) trivial trivial
    (fun _ => trivial)
  obtain ⟨w₁, hw₁, hds₁⟩ := hw.compact hd trivial
  obtain ⟨q, hq, hid, hfresh, -⟩ := exists_sampleRecord
  obtain ⟨w₂, hw₂, hds₂, -⟩ := hw₁.enqueue sampleEnvelope_wf trivial hq (by decide) rfl rfl (by decide)
  refine ⟨w₂, q, hw₂.reach, ?_, hw₂.folds.load, hid, by rw [hfresh]; rfl⟩
  rw [hds₂, hds₁]
  exact List.mem_append_left _ hds

end Delivery

end NthDao
