/-
  Leases of the commerce outbox over whole runs.

  Any number of workers claim, report and retarget in any order.  The clock does
  not go back; a worker may act on a reading taken before it got the lock.

  * `World.step`: one operation, with the leases issued so far;
  * `Inv`: a lease that is neither expired nor reported is the one in the file,
    and the lease in the file has not been superseded;
  * `lease_safety`: one live lease per message, acknowledged work stays so, and
    a superseded report changes a record exactly if that is open.
-/
import NthDao.Commerce.Outbox
import NthDao.Reach

namespace NthDao

namespace Commerce

open Py Runs

variable (urlsplit : String → Option SplitResult) (H : Host)

/-! ## Runs -/

/-- The record of a file. -/
def CommerceOutbox.recordAt (s : CommerceOutbox) (path : String) : Option OutboxRecord :=
  match loadRecord path (s.active path) with
  | .ok (some value) => (decodeRecord urlsplit path value).toOption
  | _ => none

/-- A lease that `claim` returned, on the file of its message. -/
structure Lease where
  file : String
  leaseId : String
  expiresAtMs : ℕ
  deriving DecidableEq

/-- The outbox, the time, and what became of its leases. -/
structure World where
  outbox : CommerceOutbox
  clock : ℕ
  /-- the leases issued -/
  leases : List Lease := []
  /-- the leases reported, and those claimed again after they expired -/
  reported : List (String × String) := []
  reclaimed : List (String × String) := []

/-- What the workers do. -/
inductive Act where
  | tick (time : ℕ)
  | enqueue (e : CommerceEnvelope) (targetUrl : Json) (allowRetarget : Bool) (nowMsOverride now : ℕ)
  | claim (messageId : String) (leaseMs nowMsOverride : ℕ) (force : Bool) (now : ℕ)
      (leaseId : String)
  | recordAttempt (messageId : String) (a : Report) (now : ℕ)

/-- The lease of a file whose record is in flight. -/
def CommerceOutbox.current (s : CommerceOutbox) (path : String) : List (String × String) :=
  match s.recordAt urlsplit path with
  | some r => if r.status = .inflight then [(path, r.leaseId)] else []
  | none => []

/-- The name of the file of a message. -/
def fileOf (messageId : String) : String := (pathOf messageId).toOption.getD ""

/-- One operation; one that raises changes nothing. -/
def World.step (w : World) : Act → Option World
  | .tick time => if w.clock ≤ time then some { w with clock := time } else none
  | .enqueue e targetUrl allowRetarget nowMsOverride now =>
    match w.outbox.enqueue urlsplit H e targetUrl allowRetarget nowMsOverride now with
    | .ok (_, s) => some { w with outbox := s }
    | .error _ => some w
  | .claim messageId leaseMs nowMsOverride force now leaseId =>
    match w.outbox.claim urlsplit messageId leaseMs nowMsOverride force now leaseId with
    | .ok (some r, s) => some { w with
        outbox := s
        leases := ⟨fileOf messageId, leaseId, r.leaseExpiresAtMs⟩ :: w.leases
        reclaimed := w.outbox.current urlsplit (fileOf messageId) ++ w.reclaimed }
    | .ok (none, s) => some { w with outbox := s }
    | .error _ => some w
  | .recordAttempt messageId a now =>
    match w.outbox.recordAttempt urlsplit messageId a now with
    | .ok (_, s) => some { w with
        outbox := s
        reported := w.outbox.current urlsplit (fileOf messageId) ++ w.reported }
    | .error _ => some w

/-- The lease was reported or claimed again. -/
def World.Superseded (w : World) (file leaseId : String) : Prop :=
  (file, leaseId) ∈ w.reported ∨ (file, leaseId) ∈ w.reclaimed

/-- A reading of the clock is not ahead of it, and `uuid4` returns an identifier
    that the message has not had. -/
def World.Allows (w : World) : Act → Prop
  | .claim messageId _ nowMsOverride _ now leaseId =>
    clockOr nowMsOverride now ≤ w.clock ∧ ¬ w.Superseded (fileOf messageId) leaseId ∧
      ∀ r, w.outbox.recordAt urlsplit (fileOf messageId) = some r → r.leaseId ≠ leaseId
  | _ => True

/-- The lease is neither expired nor reported. -/
def World.Live (w : World) (l : Lease) : Prop :=
  w.clock < l.expiresAtMs ∧ (l.file, l.leaseId) ∉ w.reported

/-- What a superseded report must not change. -/
def OutboxRecord.progress (r : OutboxRecord) : Status × ℕ × ℕ :=
  (r.status, r.attempts, r.nextAttemptAtMs)

/-- The record of the file is open: not in flight, not acknowledged. -/
def CommerceOutbox.Open (s : CommerceOutbox) (path : String) : Prop :=
  ∃ r, s.recordAt urlsplit path = some r ∧ (r.status = .pending ∨ r.status = .blocked)

/-! ## Records read back -/

variable {urlsplit H}

@[simp] theorem Status.ofWire_wire (t : Status) : Status.ofWire t.wire = some t := by
  cases t <;> decide

@[simp] theorem natOf_int (n : ℕ) : natOf (.int n) = some n := by simp [natOf, Json.asInt]

/-- A stored record reads back, its error normalised. -/
theorem decodeRecord_asdict {path : String} {r r' : OutboxRecord}
    (h : decodeRecord urlsplit path r.asdict = .ok r') : r' = { r with lastError := r'.lastError } := by
  simp only [decodeRecord, OutboxRecord.asdict, Json.getD, Json.get, Json.lookup_cons] at h
  simp only [String.reduceEq, if_true, if_false, Option.getD_some, natOf_int, Json.asStr,
    Option.bind_some, Status.ofWire_wire, expect, ok_bind, bind_eq_ok, pure_eq_ok] at h
  obtain ⟨_, -, _, -, _, -, url, -, _, hurl, history, hhist, _, -, _, -, _, -, rfl⟩ := h
  obtain rfl : r.targetUrl = url := by simpa [Json.eqStr] using hurl
  obtain rfl : r.routeHistory = history := by
    cases hr : r.routeHistory with
    | none => simpa [hr, decodeHistory] using hhist
    | some rs =>
      simp only [hr, decodeHistory, List.map_map] at hhist
      split at hhist
      · rename_i h
        split_ifs at h
        cases h; cases hhist
        rw [show Json.fields ∘ Json.obj = id from rfl, List.map_id]
      · cases hhist
  rfl

theorem recordAt_doc {s : CommerceOutbox} {path : String} {r r' : OutboxRecord}
    (hs : s.active path = .doc (.obj r.asdict)) (h : s.recordAt urlsplit path = some r') :
    r' = { r with lastError := r'.lastError } := by
  simp only [CommerceOutbox.recordAt, hs] at h
  split at h
  · rename_i value hv
    simp only [loadRecord, unit_bind_eq_ok, pure_eq_ok, Option.some.injEq] at hv
    obtain ⟨-, -, rfl⟩ := hv
    rw [Json.fields_obj] at h
    cases hd : decodeRecord urlsplit path r.asdict with
    | error f => rw [hd] at h; cases h
    | ok r'' =>
      rw [hd] at h
      obtain rfl : r'' = r' := Option.some.inj h
      exact decodeRecord_asdict hd
  · cases h

theorem recordAt_absent {s : CommerceOutbox} {path : String} (hs : s.active path = .absent) :
    s.recordAt urlsplit path = none := by
  simp [CommerceOutbox.recordAt, hs, loadRecord]

theorem active_write (s : CommerceOutbox) (path : String) (r : OutboxRecord) :
    (s.write path r).active path = .doc (.obj r.asdict) := if_pos rfl

theorem active_write_ne (s : CommerceOutbox) {path name : String} (r : OutboxRecord)
    (h : name ≠ path) : (s.write path r).active name = s.active name := if_neg h

theorem recordAt_write_ne (s : CommerceOutbox) {path name : String} (r : OutboxRecord)
    (h : name ≠ path) : (s.write path r).recordAt urlsplit name = s.recordAt urlsplit name := by
  rw [CommerceOutbox.recordAt, CommerceOutbox.recordAt, active_write_ne s r h]

theorem recordAt_of_ok {s : CommerceOutbox} {path : String} {value : Fields} {r : OutboxRecord}
    (hl : loadRecord path (s.active path) = .ok (some value))
    (hd : decodeRecord urlsplit path value = .ok r) : s.recordAt urlsplit path = some r := by
  simp [CommerceOutbox.recordAt, hl, hd, Except.toOption]

theorem absent_of_loadRecord {path : String} {f : RecordFile} (h : loadRecord path f = .ok none) :
    f = .absent := by
  cases f with
  | absent => rfl
  | corrupt => cases h
  | doc value => simp [loadRecord, bind_eq_ok, -bind_pure_comp] at h

/-! ## What the operations do -/

theorem claim_ok {s s' : CommerceOutbox} {mid : String} {leaseMs ov now : ℕ} {force : Bool}
    {leaseId : String} {o : Option OutboxRecord}
    (h : s.claim urlsplit mid leaseMs ov force now leaseId = .ok (o, s')) :
    (o = none ∧ s' = s) ∨ ∃ r r', o = some r' ∧ s.recordAt urlsplit (fileOf mid) = some r ∧
      r.lease leaseMs (clockOr ov now) force leaseId = some r' ∧ s' = s.write (fileOf mid) r' := by
  simp only [CommerceOutbox.claim, bind_eq_ok] at h
  obtain ⟨_, -, path, hp, value, hl, h⟩ := h
  obtain rfl : fileOf mid = path := by simp [fileOf, hp, Except.toOption]
  cases value with
  | none =>
    rw [pure_eq_ok, Prod.mk.injEq] at h
    exact Or.inl ⟨h.1.symm, h.2.symm⟩
  | some value =>
    rw [mapError_bind_eq_ok] at h
    obtain ⟨r, hd, h⟩ := h
    split at h
    · rw [pure_eq_ok, Prod.mk.injEq] at h
      exact Or.inl ⟨h.1.symm, h.2.symm⟩
    · rename_i r' hr
      rw [pure_eq_ok, Prod.mk.injEq] at h
      exact Or.inr ⟨r, r', h.1.symm, recordAt_of_ok hl hd, hr, h.2.symm⟩

theorem recordAttempt_ok {s s' : CommerceOutbox} {mid : String} {a : Report} {now : ℕ}
    {r' : OutboxRecord} (h : s.recordAttempt urlsplit mid a now = .ok (r', s')) :
    ∃ r, s.recordAt urlsplit (fileOf mid) = some r ∧
      ((r.status = .acknowledged ∧ s' = s) ∨
        (r.status ≠ .acknowledged ∧ (r.status = .inflight → a.leaseId = r.leaseId) ∧
          r' = r.report a (clockOr a.nowMsOverride now) ∧ s' = s.write (fileOf mid) r')) := by
  simp only [CommerceOutbox.recordAttempt, bind_eq_ok, expect_eq_ok] at h
  obtain ⟨_, -, path, hp, value, hl, fields, rfl, r, hd, h⟩ := h
  obtain rfl : fileOf mid = path := by simp [fileOf, hp, Except.toOption]
  refine ⟨r, recordAt_of_ok hl hd, ?_⟩
  split_ifs at h with hs
  · rw [pure_eq_ok, Prod.mk.injEq] at h
    exact Or.inl ⟨hs, h.2.symm⟩
  · rw [unit_bind_eq_ok, require_eq_ok, pure_eq_ok, Prod.mk.injEq] at h
    obtain ⟨hl, rfl, rfl⟩ := h
    refine Or.inr ⟨hs, fun hi => ?_, rfl, rfl⟩
    simp only [hi, decide_true, Bool.true_and, Bool.not_eq_true', Bool.or_eq_false_iff,
      bne_eq_false_iff_eq] at hl
    exact hl.2

/-- A stored record that `enqueue` finds is the active one or there is none. -/
theorem find_ok {s : CommerceOutbox} {path : String} {o : Option Fields} (h : s.find path = .ok o) :
    s.active path = .absent ∨ loadRecord path (s.active path) = .ok o := by
  rw [CommerceOutbox.find, bind_eq_ok] at h
  obtain ⟨active, ha, h⟩ := h
  cases active with
  | none => exact Or.inl (absent_of_loadRecord ha)
  | some value => rw [pure_eq_ok] at h; exact Or.inr (h ▸ ha)

theorem enqueue_ok {s s' : CommerceOutbox} {e : CommerceEnvelope} {url : Json} {allow : Bool}
    {ov now : ℕ} {r' : OutboxRecord}
    (h : s.enqueue urlsplit H e url allow ov now = .ok (r', s')) :
    s' = s ∨ ∃ path, r'.status = .pending ∧ s' = s.write path r' ∧
      (s.active path = .absent ∨ s.Open urlsplit path) := by
  simp only [CommerceOutbox.enqueue, bind_eq_ok] at h
  obtain ⟨_, -, target, -, path, -, current, hc, h⟩ := h
  have hfind := find_ok hc
  cases current with
  | none =>
    rw [pure_eq_ok, Prod.mk.injEq] at h
    obtain ⟨rfl, rfl⟩ := h
    exact Or.inr ⟨path, rfl, rfl, Or.inl (hfind.elim id absent_of_loadRecord)⟩
  | some value =>
    simp only [CommerceOutbox.enqueueOver, bind_eq_ok] at h
    obtain ⟨existing, -, r, hd, h⟩ := h
    split_ifs at h
    · simp only [bind_eq_ok, pure_eq_ok, Prod.mk.injEq] at h
      obtain ⟨_, -, -, rfl⟩ := h
      exact Or.inl rfl
    · rw [pure_eq_ok, Prod.mk.injEq] at h
      exact Or.inl h.2.symm
    · simp only [bind_eq_ok, require_eq_ok, pure_eq_ok, Prod.mk.injEq] at h
      obtain ⟨_, -, _, hs, rfl, rfl⟩ := h
      refine Or.inr ⟨path, rfl, rfl, hfind.imp_right fun hl => ?_⟩
      exact ⟨r, recordAt_of_ok hl hd, by simpa using hs⟩

/-- What one step does: time passes, a claim writes a lease, a report writes the
    outcome of an open or leased record, or `enqueue` writes an unleased one. -/
inductive World.Moves (urlsplit : String → Option SplitResult) (w : World) : World → Prop
  | idle {t : ℕ} (ht : w.clock ≤ t) : Moves urlsplit w { w with clock := t }
  | claim {path : String} {r r' : OutboxRecord} (hr : w.outbox.recordAt urlsplit path = some r)
      (hack : r.status ≠ .acknowledged)
      (hold : r.status = .inflight → r.leaseExpiresAtMs ≤ w.clock)
      (hnew : r'.status = .inflight) (hid : r'.leaseId ≠ r.leaseId)
      (hfresh : ¬ w.Superseded path r'.leaseId) :
      Moves urlsplit w { w with
        outbox := w.outbox.write path r'
        leases := ⟨path, r'.leaseId, r'.leaseExpiresAtMs⟩ :: w.leases
        reclaimed := w.outbox.current urlsplit path ++ w.reclaimed }
  | report {path : String} {r r' : OutboxRecord} (hr : w.outbox.recordAt urlsplit path = some r)
      (hack : r.status ≠ .acknowledged) (hnew : r'.status ≠ .inflight) :
      Moves urlsplit w { w with
        outbox := w.outbox.write path r'
        reported := w.outbox.current urlsplit path ++ w.reported }
  | enqueue {path : String} {r' : OutboxRecord}
      (hr : w.outbox.active path = .absent ∨ w.outbox.Open urlsplit path)
      (hnew : r'.status = .pending) :
      Moves urlsplit w { w with outbox := w.outbox.write path r' }

theorem OutboxRecord.lease_some {r r' : OutboxRecord} {leaseMs t : ℕ} {force : Bool}
    {leaseId : String} (h : r.lease leaseMs t force leaseId = some r') :
    r.status ≠ .acknowledged ∧ (r.status = .inflight → r.leaseExpiresAtMs ≤ t) ∧
      r'.status = .inflight ∧ r'.leaseId = leaseId := by
  unfold OutboxRecord.lease at h
  split_ifs at h with h₁ h₂ h₃ h₄
  cases h
  exact ⟨h₁, fun hi => Nat.le_of_not_lt fun hlt => h₃ ⟨hi, hlt⟩, rfl, rfl⟩

theorem OutboxRecord.report_status (r : OutboxRecord) (a : Report) (t : ℕ) :
    (r.report a t).status ≠ .inflight := by
  unfold OutboxRecord.report
  split_ifs <;> simp

theorem World.moves_of_step {w w' : World} {a : Act} (ha : w.Allows urlsplit a)
    (h : w.step urlsplit H a = some w') : w.Moves urlsplit w' := by
  have idle : w.Moves urlsplit w := .idle (le_refl w.clock)
  cases a with
  | tick t =>
    simp only [World.step, Option.ite_none_right_eq_some, Option.some.injEq] at h
    obtain ⟨ht, rfl⟩ := h
    exact .idle ht
  | enqueue e url allow ov now =>
    simp only [World.step] at h
    split at h
    · rename_i r s hs
      cases h
      rcases enqueue_ok hs with rfl | ⟨path, hr, rfl, hopen⟩
      · exact idle
      · exact .enqueue hopen hr
    · cases h; exact idle
  | claim mid leaseMs ov force now leaseId =>
    obtain ⟨hclock, hfresh, hne⟩ := ha
    simp only [World.step] at h
    split at h
    · rename_i r' s hs
      cases h
      rcases claim_ok hs with ⟨h, -⟩ | ⟨r, r'', h, hr, hl, rfl⟩
      · cases h
      · cases h
        obtain ⟨hack, hold, hnew, rfl⟩ := OutboxRecord.lease_some hl
        exact .claim hr hack (fun hi => (hold hi).trans hclock) hnew (hne r hr).symm hfresh
    · rename_i s hs
      cases h
      rcases claim_ok hs with ⟨-, rfl⟩ | ⟨_, _, h, -⟩
      · exact idle
      · cases h
    · cases h; exact idle
  | recordAttempt mid a now =>
    simp only [World.step] at h
    split at h
    · rename_i r' s hs
      cases h
      obtain ⟨r, hr, ⟨hack, rfl⟩ | ⟨hack, -, rfl, rfl⟩⟩ := recordAttempt_ok hs
      · have hc : w.outbox.current urlsplit (fileOf mid) = [] := by
          simp [CommerceOutbox.current, hr, hack]
        rw [hc]; exact idle
      · exact .report hr hack (OutboxRecord.report_status r a _)
    · cases h; exact idle

/-! ## The invariant -/

/-- A live lease is the one in the file, and the lease in the file has not been
    superseded. -/
structure World.Inv (urlsplit : String → Option SplitResult) (w : World) : Prop where
  held : ∀ l ∈ w.leases, w.Live l → ∃ r : OutboxRecord, w.outbox.active l.file = .doc (.obj r.asdict) ∧
    r.status = .inflight ∧ r.leaseId = l.leaseId ∧ r.leaseExpiresAtMs = l.expiresAtMs
  current : ∀ path r, w.outbox.recordAt urlsplit path = some r → r.status = .inflight →
    ¬ w.Superseded path r.leaseId

theorem recordAt_write {s : CommerceOutbox} {path : String} {r r' : OutboxRecord}
    (h : (s.write path r).recordAt urlsplit path = some r') :
    r'.status = r.status ∧ r'.leaseId = r.leaseId := by
  rw [recordAt_doc (active_write s path r) h]
  exact ⟨rfl, rfl⟩

theorem current_inflight {s : CommerceOutbox} {path : String} {r : OutboxRecord}
    (hr : s.recordAt urlsplit path = some r) (hi : r.status = .inflight) :
    s.current urlsplit path = [(path, r.leaseId)] := by
  simp [CommerceOutbox.current, hr, hi]

theorem mem_current {s : CommerceOutbox} {path : String} {p : String × String}
    (h : p ∈ s.current urlsplit path) :
    ∃ r, s.recordAt urlsplit path = some r ∧ r.status = .inflight ∧ p = (path, r.leaseId) := by
  unfold CommerceOutbox.current at h
  split at h
  · rename_i r hr
    split_ifs at h with hi
    · exact ⟨r, hr, hi, by simpa using h⟩
    · cases h
  · cases h

/-- The lease of the file is the only one that a step can end. -/
theorem superseded_ne (urlsplit : String → Option SplitResult) {w : World} {path name : String}
    {r : OutboxRecord} (hn : name ≠ path) (h : ¬ w.Superseded name r.leaseId) :
    ¬ ((name, r.leaseId) ∈ w.outbox.current urlsplit path ++ w.reported ∨
        (name, r.leaseId) ∈ w.outbox.current urlsplit path ++ w.reclaimed) := by
  have hc : (name, r.leaseId) ∉ w.outbox.current urlsplit path := by
    intro hm
    obtain ⟨_, -, -, he⟩ := mem_current hm
    exact hn (Prod.mk.inj he).1
  simp only [List.mem_append, hc, false_or]
  exact h

theorem World.Moves.inv {w w' : World} (h : w.Moves urlsplit w') (hw : w.Inv urlsplit) :
    w'.Inv urlsplit := by
  cases h with
  | idle ht => exact ⟨fun l hl hlive => hw.held l hl ⟨ht.trans_lt hlive.1, hlive.2⟩, hw.current⟩
  | claim hr hack hold hnew hid hfresh =>
    rename_i path r r'
    refine ⟨fun l hl hlive => ?_, fun name r'' hr'' hi => ?_⟩
    · rcases List.mem_cons.1 hl with rfl | hl
      · exact ⟨r', active_write _ _ _, hnew, rfl, rfl⟩
      · by_cases hf : l.file = path
        · -- an older live lease of the file would not have expired
          obtain ⟨r₀, ha, hi, -, hexp⟩ := hw.held l hl hlive
          rw [hf] at ha
          have hr₀ := recordAt_doc ha hr
          have hle := hold (by rw [hr₀]; exact hi)
          rw [hr₀] at hle
          have hlt : w.clock < l.expiresAtMs := hlive.1
          rw [← hexp] at hlt
          exact absurd hle (Nat.not_le.2 hlt)
        · obtain ⟨r₀, ha, hi⟩ := hw.held l hl hlive
          exact ⟨r₀, by rw [active_write_ne _ _ hf]; exact ha, hi⟩
    · by_cases hf : name = path
      · subst hf
        obtain ⟨-, he⟩ := recordAt_write hr''
        rintro (hs | hs)
        · exact hfresh (Or.inl (he ▸ hs))
        · rcases List.mem_append.1 hs with hs | hs
          · obtain ⟨r₀, hr₀, -, heq⟩ := mem_current hs
            rw [hr, Option.some_inj] at hr₀
            rw [he, ← hr₀] at heq
            exact hid (Prod.mk.inj heq).2
          · exact hfresh (Or.inr (he ▸ hs))
      · rw [recordAt_write_ne _ _ hf] at hr''
        have hs := hw.current name r'' hr'' hi
        have hne := superseded_ne urlsplit hf hs
        exact fun h => hne (h.imp (List.mem_append_right _) id)
  | report hr hack hnew =>
    rename_i path r r'
    refine ⟨fun l hl hlive => ?_, fun name r'' hr'' hi => ?_⟩
    · obtain ⟨r₀, ha, hi, hid, hexp⟩ := hw.held l hl
        ⟨hlive.1, fun hm => hlive.2 (List.mem_append_right _ hm)⟩
      by_cases hf : l.file = path
      · -- the report ends the lease of the file
        rw [hf] at ha
        have hr₀ := recordAt_doc ha hr
        refine absurd ?_ hlive.2
        rw [current_inflight hr (by rw [hr₀]; exact hi), hf, hr₀, ← hid]
        exact List.mem_cons_self
      · exact ⟨r₀, by rw [active_write_ne _ _ hf]; exact ha, hi, hid, hexp⟩
    · by_cases hf : name = path
      · subst hf
        rw [(recordAt_write hr'').1] at hi
        exact absurd hi hnew
      · rw [recordAt_write_ne _ _ hf] at hr''
        have hs := hw.current name r'' hr'' hi
        have hne := superseded_ne urlsplit hf hs
        exact fun h => hne (h.imp id (List.mem_append_right _))
  | enqueue hr hnew =>
    rename_i path r'
    refine ⟨fun l hl hlive => ?_, fun name r'' hr'' hi => ?_⟩
    · obtain ⟨r₀, ha, hi, hrest⟩ := hw.held l hl hlive
      by_cases hf : l.file = path
      · rw [hf] at ha
        rcases hr with habs | ⟨r, hr, hopen⟩
        · rw [habs] at ha; cases ha
        · have hr₀ := recordAt_doc ha hr
          rw [hr₀] at hopen
          simp [hi] at hopen
      · exact ⟨r₀, by rw [active_write_ne _ _ hf]; exact ha, hi, hrest⟩
    · by_cases hf : name = path
      · subst hf
        rw [(recordAt_write hr'').1, hnew] at hi
        cases hi
      · rw [recordAt_write_ne _ _ hf] at hr''
        exact hw.current name r'' hr'' hi

/-- Acknowledged work stays acknowledged: no step writes its file. -/
theorem World.Moves.acknowledged {w w' : World} (h : w.Moves urlsplit w') {path : String}
    {r : OutboxRecord} (hr : w.outbox.recordAt urlsplit path = some r)
    (hack : r.status = .acknowledged) : w'.outbox.recordAt urlsplit path = some r := by
  -- a step that writes reads another status in the file it writes
  have other : ∀ {name : String} {r₀ : OutboxRecord}, w.outbox.recordAt urlsplit name = some r₀ →
      r₀.status ≠ .acknowledged → path ≠ name := by
    rintro name r₀ hr₀ hne rfl
    rw [hr, Option.some_inj] at hr₀
    exact hne (hr₀ ▸ hack)
  cases h with
  | idle => exact hr
  | claim hr₀ hne => rw [recordAt_write_ne _ _ (other hr₀ hne)]; exact hr
  | report hr₀ hne => rw [recordAt_write_ne _ _ (other hr₀ hne)]; exact hr
  | enqueue hr₀ hnew =>
    rename_i name r'
    have hne : path ≠ name := by
      rcases hr₀ with habs | ⟨r₀, hr₀, hopen⟩
      · rintro rfl
        rw [recordAt_absent habs] at hr
        cases hr
      · exact other hr₀ (by rcases hopen with h | h <;> simp [h])
    rw [recordAt_write_ne _ _ hne]; exact hr

/-- The arguments that `record_attempt` accepts. -/
def Report.Valid (a : Report) : Prop := a.retryAfterMs ≤ 86400000

/-- A report on an open record is applied, whatever lease it presents. -/
theorem recordAttempt_open {s : CommerceOutbox} {mid : String} {r : OutboxRecord} {a : Report}
    (ha : a.Valid) (now : ℕ) (hmid : ∃ path, pathOf mid = .ok path)
    (hr : s.recordAt urlsplit (fileOf mid) = some r) (ho : r.status = .pending ∨ r.status = .blocked) :
    s.recordAttempt urlsplit mid a now = .ok (r.report a (clockOr a.nowMsOverride now),
      s.write (fileOf mid) (r.report a (clockOr a.nowMsOverride now))) := by
  obtain ⟨path, hp⟩ := hmid
  have hpath : fileOf mid = path := by simp [fileOf, hp, Except.toOption]
  rw [hpath] at hr ⊢
  unfold CommerceOutbox.recordAt at hr
  split at hr
  · rename_i value hl
    cases hd : decodeRecord urlsplit path value with
    | error f => rw [hd] at hr; cases hr
    | ok r' =>
      rw [hd] at hr
      obtain rfl : r' = r := Option.some.inj hr
      have h₁ : r'.status ≠ .acknowledged := by rcases ho with h | h <;> simp [h]
      have h₂ : r'.status ≠ .inflight := by rcases ho with h | h <;> simp [h]
      simp [CommerceOutbox.recordAttempt, require, expect, hp, hl, hd, h₁, h₂, ok_bind,
        show a.retryAfterMs ≤ 86400000 from ha, pure, Except.pure]
  · cases hr

/-- Every report counts an attempt. -/
theorem OutboxRecord.report_attempts (r : OutboxRecord) (a : Report) (t : ℕ) :
    (r.report a t).attempts = r.attempts + 1 := by
  unfold OutboxRecord.report
  split_ifs <;> rfl

/-- **Leases are safe, but for late reports on open records.**  Over every run:
    a message has at most one live lease; an acknowledged record stays
    acknowledged; and a report that presents a superseded lease leaves the
    record's progress alone exactly if the record is not open. -/
theorem lease_safety {s₀ : CommerceOutbox} {t₀ : ℕ} {w : World}
    (h : Reach (World.step urlsplit H) (World.Allows urlsplit) { outbox := s₀, clock := t₀ } w) :
    (∀ l ∈ w.leases, ∀ l' ∈ w.leases, l.file = l'.file → w.Live l → w.Live l' → l = l') ∧
    (∀ w' path r, Reach (World.step urlsplit H) (World.Allows urlsplit) w w' →
      w.outbox.recordAt urlsplit path = some r → r.status = .acknowledged →
        w'.outbox.recordAt urlsplit path = some r) ∧
    ∀ mid a now w', (∃ path, pathOf mid = .ok path) → w.Superseded (fileOf mid) a.leaseId →
      w.step urlsplit H (.recordAttempt mid a now) = some w' →
        ((w'.outbox.recordAt urlsplit (fileOf mid)).map OutboxRecord.progress =
            (w.outbox.recordAt urlsplit (fileOf mid)).map OutboxRecord.progress ↔
          (a.Valid → ¬ w.outbox.Open urlsplit (fileOf mid))) := by
  have hinv : w.Inv urlsplit := by
    refine h.invariant (P := World.Inv urlsplit) ?_
      fun v a v' hv ha hs => (World.moves_of_step ha hs).inv hv
    refine ⟨?_, ?_⟩
    · intro l hl; cases hl
    · rintro _ _ _ _ (hs | hs) <;> cases hs
  refine ⟨?_, ?_, ?_⟩
  · rintro ⟨file, id, exp⟩ hl ⟨file', id', exp'⟩ hl' hfile hlive hlive'
    obtain ⟨r, ha, -, hid, hexp⟩ := hinv.held _ hl hlive
    obtain ⟨r', ha', -, hid', hexp'⟩ := hinv.held _ hl' hlive'
    obtain rfl : file = file' := hfile
    have he : r.leaseId = r'.leaseId ∧ r.leaseExpiresAtMs = r'.leaseExpiresAtMs := by
      have := ha.symm.trans ha'
      simp only [RecordFile.doc.injEq, Json.obj.injEq, OutboxRecord.asdict, List.cons.injEq,
        Prod.mk.injEq, Json.str.injEq, Json.int.injEq, Nat.cast_inj] at this
      tauto
    obtain rfl : id = id' := hid.symm.trans (he.1.trans hid')
    obtain rfl : exp = exp' := hexp.symm.trans (he.2.trans hexp')
    rfl
  · intro w' path r hw' hr hack
    exact hw'.invariant (P := fun v => v.outbox.recordAt urlsplit path = some r) hr
      fun v a v' hv ha hs => (World.moves_of_step ha hs).acknowledged hv hack
  · intro mid a now w' hmid hsup hs
    constructor
    · rintro heq hvalid ⟨r, hr, ho⟩
      have hok := recordAttempt_open hvalid now hmid hr ho
      simp only [World.step, hok, Option.some.injEq] at hs
      subst hs
      rw [hr] at heq
      cases hw : (w.outbox.write (fileOf mid)
          (r.report a (clockOr a.nowMsOverride now))).recordAt urlsplit (fileOf mid) with
      | none => rw [hw] at heq; cases heq
      | some r' =>
        rw [hw, recordAt_doc (active_write _ _ _) hw] at heq
        have := congrArg (fun p => p.2.1) (Option.some.inj heq)
        simp [OutboxRecord.progress, OutboxRecord.report_attempts] at this
    · intro hopen
      simp only [World.step] at hs
      split at hs
      · rename_i r' s hok
        cases hs
        have hvalid : a.Valid := by
          simp only [CommerceOutbox.recordAttempt, unit_bind_eq_ok, require_eq_ok] at hok
          simpa [Report.Valid] using hok.1
        obtain ⟨r, hr, ⟨-, rfl⟩ | ⟨hack, hlease, -, rfl⟩⟩ := recordAttempt_ok hok
        · rfl
        · cases hst : r.status with
          | inflight =>
            exact absurd hsup (hlease hst ▸ hinv.current _ r hr hst)
          | acknowledged => exact absurd hst hack
          | pending => exact absurd ⟨r, hr, Or.inl hst⟩ (hopen hvalid)
          | blocked => exact absurd ⟨r, hr, Or.inr hst⟩ (hopen hvalid)
      · cases hs; rfl

/-! ## A late report -/

/-- `urlsplit` on the URL of the sample. -/
def sampleSplit (s : String) : Option SplitResult :=
  if s = "http://a" then some ⟨"http", "a", "a", none, none, "", "", none⟩ else none

/-- A signed envelope. -/
def sampleEnvelope : CommerceEnvelope :=
  (signEnvelope checksumHost (1 : UInt8) (asDid checksumHost (2 : UInt8)) [] 5).getD
    ⟨.null, .null, .null, .null, .null, .null, .null⟩

def sampleId : String := sampleEnvelope.messageId.asStr.getD ""

/-- A worker claims the message and reports a failure. -/
def sampleActs : List Act :=
  [.enqueue sampleEnvelope (.str "http://a") false 0 10, .claim sampleId 1000 0 false 10 "lease-1",
    .recordAttempt sampleId { leaseId := "lease-1", retryAfterMs := 500 } 20]

instance (w : World) (a : Act) : Decidable (w.Allows sampleSplit a) :=
  match a with
  | .claim messageId _ nowMsOverride _ now leaseId =>
    decidable_of_iff (clockOr nowMsOverride now ≤ w.clock ∧
      ((fileOf messageId, leaseId) ∉ w.reported ∧ (fileOf messageId, leaseId) ∉ w.reclaimed) ∧
      ((w.outbox.recordAt sampleSplit (fileOf messageId)).all fun r => r.leaseId != leaseId) = true)
      (by
        rw [World.Allows, World.Superseded, not_or]
        cases w.outbox.recordAt sampleSplit (fileOf messageId) <;> simp)
  | .tick _ | .enqueue .. | .recordAttempt .. => isTrue trivial

/-- The world after the sample. -/
def sampleWorld : Option World :=
  run (guarded (World.step sampleSplit checksumHost) (World.Allows sampleSplit))
    { outbox := ⟨fun _ => .absent, fun _ => .absent⟩, clock := 20 } sampleActs

/-- The worker reports again, now that delivery was refused. -/
def sampleLate : Act := .recordAttempt sampleId { leaseId := "lease-1", retryable := false } 30

/-- The second report, evaluated. -/
def lateReportRun : PLift ((sampleWorld.any fun w =>
    decide ((fileOf sampleId, "lease-1") ∈ w.reported) &&
    decide ((w.outbox.recordAt sampleSplit (fileOf sampleId)).map OutboxRecord.progress =
      some (.pending, 1, 520)) &&
    (w.step sampleSplit checksumHost sampleLate).any fun w' =>
      decide ((w'.outbox.recordAt sampleSplit (fileOf sampleId)).map OutboxRecord.progress =
        some (.blocked, 2, 0))) = true) := ⟨by decide +kernel⟩

/-- **A second report under the same lease is applied.** -/
theorem late_report_applied : ∃ w w' : World,
    Reach (World.step sampleSplit checksumHost) (World.Allows sampleSplit)
      { outbox := ⟨fun _ => .absent, fun _ => .absent⟩, clock := 20 } w ∧
    w.Superseded (fileOf sampleId) "lease-1" ∧
    w.step sampleSplit checksumHost sampleLate = some w' ∧
    (w.outbox.recordAt sampleSplit (fileOf sampleId)).map OutboxRecord.progress =
      some (.pending, 1, 520) ∧
    (w'.outbox.recordAt sampleSplit (fileOf sampleId)).map OutboxRecord.progress =
      some (.blocked, 2, 0) := by
  have hrun := lateReportRun.down
  simp only [Option.any_eq_true, Bool.and_eq_true, decide_eq_true_eq] at hrun
  obtain ⟨w, hw, ⟨hrep, hbefore⟩, w', hs, hafter⟩ := hrun
  exact ⟨w, w', reach_of_guarded .start hw, Or.inl hrep, hs, hbefore, hafter⟩

/-- The sample is a run. -/
def sampleWorldRun : PLift (sampleWorld.isSome = true) := ⟨by decide +kernel⟩

/-- The theorem on that run. -/
theorem lease_safety_late : ∃ w : World,
    Reach (World.step sampleSplit checksumHost) (World.Allows sampleSplit)
      { outbox := ⟨fun _ => .absent, fun _ => .absent⟩, clock := 20 } w ∧
    ∀ l ∈ w.leases, ∀ l' ∈ w.leases, l.file = l'.file → w.Live l → w.Live l' → l = l' := by
  have h := sampleWorldRun.down
  obtain ⟨w, hw⟩ := Option.isSome_iff_exists.1 h
  have hr : Reach (World.step sampleSplit checksumHost) (World.Allows sampleSplit) _ w :=
    reach_of_guarded .start hw
  exact ⟨w, hr, (lease_safety hr).1⟩

end Commerce

end NthDao
