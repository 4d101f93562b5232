/-
  What the commerce outbox stores reads back.

  `enqueue` bounds the compact text of a payload, `_load_record` the bytes of
  the indented file.

  * `Readable`: the operations on a message accept its record;
  * `World.Fits`: an operation leaves a record that is not too large;
  * `outbox_reads_back`: what is stored so is readable in every state after.
-/
import NthDao.Commerce.OutboxRecords

namespace NthDao

namespace Commerce

open Py Runs

variable (urlsplit : String → Option SplitResult) (H : Host)

/-! ## Reading back -/

/-- The operations on the message of `e` accept its record and answer with `e`. -/
structure Readable (s : CommerceOutbox) (e : CommerceEnvelope) : Prop where
  get : ∃ r, s.get urlsplit e.id = .ok (some r, s) ∧
    CommerceEnvelope.fromDict (.obj r.envelope) = .ok e
  claim : ∀ leaseMs nowMsOverride force now leaseId, 1000 ≤ leaseMs → leaseMs ≤ 300000 →
    ∃ o s', s.claim urlsplit e.id leaseMs nowMsOverride force now leaseId = .ok (o, s') ∧
      ∀ r ∈ o, CommerceEnvelope.fromDict (.obj r.envelope) = .ok e
  /-- an attempt is recorded, or refused for its lease -/
  attempt : ∀ a now, a.Valid →
    (∃ r s', s.recordAttempt urlsplit e.id a now = .ok (r, s') ∧
      CommerceEnvelope.fromDict (.obj r.envelope) = .ok e) ∨
    (s.recordAttempt urlsplit e.id a now =
        .error (.rejected "outbox lease does not match active delivery") ∧
      ∃ r, s.recordAt urlsplit (fileOf e.id) = some r ∧ r.status = .inflight ∧
        (a.leaseId = "" ∨ a.leaseId ≠ r.leaseId))
  /-- the same work again, to the same address -/
  again : e.payload.wf = true → ∃ r, (∀ allowRetarget nowMsOverride now,
      s.enqueue urlsplit H e (.str r.targetUrl) allowRetarget nowMsOverride now = .ok (r, s)) ∧
    CommerceEnvelope.fromDict (.obj r.envelope) = .ok e

/-- The operation leaves a record that is not too large, at a positive time and
    under a lease with a name. -/
def World.Fits (w : World) : Act → Prop
  | .tick _ => True
  | .enqueue e targetUrl allowRetarget nowMsOverride now =>
    0 < clockOr nowMsOverride now ∧
    ∀ url path, normalizeTargetUrl urlsplit targetUrl = .ok url → pathOf e.id = .ok path →
      (w.outbox.find path = .ok none → freshBytes e url ≤ maxOutboxRecordBytes) ∧
      ∀ value r, w.outbox.find path = .ok (some value) → decodeRecord urlsplit path value = .ok r →
        allowRetarget = true → (r.status = .pending ∨ r.status = .blocked) → r.targetUrl ≠ url →
          (r.retarget (Json.get r.envelope "target_did") url (clockOr nowMsOverride now)).bytes ≤
            maxOutboxRecordBytes
  | .claim messageId leaseMs nowMsOverride force now leaseId =>
    leaseId ≠ "" ∧ ∀ r, w.outbox.recordAt urlsplit (fileOf messageId) = some r →
      (r.lease leaseMs (clockOr nowMsOverride now) force leaseId).isSome = true →
        ({ r with
            status := .inflight, blockedAtMs := 0, leaseId := leaseId,
            leaseExpiresAtMs := clockOr nowMsOverride now + leaseMs } : OutboxRecord).bytes ≤
          maxOutboxRecordBytes
  | .recordAttempt messageId a now =>
    0 < clockOr a.nowMsOverride now ∧
    ∀ r, w.outbox.recordAt urlsplit (fileOf messageId) = some r → r.status ≠ .acknowledged →
      (r.report a (clockOr a.nowMsOverride now)).bytes ≤ maxOutboxRecordBytes

variable {urlsplit H}

/-- The file holds a record of the envelope that reads back. -/
def Stored (urlsplit : String → Option SplitResult) (s : CommerceOutbox) (path : String)
    (e : CommerceEnvelope) : Prop :=
  ∃ r : OutboxRecord, s.active path = .doc (.obj r.asdict) ∧ r.Sound urlsplit ∧
    r.bytes ≤ maxOutboxRecordBytes ∧ CommerceEnvelope.fromDict (.obj r.envelope) = .ok e

/-! ## What `enqueue` writes -/

theorem existingEnvelope_eq_ok {e existing : CommerceEnvelope} {current : Fields} :
    existingEnvelope H e current = .ok existing ↔
      CommerceEnvelope.fromDict (Json.get current "envelope") = .ok existing ∧
        existing.verify H = .ok () ∧ (eqv existing.messageId e.messageId &&
          eqv existing.sourceDid e.sourceDid && eqv existing.targetDid e.targetDid &&
          eqv existing.payload e.payload) = true := by
  simp only [existingEnvelope, bind_eq_ok, mapError_eq_ok, require_eq_ok, pure_eq_ok]
  constructor
  · rintro ⟨x, hx, ⟨⟩, hv, _, heq, rfl⟩
    exact ⟨hx, hv, heq⟩
  · rintro ⟨hx, hv, heq⟩
    exact ⟨existing, hx, (), hv, (), heq, rfl⟩

/-- `enqueue` writes a new record, returns a stored one, or moves it. -/
theorem enqueue_eq_ok {s s' : CommerceOutbox} {e : CommerceEnvelope} {targetUrl : Json}
    {allow : Bool} {ov now : ℕ} {r' : OutboxRecord}
    (h : s.enqueue urlsplit H e targetUrl allow ov now = .ok (r', s')) :
    ∃ url path, e.verify H = .ok () ∧ normalizeTargetUrl urlsplit targetUrl = .ok url ∧
      pathOf e.id = .ok path ∧
      ((s.find path = .ok none ∧ r' = { envelope := e.toDict, targetUrl := url } ∧
          s' = s.write path r') ∨
        ∃ value existing r, s.find path = .ok (some value) ∧
          existingEnvelope H e value = .ok existing ∧ decodeRecord urlsplit path value = .ok r ∧
          ((r' = r ∧ s' = s) ∨
            (allow = true ∧ (r.status = .pending ∨ r.status = .blocked) ∧ r.targetUrl ≠ url ∧
              r' = r.retarget existing.targetDid url (clockOr ov now) ∧ s' = s.write path r'))) := by
  simp only [CommerceOutbox.enqueue, bind_eq_ok, mapError_eq_ok] at h
  obtain ⟨⟨⟩, hv, url, hurl, path, hp, current, hfind, h⟩ := h
  refine ⟨url, path, hv, hurl, hp, ?_⟩
  cases current with
  | none =>
    rw [pure_eq_ok, Prod.mk.injEq] at h
    obtain ⟨rfl, rfl⟩ := h
    exact Or.inl ⟨hfind, rfl, rfl⟩
  | some value =>
    simp only [CommerceOutbox.enqueueOver, bind_eq_ok] at h
    obtain ⟨existing, hex, r, hd, h⟩ := h
    refine Or.inr ⟨value, existing, r, hfind, hex, hd, ?_⟩
    split_ifs at h with hack hsame
    · simp only [bind_eq_ok, pure_eq_ok, Prod.mk.injEq] at h
      obtain ⟨_, -, rfl, rfl⟩ := h
      exact Or.inl ⟨rfl, rfl⟩
    · rw [pure_eq_ok, Prod.mk.injEq] at h
      exact Or.inl ⟨h.1.symm, h.2.symm⟩
    · simp only [bind_eq_ok, require_eq_ok, pure_eq_ok, Prod.mk.injEq] at h
      obtain ⟨_, hallow, _, hs, rfl, rfl⟩ := h
      exact Or.inr ⟨hallow, by simpa using hs, hsame, rfl, rfl⟩

/-! ## Stored messages stay -/

theorem Stored.load {s : CommerceOutbox} {path : String} {e : CommerceEnvelope}
    (h : Stored urlsplit s path e) : ∃ r : OutboxRecord, r.Sound urlsplit ∧
      CommerceEnvelope.fromDict (.obj r.envelope) = .ok e ∧
      loadRecord path (s.active path) = .ok (some r.asdict) ∧
      s.recordAt urlsplit path = some r := by
  obtain ⟨r, hfile, hsound, hle, he⟩ := h
  have hload := loadRecord_stored hfile hle
  exact ⟨r, hsound, he, hload, recordAt_of_ok hload (decodeRecord_of_sound hsound path)⟩

theorem get_envelope_asdict (r : OutboxRecord) :
    Json.get r.asdict "envelope" = .obj r.envelope := by
  simp [OutboxRecord.asdict, Json.get, Json.lookup_cons]

theorem envelope_of_decode {path : String} {value : Fields} {r : OutboxRecord}
    (h : decodeRecord urlsplit path value = .ok r) :
    Json.get value "envelope" = .obj r.envelope := by
  simp only [decodeRecord, bind_eq_ok, expect_eq_ok, require_eq_ok, pure_eq_ok, mapError_eq_ok] at h
  obtain ⟨_, -, _, -, _, -, _, hobj, _, -, _, -, _, -, _, -, _, -, _, -, _, -, _, -, _, -, _, -, _, -,
    _, -, _, -, _, -, rfl⟩ := h
  exact Json.eq_obj_of_isObj hobj

/-- A record that `enqueue` moves reads back, if it is not too large. -/
theorem stored_retarget (hsplit : UrlSplits urlsplit) {s : CommerceOutbox} {path : String}
    {value : Fields} {targetUrl : Json} {url : String} {e existing : CommerceEnvelope}
    {r : OutboxRecord} {t : ℕ} (hurl : normalizeTargetUrl urlsplit targetUrl = .ok url)
    (hex : existingEnvelope H e value = .ok existing)
    (hd : decodeRecord urlsplit path value = .ok r) (ht : 0 < t)
    (hle : (r.retarget existing.targetDid url t).bytes ≤ maxOutboxRecordBytes) :
    Stored urlsplit (s.write path (r.retarget existing.targetDid url t)) path existing := by
  obtain ⟨hfrom, hv, -⟩ := existingEnvelope_eq_ok.1 hex
  rw [envelope_of_decode hd] at hfrom
  exact ⟨_, active_write _ _ _, (sound_of_decode hd).retargeted (verify_facts hv).2.1
    (normalizeTargetUrl_idem hsplit hurl) ht, hle, hfrom⟩

theorem OutboxRecord.report_envelope (r : OutboxRecord) (a : Report) (t : ℕ) :
    (r.report a t).envelope = r.envelope := by
  unfold OutboxRecord.report
  split_ifs <;> rfl

theorem OutboxRecord.lease_eq {r r' : OutboxRecord} {leaseMs t : ℕ} {force : Bool}
    {leaseId : String} (h : r.lease leaseMs t force leaseId = some r') :
    r' = { r with
      status := .inflight, blockedAtMs := 0, leaseId := leaseId
      leaseExpiresAtMs := t + leaseMs } := by
  unfold OutboxRecord.lease at h
  split_ifs at h
  exact (Option.some.inj h).symm

/-- **An operation keeps what is stored.** -/
theorem Stored.step (hsplit : UrlSplits urlsplit) {w w' : World} {a : Act} {path : String}
    {e : CommerceEnvelope} (h : Stored urlsplit w.outbox path e) (hfits : w.Fits urlsplit a)
    (hstep : w.step urlsplit H a = some w') : Stored urlsplit w'.outbox path e := by
  -- a write to another file
  have other : ∀ {name : String} (r' : OutboxRecord), path ≠ name →
      Stored urlsplit (w.outbox.write name r') path e := by
    intro name r' hne
    obtain ⟨r, hfile, hr⟩ := h
    exact ⟨r, by rw [active_write_ne _ _ hne]; exact hfile, hr⟩
  obtain ⟨r, hsound, he, hload, hrec⟩ := h.load
  cases a with
  | tick t =>
    simp only [World.step, Option.ite_none_right_eq_some, Option.some.injEq] at hstep
    obtain ⟨-, rfl⟩ := hstep
    exact h
  | enqueue e₂ targetUrl allow ov now =>
    simp only [World.step] at hstep
    split at hstep
    · rename_i r' s hs
      cases hstep
      obtain ⟨url, name, -, hurl, hp, hcases⟩ := enqueue_eq_ok hs
      by_cases hn : path = name
      · subst hn
        have hfind : w.outbox.find path = .ok (some r.asdict) := by
          simp [CommerceOutbox.find, hload, ok_bind, pure, Except.pure]
        rcases hcases with ⟨hnone, -⟩ | ⟨value, existing, r₀, hval, hex, hd, hcases⟩
        · rw [hfind] at hnone; cases hnone
        · rcases hcases with ⟨-, rfl⟩ | ⟨hallow, hst, hne, rfl, rfl⟩
          · exact h
          · -- the record moved is the one stored
            rw [hfind] at hval
            obtain rfl := Option.some.inj (Except.ok.inj hval)
            have hfrom := (existingEnvelope_eq_ok.1 hex).1
            rw [get_envelope_asdict, he] at hfrom
            obtain rfl := Except.ok.inj hfrom
            refine stored_retarget hsplit hurl hex hd hfits.1 ?_
            have := (hfits.2 url path hurl hp).2 _ r₀ hfind hd hallow hst hne
            have henv := envelope_of_decode hd
            rw [get_envelope_asdict] at henv
            rw [fromDict_targetDid he, Json.obj.inj henv]
            exact this
      · rcases hcases with ⟨-, -, rfl⟩ | ⟨value, existing, r₀, -, -, -, ⟨-, rfl⟩ | ⟨-, -, -, -, rfl⟩⟩
        · exact other _ hn
        · exact h
        · exact other _ hn
    · cases hstep; exact h
  | claim mid leaseMs ov force now leaseId =>
    simp only [World.step] at hstep
    split at hstep
    · rename_i r' s hs
      cases hstep
      rcases claim_ok hs with ⟨hnone, -⟩ | ⟨r₀, r'', -, hr₀, hlease, rfl⟩
      · cases hnone
      · by_cases hn : path = fileOf mid
        · subst hn
          rw [hrec] at hr₀
          obtain rfl := Option.some.inj hr₀
          have hms : 1000 ≤ leaseMs := by
            simp only [CommerceOutbox.claim, unit_bind_eq_ok, require_eq_ok, Bool.and_eq_true,
              decide_eq_true_eq] at hs
            exact hs.1.1
          have hle := hfits.2 r hrec (by rw [hlease]; rfl)
          rw [OutboxRecord.lease_eq hlease]
          exact ⟨_, active_write _ _ _, hsound.leased hfits.1 (by omega), hle, he⟩
        · exact other _ hn
    · rename_i s hs
      cases hstep
      rcases claim_ok hs with ⟨-, rfl⟩ | ⟨_, _, h, -⟩
      · exact h
      · cases h
    · cases hstep; exact h
  | recordAttempt mid a now =>
    simp only [World.step] at hstep
    split at hstep
    · rename_i r' s hs
      cases hstep
      obtain ⟨r₀, hr₀, ⟨-, rfl⟩ | ⟨hack, -, rfl, rfl⟩⟩ := recordAttempt_ok hs
      · exact h
      · by_cases hn : path = fileOf mid
        · subst hn
          rw [hrec] at hr₀
          obtain rfl := Option.some.inj hr₀
          refine ⟨_, active_write _ _ _, hsound.reported a hfits.1, hfits.2 _ hrec hack, ?_⟩
          rw [OutboxRecord.report_envelope]
          exact he
        · exact other _ hn
    · cases hstep; exact h

/-! ## Stored messages are served -/

theorem expect_some {α ε : Type} (a : α) (e : ε) : expect (some a) e = .ok a := rfl

section Served

variable {s : CommerceOutbox} {path messageId : String} {r : OutboxRecord}
  (hp : pathOf messageId = .ok path) (hload : loadRecord path (s.active path) = .ok (some r.asdict))
  (hd : decodeRecord urlsplit path r.asdict = .ok r)

include hp hload hd

theorem get_of_load : s.get urlsplit messageId = .ok (some r, s) := by
  have herr : eqv (Json.get r.asdict "last_error") (.str r.lastError) = true := by
    simp [OutboxRecord.asdict, Json.get, Json.lookup_cons, eqv]
  simp only [CommerceOutbox.get, hp, hload, hd, ok_bind, herr, if_true]
  rfl

theorem claim_of_load {leaseMs ov now : ℕ} {force : Bool} {leaseId : String} (hmin : 1000 ≤ leaseMs)
    (hmax : leaseMs ≤ 300000) : s.claim urlsplit messageId leaseMs ov force now leaseId =
      match r.lease leaseMs (clockOr ov now) force leaseId with
      | none => .ok (none, s)
      | some r' => .ok (some r', s.write path r') := by
  have hms : (decide (1000 ≤ leaseMs) && decide (leaseMs ≤ 300000)) = true := by simp [hmin, hmax]
  have hmap : ∀ g : Fault → Fault, (decodeRecord urlsplit path r.asdict).mapError g = .ok r :=
    fun g => mapError_eq_ok.2 hd
  simp only [CommerceOutbox.claim, require, hms, if_true, hp, hload, hmap, ok_bind]
  cases r.lease leaseMs (clockOr ov now) force leaseId <;> rfl

/-- An attempt under another lease than the one that is out. -/
def OutboxRecord.LeaseTaken (r : OutboxRecord) (a : Report) : Prop :=
  r.status = .inflight ∧ (a.leaseId = "" ∨ a.leaseId ≠ r.leaseId)

theorem recordAttempt_taken {a : Report} (ha : a.Valid) (now : ℕ) (h : r.LeaseTaken a) :
    s.recordAttempt urlsplit messageId a now =
      .error (.rejected "outbox lease does not match active delivery") := by
  have hretry : decide (a.retryAfterMs ≤ 86400000) = true := decide_eq_true ha
  have hack : r.status ≠ .acknowledged := by rw [h.1]; simp
  have hb : (!(decide (r.status = .inflight) && (a.leaseId == "" || a.leaseId != r.leaseId))) =
      false := by
    rw [Bool.not_eq_false', Bool.and_eq_true, Bool.or_eq_true, beq_iff_eq, bne_iff_ne,
      decide_eq_true_eq]
    exact h
  simp only [CommerceOutbox.recordAttempt, require, hretry, if_true, hp, hload, hd, ok_bind,
    expect_some, if_neg hack, hb, Bool.false_eq_true, if_false, error_bind]

theorem recordAttempt_of_load {a : Report} (ha : a.Valid) (now : ℕ) (h : ¬ r.LeaseTaken a) :
    s.recordAttempt urlsplit messageId a now =
      if r.status = .acknowledged then .ok (r, s)
      else .ok (r.report a (clockOr a.nowMsOverride now),
        s.write path (r.report a (clockOr a.nowMsOverride now))) := by
  have hretry : decide (a.retryAfterMs ≤ 86400000) = true := decide_eq_true ha
  have hb : (!(decide (r.status = .inflight) && (a.leaseId == "" || a.leaseId != r.leaseId))) =
      true := by
    rw [Bool.not_eq_true', ← Bool.not_eq_true, Bool.and_eq_true, Bool.or_eq_true, beq_iff_eq,
      bne_iff_ne, decide_eq_true_eq]
    exact h
  simp only [CommerceOutbox.recordAttempt, require, hretry, if_true, hp, hload, hd, ok_bind,
    expect_some, hb]
  rfl

theorem enqueue_of_load {e : CommerceEnvelope} (hv : e.verify H = .ok ()) (hid : e.id = messageId)
    (hw : e.payload.wf = true) (he : CommerceEnvelope.fromDict (.obj r.envelope) = .ok e)
    (htarget : normalizeTargetUrl urlsplit (.str r.targetUrl) = .ok r.targetUrl) (allow : Bool)
    (ov now : ℕ) : s.enqueue urlsplit H e (.str r.targetUrl) allow ov now = .ok (r, s) := by
  have hself : (eqv e.messageId e.messageId && eqv e.sourceDid e.sourceDid &&
      eqv e.targetDid e.targetDid && eqv e.payload e.payload) = true := by
    obtain ⟨-, -, ⟨source, target, _, hs, ht, -⟩, ⟨b, hid⟩, -⟩ := verify_facts hv
    simp [hs, ht, hid, eqv, eqv_refl e.payload hw]
  have hex : existingEnvelope H e r.asdict = .ok e :=
    existingEnvelope_eq_ok.2 ⟨by rw [get_envelope_asdict]; exact he, hv, hself⟩
  have hover : s.enqueueOver urlsplit H e r.targetUrl allow (clockOr ov now) path r.asdict =
      .ok (r, s) := by
    simp only [CommerceOutbox.enqueueOver, hex, hd, ok_bind, if_true]
    by_cases hack : r.status = .acknowledged
    · rw [if_pos hack]
      simp [require, ok_bind, pure, Except.pure]
    · rw [if_neg hack]
      rfl
  have hfind : s.find path = .ok (some r.asdict) := by
    simp [CommerceOutbox.find, hload, ok_bind, pure, Except.pure]
  have hmap : (e.verify H).mapError Fault.rejected = .ok () := mapError_eq_ok.2 hv
  have hpath : pathOf (e.messageId.asStr.getD "") = .ok path := (congrArg pathOf hid).trans hp
  simp only [CommerceOutbox.enqueue, hmap, htarget, hpath, hfind, ok_bind, hover]

end Served

/-- **What is stored is readable.** -/
theorem Stored.readable {s : CommerceOutbox} {path : String} {e : CommerceEnvelope}
    (h : Stored urlsplit s path e) (hv : e.verify H = .ok ()) (hp : pathOf e.id = .ok path) :
    Readable urlsplit H s e := by
  obtain ⟨r, hsound, he, hload, hrec⟩ := h.load
  have hd := decodeRecord_of_sound hsound path
  refine ⟨⟨r, get_of_load hp hload hd, he⟩, ?_, ?_, fun hw =>
    ⟨r, enqueue_of_load hp hload hd hv rfl hw he hsound.target, he⟩⟩
  · intro leaseMs ov force now leaseId hmin hmax
    rw [claim_of_load hp hload hd hmin hmax]
    cases hl : r.lease leaseMs (clockOr ov now) force leaseId with
    | none => exact ⟨none, s, rfl, by rintro _ ⟨⟩⟩
    | some r' =>
      refine ⟨some r', s.write path r', rfl, ?_⟩
      rintro _ ⟨⟩
      rw [OutboxRecord.lease_eq hl]
      exact he
  · intro a now ha
    by_cases hl : r.LeaseTaken a
    · have hrec' : s.recordAt urlsplit (fileOf e.id) = some r := by
        rw [fileOf_of_ok hp]; exact hrec
      exact Or.inr ⟨recordAttempt_taken hp hload hd ha now hl, r, hrec', hl⟩
    · refine Or.inl ?_
      rw [recordAttempt_of_load hp hload hd ha now hl]
      by_cases hack : r.status = .acknowledged
      · exact ⟨r, s, if_pos hack, he⟩
      · exact ⟨_, _, if_neg hack, by rw [OutboxRecord.report_envelope]; exact he⟩

/-! ## The theorem -/

/-- A record that `get` returns was not too large. -/
theorem bytes_le_of_get {s : CommerceOutbox} {messageId path : String} {r : OutboxRecord}
    {p : Option OutboxRecord × CommerceOutbox} (hp : pathOf messageId = .ok path)
    (hfile : s.active path = .doc (.obj r.asdict)) (h : s.get urlsplit messageId = .ok p) :
    r.bytes ≤ maxOutboxRecordBytes := by
  by_contra hle
  simp only [CommerceOutbox.get, hp, ok_bind, hfile, loadRecord_doc, if_neg hle, error_bind] at h
  cases h

/-- **What `enqueue` stores reads back, if it is not too large.**  The record of
    a new message is readable exactly if the indented text of its payload leaves
    room for the other fields; and from a message that an operation stored, in a
    run of operations that leave room, every state serves its envelope. -/
theorem outbox_reads_back (hsplit : UrlSplits urlsplit) :
    (∀ (s s' : CommerceOutbox) (e : CommerceEnvelope) (targetUrl : Json) (url : String)
      (allow : Bool) (ov now : ℕ) (r : OutboxRecord),
      s.enqueue urlsplit H e targetUrl allow ov now = .ok (r, s') →
      normalizeTargetUrl urlsplit targetUrl = .ok url → s.find (fileOf e.id) = .ok none →
        (Readable urlsplit H s' e ↔ freshBytes e url ≤ maxOutboxRecordBytes)) ∧
    ∀ (w w' : World) (s' : CommerceOutbox) (e : CommerceEnvelope) (targetUrl : Json) (allow : Bool)
      (ov now : ℕ) (r : OutboxRecord),
      w.Fits urlsplit (.enqueue e targetUrl allow ov now) →
      w.outbox.enqueue urlsplit H e targetUrl allow ov now = .ok (r, s') →
      w.outbox.active (fileOf e.id) = .absent → s'.active (fileOf e.id) ≠ .absent →
      Reach (World.step urlsplit H) (World.Fits urlsplit) { w with outbox := s' } w' →
        ∃ e', CommerceEnvelope.fromDict (.obj r.envelope) = .ok e' ∧
          (w.outbox.archive (fileOf e.id) = .absent → e' = e) ∧ e'.id = e.id ∧
          Readable urlsplit H w'.outbox e' := by
  constructor
  · intro s s' e targetUrl url allow ov now r h hurl hnone
    obtain ⟨url', path, hv, hurl', hp, hcases⟩ := enqueue_eq_ok h
    rw [hurl] at hurl'
    obtain rfl := Except.ok.inj hurl'
    rw [fileOf_of_ok hp] at hnone
    rcases hcases with ⟨-, rfl, rfl⟩ | ⟨_, _, _, hsome, -⟩
    · rw [← bytes_fresh hv]
      constructor
      · intro hread
        obtain ⟨_, hget, -⟩ := hread.get
        exact bytes_le_of_get hp (active_write _ _ _) hget
      · intro hle
        have hs : Stored urlsplit (s.write path { envelope := e.toDict, targetUrl := url }) path e :=
          ⟨_, active_write _ _ _, .fresh hsplit hurl, hle, fromDict_toDict e⟩
        exact hs.readable hv hp
    · rw [hnone] at hsome
      cases hsome
  · intro w w' s' e targetUrl allow ov now r hfits h habs hstored hreach
    obtain ⟨url, path, hv, hurl, hp, hcases⟩ := enqueue_eq_ok h
    rw [fileOf_of_ok hp] at habs hstored ⊢
    obtain ⟨hnew, hold⟩ := hfits.2 url path hurl hp
    -- what is stored stays stored
    have run : ∀ e' : CommerceEnvelope, Stored urlsplit s' path e' → e'.verify H = .ok () →
        e'.id = e.id → Readable urlsplit H w'.outbox e' := by
      intro e' hs hv' hid
      have hw' : Stored urlsplit w'.outbox path e' :=
        hreach.invariant (P := fun v => Stored urlsplit v.outbox path e') hs
          fun v a v' hv ha hstep => hv.step hsplit ha hstep
      exact hw'.readable hv' (by rw [hid]; exact hp)
    rcases hcases with ⟨hnone, rfl, rfl⟩ | ⟨value, existing, r₀, hval, hex, hd, hcases⟩
    · have hle := hnew hnone
      rw [← bytes_fresh hv] at hle
      exact ⟨e, fromDict_toDict e, fun _ => rfl, rfl,
        run e ⟨_, active_write _ _ _, .fresh hsplit hurl, hle, fromDict_toDict e⟩ hv rfl⟩
    · rcases hcases with ⟨-, rfl⟩ | ⟨hallow, hst, hne, rfl, rfl⟩
      · exact absurd habs hstored
      · obtain ⟨hfrom, hvex, heq⟩ := existingEnvelope_eq_ok.1 hex
        rw [envelope_of_decode hd] at hfrom
        have hle := hold value r₀ hval hd hallow hst hne
        rw [← fromDict_targetDid hfrom] at hle
        refine ⟨existing, hfrom, fun harch => ?_, ?_,
          run existing (stored_retarget hsplit hurl hex hd hfits.1 hle) hvex ?_⟩
        · simp [CommerceOutbox.find, habs, harch, loadRecord, ok_bind] at hval
        all_goals
          obtain ⟨-, -, -, ⟨b, hb⟩, -⟩ := verify_facts hv
          obtain ⟨-, -, -, ⟨b', hb'⟩, -⟩ := verify_facts hvex
          simp only [hb, hb', eqv, Bool.and_eq_true, beq_iff_eq] at heq
          rw [CommerceEnvelope.id, CommerceEnvelope.id, hb, hb', heq.1.1.1]

/-! ## A payload whose indented text is too large -/

theorem sampleSplits : UrlSplits sampleSplit := by
  refine ⟨?_, ?_⟩
  · intro p h
    rw [sampleSplit, if_neg (by decide)] at h
    cases h
  · intro s p h _ _ _
    unfold sampleSplit at h
    split_ifs at h with hs
    subst hs
    rw [← h]
    rfl

/-- The URL of the sample, normalised. -/
def sampleUrl : PLift (normalizeTargetUrl sampleSplit (.str "http://a") = .ok "http://a") :=
  ⟨by decide +kernel⟩

/-- An outbox with no files. -/
def noFiles : CommerceOutbox := ⟨fun _ => .absent, fun _ => .absent⟩

/-- Signed work with a payload is stored. -/
theorem exists_enqueued {payload : Fields} (hp : (Json.obj payload).encodable = true)
    (hle : weight false (.obj payload) ≤ maxPayloadBytes) :
    ∃ (e : CommerceEnvelope) (path : String), e.payload = .obj payload ∧
      weight false e.sourceDid + weight false e.targetDid + weight false e.createdAtMs ≤ 1000 ∧
      e.verify checksumHost = .ok () ∧ pathOf e.id = .ok path ∧
      noFiles.enqueue sampleSplit checksumHost e (.str "http://a") false 0 10 =
        .ok ({ envelope := e.toDict, targetUrl := "http://a" },
          noFiles.write path { envelope := e.toDict, targetUrl := "http://a" }) := by
  obtain ⟨e, -, hpayload, hsource, htarget, htime, hv⟩ := @exists_signed checksumHost (1 : UInt8)
    (asDid checksumHost (2 : UInt8)) (isDidKey_asDid _ _) payload hp hle 5 (by decide) (by decide)
  obtain ⟨path, hpath⟩ := pathOf_of_verify hv
  have hurl : normalizeTargetUrl sampleSplit (.str "http://a") = .ok "http://a" := sampleUrl.down
  have hmap : (e.verify checksumHost).mapError Fault.rejected = .ok () := mapError_eq_ok.2 hv
  have hp' : pathOf (e.messageId.asStr.getD "") = .ok path := hpath
  have hdid : ∀ k, weight false (.str (asDid checksumHost k)) ≤ 6 * 56 + 2 := by
    intro k
    have hlen : (asDid checksumHost k).length ≤ 56 :=
      length_encodeDidKey (checksumHost.pubkey_length k)
    have hle := strWeight_le (asDid checksumHost k)
    rw [weight_str]
    omega
  have hfive : weight false (.int 5) = 1 := by decide
  have hsum : weight false e.sourceDid + weight false e.targetDid + weight false e.createdAtMs ≤
      1000 := by
    have h₁ := hdid (1 : UInt8)
    have h₂ := hdid (2 : UInt8)
    rw [hsource, htarget, htime, hfive]
    omega
  refine ⟨e, path, hpayload, hsum, hv, hpath, ?_⟩
  simp only [CommerceOutbox.enqueue, hmap, hurl, hp', ok_bind]
  rfl

/-- A list of zeros: two bytes an element as compact text, eleven as indented text. -/
def zeros (n : ℕ) : Fields := [("xs", .arr (List.replicate n (.int 0)))]

theorem zeros_encodable (n : ℕ) : (Json.obj (zeros n)).encodable = true := by
  refine Json.encodable_obj.2 fun p hp => ?_
  obtain rfl := List.mem_singleton.1 hp
  refine Json.encodable_arr.2 fun x hx => ?_
  rw [List.eq_of_mem_replicate hx]
  rfl

theorem weight_zeros {n : ℕ} (h : n ≠ 0) : weight false (.obj (zeros n)) = 8 + 2 * n := by
  have hne : List.replicate n (Json.int 0) ≠ [] := by simpa using h
  have hne' : zeros n ≠ [] := List.cons_ne_nil _ _
  have hk : strWeight false "xs" = 4 ∧ weight false (.int 0) = 1 := by decide
  rw [weight_obj false hne']
  simp only [zeros, List.map_cons, List.map_nil, List.sum_cons, List.sum_nil, itemWeight,
    weight_arr false hne, List.map_replicate, List.sum_replicate, hk, Nat.nsmul_eq_mul]
  omega

theorem fileWeight_zeros {n : ℕ} (h : n ≠ 0) : 11 * n ≤ fileWeight 2 (.obj (zeros n)) := by
  have hne : List.replicate n (Json.int 0) ≠ [] := by simpa using h
  have hne' : zeros n ≠ [] := List.cons_ne_nil _ _
  have hk : weight false (.int 0) = 1 := by decide
  rw [fileWeight_obj 2 hne']
  simp only [zeros, List.map_cons, List.map_nil, List.sum_cons, List.sum_nil, fileWeight_arr _ hne,
    fileWeight_int, List.map_replicate, List.sum_replicate, hk, Nat.nsmul_eq_mul]
  omega

/-- **A message that is stored and cannot be read**: every operation on it raises. -/
theorem outbox_stores_unreadable : ∃ (e : CommerceEnvelope) (path : String) (r : OutboxRecord)
    (s : CommerceOutbox), e.payload = .obj (zeros 100000) ∧
      weight false e.payload ≤ maxPayloadBytes ∧
      e.verify checksumHost = .ok () ∧
      noFiles.enqueue sampleSplit checksumHost e (.str "http://a") false 0 10 = .ok (r, s) ∧
      maxOutboxRecordBytes < r.bytes ∧
      s.get sampleSplit e.id =
        .error (.rejected ("outbox record at " ++ path ++ " is too large")) ∧
      s.claim sampleSplit e.id 1000 0 false 10 "lease-1" =
        .error (.rejected ("outbox record at " ++ path ++ " is too large")) ∧
      s.recordAttempt sampleSplit e.id {} 10 =
        .error (.rejected ("outbox record at " ++ path ++ " is too large")) ∧
      s.enqueue sampleSplit checksumHost e (.str "http://a") false 0 10 =
        .error (.rejected ("outbox record at " ++ path ++ " is too large")) := by
  have hle : weight false (.obj (zeros 100000)) ≤ maxPayloadBytes := by
    rw [weight_zeros (by omega), maxPayloadBytes]
    omega
  obtain ⟨e, path, hpayload, -, hv, hp, henq⟩ := exists_enqueued (zeros_encodable 100000) hle
  have hbytes : maxOutboxRecordBytes <
      OutboxRecord.bytes { envelope := e.toDict, targetUrl := "http://a" } := by
    rw [bytes_fresh hv, freshBytes, hpayload, maxOutboxRecordBytes]
    have := fileWeight_zeros (show 100000 ≠ 0 by omega)
    omega
  have hload : loadRecord path ((noFiles.write path
      { envelope := e.toDict, targetUrl := "http://a" }).active path) =
      .error (.rejected ("outbox record at " ++ path ++ " is too large")) := by
    rw [active_write, loadRecord_doc, if_neg (Nat.not_le.2 hbytes)]
  have hurl : normalizeTargetUrl sampleSplit (.str "http://a") = .ok "http://a" := sampleUrl.down
  have hmap : (e.verify checksumHost).mapError Fault.rejected = .ok () := mapError_eq_ok.2 hv
  have hp' : pathOf (e.messageId.asStr.getD "") = .ok path := hp
  refine ⟨e, path, _, _, hpayload, by rw [hpayload]; exact hle, hv, henq, hbytes, ?_, ?_, ?_, ?_⟩
  · simp only [CommerceOutbox.get, hp, ok_bind, hload, error_bind]
  · have hms : (decide (1000 ≤ 1000) && decide (1000 ≤ 300000)) = true := by decide
    simp only [CommerceOutbox.claim, require, hms, if_true, hp, ok_bind, hload, error_bind]
  · have hretry : decide (({} : Report).retryAfterMs ≤ 86400000) = true := by decide
    simp only [CommerceOutbox.recordAttempt, require, hretry, if_true, hp, ok_bind, hload,
      error_bind]
  · simp only [CommerceOutbox.enqueue, CommerceOutbox.find, hmap, hurl, hp', ok_bind, hload,
      error_bind]

/-- The theorem on an empty payload, at once and when a minute has passed. -/
theorem outbox_reads_back_empty : ∃ (e : CommerceEnvelope) (r : OutboxRecord) (s : CommerceOutbox),
    noFiles.enqueue sampleSplit checksumHost e (.str "http://a") false 0 10 = .ok (r, s) ∧
      Readable sampleSplit checksumHost s e ∧
      ∃ w', World.step sampleSplit checksumHost { outbox := s, clock := 10 } (.tick 60010) =
        some w' ∧
        Readable sampleSplit checksumHost w'.outbox e := by
  have hle : weight false (.obj []) ≤ maxPayloadBytes := by decide
  obtain ⟨e, path, hpayload, hsum, -, hp, henq⟩ := exists_enqueued rfl hle
  have hfresh : freshBytes e "http://a" ≤ maxOutboxRecordBytes := by
    have hk : fileWeight 2 (.obj []) = 2 ∧ strWeight false "http://a" = 10 := by decide
    rw [freshBytes, hpayload, hk.1, hk.2, maxOutboxRecordBytes]
    omega
  have hfits : World.Fits sampleSplit { outbox := noFiles, clock := 10 }
      (.enqueue e (.str "http://a") false 0 10) := by
    refine ⟨by decide, fun url name hurl _ => ⟨fun _ => ?_, fun value r hval => ?_⟩⟩
    · obtain rfl := Except.ok.inj (hurl.symm.trans sampleUrl.down)
      exact hfresh
    · cases hval
  have hstored : (noFiles.write path { envelope := e.toDict, targetUrl := "http://a" }).active
      (fileOf e.id) ≠ .absent := by
    rw [fileOf_of_ok hp, active_write]
    rintro ⟨⟩
  have htick : World.step sampleSplit checksumHost
      { outbox := noFiles.write path { envelope := e.toDict, targetUrl := "http://a" }, clock := 10 }
      (.tick 60010) = some
        { outbox := noFiles.write path { envelope := e.toDict, targetUrl := "http://a" }
          clock := 60010 } := rfl
  obtain ⟨e', -, he', -, hread⟩ := (outbox_reads_back sampleSplits).2 _ _ _ e _ _ _ _ _ hfits henq
    rfl hstored (.step .start (a := .tick 60010) trivial htick)
  obtain rfl := he' rfl
  exact ⟨e', _, _, henq, ((outbox_reads_back sampleSplits).1 _ _ e' _ _ _ _ _ _ henq sampleUrl.down
    rfl).2 hfresh, _, htick, hread⟩

end Commerce

end NthDao
