/-
  Work of the inbox.

  * `work log`: the messages that were accepted and not processed since;
  * `pending_is_work`: when no envelope is accepted before the epoch, `pending`
    returns exactly the work of the log in its order, and the maps of the inbox
    agree with each other;
  * `early_acceptance_unreadable`: after an acceptance before the epoch the journal
    does not fold.
-/
import NthDao.Delivery.InboxIntake

namespace NthDao

namespace Delivery

open Py Runs

variable {H : Host} {strict : Prop}

/-! ## Work -/

/-- The messages to process, after one event. -/
def workAfter (ws : List Admitted) : InboxEvent → List Admitted
  | .accepted a _ => ws ++ [a]
  | .evicted _ _ => ws
  | .processed id => ws.filter fun a => a.id != id

/-- The messages that were accepted and not processed since, in order. -/
def work (log : List InboxEvent) : List Admitted := log.foldl workAfter []

theorem work_append (log events : List InboxEvent) :
    work (log ++ events) = events.foldl workAfter (work log) := List.foldl_append

/-- The pending texts are those of the work, and each is canonical. -/
structure Pends (ws : List Admitted) (es : Entries) : Prop where
  pending : (Cache.of es).pendingJson = ws.map fun a => (a.id, a.json)
  text : ∀ a ∈ ws, canonicalText a.envelope.toDict = some a.json

theorem Pends.accepted {ws : List Admitted} {es : Entries} (h : Pends ws es) {a : Admitted}
    (ha : a.Facts H) (now : ℤ) : Pends (ws ++ [a]) (es ++ [a.entry now]) := by
  constructor
  · show (es ++ [a.entry now]).filterMap Entry.item = _
    rw [List.filterMap_append, List.map_append, ← h.pending]
    rfl
  · intro b hb
    rcases List.mem_append.1 hb with hb | hb
    · exact h.text b hb
    · rw [List.mem_singleton.1 hb]
      exact ha.text

/-- A message that is not pending takes no work with it. -/
theorem Pends.evicted {ws : List Admitted} {es : Entries} (h : Pends ws es) (hd : es.Distinct)
    {e : Entry} (he : e ∈ es) (hp : e.pending = none) : Pends ws (es.drop e.messageId) := by
  refine ⟨?_, h.text⟩
  rw [← Cache.pop_pendingJson, Dict.pop_of_not_mem, h.pending]
  rw [← Dict.has_iff, Cache.get_isSome_pending hd he, hp]
  exact Bool.false_ne_true

theorem Pends.processed {ws : List Admitted} {es : Entries} (h : Pends ws es) (id : String) :
    Pends (ws.filter fun a => a.id != id) (es.finish id) := by
  constructor
  · have hf := congrArg Cache.pendingJson (Cache.finish_of es id)
    rw [← hf]
    show (Cache.of es).pendingJson.pop id = _
    rw [h.pending]
    exact Dict.pop_map ws Admitted.id Admitted.json id
  · intro a ha
    exact h.text a (List.mem_of_mem_filter ha)

theorem Pends.step {log events : List InboxEvent} {m : ℕ} (h : Pends (work log) (replay log))
    (hd : (replay log).Distinct) (hl : Logged H strict m (replay log) events) :
    Pends (work (log ++ events)) (replay (log ++ events)) := by
  rw [work_append, replay_append]
  cases hl with
  | none => exact h
  | accepted ha _ _ _ _ => exact h.accepted ha _
  | replaced ha _ _ _ _ he hp => exact (h.evicted hd he hp).accepted ha _
  | processed => exact h.processed _

/-! ## The size of the cache -/

theorem length_drop_lt {es : Entries} {e : Entry} (he : e ∈ es) :
    (es.drop e.messageId).length < es.length := by
  refine List.length_filter_lt_length_iff_exists.2 ⟨e, he, ?_⟩
  simp

theorem length_after {n m : ℕ} {es : Entries} {events : List InboxEvent} (h : es.length ≤ n)
    (hm : m ≤ n) (hl : Logged H strict m es events) :
    (events.foldl Entries.after es).length ≤ n := by
  cases hl with
  | none => exact h
  | accepted _ _ _ _ hlt =>
    show (es ++ [_]).length ≤ n
    rw [List.length_append, List.length_singleton]
    omega
  | replaced _ _ _ _ _ he _ =>
    show (es.drop _ ++ [_]).length ≤ n
    have := length_drop_lt he
    rw [List.length_append, List.length_singleton]
    omega
  | processed =>
    show (es.finish _).length ≤ n
    rw [Entries.finish, List.length_map]
    exact h

/-! ## Runs -/

variable (H) in
/-- No envelope is accepted before the epoch, and no process has more than `n`
    entries. -/
def InboxWorld.Kept (n : ℕ) (w : InboxWorld) (a : InboxAct) : Prop :=
  w.Timely H a ∧ ∀ m au, a = .start m au → m ≤ n

variable (H) in
/-- The invariant of these runs. -/
structure InboxWorld.KeptInv (n : ℕ) (w : InboxWorld) : Prop where
  inv : w.Inv H True
  pends : Pends (work w.log) (replay w.log)
  length : (replay w.log).length ≤ n
  procs : ∀ p ∈ w.procs, p.maxEntries ≤ n

theorem keptInv_of_reach {n : ℕ} {w : InboxWorld}
    (h : Reach (InboxWorld.step H) (InboxWorld.Kept H n) {} w) : w.KeptInv H n := by
  have hstart : ({} : InboxWorld).KeptInv H n :=
    ⟨inbox_inv_start, ⟨rfl, fun _ ha => absurd ha List.not_mem_nil⟩, Nat.zero_le _,
      fun _ hp => absurd hp List.not_mem_nil⟩
  refine h.invariant (P := fun w => w.KeptInv H n) hstart fun s a s' hs hc hstep => ?_
  · obtain ⟨hinv, hst⟩ := inbox_inv_step hs.inv (fun _ => hc.1) hstep
    cases hst with
    | @start m au hlog hprocs =>
      refine ⟨hinv, by rw [hlog]; exact hs.pends, by rw [hlog]; exact hs.length, fun p hp => ?_⟩
      rcases hprocs with hprocs | ⟨q, hq, hprocs⟩
      · exact hs.procs p (hprocs ▸ hp)
      · rw [hprocs] at hp
        rcases List.mem_append.1 hp with hp | hp
        · exact hs.procs p hp
        · have hmax : q.maxEntries = m := congrArg Prod.fst hq
          rw [List.mem_singleton.1 hp, hmax]
          exact hc.2 m au rfl
    | @call i c p p' events hi hcfg hprocs hlog hl =>
      have hp : p.maxEntries ≤ n := hs.procs p (List.mem_of_getElem? hi)
      refine ⟨hinv, ?_, ?_, fun q hq => ?_⟩
      · rw [hlog]; exact hs.pends.step hs.inv.folds.distinct hl
      · rw [hlog, replay_append]; exact length_after hs.length hp hl
      · rw [hprocs] at hq
        rcases List.mem_or_eq_of_mem_set hq with hq | rfl
        · exact hs.procs q hq
        · have hmax : q.maxEntries = p.maxEntries := congrArg Prod.fst hcfg
          omega

/-! ## What the inbox returns -/

/-- Canonical texts of envelopes are read back. -/
theorem readPending_of (texts : List String)
    (h : ∀ json ∈ texts, ∃ id sender nonce e, pendingEnvelope H id sender nonce json = .ok e) :
    ∃ es, Inbox.readPending texts = .ok es ∧
      es.map (fun e => canonicalText e.toDict) = texts.map some := by
  induction texts with
  | nil => exact ⟨[], rfl, rfl⟩
  | cons json texts ih =>
    rw [List.forall_mem_cons] at h
    obtain ⟨⟨id, sender, nonce, e, he⟩, h⟩ := h
    obtain ⟨es, hes, hmap⟩ := ih h
    obtain ⟨⟨parsed, hload, hdict⟩, htext⟩ := pendingEnvelope_text he
    refine ⟨e :: es, ?_, by rw [List.map_cons, List.map_cons, hmap, htext]⟩
    unfold Inbox.readPending at hes ⊢
    rw [List.mapM_cons, hes, hload]
    simp only [expect, ok_bind, hdict]
    rfl

/-- The maps agree: a message has the sender and nonce that lead back to it, and
    only messages that are remembered are pending. -/
structure Cache.Consistent (c : Cache) : Prop where
  inverse : ∀ id key, c.byMessageId.get id = some key ↔ c.nonces.get key = some id
  pending : ∀ id, c.pendingJson.has id = true → c.byMessageId.has id = true

theorem Cache.consistent_of {es : Entries} (hd : es.Distinct) : (Cache.of es).Consistent := by
  constructor
  · intro id key
    constructor
    · intro h
      obtain ⟨e, he, rfl, rfl⟩ := Cache.of_get_byMessageId h
      refine Dict.get_of_mem ?_ (List.mem_map.2 ⟨e, he, rfl⟩)
      rw [Cache.keys_nonces]
      exact hd.keys
    · intro h
      obtain ⟨e, he, hk⟩ := List.mem_map.1 (Dict.mem_of_get h)
      cases hk
      exact Cache.get_byMessageId hd he
  · intro id h
    obtain ⟨e, he, rfl, -⟩ := Cache.has_pendingJson.1 h
    exact Cache.has_byMessageId.2 (List.mem_map_of_mem he)

theorem pending_of_keptInv {n : ℕ} {w : InboxWorld} (h : w.KeptInv H n) {p : Inbox}
    (hp : p ∈ w.procs) {k : ℕ} (hk : 1 ≤ k) (hlen : (work w.log).length ≤ k) :
    ∃ es, (p.call H w.file (.pending k)).2.1 = .ok (.envelopes es) ∧
      es.map (fun e => canonicalText e.toDict) = (work w.log).map fun a => some a.json := by
  have hbody : Inbox.body H p (.pending k) = .ok (Inbox.pendingBody k) := by
    simp only [Inbox.body, if_pos hk]
  rcases call_effect h.inv hp (c := .pending k) rfl (fun _ => trivial) with
    ⟨r, hb, -⟩ | ⟨b, i, f, i', f', r, events, hb, hholds, -, -, -, hcall, hres⟩ | ⟨hs, -⟩
  · rw [hbody] at hb; cases hb
  · rw [hbody] at hb
    cases hb
    have htexts : (i.cache.pendingJson.map Prod.snd).take k = (work w.log).map Admitted.json := by
      rw [hholds.cache, h.pends.pending, List.map_map, List.take_of_length_le]
      · rfl
      · rw [List.length_map]; exact hlen
    obtain ⟨es, hes, hmap⟩ := readPending_of (H := H) ((work w.log).map Admitted.json) (by
      intro json hj
      rw [← htexts, hholds.cache, Cache.map_pendingJson] at hj
      obtain ⟨e, he, hpend⟩ := List.mem_filterMap.1 (List.mem_of_mem_take hj)
      obtain ⟨env, henv⟩ := (hholds.folds.sound e he).envelope json hpend
      exact ⟨_, _, _, env, henv⟩)
    have hok : Inbox.pendingBody k i f = .ok (i, f, (.envelopes es, [])) := by
      simp only [Inbox.pendingBody, Inbox.pendingLocked, ok_bind, htexts, hes]
      rfl
    rw [hok] at hres
    rcases hres with ⟨a, ha, rfl⟩ | ⟨e, he, -⟩
    · cases ha
      exact ⟨es, by rw [hcall], by rw [hmap, List.map_map]; rfl⟩
    · cases he
  · exact absurd trivial hs

/-- **No accepted work is lost.** -/
theorem pending_is_work {n : ℕ} {w : InboxWorld}
    (h : Reach (InboxWorld.step H) (InboxWorld.Kept H n) {} w) :
    ∃ c, (inboxReader H).load w.file.bytes {} = .ok c ∧ c.Consistent ∧ c.byMessageId.length ≤ n ∧
      (∀ p ∈ w.procs, p.cacheStat = w.file.stat → p.cache = c) ∧
      (∀ m au, ∃ s, Inbox.load H { maxEntries := m, authorize := au } w.file = (s, .ok ())) ∧
      (∀ a ∈ work w.log, canonicalText a.envelope.toDict = some a.json) ∧
      ∀ p ∈ w.procs, ∀ k, 1 ≤ k → (work w.log).length ≤ k →
        ∃ es, (p.call H w.file (.pending k)).2.1 = .ok (.envelopes es) ∧
          es.map (fun e => canonicalText e.toDict) = (work w.log).map fun a => some a.json := by
  have hk := keptInv_of_reach h
  refine ⟨Cache.of (replay w.log), hk.inv.folds.ok trivial,
    Cache.consistent_of hk.inv.folds.distinct, ?_, hk.inv.current.agree, fun m au => ?_,
    hk.pends.text, fun p hp k h1 hlen => pending_of_keptInv hk hp h1 hlen⟩
  · show ((replay w.log).map _).length ≤ n
    rw [List.length_map]
    exact hk.length
  · rcases load_of hk.inv.folds { maxEntries := m, authorize := au } with ⟨i, f, hl, -⟩ | ⟨hs, -⟩
    · exact ⟨_, hl⟩
    · exact absurd trivial hs

/-! ## Acceptances at two times -/

/-- The sample message is accepted. -/
theorem exists_soloAccepted (strict : Prop) (cond : InboxWorld → InboxAct → Prop) (now : ℤ)
    (hnow : strict → 1 ≤ now) (henc : (Json.int now).encodable = true)
    (hfresh : checkFresh 1000 9000 (some now) = .ok ()) (h₀ : cond {} (.start 8 none))
    (h₁ : ∀ w, cond w (.call 0 (.accept (.envelope sampleEnvelope) now))) :
    ∃ w a, SoloInbox checksumHost strict cond 8 w ∧ w.log = [.accepted a now] := by
  have hv : validateEnvelope checksumHost sampleEnvelope (some now) true = .ok () :=
    validateEnvelope_some _ validate_sampleEnvelope rfl rfl hfresh
  obtain ⟨a, ha, -⟩ := acceptArgs_of_valid hv rfl rfl rfl
  obtain ⟨w₀, hw₀, hl₀⟩ := SoloInbox.start (H := checksumHost) strict cond 8 (by decide) h₀
  obtain ⟨w, hw, hl⟩ := hw₀.accept (.envelope sampleEnvelope) now none sampleEnvelope_wf (h₁ w₀) hnow
    henc ha (by rw [hl₀]; exact List.not_mem_nil) (by rw [hl₀]; exact List.not_mem_nil)
    (fun p hc hm => evictee_of_room hc (by rw [hl₀, hm]; decide))
  exact ⟨w, a, hw, by rw [hl, hl₀]; rfl⟩

/-- The theorem on one message that is accepted and pending. -/
theorem pending_is_work_sample : ∃ w : InboxWorld,
    Reach (InboxWorld.step checksumHost) (InboxWorld.Kept checksumHost 8) {} w ∧
    work w.log ≠ [] ∧ ∃ c, (inboxReader checksumHost).load w.file.bytes {} = .ok c ∧ c.Consistent := by
  obtain ⟨w, a, hw, hl⟩ := exists_soloAccepted True (InboxWorld.Kept checksumHost 8) 1500
    (fun _ => by decide) rfl rfl
    ⟨(fun i c h => by cases h), (fun m au h => by cases h; exact le_rfl)⟩
    (fun w => ⟨(fun i c h p _ => by cases h; exact fun _ _ => by decide), (fun m au h => by cases h)⟩)
  obtain ⟨c, hc, hcons, -⟩ := pending_is_work hw.reach
  exact ⟨w, hw.reach, by rw [hl]; simp [work, workAfter], c, hc, hcons⟩

/-- **An envelope accepted before the epoch** is not found again: the journal does
    not fold. -/
theorem early_acceptance_unreadable : ∃ w : InboxWorld,
    Reach (InboxWorld.step checksumHost) (fun _ _ => True) {} w ∧ work w.log ≠ [] ∧
    ∀ m au, ∃ e, (Inbox.load checksumHost { maxEntries := m, authorize := au } w.file).2 =
      .error e := by
  obtain ⟨w, a, hw, hl⟩ := exists_soloAccepted False (fun _ _ => True) (-1)
    (fun h => h.elim) rfl rfl trivial (fun _ => trivial)
  refine ⟨w, hw.reach, by rw [hl]; simp [work, workAfter], fun m au => ?_⟩
  have hnot : ∀ c, (inboxReader checksumHost).load w.file.bytes {} ≠ .ok c := by
    intro c hc
    have hpos : (0 : ℤ) ≤ -1 :=
      (hw.inv.folds.eq c hc).2 (a.entry (-1)) (by rw [hl]; exact List.mem_singleton_self _)
    exact absurd hpos (by decide)
  cases hj : w.file.journal with
  | none =>
    refine absurd ?_ (hnot {})
    rw [JournalFile.bytes, hj]
    rfl
  | some raw =>
    have hb : w.file.bytes = raw := by rw [JournalFile.bytes, hj]; rfl
    rw [hb] at hnot
    cases hload : (inboxReader checksumHost).load raw {} with
    | ok c => exact absurd hload (hnot c)
    | error e =>
      refine ⟨.corrupt e, ?_⟩
      simp only [Inbox.load, hj, hload]

end Delivery

end NthDao
