/-
  Acceptances of the inbox.

  * `accepted_once_between_evictions`: a message, and a pair of a sender and a nonce,
    is accepted once more often than it is evicted at most; an eviction takes place
    in a full cache and takes a processed message;
  * `accepted_after_eviction`: a message that has been evicted is accepted again.
-/
import NthDao.Delivery.InboxCalls

namespace NthDao

namespace Delivery

open Py Runs

variable {H : Host} {strict : Prop}

/-! ## Counts -/

namespace InboxEvent

/-- The event accepts a message with the id. -/
def acceptsId (id : String) : InboxEvent → Bool
  | .accepted a _ => a.id == id
  | _ => false

/-- The event evicts the message with the id. -/
def evictsId (id : String) : InboxEvent → Bool
  | .evicted i _ => i == id
  | _ => false

/-- The event accepts a message with the sender and the nonce. -/
def acceptsKey (key : String × String) : InboxEvent → Bool
  | .accepted a _ => (a.sender, a.nonce) == key
  | _ => false

/-- The event evicts the message with the sender and the nonce. -/
def evictsKey (key : String × String) : InboxEvent → Bool
  | .evicted _ k => k == key
  | _ => false

end InboxEvent

open InboxEvent

/-- An entry and the others. -/
theorem Entries.perm_drop {es : Entries} (hd : es.Distinct) {e : Entry} (he : e ∈ es) :
    es.Perm (e :: es.drop e.messageId) := by
  have hn : es.Nodup := List.Nodup.of_map _ hd.ids
  have hdrop : es.drop e.messageId = es.erase e := by
    rw [hn.erase_eq_filter]
    refine List.filter_congr fun e' he' => ?_
    rw [Bool.eq_iff_iff, bne_iff_ne, bne_iff_ne, not_iff_not]
    exact ⟨fun h => hd.eq_of_id he' he h, fun h => by rw [h]⟩
  rw [hdrop]
  exact List.perm_cons_erase he

theorem Entries.count_ids_drop {es : Entries} (hd : es.Distinct) {e : Entry} (he : e ∈ es)
    (id : String) : es.ids.count id = (if e.messageId = id then 1 else 0) +
      (es.drop e.messageId).ids.count id := by
  have hp := (Entries.perm_drop hd he).map Entry.messageId
  rw [Entries.ids, hp.count_eq, List.map_cons, List.count_cons, Nat.add_comm]
  simp only [beq_iff_eq]
  rfl

theorem Entries.count_keys_drop {es : Entries} (hd : es.Distinct) {e : Entry} (he : e ∈ es)
    (key : String × String) : es.keys.count key = (if e.key = key then 1 else 0) +
      (es.drop e.messageId).keys.count key := by
  have hp := (Entries.perm_drop hd he).map Entry.key
  rw [Entries.keys, hp.count_eq, List.map_cons, List.count_cons, Nat.add_comm]
  simp only [beq_iff_eq]
  rfl

/-- Acceptances are evictions and what is remembered. -/
structure Counted (log : List InboxEvent) (es : Entries) : Prop where
  ids : ∀ id, log.countP (acceptsId id) = log.countP (evictsId id) + es.ids.count id
  keys : ∀ key, log.countP (acceptsKey key) = log.countP (evictsKey key) + es.keys.count key

theorem Counted.accepted {log : List InboxEvent} {es : Entries} (h : Counted log es) (a : Admitted)
    (now : ℤ) : Counted (log ++ [.accepted a now]) (es ++ [a.entry now]) := by
  constructor
  · intro id
    have hc : (Entries.ids (es ++ [a.entry now])).count id = es.ids.count id +
        (if a.id = id then 1 else 0) := by
      rw [Entries.ids, List.map_append, List.count_append]
      simp [Admitted.entry, List.count_singleton, Entries.ids]
    rw [List.countP_append, List.countP_append, h.ids, hc]
    simp only [List.countP_singleton, acceptsId, evictsId, beq_iff_eq, Bool.false_eq_true, if_false]
    split_ifs <;> omega
  · intro key
    have hc : (Entries.keys (es ++ [a.entry now])).count key = es.keys.count key +
        (if (a.sender, a.nonce) = key then 1 else 0) := by
      rw [Entries.keys, List.map_append, List.count_append]
      simp [Admitted.entry, Entry.key, List.count_singleton, Entries.keys]
    rw [List.countP_append, List.countP_append, h.keys, hc]
    simp only [List.countP_singleton, acceptsKey, evictsKey, beq_iff_eq, Bool.false_eq_true,
      if_false]
    split_ifs <;> omega

theorem Counted.evicted {log : List InboxEvent} {es : Entries} (h : Counted log es)
    (hd : es.Distinct) {e : Entry} (he : e ∈ es) :
    Counted (log ++ [.evicted e.messageId e.key]) (es.drop e.messageId) := by
  constructor
  · intro id
    rw [List.countP_append, List.countP_append, h.ids, Entries.count_ids_drop hd he]
    simp only [List.countP_singleton, acceptsId, evictsId, beq_iff_eq, Bool.false_eq_true, if_false]
    split_ifs <;> omega
  · intro key
    rw [List.countP_append, List.countP_append, h.keys, Entries.count_keys_drop hd he]
    simp only [List.countP_singleton, acceptsKey, evictsKey, beq_iff_eq, Bool.false_eq_true,
      if_false]
    split_ifs <;> omega

theorem Counted.processed {log : List InboxEvent} {es : Entries} (h : Counted log es) (id : String) :
    Counted (log ++ [.processed id]) (es.finish id) := by
  constructor
  · intro x
    rw [Entries.ids_finish, List.countP_append, List.countP_append, h.ids]
    simp [acceptsId, evictsId]
  · intro key
    rw [Entries.keys_finish, List.countP_append, List.countP_append, h.keys]
    simp [acceptsKey, evictsKey]

theorem Counted.step {log events : List InboxEvent} {m : ℕ} (h : Counted log (replay log))
    (hd : (replay log).Distinct) (hl : Logged H strict m (replay log) events) :
    Counted (log ++ events) (replay (log ++ events)) := by
  cases hl with
  | none => rwa [List.append_nil]
  | accepted =>
    rw [replay_append]
    exact h.accepted _ _
  | replaced _ _ _ _ _ he _ =>
    rw [replay_append, List.append_cons]
    exact (h.evicted hd he).accepted _ _
  | processed =>
    rw [replay_append]
    exact h.processed _

/-! ## Runs -/

theorem counted_of_reach {w : InboxWorld} (h : Reach (InboxWorld.step H) (fun _ _ => True) {} w) :
    w.Inv H False ∧ Counted w.log (replay w.log) := by
  refine h.invariant (P := fun w => w.Inv H False ∧ Counted w.log (replay w.log))
    ⟨inbox_inv_start, fun _ => rfl, fun _ => rfl⟩ ?_
  rintro s a s' ⟨hinv, hcount⟩ - hstep
  obtain ⟨hinv', hst⟩ := inbox_inv_step hinv (fun hf => hf.elim) hstep
  refine ⟨hinv', ?_⟩
  cases hst with
  | start hlog _ => rw [hlog]; exact hcount
  | call _ _ _ hlog hl =>
    rw [hlog]
    exact hcount.step hinv.folds.distinct hl

/-- An eviction makes room in a full cache. -/
theorem evicted_of_logged {m : ℕ} {es : Entries} {events : List InboxEvent} {id : String}
    {key : String × String} (h : Logged H strict m es events) (he : .evicted id key ∈ events) :
    m ≤ es.length ∧ ∃ e ∈ es, e.messageId = id ∧ e.key = key ∧ e.pending = none := by
  cases h with
  | none => cases he
  | accepted => simp at he
  | @replaced a now e _ _ _ _ hfull hmem hp =>
    simp only [List.mem_cons, InboxEvent.evicted.injEq, reduceCtorEq, List.not_mem_nil, or_false] at he
    exact ⟨hfull, e, hmem, he.1.symm, he.2.symm, hp⟩
  | processed => simp at he

/-- **A message is accepted once between its evictions**, and so is a sender's nonce;
    an eviction makes room in a full cache and takes a processed message. -/
theorem accepted_once_between_evictions {w : InboxWorld}
    (h : Reach (InboxWorld.step H) (fun _ _ => True) {} w) :
    (∀ id, w.log.countP (evictsId id) ≤ w.log.countP (acceptsId id) ∧
      w.log.countP (acceptsId id) ≤ w.log.countP (evictsId id) + 1) ∧
    (∀ key, w.log.countP (evictsKey key) ≤ w.log.countP (acceptsKey key) ∧
      w.log.countP (acceptsKey key) ≤ w.log.countP (evictsKey key) + 1) ∧
    ∀ a w' id key, w.step H a = some w' → .evicted id key ∈ w'.log.drop w.log.length →
      ∃ i c p, a = .call i c ∧ w.procs[i]? = some p ∧ p.maxEntries ≤ (replay w.log).length ∧
        ∃ e ∈ replay w.log, e.messageId = id ∧ e.key = key ∧ e.pending = none := by
  obtain ⟨hinv, hcount⟩ := counted_of_reach h
  refine ⟨fun id => ?_, fun key => ?_, fun a w' id key hstep he => ?_⟩
  · have h1 := List.nodup_iff_count_le_one.1 hinv.folds.distinct.ids id
    have h2 := hcount.ids id
    omega
  · have h1 := List.nodup_iff_count_le_one.1 hinv.folds.distinct.keys key
    have h2 := hcount.keys key
    omega
  · obtain ⟨-, hst⟩ := inbox_inv_step hinv (fun hf => hf.elim) hstep
    cases hst with
    | start hlog _ => rw [hlog, List.drop_length] at he; cases he
    | @call i c p p' events hi _ _ hlog hl =>
      rw [hlog, List.drop_left] at he
      obtain ⟨hfull, hentry⟩ := evicted_of_logged hl he
      exact ⟨i, c, p, rfl, hi, hfull, hentry⟩

/-! ## A message that is accepted twice -/

theorem exists_sampleAdmitted : ∃ a, acceptArgs checksumHost none (.envelope sampleEnvelope) 1500 =
    .ok a ∧ a.envelope = sampleEnvelope ∧ a.id = sampleMessageId ∧ a.nonce = "abcdefghijklmnop" := by
  have hv : validateEnvelope checksumHost sampleEnvelope (some 1500) true = .ok () :=
    validateEnvelope_some _ validate_sampleEnvelope rfl rfl rfl
  obtain ⟨a, ha, he, hid, hkey⟩ := acceptArgs_of_valid hv rfl rfl rfl
  exact ⟨a, ha, he, hid, congrArg Prod.snd hkey⟩

theorem exists_otherAdmitted : ∃ b, acceptArgs checksumHost none (.envelope otherEnvelope) 1500 =
    .ok b ∧ b.id ≠ sampleMessageId ∧ b.nonce = "bcdefghijklmnopq" := by
  have hv : validateEnvelope checksumHost otherEnvelope (some 1500) true = .ok () :=
    validateEnvelope_some _ validate_otherEnvelope rfl rfl rfl
  obtain ⟨b, hb, -, hid, hkey⟩ := acceptArgs_of_valid hv rfl rfl rfl
  exact ⟨b, hb, by rw [hid]; decide, congrArg Prod.snd hkey⟩

/-- An acceptance, and the processing of the message, in a cache of one entry. -/
theorem SoloInbox.replace {H : Host} {w : InboxWorld}
    (h : SoloInbox H True (fun _ _ => True) 1 w) (source : InboxSource) (hw : source.wf = true)
    {a : Admitted} (ha : acceptArgs H none source 1500 = .ok a) {e : Entry}
    (hlog : replay w.log = [e]) (hp : e.pending = none) (hid : a.id ≠ e.messageId)
    (hkey : a.nonce ≠ e.nonce) : ∃ w', SoloInbox H True (fun _ _ => True) 1 w' ∧
      w'.log = w.log ++ [.evicted e.messageId e.key, .accepted a 1500] ∧
      replay w'.log = [a.entry 1500] := by
  have hd := h.inv.folds.distinct
  rw [hlog] at hd
  obtain ⟨w', hw', hlog'⟩ := h.accept source 1500 (some (e.messageId, e.key)) hw trivial
    (fun _ => by decide) rfl ha
    (by rw [hlog]; simpa [Entries.ids] using hid)
    (by rw [hlog]; simpa [Entries.keys, Entry.key, Admitted.entry] using fun _ => hkey)
    (fun p hc hm => evictee_of_head (hlog ▸ hc) hd hp (by rw [hm]; rfl))
  refine ⟨w', hw', hlog', ?_⟩
  rw [hlog', replay_append, hlog]
  simp [Entries.after, Entries.drop]

theorem SoloInbox.finish {H : Host} {w : InboxWorld} {a : Admitted}
    (h : SoloInbox H True (fun _ _ => True) 1 w) (hlog : replay w.log = [a.entry 1500]) :
    ∃ w', SoloInbox H True (fun _ _ => True) 1 w' ∧ w'.log = w.log ++ [.processed a.id] ∧
      replay w'.log = [{ a.entry 1500 with pending := none }] := by
  obtain ⟨w', hw', hlog'⟩ := h.mark (e := a.entry 1500) (by rw [hlog]; exact List.mem_singleton_self _)
    (by simp [Admitted.entry]) trivial
  refine ⟨w', hw', hlog', ?_⟩
  rw [hlog', replay_append, hlog]
  simp [Entries.after, Entries.finish, Admitted.entry]

/-- **A message is accepted twice** before it expires, in a cache of one entry. -/
theorem accepted_after_eviction : ∃ (w : InboxWorld) (a b : Admitted),
    Reach (InboxWorld.step checksumHost) (fun _ _ => True) {} w ∧ a.envelope = sampleEnvelope ∧
    a.id = sampleMessageId ∧ sampleEnvelope.expiresAtMs = .int 9000 ∧
    w.log = [.accepted a 1500, .processed a.id, .evicted a.id (a.sender, a.nonce),
      .accepted b 1500, .processed b.id, .evicted b.id (b.sender, b.nonce), .accepted a 1500] := by
  obtain ⟨a, ha, hea, hida, hna⟩ := exists_sampleAdmitted
  obtain ⟨b, hb, hidb, hnb⟩ := exists_otherAdmitted
  have hab : a.nonce ≠ b.nonce := by rw [hna, hnb]; decide
  have hid : b.id ≠ a.id := by rwa [hida]
  obtain ⟨w₀, h₀, hl₀⟩ := SoloInbox.start (H := checksumHost) True (fun _ _ => True) 1 (by decide)
    trivial
  obtain ⟨w₁, h₁, hl₁⟩ := h₀.accept (.envelope sampleEnvelope) 1500 none sampleEnvelope_wf trivial
    (fun _ => by decide) rfl ha (by rw [hl₀]; exact List.not_mem_nil)
    (by rw [hl₀]; exact List.not_mem_nil)
    (fun p hc hm => evictee_of_room hc (by rw [hl₀, hm]; decide))
  have hr₁ : replay w₁.log = [a.entry 1500] := by rw [hl₁, hl₀]; rfl
  obtain ⟨w₂, h₂, hl₂, hr₂⟩ := h₁.finish hr₁
  obtain ⟨w₃, h₃, hl₃, hr₃⟩ := h₂.replace (.envelope otherEnvelope) (by decide) hb hr₂ rfl hid
    hab.symm
  obtain ⟨w₄, h₄, hl₄, hr₄⟩ := h₃.finish hr₃
  obtain ⟨w₅, h₅, hl₅, hr₅⟩ := h₄.replace (.envelope sampleEnvelope) sampleEnvelope_wf ha hr₄
    rfl hid.symm hab
  refine ⟨w₅, a, b, h₅.reach, hea, hida, rfl, ?_⟩
  rw [hl₅, hl₄, hl₃, hl₂, hl₁, hl₀]
  rfl

/-- The theorem on that run: two acceptances and one eviction. -/
theorem accepted_once_sample : ∃ w : InboxWorld,
    Reach (InboxWorld.step checksumHost) (fun _ _ => True) {} w ∧
    w.log.countP (acceptsId sampleMessageId) ≤ w.log.countP (evictsId sampleMessageId) + 1 ∧
    w.log ≠ [] := by
  obtain ⟨w, h, hl⟩ := SoloInbox.start (H := checksumHost) True (fun _ _ => True) 1 (by decide)
    trivial
  obtain ⟨a, ha, -⟩ := exists_sampleAdmitted
  obtain ⟨w₁, h₁, hl₁⟩ := h.accept (.envelope sampleEnvelope) 1500 none sampleEnvelope_wf trivial
    (fun _ => by decide) rfl ha (by rw [hl]; exact List.not_mem_nil)
    (by rw [hl]; exact List.not_mem_nil)
    (fun p hc hm => evictee_of_room hc (by rw [hl, hm]; decide))
  refine ⟨w₁, h₁.reach, ((accepted_once_between_evictions h₁.reach).1 sampleMessageId).2, ?_⟩
  rw [hl₁]
  simp

end Delivery

end NthDao
