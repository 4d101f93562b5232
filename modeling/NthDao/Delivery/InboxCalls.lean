/-
  Runs of one process of the inbox.

  * `SoloInbox`: a run of one process that holds the entries of the log;
  * `SoloInbox.start`, `SoloInbox.accept`, `SoloInbox.mark`: it goes on;
  * `acceptArgs_of_valid`: a valid envelope is admitted while it is fresh.
-/
import NthDao.Delivery.InboxRuns

namespace NthDao

namespace Delivery

open Py Runs

variable {H : Host} {strict : Prop}

/-! ## Calls that succeed -/

/-- There is room. -/
theorem evictee_of_room {i : Inbox} {es : Entries} (hc : i.cache = Cache.of es)
    (h : es.length < i.maxEntries) : i.evictee = .ok none := by
  have hlen : i.cache.byMessageId.length = es.length := by
    rw [hc]; exact List.length_map _
  rw [Inbox.evictee, hlen, if_neg (by omega)]

/-- The first entry has been processed. -/
theorem evictee_of_head {i : Inbox} {e : Entry} {es : Entries} (hc : i.cache = Cache.of (e :: es))
    (hd : Entries.Distinct (e :: es)) (hp : e.pending = none)
    (h : i.maxEntries ≤ (e :: es).length) : i.evictee = .ok (some (e.messageId, e.key)) := by
  have hlen : i.cache.byMessageId.length = (e :: es).length := by
    rw [hc]; exact List.length_map _
  have hnot : (Cache.of (e :: es)).pendingJson.has e.messageId = false := by
    rw [Cache.get_isSome_pending hd List.mem_cons_self, hp]; rfl
  rw [Inbox.evictee, hlen, if_pos h, hc]
  simp only [bind_eq_ok, expect_eq_ok, pure_eq_ok]
  refine ⟨_, ?_, rfl⟩
  rw [Cache.of, List.map_cons, List.find?_cons_of_pos]
  show (!(Cache.of (e :: es)).pendingJson.has e.messageId) = true
  rw [hnot]
  rfl

theorem acceptBody_isOk {a : Admitted} (ha : a.Facts H) {now : ℤ} (hnow : strict → 1 ≤ now)
    (henc : (Json.int now).encodable = true) {i : Inbox} {f : JournalFile} {es : Entries}
    (h : Holds H strict i f es) (hi : a.id ∉ es.ids) (hk : (a.entry now).key ∉ es.keys)
    {ev : Option (String × (String × String))} (hev : i.evictee = .ok ev) :
    ∃ i' f' d, Inbox.acceptBody a now i f = .ok (i', f', (d,
      ev.toList.map (fun p => .evicted p.1 p.2) ++ [.accepted a now])) := by
  obtain ⟨i', f', hrem⟩ := remember_isOk ha hnow henc h hi hk hev
  have hid : ¬i.cache.byMessageId.has a.id = true := by
    rwa [h.cache, Cache.has_byMessageId]
  have hkey : ¬i.cache.nonces.has (a.sender, a.nonce) = true := by
    rwa [h.cache, Cache.has_nonces]
  rw [Inbox.acceptBody, Inbox.acceptLocked, if_neg hid, if_neg hkey, hrem]
  exact ⟨i', f', _, rfl⟩

theorem markBody_isOk {i : Inbox} {f : JournalFile} {es : Entries} (h : Holds H strict i f es)
    {e : Entry} (he : e ∈ es) (hp : e.pending ≠ none) :
    ∃ i' f' d, Inbox.markBody e.messageId i f = .ok (i', f', (d, [.processed e.messageId])) := by
  have hid : i.cache.byMessageId.has e.messageId = true := by
    rw [h.cache]; exact Cache.has_byMessageId.2 (List.mem_map_of_mem he)
  have hpend : i.cache.pendingJson.has e.messageId = true := by
    rw [h.cache]; exact Cache.has_pendingJson.2 ⟨e, he, rfl, hp⟩
  obtain ⟨i₁, f₁, happ⟩ : ∃ i₁ f₁, i.append f (processedEvent e.messageId) = .ok (i₁, f₁) := by
    have henc : (Json.obj (processedEvent e.messageId)).encodable = true := rfl
    rw [Inbox.append, encodeEvents_of (by simpa using henc)]
    exact ⟨_, _, rfl⟩
  obtain ⟨⟨i₂, f₂⟩, hcomp⟩ := compactIfOversized_isOk (holds_marked h he hp happ).1
  refine ⟨i₂, f₂, .flag true, map_eq_ok.2 ⟨(i₂, f₂, true), ?_, rfl⟩⟩
  simp only [Inbox.markLocked, hid, hpend, if_true, bind_eq_ok, require_eq_ok, pure_eq_ok, Prod.exists,
    Prod.mk.injEq]
  exact ⟨(), trivial, i₁, f₁, happ, i₂, f₂, hcomp, rfl, rfl, trivial⟩

/-! ## One process -/

variable (H) in
/-- A run of one process, without `authorize`, that has read the journal. -/
structure SoloInbox (strict : Prop) (cond : InboxWorld → InboxAct → Prop) (n : ℕ) (w : InboxWorld) :
    Prop where
  reach : Reach (InboxWorld.step H) cond {} w
  inv : w.Inv H strict
  proc : ∃ p, w.procs = [p] ∧ p.config = (n, none) ∧ p.cacheStat = w.file.stat

namespace SoloInbox

variable {cond : InboxWorld → InboxAct → Prop} {n : ℕ} {w : InboxWorld}

theorem start (strict : Prop) (cond : InboxWorld → InboxAct → Prop) (n : ℕ) (hn : 1 ≤ n)
    (hc : cond {} (.start n none)) :
    ∃ w, SoloInbox H strict cond n w ∧ w.log = [] := by
  have hstep : InboxWorld.step H {} (.start n none) =
      some { procs := [{ maxEntries := n, authorize := none }] } := by
    rw [InboxWorld.step, if_pos hn]
    rfl
  have htime : strict → InboxWorld.Timely H {} (.start n none) := fun _ i c h => by cases h
  exact ⟨_, ⟨Reach.start.step hc hstep, (inbox_inv_step inbox_inv_start htime hstep).1, _, rfl, rfl,
    rfl⟩, rfl⟩

/-- A call whose body succeeds. -/
theorem call (h : SoloInbox H strict cond n w) {c : InboxCall} (hw : c.wf = true)
    (hc : cond w (.call 0 c)) (htime : strict → w.Timely H (.call 0 c)) {b : Inbox.Body}
    (hbody : ∀ p : Inbox, p.config = (n, none) → Inbox.body H p c = .ok b)
    {events : List InboxEvent}
    (hok : ∀ p : Inbox, Holds H strict p w.file (replay w.log) → p.config = (n, none) →
      ∃ i' f' r, b p w.file = .ok (i', f', (r, events))) :
    ∃ w', SoloInbox H strict cond n w' ∧ w'.log = w.log ++ events := by
  obtain ⟨p, hp, hcfg, hstat⟩ := h.proc
  have hmem : p ∈ w.procs := by rw [hp]; exact List.mem_singleton_self p
  have hholds : Holds H strict p w.file (replay w.log) :=
    ⟨h.inv.folds, h.inv.current.agree p hmem hstat, hstat⟩
  obtain ⟨i', f', r, hb⟩ := hok p hholds hcfg
  have hrefold : Inbox.refoldIfChanged H p w.file = ((p, w.file), .ok ()) := by
    rw [Inbox.refoldIfChanged, hstat]
    simp
  have hcall : p.call H w.file c = ((i', f'), .ok r, events) := by
    simp only [Inbox.call, hbody p hcfg, Inbox.locked, hrefold, hb]
  have hget : w.procs[0]? = some p := by rw [hp]; rfl
  have hstep : w.step H (.call 0 c) =
      some { file := f', procs := [i'], log := w.log ++ events } := by
    rw [InboxWorld.step, hget]
    simp only [hw, if_true, hcall, hp]
    rfl
  obtain ⟨hinv, hst⟩ := inbox_inv_step h.inv htime hstep
  have heff := body_effect hw (fun hs => htime hs 0 c rfl p hget) (hbody p hcfg) hholds hb
  exact ⟨_, ⟨h.reach.step hc hstep, hinv, i', rfl, heff.config.trans hcfg, heff.holds.stat⟩, rfl⟩

/-- **A message is accepted.** -/
theorem accept (h : SoloInbox H strict cond n w) (source : InboxSource) (now : ℤ)
    (ev : Option (String × (String × String))) (hw : source.wf = true) (hc : cond w (.call 0 (.accept source now))) (hnow : strict → 1 ≤ now)
    (henc : (Json.int now).encodable = true) {a : Admitted}
    (ha : acceptArgs H none source now = .ok a) (hi : a.id ∉ (replay w.log).ids)
    (hk : (a.entry now).key ∉ (replay w.log).keys)
    (hev : ∀ p : Inbox, p.cache = Cache.of (replay w.log) → p.maxEntries = n → p.evictee = .ok ev) :
    ∃ w', SoloInbox H strict cond n w' ∧
      w'.log = w.log ++ (ev.toList.map (fun p => .evicted p.1 p.2) ++ [.accepted a now]) := by
  refine h.call (c := .accept source now) (b := Inbox.acceptBody a now) hw hc ?_ (fun p hp => ?_) (fun p hholds hp => ?_)
  · intro hs i c heq p _
    cases heq
    exact fun _ _ => hnow hs
  · have hau : p.authorize = none := congrArg Prod.snd hp
    simp only [Inbox.body, hau, ha]
  · exact acceptBody_isOk (acceptArgs_ok hw ha) hnow henc hholds hi hk
      (hev p hholds.cache (congrArg Prod.fst hp))

/-- **A message is processed.** -/
theorem mark (h : SoloInbox H strict cond n w) {e : Entry} (he : e ∈ replay w.log)
    (hp : e.pending ≠ none) (hc : cond w (.call 0 (.markProcessed e.messageId))) :
    ∃ w', SoloInbox H strict cond n w' ∧ w'.log = w.log ++ [.processed e.messageId] := by
  refine h.call (b := Inbox.markBody e.messageId) rfl hc ?_ (fun p _ => ?_) (fun p hholds _ => ?_)
  · intro hs i c heq p _
    cases heq
    trivial
  · simp only [Inbox.body, (h.inv.folds.sound e he).isDigest, if_true]
  · exact markBody_isOk hholds he hp

end SoloInbox

/-! ## Sample messages -/

/-- The sample with another nonce. -/
def otherEnvelope : TransportEnvelope :=
  { sampleEnvelope with
    messageId := .str "sha256:000000000000000000000000000000000000000000000000235580d746a94862"
    nonce := .str "bcdefghijklmnopq"
    signature := .str
      "AQEBAQEBAQEBAQEBAQEBAQEBAQEBAQEBAQEBAQEBAQEBAQEBAQEBAQEBAQEBAQEBAQEBAQEBAQEBAQEBAQEBdQ" }

/-- The checks of the other sample. -/
def otherEnvelopeChecks : PLift (
    (validateEnvelope checksumHost otherEnvelope none true).toOption.isSome = true) :=
  ⟨by decide +kernel⟩

theorem validate_otherEnvelope : validateEnvelope checksumHost otherEnvelope none true = .ok () :=
  eq_ok_of_isSome otherEnvelopeChecks.down

/-- An envelope that is valid without a signature where it is valid with one. -/
theorem validateEnvelope_unsigned {e : TransportEnvelope} {now : Option ℤ}
    (h : validateEnvelope H e now true = .ok ()) : validateEnvelope H e now false = .ok () := by
  simp only [validateEnvelope, bind_eq_ok, require_eq_ok, expect_eq_ok] at h ⊢
  obtain ⟨_, h₁, p, h₂, _, h₃, _, h₄, _, h₅, i, h₆, _, h₇, w, h₈, _, h₉, -⟩ := h
  exact ⟨(), h₁, p, h₂, (), h₃, (), h₄, (), h₅, i, h₆, (), h₇, w, h₈, (), h₉, rfl⟩

/-- **A valid envelope is admitted** while it is fresh. -/
theorem acceptArgs_of_valid {e : TransportEnvelope} {now : ℤ}
    (h : validateEnvelope H e (some now) true = .ok ()) {id sender nonce : String}
    (hid : e.messageId = .str id) (hs : e.senderDid = .str sender) (hn : e.nonce = .str nonce) :
    ∃ a, acceptArgs H none (.envelope e) now = .ok a ∧ a.envelope = e ∧ a.id = id ∧
      (a.sender, a.nonce) = (sender, nonce) := by
  obtain ⟨_, _, _, hf⟩ := validateEnvelope_facts h
  obtain ⟨b, hb⟩ := hf.wire
  obtain ⟨text, ht⟩ : ∃ text, canonicalText e.toDict = some text := by
    rw [canonicalText, if_pos (canonicalJson_eq_some hb).1]
    exact ⟨_, rfl⟩
  refine ⟨{ id := id, sender := sender, nonce := nonce, json := text, sha256 := digest H b,
            envelope := e }, ?_, rfl, rfl, rfl⟩
  simp only [acceptArgs, InboxSource.parse, bind_eq_ok, mapError_eq_ok, expect_eq_ok, pure_eq_ok]
  exact ⟨e, rfl, (), validateEnvelope_unsigned h, (), h, _, by rw [envelopeDigest, hb]; rfl, (), rfl,
    text, ht, id, by rw [hid]; rfl, sender, by rw [hs]; rfl, nonce, by rw [hn]; rfl, rfl⟩

end Delivery

end NthDao
