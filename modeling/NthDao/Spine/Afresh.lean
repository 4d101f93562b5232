/-
  The operations of a log without caches, and the operations with caches that
  agree with them.

  * `readAfresh`, `Query.afresh`, `SpineCall.afresh`: recovery, verification of the
    current bytes from the genesis, and answers computed from the events alone;
  * `NoCollision`: SHA-256 tells the contents of a run apart;
  * `openRead_eq`, `Query.run_eq`, `SpineCall.run_eq`: caches that are right do not
    show, and stay right.
-/
import NthDao.Spine.Instance

namespace NthDao

open Py

variable (H : Host)

/-! ## Without caches -/

/-- The recovery: its result and the files. -/
def recoverAfresh (did : String) (d : Disk) : Except String Unit × Disk :=
  match recoverPlan H did d with
  | .error r => (.error r, d)
  | .ok none => (.ok (), d)
  | .ok (some (event, d)) =>
    match verifiedEvents H none d.main with
    | .error r => (.error ("recovered spine append is corrupt: " ++ r), d)
    | .ok events =>
      if (events[event.seq]?.map (SpineEvent.eqv event)).getD false then
        (.ok (), { d with pending := none })
      else (.error "recovered spine append does not match signed intent", d)

/-- The recovery and a verification from the genesis. -/
def readAfresh (path what : String) (did : String) (d : Disk) :
    Except String (List SpineEvent) × Disk :=
  let r := recoverAfresh H did d
  (r.1.bind fun _ => (verifiedEvents H none r.2.main).mapError (corruptText path what), r.2)

/-- The events of a type with a value. -/
def withValue (events : List SpineEvent) (eventType field value : String) : List SpineEvent :=
  events.filter fun e => e.type == eventType && uniqueValue e.payload field == some value

/-- The answer from the events. -/
def Query.answerAfresh (events : List SpineEvent) : Query → Except String Answer
  | .verifiedSnapshot => .ok (.events (events.map snapshotEvent))
  | .reconcileAppend id | .getVerifiedEvent id =>
    .ok (.event ((findId events id).map snapshotEvent))
  | .findUniqueEvent eventType field value =>
    match withValue events eventType field value with
    | [] => .ok (.event none)
    | [e] => .ok (.event (some (snapshotEvent e)))
    | _ => .error "spine contains duplicate semantic event keys"

/-- A reading operation. -/
def Query.afresh (path did : String) (q : Query) (d : Disk) : Except String Answer × Disk :=
  match q.check with
  | .error e => (.error e, d)
  | .ok () =>
    let r := readAfresh H path q.what did d
    (r.1.bind q.answerAfresh, r.2)

/-- The semantic index of the events. -/
def SpineCall.ownersAfresh (events : List SpineEvent) : SpineCall → SemanticIndex
  | .append .. => []
  | .appendUniqueMany eventType _ fields _ _ => indexEvents eventType fields [] events

/-- An appending operation whose durable steps are cut after `n` of them. -/
def SpineCall.afresh (path : String) (identity : H.SecretKey) (call : SpineCall) (fate : ℕ → Fate) (n : ℕ)
    (d : Disk) : Except String (List (SpineEvent × Bool)) × Disk :=
  match call.snapshots with
  | .error e => (.error e, d)
  | .ok ([], _) => (.ok [], d)
  | .ok (snapshots, used) =>
    let r := readAfresh H path "be appended" (asDid H identity) d
    match r.1 with
    | .error e => (.error e, r.2)
    | .ok events =>
      match call.plan H identity events (call.ownersAfresh events) r.2.bytes.length snapshots
        used with
      | .error e => (.error e, r.2)
      | .ok (prepared, views) =>
        match Durable.run (appendSteps H fate prepared) n r.2 with
        | (d', .done) => (.ok views, d')
        | (d', _) => (.error "spine append outcome is unknown", d')

variable {H}

/-- It is the recovery that keeps no files on failure. -/
theorem recover_eq_recoverAfresh (did : String) (d : Disk) :
    recover H did d = (recoverAfresh H did d).1.map fun _ => (recoverAfresh H did d).2 := by
  have hbind : recover H did d = recoverPlan H did d >>= fun
      | none => .ok d
      | some (event, d) => do
        let events ← (verifiedEvents H none d.main).mapError
          ("recovered spine append is corrupt: " ++ ·)
        require ((events[event.seq]?.map (SpineEvent.eqv event)).getD false)
          "recovered spine append does not match signed intent"
        return { d with pending := none } := by
    unfold recover recoverPlan
    rw [bind_assoc]
    congr 1
    funext o
    cases o with
    | none => rfl
    | some p => simp only [bind_assoc, pure_bind]
  rw [hbind, recoverAfresh]
  cases recoverPlan H did d with
  | error r => rfl
  | ok o =>
    cases o with
    | none => rfl
    | some p =>
      obtain ⟨event, d⟩ := p
      simp only [ok_bind]
      cases verifiedEvents H none d.main with
      | error r => rfl
      | ok events =>
        simp only [Except.mapError, ok_bind, require]
        split_ifs <;> rfl

/-! ## Reading -/

section Read

variable {past : List (Option Bytes)} {c : VerifiedCache} {did : String} {d : Disk}

theorem main_recoverAfresh {event : SpineEvent} {d' : Disk}
    (h : recoverPlan H did d = .ok (some (event, d'))) :
    (recoverAfresh H did d).2.main = d'.main := by
  simp only [recoverAfresh, h]
  cases verifiedEvents H none d'.main with
  | error r => rfl
  | ok events =>
    simp only
    split_ifs <;> rfl

theorem main_recoverCached (did : String) (c : VerifiedCache) (s : Stat) (d : Disk) :
    (recoverCached H did c s d).disk.main = (recoverAfresh H did d).2.main := by
  cases hp : recoverPlan H did d with
  | error r => simp [recoverCached, recoverAfresh, hp]
  | ok o =>
    cases o with
    | none => simp [recoverCached, recoverAfresh, hp]
    | some p =>
      obtain ⟨event, d'⟩ := p
      simp only [main_recoverAfresh hp, recoverCached, hp]
      split
      · rfl
      · split_ifs <;> rfl

theorem main_openRead (path what did : String) (c : VerifiedCache) (s : Stat) (d : Disk) :
    (openRead H path what did c s d).disk.main = (recoverAfresh H did d).2.main := by
  rw [← main_recoverCached did c s, openRead]
  cases (recoverCached H did c s d).result <;> rfl

/-- The recovery does not show its caches, and keeps them right. -/
theorem recoverCached_eq (hsep : Separate H past) (hc : CacheOk H past c)
    (hm : (recoverAfresh H did d).2.main ∈ past) (s : Stat) :
    (recoverCached H did c s d).result = (recoverAfresh H did d).1 ∧
      (recoverCached H did c s d).disk = (recoverAfresh H did d).2 ∧
      CacheOk H past (recoverCached H did c s d).cache := by
  cases hp : recoverPlan H did d with
  | error r => simp [recoverCached, recoverAfresh, hp, hc]
  | ok o =>
    cases o with
    | none => simp [recoverCached, recoverAfresh, hp, hc]
    | some p =>
      obtain ⟨event, d'⟩ := p
      rw [main_recoverAfresh hp] at hm
      obtain ⟨hres, hok, -⟩ := verifiedEventsCached_spec hsep hc.forget hm s
      simp only [recoverCached, recoverAfresh, hp]
      generalize verifiedEventsCached H { c with token := none } s d'.main = v at hres hok
      obtain ⟨v, c'⟩ := v
      obtain rfl : v = verifiedEvents H none d'.main := hres
      cases verifiedEvents H none d'.main with
      | error r => exact ⟨rfl, rfl, hok⟩
      | ok events =>
        simp only
        split_ifs <;> exact ⟨rfl, rfl, hok⟩

/-- **The start of every operation** returns what a verification from the genesis
    returns, and raises where it raises. -/
theorem openRead_eq (hsep : Separate H past) (hc : CacheOk H past c)
    (hm : (recoverAfresh H did d).2.main ∈ past) (s : Stat) (path what : String) :
    (openRead H path what did c s d).result = (readAfresh H path what did d).1 ∧
      (openRead H path what did c s d).disk = (readAfresh H path what did d).2 ∧
      CacheOk H past (openRead H path what did c s d).cache ∧
      ∀ events, (readAfresh H path what did d).1 = .ok events →
        Loaded H past s (readAfresh H path what did d).2.main events
          (openRead H path what did c s d).cache := by
  obtain ⟨hres, hdisk, hok⟩ := recoverCached_eq hsep hc hm s
  simp only [openRead, readAfresh, hres, hdisk]
  cases (recoverAfresh H did d).1 with
  | error r => exact ⟨rfl, rfl, hok, fun events he => by cases he⟩
  | ok u =>
    obtain ⟨hv, hkept, hload⟩ := verifiedEventsCached_spec hsep hok hm s
    refine ⟨by rw [hv]; rfl, rfl, hkept, fun events he => hload events ?_⟩
    exact mapError_eq_ok.1 he

end Read

/-! ## Verified logs -/

/-- Every event has its place as its number. -/
def Numbered (events : List SpineEvent) : Prop :=
  ∀ (i : ℕ) e, events[i]? = some e → e.seq = i

theorem Numbered.snoc {events : List SpineEvent} (h : Numbered events) {e : SpineEvent}
    (he : e.seq = events.length) : Numbered (events ++ [e]) := by
  intro i x hx
  rcases Nat.lt_trichotomy i events.length with hi | rfl | hi
  · rw [List.getElem?_append_left hi] at hx
    exact h i x hx
  · rw [List.getElem?_concat_length] at hx
    rw [← Option.some_inj.1 hx, he]
  · rw [List.getElem?_eq_none (by rw [List.length_append, List.length_singleton]; omega)] at hx
    cases hx

theorem numbered_scanFrom {xs : List Bytes} {n c : ℕ} {events events' : List SpineEvent}
    (h : scanFrom H none n c events xs = .ok events') (he : Numbered events) :
    Numbered events' := by
  induction xs generalizing n c events with
  | nil =>
    simp only [scanFrom, Option.all_none, require, if_true, ok_bind, pure_eq_ok] at h
    exact h ▸ he
  | cons raw xs ih =>
    obtain ⟨-, next, hl, h⟩ := scanFrom_cons_eq_ok.1 h
    refine ih h ?_
    obtain ⟨-, rfl | ⟨e, rfl, hseq⟩⟩ := scanLine_eq_ok hl
    · exact he
    · exact he.snoc hseq

theorem numbered_of_verifiedEvents {main : Option Bytes} {events : List SpineEvent}
    (h : verifiedEvents H none main = .ok events) : Numbered events :=
  numbered_scanFrom (verifiedEvents_none.1 h) (by intro i e he; cases he)

/-- The id of a verified event is the digest of its core. -/
theorem Verified.contentHash {e : SpineEvent} (h : Verified H e) :
    ∃ b, canonicalJson (.obj e.core) = some b ∧ H.sha256 b = e.contentHash := by
  have hv := h.verifies
  simp only [verifyEvent, bind_eq_ok, mapError_eq_ok, SpineEvent.fromDict_toDict, expect_eq_ok,
    require_eq_ok, beq_iff_eq] at hv
  obtain ⟨_, ⟨rfl, -⟩, hash, hh, _, rfl, -⟩ := hv
  exact Option.map_eq_some_iff.1 hh

theorem wf_core {e : SpineEvent} (h : (Json.obj e.payload).wf = true) :
    (Json.obj e.core).wf = true := by
  rw [Json.wf_obj]
  refine ⟨by simp [SpineEvent.core], fun p hp => ?_⟩
  simp only [SpineEvent.core, List.mem_cons, List.not_mem_nil, or_false] at hp
  rcases hp with rfl | rfl | rfl | rfl | rfl | rfl
  iterate 3 rfl
  · exact h
  all_goals rfl

/-- What is hashed in the life of a log: the contents of the file, and the cores
    of their events. -/
def hashed (H : Host) (past : List (Option Bytes)) : List Bytes :=
  past.flatMap fun m => m.getD [] :: match verifiedEvents H none m with
    | .ok events => events.filterMap fun e => canonicalJson (.obj e.core)
    | .error _ => []

/-- SHA-256 tells apart what is hashed. -/
def NoCollision (H : Host) (past : List (Option Bytes)) : Prop :=
  ∀ b ∈ hashed H past, ∀ b' ∈ hashed H past, H.sha256 b = H.sha256 b' → b = b'

instance (past : List (Option Bytes)) : Decidable (NoCollision H past) :=
  inferInstanceAs (Decidable (∀ b ∈ hashed H past, ∀ b' ∈ hashed H past, _))

theorem mem_hashed_file {past : List (Option Bytes)} {m : Option Bytes} (hm : m ∈ past) :
    m.getD [] ∈ hashed H past :=
  List.mem_flatMap.2 ⟨m, hm, List.mem_cons_self⟩

theorem mem_hashed_core {past : List (Option Bytes)} {m : Option Bytes} (hm : m ∈ past)
    {events : List SpineEvent} (hv : verifiedEvents H none m = .ok events) {e : SpineEvent}
    (he : e ∈ events) {b : Bytes} (hb : canonicalJson (.obj e.core) = some b) :
    b ∈ hashed H past := by
  refine List.mem_flatMap.2 ⟨m, hm, List.mem_cons_of_mem _ ?_⟩
  rw [hv]
  exact List.mem_filterMap.2 ⟨e, he, hb⟩

theorem NoCollision.mono {past past' : List (Option Bytes)} (hp : ∀ m ∈ past, m ∈ past')
    (h : NoCollision H past') : NoCollision H past := by
  have hsub : ∀ b ∈ hashed H past, b ∈ hashed H past' := by
    intro b hb
    obtain ⟨m, hm, hb⟩ := List.mem_flatMap.1 hb
    exact List.mem_flatMap.2 ⟨m, hp m hm, hb⟩
  exact fun b hb b' hb' => h b (hsub b hb) b' (hsub b' hb')

section NoCollision

variable {past : List (Option Bytes)} (hn : NoCollision H past)
include hn

/-- Events with one id have the same core, up to the order of keys. -/
theorem NoCollision.core {m m' : Option Bytes} (hm : m ∈ past) (hm' : m' ∈ past)
    {es es' : List SpineEvent} (hv : verifiedEvents H none m = .ok es)
    (hv' : verifiedEvents H none m' = .ok es') {e e' : SpineEvent} (he : e ∈ es) (he' : e' ∈ es')
    (hid : e.contentHash = e'.contentHash) :
    e.seq = e'.seq ∧ (Json.obj e.payload).norm = (Json.obj e'.payload).norm := by
  obtain ⟨b, hb, hash⟩ := (verified_of_verifiedEvents hv e he).contentHash
  obtain ⟨b', hb', hash'⟩ := (verified_of_verifiedEvents hv' e' he').contentHash
  obtain rfl : b = b' := hn b (mem_hashed_core hm hv he hb) b' (mem_hashed_core hm' hv' he' hb')
    (by rw [hash, hash', hid])
  have hnorm := canonicalJson_injective (wf_core (verified_of_verifiedEvents hv e he).wf)
    (wf_core (verified_of_verifiedEvents hv' e' he').wf) hb hb'
  have hget : ∀ k, (Json.get e.core k).norm = (Json.get e'.core k).norm := by
    intro k
    rw [← Json.get_norm (by simp [SpineEvent.core]), hnorm, Json.get_norm (by simp [SpineEvent.core])]
  have hseq : Json.int e.seq = .int e'.seq := hget "seq"
  exact ⟨by simpa using hseq, hget "payload"⟩

/-- Ids are unique within a content. -/
theorem NoCollision.ids {m : Option Bytes} (hm : m ∈ past) {es : List SpineEvent}
    (hv : verifiedEvents H none m = .ok es) {e e' : SpineEvent} (he : e ∈ es) (he' : e' ∈ es)
    (hid : e.contentHash = e'.contentHash) : e = e' := by
  obtain ⟨i, hi⟩ := List.mem_iff_getElem?.1 he
  obtain ⟨i', hi'⟩ := List.mem_iff_getElem?.1 he'
  have hnum := numbered_of_verifiedEvents hv
  have hseq := (hn.core hm hm hv hv he he' hid).1
  rw [hnum i e hi, hnum i' e' hi'] at hseq
  rw [hseq] at hi
  exact Option.some_inj.1 (hi.symm.trans hi')

/-- **Tokens and ids tell the contents apart.** -/
theorem NoCollision.separate : Separate H past := by
  refine ⟨fun m hm m' hm' s s' htok => ?_, fun m hm m' hm' es es' hv hv' i e e' he he' heq => ?_⟩
  · have hsize : (m.getD []).length = (m'.getD []).length := by
      have := congrArg StorageToken.size htok
      cases m <;> cases m' <;> exact this
    cases m with
    | none =>
      rw [Option.getD_none, List.length_nil, eq_comm, List.length_eq_zero_iff] at hsize
      rw [hsize, Option.getD_none]
    | some b =>
      cases m' with
      | none =>
        rw [Option.getD_none, List.length_nil, List.length_eq_zero_iff] at hsize
        rw [hsize, Option.getD_none]
      | some b' =>
        exact hn b (mem_hashed_file hm) b' (mem_hashed_file hm') (congrArg StorageToken.digest htok)
  · rw [SpineEvent.eqv, Bool.and_eq_true, beq_iff_eq, SpineEvent.mk.injEq] at heq
    obtain ⟨-, hseq, hprev, htype, -, hdid, hts, hid, hsig⟩ := heq
    have hpay := (hn.core hm hm' hv hv' (List.mem_of_getElem? he) (List.mem_of_getElem? he') hid).2
    rw [snapshotEvent, snapshotEvent, hseq, hprev, htype, hdid, hts, hid, hsig, hpay]

end NoCollision

/-! ## Indexes -/

/-- The members of an entry after the values of some fields got one more owner. -/
theorem members_foldl_addTo (value : String → Option String) (fields : List String)
    (owners : SemanticIndex) (o : Owner) (f v : String) :
    (fields.foldl (fun owners field =>
        match value field with
        | some w => owners.addTo (field, w) o
        | none => owners) owners).members (f, v) =
      if f ∈ fields ∧ value f = some v ∧ o ∉ owners.members (f, v) then owners.members (f, v) ++ [o]
      else owners.members (f, v) := by
  induction fields generalizing owners with
  | nil => simp
  | cons field fields ih =>
    rw [List.foldl_cons, ih]
    cases hv : value field with
    | none =>
      have : value f = some v → f ≠ field := by
        rintro h rfl
        rw [hv] at h
        cases h
      by_cases hf : value f = some v
      · simp [hf, this hf]
      · simp [hf]
    | some w =>
      by_cases hk : (f, v) = (field, w)
      · obtain ⟨rfl, rfl⟩ := Prod.mk.inj hk
        have hmem : o ∈ (owners.addTo (f, v) o).members (f, v) :=
          Dict.mem_members_addTo.2 (.inr ⟨rfl, rfl⟩)
        simp only
        rw [if_neg fun h => h.2.2 hmem, Dict.members_addTo, if_pos rfl]
        by_cases ho : o ∈ owners.members (f, v)
        · rw [if_pos ho, if_neg fun h => h.2.2 ho]
        · rw [if_neg ho, if_pos ⟨List.mem_cons_self, hv, ho⟩]
      · have hfw : f = field → value f ≠ some v := by
          rintro rfl hfv
          rw [hv] at hfv
          exact hk (by rw [Option.some_inj.1 hfv])
        have hsame : (owners.addTo (field, w) o).members (f, v) = owners.members (f, v) := by
          rw [Dict.members_addTo, if_neg hk]
        by_cases hfield : f = field
        · simp [hsame, hfw hfield]
        · simp [hsame, hfield]

theorem mem_members_foldl_addTo (value : String → Option String) {fields : List String}
    (owners : SemanticIndex) (o : Owner) {f : String} (hf : f ∈ fields) (v : String) {b : Owner} :
    b ∈ (fields.foldl (fun owners field =>
        match value field with
        | some w => owners.addTo (field, w) o
        | none => owners) owners).members (f, v) ↔
      b ∈ owners.members (f, v) ∨ (b = o ∧ value f = some v) := by
  rw [members_foldl_addTo]
  by_cases hv : value f = some v
  · by_cases ho : o ∈ owners.members (f, v)
    · rw [if_neg fun h => h.2.2 ho]
      constructor
      · exact .inl
      · rintro (hb | ⟨rfl, -⟩)
        · exact hb
        · exact ho
    · rw [if_pos ⟨hf, hv, ho⟩]
      simp [hv]
  · simp [hv]

/-- The owners of a value are the events that have it. -/
theorem members_indexEvents (eventType : String) {fields : List String} {f : String}
    (hf : f ∈ fields) (v : String) {events : List SpineEvent} (h : Numbered events) :
    (indexEvents eventType fields [] events).members (f, v) =
      (withValue events eventType f v).map fun e => .existing e.seq := by
  induction events using List.reverseRecOn with
  | nil => rfl
  | append_singleton es e ih =>
    have hes : Numbered es := by
      intro i x hx
      refine h i x ?_
      rw [List.getElem?_append_left (List.getElem?_eq_some_iff.1 hx).1, hx]
    have hseq : e.seq = es.length := h es.length e List.getElem?_concat_length
    have hfresh : ∀ x ∈ es, x.seq ≠ e.seq := by
      intro x hx
      obtain ⟨i, hi⟩ := List.mem_iff_getElem?.1 hx
      rw [hes i x hi, hseq]
      exact (List.getElem?_eq_some_iff.1 hi).1.ne
    rw [indexEvents_append, indexEvents, List.foldl_cons, List.foldl_nil, indexEvent]
    by_cases htype : e.type = eventType
    · have hnew : Owner.existing e.seq ∉ (indexEvents eventType fields [] es).members (f, v) := by
        rw [ih hes, List.mem_map]
        rintro ⟨x, hx, hxe⟩
        exact hfresh x (List.mem_of_mem_filter hx) (Owner.existing.inj hxe)
      rw [if_pos htype]
      refine (members_foldl_addTo (uniqueValue e.payload) fields _ _ f v).trans ?_
      by_cases hval : uniqueValue e.payload f = some v
      · rw [if_pos ⟨hf, hval, hnew⟩, ih hes, withValue, withValue, List.filter_append]
        simp [htype, hval]
      · rw [if_neg fun h => hval h.2.1, ih hes, withValue, withValue, List.filter_append]
        simp [hval]
    · rw [if_neg htype, ih hes, withValue, withValue, List.filter_append]
      simp [htype]

/-! ## Queries -/

theorem find?_reverse_of_unique {α : Type} {p : α → Bool} {l : List α}
    (h : ∀ a ∈ l, ∀ b ∈ l, p a = true → p b = true → a = b) : l.reverse.find? p = l.find? p := by
  cases hl : l.find? p with
  | none =>
    rw [List.find?_eq_none] at hl ⊢
    intro a ha
    exact hl a (List.mem_reverse.1 ha)
  | some a =>
    have hmem := List.mem_of_find?_eq_some hl
    have hpa := List.find?_some hl
    cases hr : l.reverse.find? p with
    | none =>
      rw [List.find?_eq_none] at hr
      exact absurd hpa (hr a (List.mem_reverse.2 hmem))
    | some b =>
      rw [h b (List.mem_reverse.1 (List.mem_of_find?_eq_some hr)) a hmem (List.find?_some hr) hpa]

section Query

variable {past : List (Option Bytes)} {c : VerifiedCache} {s : Stat} {main : Option Bytes}
  {events : List SpineEvent}

/-- The index by id finds the first event with the id, or there are no caches. -/
theorem Loaded.byId_get (h : Loaded H past s main events c) (hn : NoCollision H past)
    (hm : main ∈ past) (id : String) : (c.token = none ∧ c.byId.get id = none) ∨
      (c.byId.get id).map snapshotEvent = (findId events id).map snapshotEvent := by
  have hheld := h.held
  split_ifs at hheld
  · rw [hheld]
    exact .inl ⟨rfl, rfl⟩
  · refine .inr ?_
    rw [h.ok.byId id, hheld.1, get_indexIds, find?_reverse_of_unique]
    · simp [findId, Dict.get]
    · intro a ha b hb hpa hpb
      exact hn.ids hm h.verified ha hb (by rw [beq_iff_eq.1 hpa, beq_iff_eq.1 hpb])

/-- The owner of a value leads to its event. -/
theorem ownedEvent_members (hnum : Numbered events) (eventType field value : String) :
    (ownedEvent events ((indexEvents eventType [field] [] events).members (field, value))).map
      Answer.event = (Query.findUniqueEvent eventType field value).answerAfresh events := by
  rw [members_indexEvents eventType (List.mem_singleton.2 rfl) value hnum, Query.answerAfresh]
  have hsub : ∀ e ∈ withValue events eventType field value, events[e.seq]? = some e := by
    intro e he
    obtain ⟨i, hi⟩ := List.mem_iff_getElem?.1 (List.mem_of_mem_filter he)
    rw [hnum i e hi, hi]
  cases hw : withValue events eventType field value with
  | nil => rfl
  | cons e es =>
    cases es with
    | nil =>
      have he := hsub e (by rw [hw]; exact List.mem_singleton.2 rfl)
      simp only [List.map_cons, List.map_nil, ownedEvent, he]
      rfl
    | cons e' es => rfl

/-- An answer keeps the caches right. -/
theorem Query.cacheOk_answer (h : Loaded H past s main events c) (q : Query) :
    CacheOk H past (q.answer events c).2 := by
  cases q with
  | verifiedSnapshot => exact h.ok
  | reconcileAppend id =>
    simp only [Query.answer]
    split
    · exact h.ok
    · split_ifs <;> exact h.ok
  | getVerifiedEvent id =>
    simp only [Query.answer]
    split <;> exact h.ok
  | findUniqueEvent eventType field value => exact h.cacheOk_semanticIndex eventType [field]

/-- The answer does not show the caches. -/
theorem Query.answer_eq (h : Loaded H past s main events c) (hn : NoCollision H past)
    (hm : main ∈ past) (q : Query) : (q.answer events c).1 = q.answerAfresh events := by
  cases q with
  | verifiedSnapshot => rfl
  | reconcileAppend id =>
    simp only [Query.answer, Query.answerAfresh]
    rcases h.byId_get hn hm id with ⟨htok, hid⟩ | hid
    · simp [htok, hid]
    · cases hget : c.byId.get id with
      | some e => simp [← hid, hget]
      | none =>
        rw [hget] at hid
        simp only [← hid]
        split_ifs <;> rfl
  | getVerifiedEvent id =>
    simp only [Query.answer, Query.answerAfresh]
    rcases h.byId_get hn hm id with ⟨-, hid⟩ | hid
    · simp [hid]
    · cases hget : c.byId.get id with
      | some e => simp [← hid, hget]
      | none => rfl
  | findUniqueEvent eventType field value =>
    simp only [Query.answer]
    rw [h.semanticIndex_eq, ownedEvent_members (numbered_of_verifiedEvents h.verified)]

theorem Query.main_run (path did : String) (q : Query) (c : VerifiedCache) (s : Stat) (d : Disk) :
    (q.run H path did c s d).disk.main =
      if q.check.isOk then (recoverAfresh H did d).2.main else d.main := by
  unfold Query.run
  cases q.check with
  | error e => rfl
  | ok u =>
    rw [← main_openRead path q.what did c s d]
    simp only
    split <;> rfl

/-- **A reading operation** leaves the files that it leaves without caches, and
    returns what it returns without them. -/
theorem Query.run_eq (hsep : Separate H past) (hc : CacheOk H past c) {did : String} {d : Disk}
    {path : String} {q : Query} {s : Stat} (hm : (q.run H path did c s d).disk.main ∈ past) :
    (NoCollision H past → (q.run H path did c s d).result = (q.afresh H path did d).1) ∧
      (q.run H path did c s d).disk = (q.afresh H path did d).2 ∧
      CacheOk H past (q.run H path did c s d).cache := by
  rw [Query.main_run] at hm
  unfold Query.run Query.afresh
  cases hq : q.check with
  | error e => exact ⟨fun _ => rfl, rfl, hc⟩
  | ok u =>
    rw [hq] at hm
    obtain ⟨hres, hdisk, hok, hload⟩ := openRead_eq hsep hc hm s path q.what
    simp only [hres, hdisk]
    cases hr : (readAfresh H path q.what did d).1 with
    | error e => exact ⟨fun _ => rfl, rfl, hok⟩
    | ok events =>
      exact ⟨fun hn => Query.answer_eq (hload events hr) hn hm q, rfl,
        Query.cacheOk_answer (hload events hr) q⟩

end Query

/-! ## Appends -/

section Append

variable {identity : H.SecretKey}

/-- A payload as it will be stored. -/
def Snapshot (s : Fields) : Prop := ∃ payload : Dict, snapshotPayload payload.1 = .ok s

theorem snapshot_of_snapshotBatch {payloads : List Dict} {used : ℕ} {snapshots : List Fields}
    {total : ℕ} (h : snapshotBatch used payloads = .ok (snapshots, total)) :
    ∀ s ∈ snapshots, Snapshot s := by
  induction payloads generalizing used snapshots total with
  | nil =>
    cases h
    simp
  | cons payload rest ih =>
    simp only [snapshotBatch, bind_eq_ok, pure_eq_ok, Prod.exists, Prod.mk.injEq] at h
    obtain ⟨_, -, _, -, s, hs, ss, _, hss, rfl, -⟩ := h
    rw [List.forall_mem_cons]
    exact ⟨⟨payload, hs⟩, ih hss⟩

theorem SpineCall.snapshot_of_snapshots {call : SpineCall} {snapshots : List Fields} {used : ℕ}
    (h : call.snapshots = .ok (snapshots, used)) : ∀ s ∈ snapshots, Snapshot s := by
  cases call with
  | append eventType payload tsMs =>
    simp only [SpineCall.snapshots, bind_eq_ok, pure_eq_ok, Prod.mk.injEq] at h
    obtain ⟨s, hs, rfl, -⟩ := h
    intro x hx
    rw [List.mem_singleton.1 hx]
    exact ⟨payload, hs⟩
  | appendUniqueMany eventType payloads fields tsMs validate =>
    simp only [SpineCall.snapshots, bind_eq_ok, require_eq_ok, pure_eq_ok, Prod.exists,
      Prod.mk.injEq] at h
    obtain ⟨_, -, _, -, ss, _, hss, _, -, rfl, -⟩ := h
    exact snapshot_of_snapshotBatch hss

/-- One turn of the plan: a new payload, or one with an owner. -/
theorem Plan.next_eq_ok {events : List SpineEvent} {fields : List String}
    {validate : SpineEvent → Except String Unit} {plan plan' : Plan} {payload : Fields}
    (h : plan.next events fields validate payload = .ok plan') :
    (plan.matched fields payload = [] ∧ plan' = plan.add fields payload) ∨
      ∃ owner stored, plan.matched fields payload = [owner] ∧
        plan.ownerPayload events validate owner = .ok stored ∧
        canonicalJson (.obj stored) = canonicalJson (.obj payload) ∧
        plan' = { plan with resolutions := plan.resolutions ++ [(owner, false)] } := by
  unfold Plan.next at h
  split at h
  · rename_i hm
    exact .inl ⟨hm, (Except.ok.inj h).symm⟩
  · rename_i owner hm
    simp only [bind_eq_ok, require_eq_ok, pure_eq_ok, beq_iff_eq] at h
    obtain ⟨stored, hs, _, he, rfl⟩ := h
    exact .inr ⟨owner, stored, hm, hs, he, rfl⟩
  · cases h

theorem planned_subset {events : List SpineEvent} {fields : List String}
    {validate : SpineEvent → Except String Unit} {snapshots : List Fields} {plan plan' : Plan}
    (h : snapshots.foldlM (Plan.next events fields validate) plan = .ok plan') :
    ∀ p ∈ plan'.planned, p ∈ plan.planned ∨ p ∈ snapshots := by
  induction snapshots generalizing plan with
  | nil =>
    cases h
    exact fun p hp => .inl hp
  | cons s ss ih =>
    rw [List.foldlM_cons, bind_eq_ok] at h
    obtain ⟨next, hnext, h⟩ := h
    intro p hp
    rcases ih h p hp with hp | hp
    · obtain ⟨-, rfl⟩ | ⟨_, _, -, -, -, rfl⟩ := Plan.next_eq_ok hnext
      · rcases List.mem_append.1 hp with hp | hp
        · exact .inl hp
        · exact .inr (List.mem_cons.2 (.inl (List.mem_singleton.1 hp)))
      · exact .inl hp
    · exact .inr (List.mem_cons_of_mem s hp)

theorem preparedMany_of_preparePlanned {eventType : String}
    {validate : SpineEvent → Except String Unit} {items : List (Fields × ℤ)} {used : ℕ}
    {last : Option SpineEvent} {baseSize : ℕ} {prepared : List (SpineEvent × Bytes)} {total : ℕ}
    (h : preparePlanned H identity eventType validate used last baseSize items =
      .ok (prepared, total)) (hs : ∀ p ∈ items, Snapshot p.1) :
    PreparedMany H identity last baseSize prepared := by
  induction items generalizing used last baseSize prepared total with
  | nil =>
    cases h
    exact .nil _ _
  | cons item items ih =>
    obtain ⟨payload, ts⟩ := item
    simp only [preparePlanned, bind_eq_ok, pure_eq_ok, Prod.exists, Prod.mk.injEq] at h
    obtain ⟨e, line, hp, _, -, ⟨⟩, -, rest, _, hr, rfl, -⟩ := h
    rw [List.forall_mem_cons] at hs
    obtain ⟨dict, hd⟩ := hs.1
    exact .cons (prepared_of_prepareAppend hd hp) (ih hr hs.2)

/-- The records of a plan are prepared for the log that it was made from. -/
theorem SpineCall.preparedMany_of_plan {call : SpineCall} {events : List SpineEvent} {owners : SemanticIndex}
    {baseSize : ℕ} {snapshots : List Fields} {used : ℕ} {prepared : List (SpineEvent × Bytes)}
    {views : List (SpineEvent × Bool)} (hs : ∀ s ∈ snapshots, Snapshot s)
    (h : call.plan H identity events owners baseSize snapshots used = .ok (prepared, views)) :
    PreparedMany H identity events.getLast? baseSize prepared := by
  cases call with
  | append eventType payload tsMs =>
    simp only [SpineCall.plan, bind_eq_ok, expect_eq_ok, pure_eq_ok, Prod.exists, Prod.mk.injEq] at h
    obtain ⟨s, hhead, e, line, hp, rfl, -⟩ := h
    obtain ⟨dict, hd⟩ := hs s (List.mem_of_head? hhead)
    exact .cons (prepared_of_prepareAppend hd hp) (.nil _ _)
  | appendUniqueMany eventType payloads fields tsMs validate =>
    simp only [SpineCall.plan, bind_eq_ok, pure_eq_ok, Prod.exists, Prod.mk.injEq] at h
    obtain ⟨plan, hplan, prep, _, hprep, _, -, rfl, -⟩ := h
    refine preparedMany_of_preparePlanned hprep fun p hp => ?_
    obtain ⟨i, hi, rfl⟩ := List.mem_mapIdx.1 hp
    rcases planned_subset hplan _ (List.getElem_mem hi) with hp | hp
    · cases hp
    · exact hs _ hp

/-- A batch that is written to its end is in the file. -/
theorem bytes_of_done {fate : ℕ → Fate} {prepared : List (SpineEvent × Bytes)} {n : ℕ} {d d' : Disk}
    (h : Durable.run (appendSteps H fate prepared) n d = (d', .done)) :
    d'.bytes = d.bytes ++ recordBytes prepared := by
  have hexec := Durable.exec_of_run h
  clear h
  induction prepared generalizing d with
  | nil =>
    cases hexec
    simp [recordBytes]
  | cons p rest ih =>
    obtain ⟨e, line⟩ := p
    simp only [appendSteps, appendPrepared, List.cons_append, List.nil_append, Durable.exec,
      bind_eq_ok] at hexec
    obtain ⟨d₁, h₁, d₂, h₂, d₃, h₃, d₄, h₄, hrest⟩ := hexec
    have hd₁ : d₁.bytes = d.bytes := by
      simp only [writeAppendIntent, bind_eq_ok, pure_eq_ok] at h₁
      obtain ⟨_, -, rfl⟩ := h₁
      rfl
    have hd₄ : d₄.bytes = d₁.bytes ++ (line ++ [newline]) := by
      cases h₂
      cases h₃
      cases h₄
      split_ifs <;>
      simp [Disk.bytes, List.append_assoc, List.take_append_drop]
    rw [ih hrest, hd₄, hd₁]
    simp [recordBytes]

variable {past : List (Option Bytes)} {c : VerifiedCache}

theorem Loaded.owners_eq {s : Stat} {main : Option Bytes} {events : List SpineEvent}
    (h : Loaded H past s main events c) (call : SpineCall) :
    (call.owners c events).1 = call.ownersAfresh events ∧
      CacheOk H past (call.owners c events).2 := by
  cases call with
  | append eventType payload tsMs => exact ⟨rfl, h.ok⟩
  | appendUniqueMany eventType payloads fields tsMs validate =>
    exact ⟨h.semanticIndex_eq eventType fields, h.cacheOk_semanticIndex eventType fields⟩

/-- The content before the first durable step. -/
theorem SpineCall.main_run_zero (path : String) (call : SpineCall) (c : VerifiedCache) (s s' : Stat)
    (fate : ℕ → Fate) (d : Disk) : (call.run H path identity c s s' fate 0 d).disk.main =
      match call.snapshots with
      | .ok (_ :: _, _) => (recoverAfresh H (asDid H identity) d).2.main
      | _ => d.main := by
  unfold SpineCall.run
  cases call.snapshots with
  | error e => rfl
  | ok p =>
    obtain ⟨snapshots, used⟩ := p
    cases snapshots with
    | nil => rfl
    | cons first rest =>
      rw [← main_openRead path "be appended" _ c s d]
      simp only
      split
      · rfl
      · split
        · rfl
        · rw [Durable.run_zero]
          split <;> rename_i hrun <;> obtain ⟨rfl, -⟩ := Prod.mk.inj hrun <;> rfl

/-- **An appending operation** does what it does without caches. -/
theorem SpineCall.run_eq (hsep : Separate H past) (hc : CacheOk H past c) {call : SpineCall} {d : Disk}
    {fate : ℕ → Fate} {path : String} {s s' : Stat}
    (hm : (call.run H path identity c s s' fate 0 d).disk.main ∈ past) (n : ℕ) :
    (call.run H path identity c s s' fate n d).result = (call.afresh H path identity fate n d).1 ∧
      (call.run H path identity c s s' fate n d).disk = (call.afresh H path identity fate n d).2 ∧
      ((call.run H path identity c s s' fate n d).disk.main ∈ past →
        CacheOk H past (call.run H path identity c s s' fate n d).cache) := by
  rw [SpineCall.main_run_zero] at hm
  unfold SpineCall.run SpineCall.afresh
  cases hsnap : call.snapshots with
  | error e => exact ⟨rfl, rfl, fun _ => hc⟩
  | ok p =>
    obtain ⟨snapshots, used⟩ := p
    cases snapshots with
    | nil => exact ⟨rfl, rfl, fun _ => hc⟩
    | cons first rest =>
      rw [hsnap] at hm
      obtain ⟨hres, hdisk, hok, hload⟩ := openRead_eq hsep hc hm s path "be appended"
      simp only [hres, hdisk]
      cases hr : (readAfresh H path "be appended" (asDid H identity) d).1 with
      | error e => exact ⟨rfl, rfl, fun _ => hok⟩
      | ok events =>
        obtain ⟨hindex, hkept⟩ := (hload events hr).owners_eq call
        simp only [hindex]
        set r := (readAfresh H path "be appended" (asDid H identity) d).2
        cases hplan : call.plan H identity events (call.ownersAfresh events) r.bytes.length
          (first :: rest) used with
        | error e => exact ⟨rfl, rfl, fun _ => hkept⟩
        | ok p =>
          obtain ⟨prepared, views⟩ := p
          cases hrun : Durable.run (appendSteps H fate prepared) n r with
          | mk d' o =>
            cases o with
            | raised e => simp [hrun, cacheOk_empty past]
            | crashed => simp [hrun, cacheOk_empty past]
            | done =>
              simp only [hrun, true_and]
              intro hm'
              refine cacheOk_remember hsep hkept hm' ?_ s'
              have hver := verifiedEvents_none.1 (hload events hr).verified
              have hmany := SpineCall.preparedMany_of_plan (SpineCall.snapshot_of_snapshots hsnap) hplan
              rw [verifiedEvents_none, ← Disk.bytes, bytes_of_done hrun]
              exact (PreparedMany.verifies hver (by rwa [List.append_nil])).1

end Append

end NthDao
