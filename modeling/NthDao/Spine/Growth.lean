/-
  A log to which instances only append grows.

  * `Holds`: what a log holds, where the last append may wait for its recovery;
  * `holds_recoverAfresh`: the recovery keeps it, or refuses and changes nothing;
  * `Verifies.separate`: the contents of such a log are told apart by their sizes,
    so that its caches need nothing of SHA-256;
  * `Grown.step`: every step appends records of one plan, possibly none.
-/
import NthDao.Spine.CacheRuns

namespace NthDao

open Py Runs

variable {H : Host} {path : String}

/-! ## Prefixes -/

theorem scanFrom_starts {xs : List Bytes} {n c : ℕ} {events events' : List SpineEvent}
    (h : scanFrom H none n c events xs = .ok events') : events <+: events' := by
  induction xs generalizing n c events with
  | nil =>
    simp only [scanFrom, Option.all_none, require, if_true, ok_bind, pure_eq_ok] at h
    exact h ▸ List.prefix_rfl
  | cons raw xs ih =>
    obtain ⟨-, next, hl, hrest⟩ := scanFrom_cons_eq_ok.1 h
    obtain ⟨-, rfl | ⟨e, rfl, -⟩⟩ := scanLine_eq_ok hl
    · exact ih hrest
    · exact (List.prefix_append events [e]).trans (ih hrest)

theorem Verifies.starts {bytes bytes' : Bytes} {events events' : List SpineEvent}
    (h : Verifies H bytes events) (h' : Verifies H bytes' events') (hp : bytes <+: bytes') :
    events <+: events' := by
  obtain ⟨rest, rfl⟩ := hp
  rw [Verifies, Lines.split_append newline h.whole, scanFrom_append h] at h'
  exact scanFrom_starts h'

/-- Contents that start one sequence of bytes are told apart by their sizes. -/
theorem separate_of_starts {past : List (Option Bytes)} {bytes : Bytes}
    (hp : ∀ m ∈ past, m.getD [] <+: bytes) : Separate H past := by
  refine ⟨fun m hm m' hm' s s' htok => ?_, fun m hm m' hm' es es' hv hv' i e e' he he' _ => ?_⟩
  · have hsize : (m.getD []).length = (m'.getD []).length := by
      have := congrArg StorageToken.size htok
      cases m <;> cases m' <;> exact this
    exact (List.prefix_of_prefix_length_le (hp m hm) (hp m' hm') hsize.le).eq_of_length hsize
  · rw [verifiedEvents_none] at hv hv'
    have hsame : ∀ {xs ys : List SpineEvent}, xs <+: ys → xs[i]? = some e ∨ xs[i]? = some e' →
        xs[i]? = ys[i]? := by
      intro xs ys hxy hx
      obtain ⟨t, rfl⟩ := hxy
      have hi : i < xs.length := by
        rcases hx with hx | hx <;> exact (List.getElem?_eq_some_iff.1 hx).1
      rw [List.getElem?_append_left hi]
    have hee : es[i]? = es'[i]? := by
      rcases List.prefix_or_prefix_of_prefix (hp m hm) (hp m' hm') with hmm | hmm
      · exact hsame (hv.starts hv' hmm) (.inl he)
      · exact (hsame (hv'.starts hv hmm) (.inr he')).symm
    rw [he, he', Option.some_inj] at hee
    rw [hee]

/-! ## Logs -/

/-- The log holds these bytes and events: its file does, or it will after the
    recovery of its last record. -/
inductive Holds (H : Host) (d : Disk) : Bytes → List SpineEvent → Prop
  | idle {bytes : Bytes} {events : List SpineEvent} : d.pending = none → d.bytes = bytes →
      Verifies H bytes events → Holds H d bytes events
  | busy {base : Bytes} {old : List SpineEvent} {k : H.SecretKey} {e : SpineEvent}
      {line intent : Bytes} {cut : ℕ} : Verifies H base old →
      Prepared H k old.getLast? base.length e line →
      encodeAppendIntent H base.length line = .ok intent → d.pending = some intent →
      d.bytes = base ++ (line ++ [newline]).take cut →
      Holds H d (base ++ (line ++ [newline])) (old ++ [e])

namespace Holds

variable {d : Disk} {bytes : Bytes} {events : List SpineEvent}

theorem verifies (h : Holds H d bytes events) : Verifies H bytes events := by
  cases h with
  | idle _ _ hv => exact hv
  | busy hv hp _ _ _ => exact hv.append hp

/-- The file holds a beginning of the log. -/
theorem bytes_starts (h : Holds H d bytes events) : d.bytes <+: bytes := by
  cases h with
  | idle _ hb _ => exact hb ▸ List.prefix_rfl
  | busy _ _ _ _ hb => exact hb ▸ (List.prefix_append_right_inj _).2 (List.take_prefix _ _)

/-- So do its events, where they verify. -/
theorem events_starts (h : Holds H d bytes events) {es : List SpineEvent}
    (hv : verifiedEvents H none d.main = .ok es) : es <+: events :=
  (verifiedEvents_none.1 hv).starts h.verifies h.bytes_starts

end Holds

/-- The intent of a record is recovered by its author only. -/
theorem author_of_recoverPlan {base line intent : Bytes} {old : List SpineEvent} {k : H.SecretKey}
    {e : SpineEvent} {d : Disk} {did : String} {o : Option (SpineEvent × Disk)}
    (hp : Prepared H k old.getLast? base.length e line)
    (hi : encodeAppendIntent H base.length line = .ok intent) (hpend : d.pending = some intent)
    (h : recoverPlan H did d = .ok o) : did = asDid H k := by
  have hread : readAppendIntent H d.pending = .ok (some (base.length, line)) := by
    rw [hpend]
    exact hp.readAppendIntent hi
  have hdec : ∀ n, decodeLine line n = .ok e := by
    intro n
    have hnil := hp.decodeLine [] (by simp) (by simpa [utf8] using hp.length_lt.le) n
    simpa [utf8] using hnil
  simp only [recoverPlan, hread, ok_bind, bind_eq_ok, require_eq_ok, hdec,
    Bool.and_eq_true, beq_iff_eq] at h
  obtain ⟨_, -, _, -, _, -, _, -, _, ⟨⟨-, hdid⟩, -⟩, -⟩ := h
  rw [← hdid, hp.author]

/-- **The recovery of a log** completes it, or refuses and changes nothing. -/
theorem holds_recoverAfresh {d : Disk} {bytes : Bytes} {events : List SpineEvent}
    (h : Holds H d bytes events) (did : String) :
    ((recoverAfresh H did d).1 = .ok () ∧ (recoverAfresh H did d).2.pending = none ∧
        (recoverAfresh H did d).2.bytes = bytes) ∨
      ((∃ r, (recoverAfresh H did d).1 = .error r) ∧ (recoverAfresh H did d).2 = d) := by
  cases h with
  | idle hnone hb hv =>
    have hread : recoverPlan H did d = .ok none := by rw [recoverPlan, hnone]; rfl
    exact .inl (by rw [recoverAfresh, hread]; exact ⟨rfl, hnone, hb⟩)
  | busy hv hp hi hpend hb =>
    cases hplan : recoverPlan H did d with
    | error r => exact .inr (by rw [recoverAfresh, hplan]; exact ⟨⟨r, rfl⟩, rfl⟩)
    | ok o =>
      obtain rfl := author_of_recoverPlan hp hi hpend hplan
      obtain ⟨r, hr, hrnone, hrb⟩ := recover_busy hv hp hi hpend hb
      rw [recover_eq_recoverAfresh] at hr
      cases hres : (recoverAfresh H (asDid H _) d).1 with
      | error e =>
        rw [hres] at hr
        cases hr
      | ok u =>
        rw [hres] at hr
        obtain rfl := Except.ok.inj hr
        exact .inl ⟨rfl, hrnone, hrb⟩

/-- What a cut append of a batch leaves. -/
theorem holds_of_crashed {k : H.SecretKey} {d : Disk} {base : Bytes} {old : List SpineEvent}
    {batch : List (SpineEvent × Bytes)} (hv : Verifies H base old)
    (hp : PreparedMany H k old.getLast? base.length batch) (h : Crashed H base batch d) :
    ∃ new, new <+: batch ∧ Holds H d (base ++ recordBytes new) (old ++ new.map Prod.fst) := by
  cases h with
  | idle done todo hb hbytes hnone =>
    subst hb
    exact ⟨done, List.prefix_append done todo, .idle hnone hbytes (hp.verifies hv).1⟩
  | busy done todo e line intent cut hb hbytes hi hpend =>
    subst hb
    obtain ⟨hdone, hrest⟩ := hp.verifies hv
    cases hrest with
    | cons hprep _ =>
      refine ⟨done ++ [(e, line)], ⟨todo, by simp⟩, ?_⟩
      have := Holds.busy hdone hprep hi hpend hbytes
      simpa [recordBytes, List.append_assoc] using this

theorem eq_of_recordBytes_starts {new batch : List (SpineEvent × Bytes)} (h : new <+: batch)
    (hb : recordBytes batch <+: recordBytes new) : new = batch := by
  obtain ⟨rest, rfl⟩ := h
  have hlen := hb.length_le
  cases rest with
  | nil => simp
  | cons p rest =>
    simp only [recordBytes, List.flatMap_append, List.flatMap_cons, List.length_append,
      List.length_singleton] at hlen
    omega

/-! ## Appends -/

section Append

variable {identity : H.SecretKey} {d : Disk} {bytes : Bytes} {events : List SpineEvent}
  {call : SpineCall} {fate : ℕ → Fate} {n : ℕ}

/-- A log reads as its events once it is recovered. -/
theorem readAfresh_of_ok (h : Holds H d bytes events) {did : String}
    (hr : (recoverAfresh H did d).1 = .ok ()) (path what : String) :
    (readAfresh H path what did d).1 = .ok events ∧
      (recoverAfresh H did d).2.bytes = bytes ∧ (recoverAfresh H did d).2.pending = none := by
  obtain ⟨-, hnone, hb⟩ | ⟨⟨r, he⟩, -⟩ := holds_recoverAfresh h did
  · have hv : verifiedEvents H none (recoverAfresh H did d).2.main = .ok events := by
      rw [verifiedEvents_none, ← Disk.bytes, hb]
      exact h.verifies
    have hbind : (readAfresh H path what did d).1 = (recoverAfresh H did d).1.bind fun _ =>
        (verifiedEvents H none (recoverAfresh H did d).2.main).mapError (corruptText path what) := rfl
    refine ⟨?_, hb, hnone⟩
    rw [hbind, hr]
    exact congrArg (Except.mapError (corruptText path what)) hv
  · rw [he] at hr
    cases hr

/-- An append to a log that recovers. -/
theorem SpineCall.afresh_of_ok (h : Holds H d bytes events) {s : Fields} {ss : List Fields} {used : ℕ}
    (hsnap : call.snapshots = .ok (s :: ss, used))
    (hr : (recoverAfresh H (asDid H identity) d).1 = .ok ()) :
    call.afresh H path identity fate n d =
      match call.plan H identity events (call.ownersAfresh events) bytes.length (s :: ss) used with
      | .error e => (.error e, (recoverAfresh H (asDid H identity) d).2)
      | .ok (prepared, views) =>
        match Durable.run (appendSteps H fate prepared) n
            (recoverAfresh H (asDid H identity) d).2 with
        | (d', .done) => (.ok views, d')
        | (d', _) => (.error "spine append outcome is unknown", d') := by
  obtain ⟨hread, hb, -⟩ := readAfresh_of_ok h hr path "be appended"
  have hdisk : (readAfresh H path "be appended" (asDid H identity) d).2 =
      (recoverAfresh H (asDid H identity) d).2 := rfl
  simp only [SpineCall.afresh, hsnap, hread, hdisk, hb] <;> rfl

/-- An append to a log that does not recover. -/
theorem SpineCall.afresh_of_error {s : Fields} {ss : List Fields} {used : ℕ}
    (hsnap : call.snapshots = .ok (s :: ss, used)) {r : String}
    (hr : (recoverAfresh H (asDid H identity) d).1 = .error r) :
    call.afresh H path identity fate n d =
      (.error r, (recoverAfresh H (asDid H identity) d).2) := by
  simp only [SpineCall.afresh, hsnap, readAfresh, hr]
  rfl

/-- The records that a call may append. -/
def SpineCall.Plans (H : Host) (identity : H.SecretKey) (call : SpineCall) (bytes : Bytes)
    (events : List SpineEvent) (prepared : List (SpineEvent × Bytes))
    (views : List (SpineEvent × Bool)) : Prop :=
  ∃ snapshots used, snapshots ≠ [] ∧ call.snapshots = .ok (snapshots, used) ∧
    call.plan H identity events (call.ownersAfresh events) bytes.length snapshots used =
      .ok (prepared, views)

theorem SpineCall.Plans.preparedMany {prepared : List (SpineEvent × Bytes)}
    {views : List (SpineEvent × Bool)} (h : call.Plans H identity bytes events prepared views) :
    PreparedMany H identity events.getLast? bytes.length prepared := by
  obtain ⟨_, _, -, hsnap, hplan⟩ := h
  exact SpineCall.preparedMany_of_plan (SpineCall.snapshot_of_snapshots hsnap) hplan

/-- **An append to a log** adds the first records of its plan, and all of them if it
    returns. -/
theorem SpineCall.holds_afresh (h : Holds H d bytes events) (call : SpineCall) (identity : H.SecretKey)
    (path : String) (fate : ℕ → Fate) (n : ℕ) :
    (∃ new, Holds H (call.afresh H path identity fate n d).2 (bytes ++ recordBytes new)
        (events ++ new.map Prod.fst) ∧ (new = [] ∨ ∃ prepared views,
          call.Plans H identity bytes events prepared views ∧ new <+: prepared)) ∧
      ∀ views, (call.afresh H path identity fate n d).1 = .ok views →
        call.snapshots.map Prod.fst = .ok [] ∧ views = [] ∨
          ∃ prepared, call.Plans H identity bytes events prepared views ∧
            Holds H (call.afresh H path identity fate n d).2 (bytes ++ recordBytes prepared)
              (events ++ prepared.map Prod.fst) := by
  have hsame : ∀ {d' : Disk}, Holds H d' bytes events → ∃ new,
      Holds H d' (bytes ++ recordBytes new) (events ++ new.map Prod.fst) ∧ (new = [] ∨
        ∃ prepared views, call.Plans H identity bytes events prepared views ∧ new <+: prepared) :=
    fun h => ⟨[], by simpa [recordBytes] using h, .inl rfl⟩
  cases hsnap : call.snapshots with
  | error e =>
    simp only [SpineCall.afresh, hsnap]
    exact ⟨hsame h, fun views hv => by cases hv⟩
  | ok p =>
    obtain ⟨snapshots, used⟩ := p
    cases snapshots with
    | nil =>
      simp only [SpineCall.afresh, hsnap]
      exact ⟨hsame h, fun views hv => .inl ⟨rfl, (Except.ok.inj hv).symm⟩⟩
    | cons s ss =>
      cases hr : (recoverAfresh H (asDid H identity) d).1 with
      | error r =>
        obtain ⟨hok, -⟩ | ⟨-, hd⟩ := holds_recoverAfresh h (asDid H identity)
        · rw [hr] at hok
          cases hok
        · rw [SpineCall.afresh_of_error hsnap hr, hd]
          exact ⟨hsame h, fun views hv => by cases hv⟩
      | ok u =>
        rw [SpineCall.afresh_of_ok h hsnap hr]
        obtain ⟨-, hb, hnone⟩ := readAfresh_of_ok h hr path "be appended"
        cases hplan : call.plan H identity events (call.ownersAfresh events) bytes.length (s :: ss)
          used with
        | error e => exact ⟨hsame (.idle hnone hb h.verifies), fun views hv => by cases hv⟩
        | ok p =>
          obtain ⟨prepared, views⟩ := p
          have hplans : call.Plans H identity bytes events prepared views :=
            ⟨s :: ss, used, by simp, hsnap, hplan⟩
          have hd : (recoverAfresh H (asDid H identity) d).2.bytes =
              bytes ++ recordBytes ([] : List (SpineEvent × Bytes)) := by simp [hb, recordBytes]
          have hcrash := Durable.run_keeps (keeps_appendSteps fate h.verifies hplans.preparedMany
            prepared [] _ rfl hd (.idle [] prepared rfl hd hnone)) n
          obtain ⟨new, hnew, hholds⟩ := holds_of_crashed h.verifies hplans.preparedMany hcrash
          have hadds : ∀ result : Except String (List (SpineEvent × Bool)), ∃ new,
              Holds H (result, (Durable.run (appendSteps H fate prepared) n
                (recoverAfresh H (asDid H identity) d).2).1).2 (bytes ++ recordBytes new)
                (events ++ new.map Prod.fst) ∧ (new = [] ∨ ∃ prepared views,
                  call.Plans H identity bytes events prepared views ∧ new <+: prepared) :=
            fun _ => ⟨new, hholds, .inr ⟨prepared, views, hplans, hnew⟩⟩
          cases hrun : Durable.run (appendSteps H fate prepared) n
            (recoverAfresh H (asDid H identity) d).2 with
          | mk d' o =>
            rw [hrun] at hholds hadds
            simp only [hrun]
            cases o with
            | raised e => exact ⟨hadds _, fun views hv => by cases hv⟩
            | crashed => exact ⟨hadds _, fun views hv => by cases hv⟩
            | done =>
              refine ⟨hadds _, fun views' hv => .inr ⟨prepared, ?_, ?_⟩⟩
              · obtain rfl := Except.ok.inj hv
                exact hplans
              · have hbytes := bytes_of_done hrun
                rw [hb] at hbytes
                have hlong := hbytes ▸ hholds.bytes_starts
                obtain rfl := eq_of_recordBytes_starts hnew
                  ((List.prefix_append_right_inj bytes).1 hlong)
                exact hholds

end Append

/-! ## Runs -/

theorem Holds.recoverAfresh {d : Disk} {bytes : Bytes} {events : List SpineEvent}
    (h : Holds H d bytes events) (did : String) :
    Holds H (recoverAfresh H did d).2 bytes events := by
  obtain ⟨-, hnone, hb⟩ | ⟨-, hd⟩ := holds_recoverAfresh h did
  · exact .idle hnone hb h.verifies
  · rw [hd]
    exact h

theorem Holds.query {d : Disk} {bytes : Bytes} {events : List SpineEvent}
    (h : Holds H d bytes events) (path did : String) (q : Query) :
    Holds H (q.afresh H path did d).2 bytes events := by
  unfold Query.afresh
  cases q.check with
  | error e => exact h
  | ok u => exact h.recoverAfresh did

/-- A world whose file has only grown: the log holds these bytes and events. -/
structure SpineWorld.Grown (w : SpineWorld H) (bytes : Bytes) (events : List SpineEvent) :
    Prop where
  holds : Holds H w.disk bytes events
  past : ∀ m ∈ w.past, m.getD [] <+: bytes
  cached : w.Cached

namespace SpineWorld

variable {w w' : SpineWorld H} {bytes : Bytes} {events : List SpineEvent}

/-- The caches after a step from a world that has grown. -/
theorem Grown.after (h : w.Grown bytes events) {a : SpineAct H} {main : Option Bytes}
    {disk : Disk} {nodes : List (Node H)} (hs : w.step H path a = some (w.after main disk nodes))
    (hm : main.getD [] <+: bytes) {bytes' : Bytes} {events' : List SpineEvent}
    (hholds : Holds H disk bytes' events') (hb : bytes <+: bytes') :
    (w.after main disk nodes).Grown bytes' events' := by
  have hpast : ∀ m ∈ (w.after main disk nodes).past, m.getD [] <+: bytes' := by
    intro m hmem
    rcases List.mem_cons.1 hmem with rfl | hmem
    · exact hholds.bytes_starts
    · rcases List.mem_cons.1 hmem with rfl | hmem
      · exact hm.trans hb
      · exact (h.past m hmem).trans hb
  exact ⟨hholds, hpast, (h.cached.step hs (separate_of_starts hpast)).1⟩

/-- The caches with one more content. -/
theorem Grown.separate (h : w.Grown bytes events) {main : Option Bytes}
    (hm : main.getD [] <+: bytes) : Separate H (main :: w.past) :=
  separate_of_starts (List.forall_mem_cons.2 ⟨hm, h.past⟩)

theorem Grown.cacheOk (h : w.Grown bytes events) (main : Option Bytes) {node : Node H}
    (hnode : node ∈ w.nodes) : CacheOk H (main :: w.past) node.cache :=
  (h.cached.nodes node hnode).mono fun _ hm => List.mem_cons_of_mem main hm

/-- A call leaves the log that it leaves without caches. -/
theorem Grown.step_call (h : w.Grown bytes events) {i : ℕ} {call : SpineCall} {stat stat' : Stat}
    {fate : ℕ → Fate} {n : ℕ} {dies : Bool} {node : Node H} (hnode : w.nodes[i]? = some node)
    (hs : w.step H path (.call i call stat stat' fate n dies) = some w') {bytes' : Bytes}
    {events' : List SpineEvent}
    (hholds : Holds H (call.afresh H path node.key fate n w.disk).2 bytes' events')
    (hb : bytes <+: bytes') : w'.Grown bytes' events' := by
  have hs' := hs
  simp only [SpineWorld.step, hnode, Option.bind_eq_bind, Option.bind_some, Option.some_inj] at hs
  subst hs
  have hm : (call.run H path node.key node.cache stat stat' fate 0 w.disk).disk.main.getD [] <+:
      bytes := by
    rw [SpineCall.main_run_zero]
    split
    · exact (h.holds.recoverAfresh _).bytes_starts
    · exact h.holds.bytes_starts
  obtain ⟨-, hdisk, -⟩ := SpineCall.run_eq (h.separate hm)
    (h.cacheOk _ (List.mem_of_getElem? hnode)) List.mem_cons_self n
  exact h.after hs' hm (hdisk ▸ hholds) hb

/-- **Every step of a log appends** the first records of one plan, or nothing. -/
theorem Grown.step (h : w.Grown bytes events) {a : SpineAct H} (hs : w.step H path a = some w')
    (ha : ∀ d, a ≠ .replace d) :
    ∃ new, w'.Grown (bytes ++ recordBytes new) (events ++ new.map Prod.fst) ∧
      (new = [] ∨ ∃ (i : ℕ) (call : SpineCall) (s s' : Stat) (fate : ℕ → Fate) (n : ℕ)
        (dies : Bool), a = .call i call s s' fate n dies ∧ ∃ identity prepared views,
          call.Plans H identity bytes events prepared views ∧ new <+: prepared) := by
  have hnothing : w'.Grown bytes events → ∃ new,
      w'.Grown (bytes ++ recordBytes new) (events ++ new.map Prod.fst) ∧ (new = [] ∨ ∃ (i : ℕ)
        (call : SpineCall) (s s' : Stat) (fate : ℕ → Fate) (n : ℕ) (dies : Bool),
          a = .call i call s s' fate n dies ∧ ∃ identity prepared views,
            call.Plans H identity bytes events prepared views ∧ new <+: prepared) :=
    fun h => ⟨[], by simpa [recordBytes] using h, .inl rfl⟩
  cases a with
  | openLog identity stat =>
    obtain ⟨nodes, rfl, -⟩ := step_openLog hs
    have hm : (recoverCached H (asDid H identity) {} stat w.disk).disk.main.getD [] <+: bytes := by
      rw [main_recoverCached]
      exact (h.holds.recoverAfresh _).bytes_starts
    obtain ⟨-, hdisk, -⟩ := recoverCached_eq (h.separate hm) (cacheOk_empty _)
      (List.mem_cons.2 (.inl (main_recoverCached _ _ stat w.disk).symm)) stat
    exact hnothing (h.after hs hm (hdisk ▸ h.holds.recoverAfresh _) List.prefix_rfl)
  | query i q stat =>
    have hs' := hs
    simp only [SpineWorld.step, Option.bind_eq_bind, Option.bind_eq_some_iff] at hs
    obtain ⟨node, hnode, ⟨⟩⟩ := hs
    have hm : (q.run H path (asDid H node.key) node.cache stat w.disk).disk.main.getD [] <+:
        bytes := by
      rw [Query.main_run]
      split_ifs
      · exact (h.holds.recoverAfresh _).bytes_starts
      · exact h.holds.bytes_starts
    obtain ⟨-, hdisk, -⟩ := Query.run_eq (h.separate hm)
      (h.cacheOk _ (List.mem_of_getElem? hnode)) List.mem_cons_self
    exact hnothing (h.after hs' hm (hdisk ▸ h.holds.query path _ q) List.prefix_rfl)
  | call i call stat stat' fate n dies =>
    obtain ⟨node, hnode, -⟩ := Option.bind_eq_some_iff.1 hs
    obtain ⟨⟨new, hnew, hplan⟩, -⟩ := SpineCall.holds_afresh h.holds call node.key path fate n
    refine ⟨new, h.step_call hnode hs hnew (List.prefix_append _ _), ?_⟩
    rcases hplan with rfl | ⟨prepared, views, hplan⟩
    · exact .inl rfl
    · exact .inr ⟨i, call, stat, stat', fate, n, dies, rfl, node.key, prepared, views, hplan⟩
  | replace disk => exact absurd rfl (ha disk)

end SpineWorld

end NthDao
