/-
  Publishers and a reader of one feed.

  `FeedWorld` is the log, the locks that are held, the appends on their way and
  the reader's cursor; a publisher writes its line some bytes at a time, and a
  poll reads what is there.

  * `FeedWorld.step`: the steps of any number of publishers and of the reader;
  * `FeedWorld.Unbroken`: no poll gets to a line of which only a part is there;
  * `returned_once`: in the runs of such steps every announcement is returned by
    one poll;
  * `returned_never`: the lock of the reader does not keep the appends out, and
    an announcement whose line was seen half written is lost.
-/
import NthDao.Market.Feed
import NthDao.Reach

namespace NthDao

open Py

namespace Market

variable (H : Host)

/-! ## The system -/

/-- An append that holds the lock: its record and the bytes still to be written. -/
structure Append where
  ann : TaskAnnouncement
  rest : Bytes

/-- A poll that has returned. -/
structure PollRun where
  since : ℤ
  args : PollArgs
  result : PollResult

/-- The log, the lock files that are held, the appends on their way, the announcements
    whose `publish` has returned, and the reader: its cursor and its polls. -/
structure FeedWorld where
  file : Bytes := []
  held : List String := []
  appends : List Append := []
  published : List TaskAnnouncement := []
  cursor : ℤ := -1
  polls : List PollRun := []

/-- What may happen next. -/
inductive FeedAct where
  /-- a process calls `publish` and gets to the lock -/
  | publish (stores : TaskAnnouncement → Binding) (a : TaskAnnouncement)
  /-- the `i`th append writes `n` bytes -/
  | write (i n : ℕ)
  /-- the `i`th append releases its lock, and `publish` returns -/
  | finish (i : ℕ)
  /-- the reader polls with the cursor it got last, if the log can be read -/
  | poll (p : PollArgs) (reads : Bool)

namespace FeedWorld

variable (root : String)

/-- One step.  A `publish` that is refused or times out, and a poll that raises,
    change nothing. -/
def step (w : FeedWorld) : FeedAct → Option FeedWorld
  | .publish stores a =>
    if !(Json.obj a.toDict).wf then none
    else if admitted H stores a && !w.held.contains (appendLock root) then
      some { w with
        held := appendLock root :: w.held
        appends := w.appends ++ [⟨a, lineBytes a⟩] }
    else some w
  | .write i n =>
    (w.appends[i]?).map fun x =>
      { w with
        file := w.file ++ x.rest.take n
        appends := w.appends.set i { x with rest := x.rest.drop n } }
  | .finish i =>
    (w.appends[i]?).bind fun x =>
      if x.rest = [] then
        some { w with
          held := w.held.erase (appendLock root)
          appends := w.appends.eraseIdx i
          published := w.published ++ [x.ann] }
      else none
  | .poll p reads =>
    -- a lock that is not acquired in time is an `OSError` too
    let file := if reads && !w.held.contains (readLock root) then some w.file else none
    match poll H p file w.cursor with
    | .error _ => some w
    | .ok r => some { w with cursor := r.cursor, polls := w.polls ++ [⟨w.cursor, p, r⟩] }

/-- The part of a line that is in the log. -/
def seen (x : Append) : Bytes := (lineBytes x.ann).take ((lineBytes x.ann).length - x.rest.length)

/-- A part of a line that reads as a text, but not as the record. -/
def Torn (x : Append) : Prop :=
  seen x ≠ [] ∧ (seen x).length < (utf8 (payload x.ann)).length ∧ (utf8Decode (seen x)).isSome

/-- The values on whole lines. -/
def values (as : List TaskAnnouncement) : List (Option Json) := as.map fun a => some (.obj a.toDict)

/-- The limit of a poll is reached before the end of the whole lines. -/
def Stops (w : FeedWorld) (p : PollArgs) : Prop :=
  ∃ n, p.limit = some n ∧ n < waiting H p w.cursor 0 (values w.published) ∧
    0 < waiting H p w.cursor 0 (values w.published)

/-- A poll that reads does not get to a torn line. -/
def Unbroken (w : FeedWorld) : FeedAct → Prop
  | .poll p reads => reads = true → ∀ x ∈ w.appends, Torn x → w.Stops H p
  | _ => True

/-- The announcements of line `s` that polls have returned. -/
def returned (w : FeedWorld) (s : ℕ) : List (ℕ × TaskAnnouncement) :=
  (w.polls.flatMap fun e => e.result.announcements).filter fun q => q.1 = s

/-- The records of the log and of the append on its way. -/
def begun (w : FeedWorld) : List TaskAnnouncement := w.published ++ w.appends.map Append.ann

end FeedWorld

/-- The announcement on line `s` is unexpired and bound for a poll. -/
def PollArgs.Live (p : PollArgs) (s : ℕ) (a : TaskAnnouncement) : Prop :=
  p.skips s a = false ∧ requireListingBinding (p.stores s) a = .bound

/-- It is so for every poll that passes the line. -/
def FeedWorld.Lives (w : FeedWorld) (s : ℕ) (a : TaskAnnouncement) : Prop :=
  ∀ e ∈ w.polls, e.since < s → (s : ℤ) ≤ e.result.cursor → e.args.Live s a

/-! ## What a poll sees -/

variable {H}

theorem shown_of_live {p : PollArgs} {s : ℕ} {a : TaskAnnouncement}
    (hv : verifyAnnouncement H a = .ok ()) (hl : p.Live s a) :
    shown H p s (some (.obj a.toDict)) = some a := by
  simp [shown, safeParse, fromDict_toDict, hv, hl.2, hl.1]

/-- An announcement of the log: it can be written, and it verifies. -/
def Admitted (H : Host) (a : TaskAnnouncement) : Prop :=
  Printed a ∧ verifyAnnouncement H a = .ok ()

theorem Admitted.of {stores : TaskAnnouncement → Binding} {a : TaskAnnouncement}
    (hw : (Json.obj a.toDict).wf = true) (ha : admitted H stores a = true) : Admitted H a := by
  simp only [admitted, Bool.and_eq_true, beq_iff_eq] at ha
  exact ⟨⟨hw, ha.2⟩, ha.1.1⟩

/-- A part of a line is the part of a text. -/
theorem exists_of_part {a : TaskAnnouncement} {v rest : Bytes} (h : lineBytes a = v ++ rest)
    {q : List Char} (hq : utf8Decode v = some q) : ∃ q', payload a ++ ['\n'] = q ++ q' := by
  have hv := utf8_of_utf8Decode hq
  have hd : utf8Decode (utf8 q ++ rest) = some (payload a ++ ['\n']) := by
    rw [hv, ← h, lineBytes, utf8Decode_utf8]
  rw [utf8Decode_append, Option.map_eq_some_iff] at hd
  obtain ⟨q', -, hq'⟩ := hd
  exact ⟨q', hq'.symm⟩

/-- A text that holds all of a record holds it with or without its newline. -/
theorem eq_of_length_le {a : TaskAnnouncement} {q q' : List Char}
    (h : payload a ++ ['\n'] = q ++ q') (hl : (utf8 (payload a)).length ≤ (utf8 q).length) :
    q = payload a ∨ q = payload a ++ ['\n'] := by
  rcases List.eq_nil_or_concat q' with rfl | ⟨q'', c, rfl⟩
  · exact .inr (by rw [h, List.append_nil])
  · rw [List.concat_eq_append, ← List.append_assoc] at h
    obtain ⟨hp, -⟩ := List.append_inj' h rfl
    have hlen : (utf8 q'').length = 0 := by
      rw [hp, utf8_append, List.length_append] at hl
      omega
    have hnil : q'' = [] := utf8_injective (List.length_eq_zero_iff.1 hlen)
    exact .inl (by rw [hp, hnil, List.append_nil])

/-- A part of a record is one line. -/
theorem nl_not_mem_part {a : TaskAnnouncement} (ha : Printed a) {q q' : List Char}
    (h : payload a ++ ['\n'] = q ++ q') (hl : (utf8 q).length < (utf8 (payload a)).length) :
    '\n' ∉ q := by
  intro hmem
  obtain ⟨q₁, q₂, hq⟩ := List.append_of_mem hmem
  have hsub : payload a ++ ['\n'] = q₁ ++ '\n' :: (q₂ ++ q') := by
    rw [h, hq, List.append_assoc, List.cons_append]
  rcases List.eq_nil_or_concat (q₂ ++ q') with he | ⟨t, c, he⟩
  · -- the newline would be the last character of the line
    rw [he] at hsub
    obtain ⟨hp, -⟩ := List.append_inj' hsub rfl
    rw [hq, hp, utf8_append, List.length_append] at hl
    omega
  · rw [he, List.concat_eq_append, ← List.cons_append, ← List.append_assoc] at hsub
    obtain ⟨hp, -⟩ := List.append_inj' hsub rfl
    exact nl_not_mem_payload ha (hp ▸ by simp)

/-! ## The invariant -/

/-- The log and the append on its way, if there is one. -/
inductive FeedFile (H : Host) (root : String) (w : FeedWorld) : Prop where
  | idle (appends : w.appends = []) (held : w.held = [])
      (file : w.file = utf8 (content w.published))
  | busy (a : TaskAnnouncement) (v rest : Bytes) (appends : w.appends = [⟨a, rest⟩])
      (held : w.held = [appendLock root]) (line : lineBytes a = v ++ rest)
      (file : w.file = utf8 (content w.published) ++ v) (admitted : Admitted H a)

/-- The announcements of the log are whole lines, and the cursor has passed just what has
    been returned. -/
structure FeedWorld.Ok (H : Host) (root : String) (w : FeedWorld) : Prop where
  admitted : ∀ a ∈ w.published, Admitted H a
  file : FeedFile H root w
  cursor : w.cursor < w.begun.length
  mem : ∀ e ∈ w.polls, ∀ q ∈ e.result.announcements, (q.1 : ℤ) ≤ w.cursor
  hits : ∀ s a, w.begun[s]? = some a → w.Lives s a →
    w.returned s = if (s : ℤ) ≤ w.cursor then [(s, a)] else []

variable {root : String} {w : FeedWorld}

theorem FeedWorld.Ok.admitted_begun (h : w.Ok H root) : ∀ a ∈ w.begun, Admitted H a := by
  intro a ha
  rcases List.mem_append.1 ha with ha | ha
  · exact h.admitted a ha
  · cases h.file with
    | idle appends held file => rw [appends] at ha; cases ha
    | busy b v rest appends held line file hb =>
      rw [appends, List.map_singleton, List.mem_singleton] at ha
      exact ha ▸ hb

theorem FeedWorld.seen_eq {a : TaskAnnouncement} {v rest : Bytes} (h : lineBytes a = v ++ rest) :
    seen ⟨a, rest⟩ = v := by
  simp [seen, h]

/-- What can be read of the log: whole lines, and the part of one more. -/
theorem FeedWorld.Ok.readAll_eq (h : w.Ok H root) {recs : List (Option Json)}
    (hr : readAll w.file = .ok recs) : (∃ k, recs = values (w.begun.take k) ∧
      w.published.length ≤ k ∧ k ≤ w.begun.length) ∨
      ∃ x ∈ w.appends, Torn x ∧ ∃ raw, recs = values w.published ++ [raw] := by
  have hp : ∀ a ∈ w.published, Printed a := fun a ha => (h.admitted a ha).1
  have whole : recs = values w.published → ∃ k, recs = values (w.begun.take k) ∧
      w.published.length ≤ k ∧ k ≤ w.begun.length := fun he =>
    ⟨w.published.length, by rw [he, begun, List.take_left], le_rfl, by simp [begun]⟩
  cases h.file with
  | idle appends held file =>
    have hrd := readAll_content hp (q := []) (by simp)
    rw [List.append_nil, ← file, hr] at hrd
    exact .inl (whole ((Except.ok.inj hrd).trans (List.append_nil _)))
  | busy a v rest appends held line file ha =>
    rw [file, readAll, utf8Decode_append] at hr
    simp only [bind_eq_ok, expect_eq_ok, Option.map_eq_some_iff] at hr
    obtain ⟨text, ⟨q, hq, rfl⟩, hr⟩ := hr
    obtain ⟨q', hq'⟩ := exists_of_part line hq
    have hv := utf8_of_utf8Decode hq
    have hcr : ∀ c ∈ q, c ≠ '\r' := fun c hc =>
      cr_not_mem_line ha.1 c (hq' ▸ List.mem_append_left _ hc)
    have hrd := readAll_content hp hcr
    rw [readAll, utf8Decode_utf8] at hrd
    obtain ⟨tail, htail, hrecs⟩ : ∃ tail, (Lines.split '\n' q).mapM readRecord = .ok tail ∧
        recs = values w.published ++ tail := by
      have heq := hr.symm.trans hrd
      cases ht : (Lines.split '\n' q).mapM readRecord with
      | error e => rw [ht] at heq; cases heq
      | ok tail => rw [ht] at heq; exact ⟨tail, rfl, Except.ok.inj heq⟩
    by_cases hnil : q = []
    · refine .inl (whole ?_)
      rw [hnil] at htail
      cases htail
      exact hrecs.trans (List.append_nil _)
    by_cases hlen : (utf8 q).length < (utf8 (payload a)).length
    · right
      refine ⟨⟨a, rest⟩, appends ▸ List.mem_singleton_self _, ?_, ?_⟩
      · rw [Torn, seen_eq line, hq]
        refine ⟨?_, hv ▸ hlen, rfl⟩
        rintro rfl
        exact hnil (utf8_injective hv)
      · have hnl := nl_not_mem_part ha.1 hq' hlen
        rw [Lines.split_of_not_mem _ hnl hnil, List.mapM_cons] at htail
        obtain ⟨raw, -, htail⟩ := bind_eq_ok.1 htail
        cases htail
        exact ⟨raw, hrecs⟩
    · have hrec : (Lines.split '\n' q).mapM readRecord = .ok [some (.obj a.toDict)] := by
        rcases eq_of_length_le hq' (by omega) with he | he
        · have hr₁ := readRecord_payload ha.1.1 ha.1.2
            (fun c hc => absurd hc List.not_mem_nil : ∀ c ∈ ([] : List Char), c = '\n')
          rw [List.append_nil] at hr₁
          rw [he, Lines.split_of_not_mem _ (nl_not_mem_payload ha.1) (he ▸ hnil),
            List.mapM_cons, hr₁]
          rfl
        · rw [he, split_line ha.1, List.mapM_cons, readRecord_payload ha.1.1 ha.1.2 (by simp)]
          rfl
      left
      refine ⟨w.begun.length, ?_, by simp [begun], le_rfl⟩
      rw [hrec] at htail
      cases htail
      rw [hrecs, List.take_length, begun, appends, values, values, List.map_append]
      rfl

/-! ## Steps -/

/-- A poll that gets to no torn line sees whole announcements. -/
theorem FeedWorld.Ok.pollLoop_eq (h : w.Ok H root) {p : PollArgs} {reads : Bool}
    (hu : reads = true → ∀ x ∈ w.appends, Torn x → w.Stops H p) {locked : Bool} {r : PollResult}
    (hr : poll H p (if reads && locked then some w.file else none) w.cursor = .ok r) :
    ∃ k ≤ w.begun.length,
      pollLoop H p w.cursor 0 (values (w.begun.take k)) ⟨[], w.cursor⟩ = .ok r := by
  rw [poll, bind_eq_ok] at hr
  obtain ⟨recs, hrecs, hr⟩ := hr
  split_ifs at hrecs with hc
  · rw [Bool.and_eq_true] at hc
    rcases h.readAll_eq hrecs with ⟨k, rfl, -, hk⟩ | ⟨x, hx, htorn, raw, rfl⟩
    · exact ⟨k, hk, hr⟩
    · -- the limit stops the poll before the torn line
      obtain ⟨n, hl, hw, hpos⟩ := hu hc.1 x hx htorn
      refine ⟨w.published.length, by simp [begun], ?_⟩
      rw [begun, List.take_left, ← pollLoop_append hl (by simpa using hw) hpos [raw]]
      exact hr
  · cases hrecs
    exact ⟨0, Nat.zero_le _, hr⟩

theorem FeedWorld.Lives.of_append {e : PollRun} {w' : FeedWorld} (hp : w'.polls = w.polls ++ [e])
    {s : ℕ} {a : TaskAnnouncement} (h : w'.Lives s a) : w.Lives s a ∧
      (e.since < s → (s : ℤ) ≤ e.result.cursor → e.args.Live s a) := by
  rw [Lives, hp] at h
  exact ⟨fun f hf => h f (by simp [hf]), h e (by simp)⟩

/-- A poll keeps the account. -/
theorem FeedWorld.Ok.polled (h : w.Ok H root) {p : PollArgs} {k : ℕ} {r : PollResult}
    (hk : k ≤ w.begun.length)
    (hr : pollLoop H p w.cursor 0 (values (w.begun.take k)) ⟨[], w.cursor⟩ = .ok r) :
    FeedWorld.Ok H root { w with
      cursor := r.cursor
      polls := w.polls ++ [⟨w.cursor, p, r⟩] } := by
  obtain ⟨news, hn⟩ : ∃ news, Polled H p w.cursor 0 (values (w.begun.take k)) ⟨[], w.cursor⟩ r
      news := pollLoop_spec (r := ⟨[], w.cursor⟩) le_rfl (.inl le_rfl) hr
  have hlen : (values (w.begun.take k)).length = k := by
    rw [values, List.length_map, List.length_take, min_eq_left hk]
  have hann : r.announcements = news := hn.announcements
  have hle : w.cursor ≤ r.cursor := hn.le
  have hlt : r.cursor = w.cursor ∨ r.cursor < (0 : ℕ) + (values (w.begun.take k)).length :=
    hn.cursor_lt
  rw [hlen, Nat.cast_zero, zero_add] at hlt
  have hcur := h.cursor
  refine ⟨h.admitted, ?_, ?_, ?_, ?_⟩
  · cases h.file with
    | idle appends held file => exact .idle appends held file
    | busy a v rest appends held line file ha => exact .busy a v rest appends held line file ha
  · show r.cursor < w.begun.length
    omega
  · intro e he q hq
    rcases List.mem_append.1 he with he | he
    · exact (h.mem e he q hq).trans hle
    · rw [List.mem_singleton.1 he, hann] at hq
      exact (hn.mem q hq).2.2
  · intro s a hs hlive
    have hs : w.begun[s]? = some a := hs
    obtain ⟨hold, hnew⟩ := hlive.of_append rfl
    have hnew : w.cursor < s → (s : ℤ) ≤ r.cursor → p.Live s a := hnew
    have hret : returned { w with
        cursor := r.cursor
        polls := w.polls ++ [⟨w.cursor, p, r⟩] } s =
        w.returned s ++ news.filter fun q => q.1 = s := by
      simp [returned, hann]
    rw [hret, h.hits s a hs hold]
    show _ = if (s : ℤ) ≤ r.cursor then [(s, a)] else []
    by_cases hsc : (s : ℤ) ≤ w.cursor
    · -- the line has been passed before
      have hnil : news.filter (fun q => q.1 = s) = [] := by
        rw [List.filter_eq_nil_iff]
        intro q hq
        have := (hn.mem q hq).2.1
        simp only [decide_eq_true_eq]
        omega
      rw [if_pos hsc, if_pos (by omega), hnil, List.append_nil]
    rw [if_neg hsc, List.nil_append]
    by_cases hsk : s < k
    · have hval : (values (w.begun.take k))[s]? = some (some (.obj a.toDict)) := by
        rw [values, List.getElem?_map, List.getElem?_take, if_pos hsk, hs]
        rfl
      have hh := hn.hits s _ hval
      simp only [Nat.zero_add] at hh
      rw [hh]
      by_cases hsr : (s : ℤ) ≤ r.cursor
      · have hv := (h.admitted_begun a (List.mem_of_getElem? hs)).2
        rw [if_pos ⟨by omega, hsr⟩, if_pos hsr, shown_of_live hv (hnew (by omega) hsr)]
        rfl
      · rw [if_neg fun hc => hsr hc.2, if_neg hsr]
    · rw [if_neg (by omega), List.filter_eq_nil_iff]
      intro q hq
      have := (hn.mem q hq).2
      simp only [decide_eq_true_eq]
      omega

/-- What publishers do to the log leaves the account alone. -/
theorem FeedWorld.Ok.frame (h : w.Ok H root) {w' : FeedWorld} (hf : FeedFile H root w')
    (ha : ∀ a ∈ w'.published, Admitted H a) (more : List TaskAnnouncement)
    (hb : w'.begun = w.begun ++ more) (hp : w'.polls = w.polls) (hc : w'.cursor = w.cursor) :
    w'.Ok H root := by
  have hcur := h.cursor
  refine ⟨ha, hf, ?_, ?_, ?_⟩
  · rw [hb, hc, List.length_append]
    omega
  · rw [hp, hc]
    exact h.mem
  · intro s a hs hlive
    have hret : w'.returned s = w.returned s := by rw [returned, hp, returned]
    rw [Lives, hp] at hlive
    rw [hret, hc]
    by_cases hlt : s < w.begun.length
    · rw [hb, List.getElem?_append_left hlt] at hs
      exact h.hits s a hs hlive
    · -- a line that is new has not been returned
      rw [if_neg (by omega), returned, List.filter_eq_nil_iff]
      intro q hq
      obtain ⟨e, he, hq⟩ := List.mem_flatMap.1 hq
      have := h.mem e he q hq
      simp only [decide_eq_true_eq]
      omega

/-- Every step keeps the invariant. -/
theorem FeedWorld.Ok.step (h : w.Ok H root) {a : FeedAct} (hc : w.Unbroken H a) {w' : FeedWorld}
    (hs : w.step H root a = some w') : w'.Ok H root := by
  cases a with
  | publish stores a =>
    rw [FeedWorld.step] at hs
    split_ifs at hs with hw hadm
    · cases hs
      rw [Bool.not_eq_true', Bool.not_eq_false] at hw
      simp only [Bool.and_eq_true, Bool.not_eq_true', ← Bool.not_eq_true,
        List.contains_iff_mem] at hadm
      obtain ⟨hadm, hfree⟩ := hadm
      cases h.file with
      | idle appends held file =>
        refine h.frame (.busy a [] (lineBytes a) ?_ ?_ rfl ?_ (.of hw hadm)) h.admitted
          [a] ?_ rfl rfl
        · rw [appends, List.nil_append]
        · rw [held]
        · rw [List.append_nil, file]
        · simp [begun]
      | busy b v rest appends held line file hb => exact absurd (by simp [held]) hfree
    · cases hs
      exact h
  | write i n =>
    rw [FeedWorld.step, Option.map_eq_some_iff] at hs
    obtain ⟨x, hx, rfl⟩ := hs
    cases h.file with
    | idle appends held file => rw [appends] at hx; cases hx
    | busy b v rest appends held line file hb =>
      rw [appends] at hx
      obtain ⟨rfl, rfl⟩ : i = 0 ∧ x = ⟨b, rest⟩ := by
        cases i with
        | zero => exact ⟨rfl, (Option.some.inj hx).symm⟩
        | succ i => cases hx
      refine h.frame (.busy b (v ++ rest.take n) (rest.drop n) ?_ held ?_ ?_ hb) h.admitted
        [] ?_ rfl rfl
      · rw [appends]
        rfl
      · rw [line, List.append_assoc, List.take_append_drop]
      · rw [file, List.append_assoc]
      · rw [List.append_nil, begun, begun, appends]
        rfl
  | finish i =>
    rw [FeedWorld.step, Option.bind_eq_some_iff] at hs
    obtain ⟨x, hx, hs⟩ := hs
    split_ifs at hs with hrest
    cases hs
    cases h.file with
    | idle appends held file => rw [appends] at hx; cases hx
    | busy b v rest appends held line file hb =>
      rw [appends] at hx
      obtain ⟨rfl, rfl⟩ : i = 0 ∧ x = ⟨b, rest⟩ := by
        cases i with
        | zero => exact ⟨rfl, (Option.some.inj hx).symm⟩
        | succ i => cases hx
      obtain rfl : rest = [] := hrest
      refine h.frame (.idle ?_ ?_ ?_) ?_ [] ?_ rfl rfl
      · rw [appends]
        rfl
      · rw [held, List.erase_cons_head]
      · rw [file, content_concat, utf8_append]
        rw [List.append_nil] at line
        rw [← line, lineBytes]
      · intro a ha
        rcases List.mem_append.1 ha with ha | ha
        · exact h.admitted a ha
        · exact List.mem_singleton.1 ha ▸ hb
      · rw [List.append_nil, begun, begun, appends]
        simp
  | poll p reads =>
    rw [FeedWorld.step] at hs
    split at hs
    · cases hs
      exact h
    · rename_i r hr
      cases hs
      obtain ⟨k, hk, hp⟩ := h.pollLoop_eq hc hr
      exact h.polled hk hp

theorem FeedWorld.ok_init (H : Host) (root : String) : FeedWorld.Ok H root {} :=
  ⟨fun a ha => absurd ha List.not_mem_nil, .idle rfl rfl rfl, by decide,
    fun e he => absurd he List.not_mem_nil, fun s a hs => by cases hs⟩

/-! ## Runs -/

open Runs

/-- **No announcement is lost, and none comes twice**, in the runs where no poll gets to a
    torn line: an announcement that stays unexpired and bound has been returned once when
    the cursor has passed it, and a poll that can read brings the cursor further. -/
theorem returned_once {w : FeedWorld}
    (h : Reach (FeedWorld.step H root) (FeedWorld.Unbroken H) {} w) {s : ℕ} {a : TaskAnnouncement}
    (hs : w.published[s]? = some a) (hlive : w.Lives s a) :
    w.returned s = (if (s : ℤ) ≤ w.cursor then [(s, a)] else []) ∧
      ∀ p r, poll H p (some w.file) w.cursor = .ok r →
        (p.limit = none → (s : ℤ) ≤ r.cursor) ∧
        ((∀ n, p.limit = some n → 0 < n) → w.cursor < s → w.cursor < r.cursor) := by
  have ok : w.Ok H root := h.invariant (P := FeedWorld.Ok H root) (FeedWorld.ok_init H root)
    fun _ _ _ hw hc hstep => hw.step hc hstep
  have hlt : s < w.published.length := (List.getElem?_eq_some_iff.1 hs).1
  refine ⟨ok.hits s a ?_ hlive, fun p r hr => ?_⟩
  · rw [FeedWorld.begun, List.getElem?_append_left hlt, hs]
  · unfold poll at hr
    rw [bind_eq_ok] at hr
    obtain ⟨recs, hrecs, hr⟩ := hr
    have hlen : s < recs.length := by
      rcases ok.readAll_eq hrecs with ⟨k, rfl, hk, hk'⟩ | ⟨_, -, -, raw, rfl⟩
      · rw [FeedWorld.values, List.length_map, List.length_take, min_eq_left hk']
        omega
      · rw [List.length_append, FeedWorld.values, List.length_map]
        omega
    constructor
    · intro hl
      obtain ⟨news, hn⟩ := pollLoop_spec (r := ⟨[], w.cursor⟩) le_rfl (.inl le_rfl) hr
      simpa using hn.progress hl s hlen
    · intro hl hcur
      exact pollLoop_advances hl (.inl rfl) le_rfl hr hlen (by simpa using hcur)

/-! ## A run that loses an announcement -/

/-- A line that the cursor has passed is returned by no later poll. -/
theorem FeedWorld.passed {w w' : FeedWorld} {a : FeedAct} (hs : w.step H root a = some w') {s : ℕ}
    (hp : (s : ℤ) ≤ w.cursor) : (s : ℤ) ≤ w'.cursor ∧ w'.returned s = w.returned s := by
  cases a with
  | publish stores a =>
    rw [FeedWorld.step] at hs
    split_ifs at hs <;> cases hs <;> exact ⟨hp, rfl⟩
  | write i n =>
    rw [FeedWorld.step, Option.map_eq_some_iff] at hs
    obtain ⟨x, -, rfl⟩ := hs
    exact ⟨hp, rfl⟩
  | finish i =>
    rw [FeedWorld.step, Option.bind_eq_some_iff] at hs
    obtain ⟨x, -, hs⟩ := hs
    split_ifs at hs
    cases hs
    exact ⟨hp, rfl⟩
  | poll p reads =>
    rw [FeedWorld.step] at hs
    split at hs
    · cases hs
      exact ⟨hp, rfl⟩
    · rename_i r hr
      cases hs
      rw [poll, bind_eq_ok] at hr
      obtain ⟨recs, -, hr⟩ := hr
      obtain ⟨news, hn⟩ : ∃ news, Polled H p w.cursor 0 recs ⟨[], w.cursor⟩ r news :=
        pollLoop_spec (r := ⟨[], w.cursor⟩) le_rfl (.inl le_rfl) hr
      have hann : r.announcements = news := hn.announcements
      have hle : w.cursor ≤ r.cursor := hn.le
      refine ⟨hp.trans hle, ?_⟩
      have hnil : news.filter (fun q => q.1 = s) = [] := by
        rw [List.filter_eq_nil_iff]
        intro q hq
        have := (hn.mem q hq).2.1
        simp only [decide_eq_true_eq]
        omega
      simp [returned, hann, hnil]

/-- A poll that sees one byte of the first line. -/
theorem poll_torn (p : PollArgs) : poll H p (some [0x7b]) (-1) = .ok ⟨[], 0⟩ := by
  have hd : utf8Decode [0x7b] = some ['{'] := utf8Decode_utf8 ['{']
  have hr : readAll [0x7b] = .ok [none] := by
    rw [readAll, hd]
    rfl
  rw [poll, readLog, hr]
  rfl

theorem lineBytes_eq (a : TaskAnnouncement) : ∃ t, lineBytes a = 0x7b :: t := by
  obtain ⟨cs, hcs⟩ := payload_eq a
  exact ⟨utf8 (cs ++ ['}'] ++ ['\n']), by rw [lineBytes, hcs]; rfl⟩

/-- A poll between two writes loses the announcement. -/
theorem lost {stores : TaskAnnouncement → Binding} {a : TaskAnnouncement}
    (hw : (Json.obj a.toDict).wf = true) (ha : admitted H stores a = true) (p : PollArgs) :
    run (FeedWorld.step H root) {} [.publish stores a, .write 0 1, .poll p true,
      .write 0 (lineBytes a).length, .finish 0] =
      some { file := lineBytes a, published := [a], cursor := 0, polls := [⟨-1, p, ⟨[], 0⟩⟩] } := by
  obtain ⟨t, ht⟩ := lineBytes_eq a
  have hlock : [appendLock root].contains (readLock root) = false := by
    simpa using (appendLock_ne_readLock root).symm
  simp only [run, FeedWorld.step, hw, ha, Bool.not_true, Bool.false_eq_true, if_false,
    List.contains_nil, Bool.not_false, Bool.and_self, if_true, Option.bind_some, List.nil_append,
    List.getElem?_cons_zero, Option.map_some, List.set_cons_zero, hlock, ht, List.take_succ_cons,
    List.take_zero, List.drop_succ_cons, List.drop_zero, poll_torn]
  simp

/-- The same without the poll. -/
theorem kept {stores : TaskAnnouncement → Binding} {a : TaskAnnouncement}
    (hw : (Json.obj a.toDict).wf = true) (ha : admitted H stores a = true) :
    run (FeedWorld.step H root) {} [.publish stores a, .write 0 (lineBytes a).length, .finish 0] =
      some { file := lineBytes a, published := [a] } := by
  simp [run, FeedWorld.step, hw, ha]

/-- A poll that sees the whole line. -/
theorem poll_whole {a : TaskAnnouncement} (ha : Admitted H a) {p : PollArgs} (hl : p.Live 0 a)
    (hlim : p.limit = none) : poll H p (some (lineBytes a)) (-1) = .ok ⟨[(0, a)], 0⟩ := by
  have hrd : readAll (lineBytes a) = .ok [some (.obj a.toDict)] := by
    have h := readAll_content (fun b hb => List.mem_singleton.1 hb ▸ ha.1) (q := []) (by simp)
    rw [List.append_nil] at h
    have hc : content [a] = payload a ++ ['\n'] := content_concat [] a
    rw [lineBytes, ← hc, h]
    rfl
  have hsafe : safeParse H (p.stores 0) (some (.obj a.toDict)) = .ok (some a) := by
    simp [safeParse, fromDict_toDict, ha.2, hl.2]
  have hfull : p.full ⟨[], -1⟩ = false := by simp [PollArgs.full, hlim]
  rw [poll, readLog, hrd, ok_bind, pollLoop, if_neg (by decide), hsafe]
  simp only [hl.1, Bool.false_eq_true, if_false, hfull]
  rfl

/-- A run of one announcement that a poll returns. -/
theorem reach_returned (root : String) {stores : TaskAnnouncement → Binding} {a : TaskAnnouncement}
    (hw : (Json.obj a.toDict).wf = true) (ha : admitted H stores a = true) {p : PollArgs}
    (hl : p.Live 0 a) (hlim : p.limit = none) :
    Reach (FeedWorld.step H root) (FeedWorld.Unbroken H) {}
      { file := lineBytes a, published := [a], cursor := 0, polls := [⟨-1, p, ⟨[(0, a)], 0⟩⟩] } := by
  have hstart : Reach (FeedWorld.step H root) (FeedWorld.Unbroken H) {}
      { file := lineBytes a, published := [a] } :=
    reach_of_run .start (kept hw ha) (by simp [FeedWorld.Unbroken])
  refine hstart.step (a := .poll p true) (fun _ x hx => absurd hx List.not_mem_nil) ?_
  have hpoll := poll_whole (Admitted.of hw ha) hl hlim
  simp only [FeedWorld.step, Bool.true_and, List.contains_nil, Bool.not_false, if_true, hpoll,
    List.nil_append]

/-! ## Samples -/

/-- A task without its signature. -/
def unsignedSample : TaskAnnouncement :=
  { announcementId := .str "a1", publisherDid := .str (asDid checksumHost (1 : UInt8)),
    title := .str "t", authorityDid := .str (asDid checksumHost (1 : UInt8)),
    listingType := .str "", offerDigest := .str "", offerUri := .str "", priceMinor := .int 0,
    priceAsset := .str "", availabilitySummary := .obj [], capabilitySet := .arr [],
    context := .str "general", inputSchema := .obj [], acceptance := .obj [],
    rewardMinor := .int 0, rewardAsset := .str "credit", missionId := .str "",
    claimantPolicy := .obj [], description := .str "", publishedAtMs := .int 1,
    notAfter := .int 0, kind := .str kindV2, publisherSig := .str "" }

/-- A task. -/
def sampleAnn : TaskAnnouncement :=
  { unsignedSample with
    publisherSig := .str (signText checksumHost (1 : UInt8)
      ((canonicalJson (.obj unsignedSample.signingBody)).getD [])) }

/-- No store refuses. -/
def bindsAll : TaskAnnouncement → Binding := fun _ => .bound

/-- A poll without a limit. -/
def samplePoll : PollArgs := { now := fun _ => 5, stores := fun _ => bindsAll }

theorem sampleAnn_wf : (Json.obj sampleAnn.toDict).wf = true := by decide

/-- The checks of the sample. -/
def sampleAnnChecks : PLift (admitted checksumHost bindsAll sampleAnn = true) := ⟨by decide +kernel⟩

theorem sampleAnn_admitted : admitted checksumHost bindsAll sampleAnn = true := sampleAnnChecks.down

theorem sampleAnn_live (s : ℕ) : samplePoll.Live s sampleAnn := ⟨rfl, rfl⟩

/-- **An announcement that no poll ever returns**: it was published, unexpired and bound
    for the only poll, which saw one byte of its line. -/
theorem returned_never : ∃ acts w, run (FeedWorld.step checksumHost "") {} acts = some w ∧
    w.published = [sampleAnn] ∧ (∀ e ∈ w.polls, e.args.Live 0 sampleAnn) ∧
    ∀ w', Reach (FeedWorld.step checksumHost "") (fun _ _ => True) w w' → w'.returned 0 = [] := by
  refine ⟨_, _, lost sampleAnn_wf sampleAnn_admitted samplePoll, rfl, ?_, fun w' h => ?_⟩
  · intro e he
    rw [List.mem_singleton.1 he]
    exact sampleAnn_live 0
  · refine (h.invariant (P := fun w => (0 : ℤ) ≤ w.cursor ∧ w.returned 0 = []) ⟨le_rfl, rfl⟩ ?_).2
    intro w a w' hw _ hs
    obtain ⟨hc, hr⟩ := FeedWorld.passed hs (s := 0) hw.1
    exact ⟨hc, hr.trans hw.2⟩

/-- The announcement is returned when its line is whole. -/
theorem returned_once_sample : ∃ w : FeedWorld, w.published = [sampleAnn] ∧ w.cursor = 0 ∧
    w.returned 0 = [(0, sampleAnn)] := by
  have h := reach_returned "" sampleAnn_wf sampleAnn_admitted (sampleAnn_live 0) rfl
  refine ⟨_, rfl, rfl, (returned_once h rfl fun e he _ _ => ?_).1⟩
  rw [List.mem_singleton.1 he]
  exact sampleAnn_live 0

end Market

end NthDao
