/-
  The announcement feed (`nth_dao/market/feed.py`, `nth_dao/util/jsonl_safe.py`).

  One line of `announcements.jsonl` for each announcement; a reader goes by the
  number of the last line it has seen.

  * `appendRefuses`, `payload`: what `publish` checks and the line it appends;
  * `readAll`, `safeParse`, `poll`: what a reader makes of the bytes it sees;
  * `appendLock`, `readLock`: the lock files of the two;
  * `readAll_content`, `readAll_part`: a file of whole lines, and one with the
    beginning of a line at its end;
  * `pollLoop_spec`: what a poll returns, line by line.

  A line whose JSON is corrupt reads as `none`; a number beyond the digit limit raises.
-/
import NthDao.Lines
import NthDao.Market.Announcement
import NthDao.Py.LoadError
import NthDao.Py.Spaced
import NthDao.Py.Utf8

namespace NthDao

open Py

namespace Market

variable (H : Host)

/-! ## Locks -/

/-- `InterProcessLock(path).lock_path`. -/
def lockPath (path : String) : String := path ++ ".lock"

variable (root : String)

/-- `MarketFeed.log_path`. -/
def feedLogPath : String := root ++ "/market_feed/announcements.jsonl"

/-- The lock that `_read_all` holds. -/
def readLock : String := lockPath (feedLogPath root)

/-- The lock that `safe_append_jsonl` holds. -/
def appendLock : String := lockPath (root ++ "/market_feed/.locks/announcements.jsonl")

/-- The two exclude nothing of each other. -/
theorem appendLock_ne_readLock : appendLock root ≠ readLock root := by
  intro h
  have hl := congrArg String.length h
  simp only [appendLock, readLock, lockPath, feedLogPath, String.length_append] at hl
  have hne : "/market_feed/.locks/announcements.jsonl".length ≠
      "/market_feed/announcements.jsonl".length := by decide
  omega

/-! ## The stores behind a listing -/

/-- What `require_listing_binding` finds in the stores. -/
inductive Binding where
  | bound
  | refused
  | raises (text : String)
  deriving DecidableEq

/-- `require_listing_binding`; `stores` is what the stores say of a listing. -/
def requireListingBinding (stores : TaskAnnouncement → Binding) (a : TaskAnnouncement) : Binding :=
  if a.kind.eqStr kindV3 || a.kind.eqStr kindTradeOffer then stores a else .bound

/-! ## Publishing -/

/-- The line of an announcement: `json.dumps(ann.to_dict(), ensure_ascii=False)`. -/
def payload (a : TaskAnnouncement) : List Char := dumpsSpaced (.obj a.toDict)

/-- The checks before the lock is taken: the signature, the binding, and the text. -/
def admitted (stores : TaskAnnouncement → Binding) (a : TaskAnnouncement) : Bool :=
  (verifyAnnouncement H a == .ok ()) && requireListingBinding stores a == .bound &&
    (Json.obj a.toDict).writable

/-- The bytes that are appended. -/
def lineBytes (a : TaskAnnouncement) : Bytes := utf8 (payload a ++ ['\n'])

/-! ## Reading -/

/-- The newlines of a file read as text. -/
def universalNewlines : List Char → List Char
  | [] => []
  | '\r' :: '\n' :: r => '\n' :: universalNewlines r
  | '\r' :: r => '\n' :: universalNewlines r
  | c :: r => c :: universalNewlines r

/-- `line.strip()`. -/
def stripChars (cs : List Char) : List Char :=
  ((cs.dropWhile isSpace).reverse.dropWhile isSpace).reverse

/-- The value on a line, `none` for a blank or a corrupt one. -/
def readRecord (line : List Char) : Except String (Option Json) :=
  if stripChars line = [] then .ok none
  else
    match loadsOr (stripChars line) with
    | .ok v => .ok (some v)
    -- only `JSONDecodeError` is caught
    | .error .decode => .ok none
    | .error .digits => .error "integer beyond the digit limit"

/-- The values of the lines, in order. -/
def readAll (file : Bytes) : Except String (List (Option Json)) := do
  let text ← expect (utf8Decode file) "invalid utf-8"
  (Lines.split '\n' (universalNewlines text)).mapM readRecord

/-- `_read_all`; a file that cannot be read (`none`) counts as empty. -/
def readLog : Option Bytes → Except String (List (Option Json))
  | some file => readAll file
  | none => .ok []

/-- `_safe_parse`. -/
def safeParse (stores : TaskAnnouncement → Binding) (raw : Option Json) :
    Except String (Option TaskAnnouncement) :=
  match raw with
  | some (.obj data) =>
    match TaskAnnouncement.fromDict data with
    | none => .ok none
    | some a =>
      match verifyAnnouncement H a with
      | .error (.raises text) => .error text
      | .error (.reject _) => .ok none
      | .ok _ =>
        match requireListingBinding stores a with
        | .bound => .ok (some a)
        | .refused => .ok none
        | .raises text => .error text
  | _ => .ok none

/-- The arguments of a poll, and what it finds: the time and the stores when it comes
    to a line. -/
structure PollArgs where
  limit : Option ℤ := none
  includeExpired : Bool := false
  now : ℕ → ℤ
  stores : ℕ → TaskAnnouncement → Binding

/-- `PollResult`; each announcement is with the number of its line. -/
structure PollResult where
  announcements : List (ℕ × TaskAnnouncement)
  cursor : ℤ

/-- `limit is not None and len(result.announcements) >= limit`. -/
def PollArgs.full (p : PollArgs) (r : PollResult) : Bool :=
  match p.limit with
  | none => false
  | some k => k ≤ r.announcements.length

/-- An announcement on line `seq` is skipped. -/
def PollArgs.skips (p : PollArgs) (seq : ℕ) (a : TaskAnnouncement) : Bool :=
  !p.includeExpired && a.isExpired (p.now seq)

/-- The loop of `poll`, from line `seq` on. -/
def pollLoop (p : PollArgs) (since : ℤ) :
    ℕ → List (Option Json) → PollResult → Except String PollResult
  | _, [], r => .ok r
  | seq, raw :: rest, r =>
    if (seq : ℤ) ≤ since then pollLoop p since (seq + 1) rest r
    else
      match safeParse H (p.stores seq) raw with
      | .error text => .error text
      | .ok none => pollLoop p since (seq + 1) rest { r with cursor := seq }
      | .ok (some a) =>
        if p.skips seq a then pollLoop p since (seq + 1) rest { r with cursor := seq }
        else if p.full r then .ok r
        else
          pollLoop p since (seq + 1) rest
            { announcements := r.announcements ++ [(seq, a)], cursor := seq }

/-- `poll`. -/
def poll (p : PollArgs) (file : Option Bytes) (since : ℤ) : Except String PollResult := do
  let records ← readLog file
  pollLoop H p since 0 records { announcements := [], cursor := since }

/-! ## The text of a line -/

variable {a : TaskAnnouncement}

theorem payload_eq (a : TaskAnnouncement) : ∃ cs, payload a = '{' :: (cs ++ ['}']) := by
  rw [payload, dumpsSpaced]
  exact ⟨_, rfl⟩

theorem le_of_mem_payload (ha : (Json.obj a.toDict).writable = true) :
    ∀ c ∈ payload a, 0x20 ≤ c.toNat :=
  le_of_mem_dumpsSpaced _ ha

theorem universalNewlines_of_le {cs : List Char} (h : ∀ c ∈ cs, c ≠ '\r') :
    universalNewlines cs = cs := by
  induction cs with
  | nil => rfl
  | cons c cs ih =>
    rw [List.forall_mem_cons] at h
    unfold universalNewlines
    split
    · rename_i heq; cases heq
    · rename_i heq; cases heq; exact absurd rfl h.1
    · rename_i heq; cases heq; exact absurd rfl h.1
    · rename_i heq; cases heq; rw [ih h.2]

/-- The line of an announcement reads back, with or without its newline. -/
theorem readRecord_payload (hw : (Json.obj a.toDict).wf = true)
    (he : (Json.obj a.toDict).writable = true) {nls : List Char} (hn : ∀ c ∈ nls, c = '\n') :
    readRecord (payload a ++ nls) = .ok (some (.obj a.toDict)) := by
  obtain ⟨cs, hcs⟩ := payload_eq a
  have hdrop : nls.reverse.dropWhile isSpace = [] := by
    rw [List.dropWhile_eq_nil_iff]
    intro c hc
    rw [hn c (List.mem_reverse.1 hc)]
    decide
  have hstrip : stripChars (payload a ++ nls) = payload a := by
    rw [stripChars, hcs, List.cons_append, List.dropWhile_cons_of_neg (by decide),
      ← List.cons_append, List.reverse_append, List.dropWhile_append, hdrop]
    simp only [List.isEmpty_nil, if_true]
    rw [← List.cons_append, List.reverse_append, List.reverse_singleton, List.singleton_append,
      List.dropWhile_cons_of_neg (by decide)]
    simp
  have hload : loadsOr (payload a) = .ok (.obj a.toDict) :=
    loadsOr_eq_ok.2 (loads_dumpsSpaced hw he)
  rw [readRecord, hstrip, if_neg (by simp [hcs]), hload]

/-! ## The lines of a file -/

/-- The text of a file with these announcements. -/
def content (as : List TaskAnnouncement) : List Char := as.flatMap fun a => payload a ++ ['\n']

/-- Values of the interpreter that `json.dumps` writes. -/
def Printed (a : TaskAnnouncement) : Prop :=
  (Json.obj a.toDict).wf = true ∧ (Json.obj a.toDict).writable = true

theorem content_concat (as : List TaskAnnouncement) (a : TaskAnnouncement) :
    content (as ++ [a]) = content as ++ (payload a ++ ['\n']) := by
  simp [content]

theorem nl_not_mem_payload (ha : Printed a) : '\n' ∉ payload a := fun h =>
  absurd (le_of_mem_payload ha.2 _ h) (by decide)

theorem cr_not_mem_line (ha : Printed a) : ∀ c ∈ payload a ++ ['\n'], c ≠ '\r' := by
  rintro c hc rfl
  rcases List.mem_append.1 hc with hc | hc
  · exact absurd (le_of_mem_payload ha.2 _ hc) (by decide)
  · exact absurd (List.mem_singleton.1 hc) (by decide)

theorem split_line (ha : Printed a) : Lines.split '\n' (payload a ++ ['\n']) =
    [payload a ++ ['\n']] :=
  Lines.split_line _ (nl_not_mem_payload ha)

theorem whole_content {as : List TaskAnnouncement} (h : ∀ a ∈ as, Printed a) :
    Lines.Whole '\n' (content as) ∧
      Lines.split '\n' (content as) = as.map fun a => payload a ++ ['\n'] := by
  induction as with
  | nil => exact ⟨fun l hl => absurd hl List.not_mem_nil, rfl⟩
  | cons a as ih =>
    rw [List.forall_mem_cons] at h
    obtain ⟨ihw, ihs⟩ := ih h.2
    have hl : Lines.Whole '\n' (payload a ++ ['\n']) := Lines.whole_line _ (nl_not_mem_payload h.1)
    have hc : content (a :: as) = (payload a ++ ['\n']) ++ content as := List.flatMap_cons
    refine ⟨hc ▸ hl.append _ ihw, ?_⟩
    rw [hc, Lines.split_append _ hl, split_line h.1, ihs]
    rfl

theorem mapM_readRecord {as : List TaskAnnouncement} (h : ∀ a ∈ as, Printed a) :
    (as.map fun a => payload a ++ ['\n']).mapM readRecord =
      .ok (as.map fun a => some (.obj a.toDict)) := by
  induction as with
  | nil => rfl
  | cons a as ih =>
    rw [List.forall_mem_cons] at h
    rw [List.map_cons, List.mapM_cons, readRecord_payload h.1.1 h.1.2 (by simp), ih h.2]
    rfl

/-- What is read of whole lines and of a text after them. -/
theorem readAll_content {as : List TaskAnnouncement} (h : ∀ a ∈ as, Printed a) {q : List Char}
    (hq : ∀ c ∈ q, c ≠ '\r') : readAll (utf8 (content as ++ q)) =
      ((Lines.split '\n' q).mapM readRecord).map
        (as.map (fun a => some (.obj a.toDict)) ++ ·) := by
  obtain ⟨hw, hs⟩ := whole_content h
  have hcr : ∀ c ∈ content as ++ q, c ≠ '\r' := by
    intro c hc
    rcases List.mem_append.1 hc with hc | hc
    · obtain ⟨a, ha, hc⟩ := List.mem_flatMap.1 hc
      exact cr_not_mem_line (h a ha) c hc
    · exact hq c hc
  rw [readAll, utf8Decode_utf8]
  show (Lines.split '\n' (universalNewlines (content as ++ q))).mapM readRecord = _
  rw [universalNewlines_of_le hcr, Lines.split_append _ hw, hs, List.mapM_append,
    mapM_readRecord h]
  cases (Lines.split '\n' q).mapM readRecord <;> rfl

/-! ## Polls -/

/-- What a poll makes of line `seq`: an announcement that it returns, if it gets there. -/
def shown (p : PollArgs) (seq : ℕ) (raw : Option Json) : Option TaskAnnouncement :=
  match safeParse H (p.stores seq) raw with
  | .ok (some a) => if p.skips seq a then none else some a
  | _ => none

/-- The lines after `since` that a poll returns, if it gets there. -/
def waiting (p : PollArgs) (since : ℤ) : ℕ → List (Option Json) → ℕ
  | _, [] => 0
  | seq, raw :: rest =>
    (if since < seq ∧ (shown H p seq raw).isSome then 1 else 0) + waiting p since (seq + 1) rest

variable {H}

/-- What a poll that starts at line `k` adds to its result. -/
structure Polled (H : Host) (p : PollArgs) (since : ℤ) (k : ℕ) (recs : List (Option Json))
    (r r' : PollResult) (news : List (ℕ × TaskAnnouncement)) : Prop where
  announcements : r'.announcements = r.announcements ++ news
  le : r.cursor ≤ r'.cursor
  cursor_lt : r'.cursor = r.cursor ∨ r'.cursor < k + recs.length
  mem : ∀ q ∈ news, (k : ℤ) ≤ q.1 ∧ since < q.1 ∧ (q.1 : ℤ) ≤ r'.cursor
  hits : ∀ s raw, recs[s]? = some raw → news.filter (fun q => q.1 = k + s) =
    if since < (k + s : ℕ) ∧ ((k + s : ℕ) : ℤ) ≤ r'.cursor then
      ((shown H p (k + s) raw).map fun a => (k + s, a)).toList
    else []
  progress : p.limit = none → ∀ s < recs.length, ((k + s : ℕ) : ℤ) ≤ r'.cursor

/-- One more line at the front. -/
theorem Polled.cons {p : PollArgs} {since : ℤ} {k : ℕ} {raw : Option Json}
    {rest : List (Option Json)} {r r₁ r' : PollResult} {first news : List (ℕ × TaskAnnouncement)}
    (h : Polled H p since (k + 1) rest r₁ r' news) (hs : since ≤ r.cursor)
    (hann : r₁.announcements = r.announcements ++ first)
    (hfirst : first = if since < (k : ℤ) then
      ((shown H p k raw).map fun a => (k, a)).toList else [])
    (hcur : r₁.cursor = r.cursor ∧ (k : ℤ) ≤ since ∨ r₁.cursor = k ∧ r.cursor ≤ k) :
    Polled H p since k (raw :: rest) r r' (first ++ news) := by
  have hk : ∀ q ∈ first, q.1 = k ∧ since < (k : ℤ) := by
    intro q hq
    rw [hfirst] at hq
    split_ifs at hq with hlt
    · rw [Option.mem_toList, Option.map_eq_some_iff] at hq
      obtain ⟨a, -, rfl⟩ := hq
      exact ⟨rfl, hlt⟩
    · cases hq
  have hle : r₁.cursor ≤ r'.cursor := h.le
  refine ⟨by rw [h.announcements, hann, List.append_assoc], ?_, ?_, ?_, ?_, ?_⟩
  · omega
  · rw [List.length_cons]
    rcases h.cursor_lt with hlt | hlt <;> omega
  · intro q hq
    rcases List.mem_append.1 hq with hq | hq
    · obtain ⟨hqk, hlt⟩ := hk q hq
      omega
    · obtain ⟨h₁, h₂, h₃⟩ := h.mem q hq
      omega
  · intro s raw' hraw
    rw [List.filter_append]
    cases s with
    | zero =>
      cases hraw
      have hnews : news.filter (fun q => q.1 = k + 0) = [] := by
        rw [List.filter_eq_nil_iff]
        intro q hq
        have := (h.mem q hq).1
        simp only [decide_eq_true_eq]
        omega
      have hall : first.filter (fun q => q.1 = k + 0) = first :=
        List.filter_eq_self.2 fun q hq => by simpa using (hk q hq).1
      rw [hnews, hall, List.append_nil, hfirst]
      refine if_congr ?_ rfl rfl
      push_cast
      omega
    | succ s =>
      have hnil : first.filter (fun q => q.1 = k + (s + 1)) = [] := by
        rw [List.filter_eq_nil_iff]
        intro q hq
        have := (hk q hq).1
        simp only [decide_eq_true_eq]
        omega
      have := h.hits s raw' hraw
      rw [Nat.add_right_comm, Nat.add_assoc] at this
      rw [hnil, List.nil_append, this]
  · intro hl s hlt
    cases s with
    | zero => omega
    | succ s =>
      rw [List.length_cons] at hlt
      have := h.progress hl s (by omega)
      push_cast at this ⊢
      omega

/-- **What a poll returns.** -/
theorem pollLoop_spec {p : PollArgs} {since : ℤ} {recs : List (Option Json)} {k : ℕ}
    {r r' : PollResult} (hs : since ≤ r.cursor) (hc : r.cursor ≤ since ∨ r.cursor < k)
    (h : pollLoop H p since k recs r = .ok r') : ∃ news, Polled H p since k recs r r' news := by
  induction recs generalizing k r with
  | nil =>
    cases h
    exact ⟨[], by simp, le_rfl, .inl rfl, by simp, by simp, by simp⟩
  | cons raw rest ih =>
    rw [pollLoop] at h
    by_cases hk : (k : ℤ) ≤ since
    · rw [if_pos hk] at h
      obtain ⟨news, hn⟩ := ih hs (by omega) h
      exact ⟨_, hn.cons hs (List.append_nil _).symm (if_neg (by omega)).symm (.inl ⟨rfl, hk⟩)⟩
    · have next : ∀ {r₁ : PollResult}, r₁.cursor = k → pollLoop H p since (k + 1) rest r₁ = .ok r' →
          r₁.announcements = r.announcements ++ ((shown H p k raw).map fun a => (k, a)).toList →
          ∃ news, Polled H p since k (raw :: rest) r r' news := by
        intro r₁ h₁ hp hann
        obtain ⟨news, hn⟩ := ih (by omega) (by omega) hp
        exact ⟨_, hn.cons hs hann (if_pos (by omega)).symm (.inr ⟨h₁, by omega⟩)⟩
      rw [if_neg hk] at h
      split at h
      · cases h
      · rename_i hsafe
        exact next rfl h (by simp [shown, hsafe])
      · rename_i a hsafe
        split at h
        · rename_i hskip
          exact next rfl h (by simp [shown, hsafe, hskip])
        rename_i hskip
        split at h
        · -- the limit is reached: nothing from here on is returned
          rename_i hfull
          cases h
          refine ⟨[], by simp, le_rfl, .inl rfl, by simp, fun s raw' _ => ?_, fun hl => ?_⟩
          · rw [if_neg (by push_cast; omega), List.filter_nil]
          · simp [PollArgs.full, hl] at hfull
        · exact next rfl h (by simp [shown, hsafe, hskip])

/-- With a limit that allows one announcement, a poll goes on. -/
theorem pollLoop_advances {p : PollArgs} {since : ℤ} {recs : List (Option Json)} {k : ℕ}
    {r r' : PollResult} (hlim : ∀ n, p.limit = some n → 0 < n)
    (hr : r.announcements = [] ∨ since < r.cursor) (hs : since ≤ r.cursor)
    (h : pollLoop H p since k recs r = .ok r') {s : ℕ} (hlt : s < recs.length)
    (hks : since < (k + s : ℕ)) : since < r'.cursor := by
  induction recs generalizing k r s with
  | nil => cases hlt
  | cons raw rest ih =>
    have grow : ∀ {r₁ : PollResult}, r₁.cursor = k → ¬ (k : ℤ) ≤ since →
        pollLoop H p since (k + 1) rest r₁ = .ok r' → since < r'.cursor := by
      intro r₁ h₁ hk hp
      obtain ⟨news, hn⟩ := pollLoop_spec (by omega) (by omega) hp
      have := hn.le
      omega
    rw [pollLoop] at h
    by_cases hk : (k : ℤ) ≤ since
    · rw [if_pos hk] at h
      cases s with
      | zero => omega
      | succ s => exact ih hr hs h (Nat.lt_of_succ_lt_succ hlt) (by omega)
    · rw [if_neg hk] at h
      split at h
      · cases h
      · exact grow rfl hk h
      split at h
      · exact grow rfl hk h
      split at h
      · rename_i hfull
        cases h
        rcases hr with hr | hr
        · cases hn : p.limit with
          | none => simp [PollArgs.full, hn] at hfull
          | some n =>
            have := hlim n hn
            simp only [PollArgs.full, hn, hr, List.length_nil, Nat.cast_zero,
              decide_eq_true_eq] at hfull
            omega
        · exact hr
      · exact grow rfl hk h

/-- A poll that reaches its limit does not see what follows. -/
theorem pollLoop_append {p : PollArgs} {since : ℤ} {recs : List (Option Json)} {k : ℕ} {n : ℤ}
    {r : PollResult} (hl : p.limit = some n)
    (hw : n < (r.announcements.length + waiting H p since k recs : ℕ))
    (hp : 0 < waiting H p since k recs) (extra : List (Option Json)) :
    pollLoop H p since k (recs ++ extra) r = pollLoop H p since k recs r := by
  induction recs generalizing k r with
  | nil => cases hp
  | cons raw rest ih =>
    rw [waiting] at hw hp
    rw [List.cons_append, pollLoop, pollLoop]
    by_cases hk : (k : ℤ) ≤ since
    · rw [if_neg (by omega), zero_add] at hw hp
      rw [if_pos hk, if_pos hk, ih hw hp]
    rw [if_neg hk, if_neg hk]
    have pass : shown H p k raw = none → ∀ r₁ : PollResult,
        r₁.announcements = r.announcements →
        pollLoop H p since (k + 1) (rest ++ extra) r₁ = pollLoop H p since (k + 1) rest r₁ := by
      intro hn r₁ h₁
      rw [hn, if_neg (by simp), zero_add] at hw hp
      exact ih (h₁ ▸ hw) hp
    cases hsafe : safeParse H (p.stores k) raw with
    | error text => rfl
    | ok o =>
      cases o with
      | none => exact pass (by simp [shown, hsafe]) _ rfl
      | some a =>
        dsimp only
        split
        · rename_i hskip
          exact pass (by simp [shown, hsafe, hskip]) _ rfl
        rename_i hskip
        split
        · rfl
        rename_i hfull
        simp only [PollArgs.full, hl, decide_eq_true_eq] at hfull
        rw [if_pos ⟨by omega, by simp [shown, hsafe, hskip]⟩] at hw hp
        refine ih ?_ (by omega)
        rw [List.length_append, List.length_singleton]
        omega

end Market

end NthDao
