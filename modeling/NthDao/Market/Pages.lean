/-
  Polling a feed page by page.

  A reader polls with a limit and the cursor it got last, until the cursor stays where it is.

  * `pages` are the polls with a sequence of limits;
  * `PagesExact`: in concatenation they return what one poll without a limit returns;
  * `pollLoop_visible`: a poll returns the announcements from its cursor on, up to the cursor
    that it returns;
  * `pages_exact_iff`: the pages are exact unless a line makes the poll raise.
-/
import NthDao.Market.FeedRuns

namespace NthDao

open Py

namespace Market

variable (H : Host)

/-! ## Pages -/

/-- What stays the same from page to page: the time, the stores, and whether expired
    announcements are returned. -/
structure Reader where
  now : ℤ
  stores : TaskAnnouncement → Binding
  includeExpired : Bool := false

/-- A poll of the reader. -/
def Reader.args (q : Reader) (limit : Option ℤ) : PollArgs :=
  { limit := limit
    includeExpired := q.includeExpired
    now := fun _ => q.now
    stores := fun _ => q.stores }

variable (q : Reader) (file : Bytes) (since : ℤ)

/-- The announcements on the first `n` pages, and the cursor after them. -/
def pages (limits : ℕ → ℤ) : ℕ → Except String (List (ℕ × TaskAnnouncement) × ℤ)
  | 0 => .ok ([], since)
  | n + 1 => do
    let (seen, cursor) ← pages limits n
    let r ← poll H (q.args (some (limits n))) (some file) cursor
    return (seen ++ r.announcements, r.cursor)

/-- Page by page the reader gets what one poll returns, in the same order and each once,
    the cursor never goes back, and there is a page on which it stays. -/
def PagesExact : Prop :=
  ∃ whole, poll H (q.args none) (some file) since = .ok whole ∧
    (whole.announcements.map Prod.fst).Pairwise (· < ·) ∧
    ∀ limits : ℕ → ℤ, (∀ n, 1 ≤ limits n) →
      (∀ n, ∃ seen cursor r, pages H q file since limits n = .ok (seen, cursor) ∧
        poll H (q.args (some (limits n))) (some file) cursor = .ok r ∧ cursor ≤ r.cursor ∧
        (r.cursor = cursor → seen ++ r.announcements = whole.announcements)) ∧
      ∃ n seen seen' cursor, pages H q file since limits n = .ok (seen, cursor) ∧
        pages H q file since limits (n + 1) = .ok (seen', cursor)

/-- The log can be read, and no line behind the cursor makes its check raise. -/
def Quiet : Prop :=
  ∃ recs, readAll file = .ok recs ∧ ∀ (s : ℕ) raw, recs[s]? = some raw → since < (s : ℤ) →
    ∃ a, safeParse H q.stores raw = .ok a

/-! ## What a poll leaves for the next one -/

/-- The announcements behind the cursor `since`, of the lines from `k` on. -/
def visible (f : ℕ → Option Json → Option TaskAnnouncement) (since : ℤ) :
    ℕ → List (Option Json) → List (ℕ × TaskAnnouncement)
  | _, [] => []
  | k, raw :: rest =>
    (if since < (k : ℤ) then ((f k raw).map fun a => (k, a)).toList else []) ++
      visible f since (k + 1) rest

variable {H q file since} {f : ℕ → Option Json → Option TaskAnnouncement} {p : PollArgs}

theorem visible_cons_of_le {k : ℕ} (h : (k : ℤ) ≤ since) (raw : Option Json)
    (rest : List (Option Json)) : visible f since k (raw :: rest) = visible f since (k + 1) rest := by
  rw [visible, if_neg (by omega), List.nil_append]

theorem visible_cons_of_lt {k : ℕ} (h : since < (k : ℤ)) (raw : Option Json)
    (rest : List (Option Json)) : visible f since k (raw :: rest) =
      ((f k raw).map fun a => (k, a)).toList ++ visible f since (k + 1) rest := by
  rw [visible, if_pos h]

/-- A cursor before the first of the lines hides none of them. -/
theorem visible_congr {since' : ℤ} {k : ℕ} (h : since < (k : ℤ)) (h' : since' < (k : ℤ))
    (recs : List (Option Json)) : visible f since k recs = visible f since' k recs := by
  induction recs generalizing k with
  | nil => rfl
  | cons raw rest ih =>
    rw [visible_cons_of_lt h, visible_cons_of_lt h', ih (by omega) (by omega)]

theorem visible_of_le {k : ℕ} {recs : List (Option Json)}
    (h : ∀ s < recs.length, ((k + s : ℕ) : ℤ) ≤ since) : visible f since k recs = [] := by
  induction recs generalizing k with
  | nil => rfl
  | cons raw rest ih =>
    rw [visible_cons_of_le (by simpa using h 0 (by simp))]
    refine ih fun s hs => ?_
    have := h (s + 1) (by simpa using hs)
    push_cast at this ⊢
    omega

/-- The lines are in order. -/
theorem visible_pairwise {k : ℕ} (recs : List (Option Json)) :
    ((visible f since k recs).map Prod.fst).Pairwise (· < ·) ∧
      ∀ x ∈ visible f since k recs, k ≤ x.1 := by
  induction recs generalizing k with
  | nil => exact ⟨List.Pairwise.nil, fun x hx => absurd hx List.not_mem_nil⟩
  | cons raw rest ih =>
    obtain ⟨hpair, hmem⟩ := ih (k := k + 1)
    by_cases hk : (k : ℤ) ≤ since
    · rw [visible_cons_of_le hk]
      exact ⟨hpair, fun x hx => (Nat.le_succ k).trans (hmem x hx)⟩
    · rw [visible_cons_of_lt (by omega)]
      cases f k raw with
      | none => exact ⟨hpair, fun x hx => (Nat.le_succ k).trans (hmem x hx)⟩
      | some a =>
        constructor
        · refine List.pairwise_cons.2 ⟨fun m hm => ?_, hpair⟩
          obtain ⟨x, hx, rfl⟩ := List.mem_map.1 hm
          exact hmem x hx
        · intro x hx
          rcases List.mem_cons.1 hx with rfl | hx
          · exact le_rfl
          · exact (Nat.le_succ k).trans (hmem x hx)

/-- **What a poll returns is what its new cursor hides.** -/
theorem pollLoop_visible {k : ℕ} {recs : List (Option Json)} {r r' : PollResult}
    (hs : since ≤ r.cursor) (hc : r.cursor ≤ since ∨ r.cursor < k)
    (h : pollLoop H p since k recs r = .ok r') :
    r'.announcements ++ visible (shown H p) r'.cursor k recs =
      r.announcements ++ visible (shown H p) since k recs := by
  induction recs generalizing k r with
  | nil =>
    cases h
    rfl
  | cons raw rest ih =>
    rw [pollLoop] at h
    by_cases hk : (k : ℤ) ≤ since
    · rw [if_pos hk] at h
      obtain ⟨news, hn⟩ := pollLoop_spec hs (by omega) h
      have hle := hn.le
      rw [visible_cons_of_le hk, visible_cons_of_le (by omega)]
      exact ih hs (by omega) h
    · rw [if_neg hk] at h
      have next : ∀ {r₁ : PollResult}, r₁.cursor = k → pollLoop H p since (k + 1) rest r₁ = .ok r' →
          r₁.announcements = r.announcements ++ ((shown H p k raw).map fun a => (k, a)).toList →
          r'.announcements ++ visible (shown H p) r'.cursor k (raw :: rest) =
            r.announcements ++ visible (shown H p) since k (raw :: rest) := by
        intro r₁ h₁ hp hann
        obtain ⟨news, hn⟩ := pollLoop_spec (by omega) (by omega) hp
        have hle := hn.le
        rw [visible_cons_of_le (by omega), visible_cons_of_lt (by omega),
          ih (by omega) (by omega) hp, hann, List.append_assoc]
      split at h
      · cases h
      · rename_i hsafe
        exact next rfl h (by simp [shown, hsafe])
      · rename_i a hsafe
        split at h
        · rename_i hskip
          exact next rfl h (by simp [shown, hsafe, hskip])
        rename_i hskip
        split at h
        · -- the limit is reached: the next poll starts at this line
          cases h
          rw [show visible (shown H p) _ k (raw :: rest) = visible (shown H p) since k (raw :: rest)
            from visible_congr (by omega) (by omega) _]
        · exact next rfl h (by simp [shown, hsafe, hskip])

/-! ## Polls that raise -/

theorem pollLoop_ok {k : ℕ} {recs : List (Option Json)}
    (h : ∀ s raw, recs[s]? = some raw → since < ((k + s : ℕ) : ℤ) →
      ∃ a, safeParse H (p.stores (k + s)) raw = .ok a) (r : PollResult) :
    ∃ r', pollLoop H p since k recs r = .ok r' := by
  induction recs generalizing k r with
  | nil => exact ⟨r, rfl⟩
  | cons raw rest ih =>
    have hrest : ∀ s raw, rest[s]? = some raw → since < ((k + 1 + s : ℕ) : ℤ) →
        ∃ a, safeParse H (p.stores (k + 1 + s)) raw = .ok a := by
      intro s raw' hraw hlt
      have := h (s + 1) raw' hraw (by push_cast at hlt ⊢; omega)
      rwa [show k + (s + 1) = k + 1 + s by omega] at this
    rw [pollLoop]
    by_cases hk : (k : ℤ) ≤ since
    · rw [if_pos hk]
      exact ih hrest r
    · rw [if_neg hk]
      obtain ⟨a, ha⟩ := h 0 raw rfl (by omega)
      rw [Nat.add_zero] at ha
      rw [ha]
      cases a with
      | none => exact ih hrest _
      | some a =>
        dsimp only
        split_ifs
        · exact ih hrest _
        · exact ⟨r, rfl⟩
        · exact ih hrest _

/-- A poll without a limit comes to every line behind the cursor. -/
theorem safeParse_of_pollLoop (hl : p.limit = none) {k : ℕ} {recs : List (Option Json)}
    {r r' : PollResult} (h : pollLoop H p since k recs r = .ok r') {s : ℕ} {raw : Option Json}
    (hs : recs[s]? = some raw) (hlt : since < ((k + s : ℕ) : ℤ)) :
    ∃ a, safeParse H (p.stores (k + s)) raw = .ok a := by
  induction recs generalizing k r s with
  | nil => cases hs
  | cons raw' rest ih =>
    rw [pollLoop] at h
    have later : ∀ {r₁ : PollResult}, pollLoop H p since (k + 1) rest r₁ = .ok r' →
        ∀ {t : ℕ}, s = t + 1 → ∃ a, safeParse H (p.stores (k + s)) raw = .ok a := by
      rintro r₁ h₁ t rfl
      have := ih h₁ hs (by push_cast at hlt ⊢; omega)
      rwa [show k + 1 + t = k + (t + 1) by omega] at this
    by_cases hk : (k : ℤ) ≤ since
    · rw [if_pos hk] at h
      cases s with
      | zero => omega
      | succ t => exact later h rfl
    · rw [if_neg hk] at h
      cases hsafe : safeParse H (p.stores k) raw' with
      | error text =>
        rw [hsafe] at h
        cases h
      | ok o =>
        cases s with
        | zero =>
          cases hs
          exact ⟨o, hsafe⟩
        | succ t =>
          rw [hsafe] at h
          cases o with
          | none => exact later h rfl
          | some a =>
            dsimp only at h
            split_ifs at h with hskip hfull
            · exact later h rfl
            · rw [PollArgs.full, hl] at hfull
              cases hfull
            · exact later h rfl

/-! ## Page by page -/

variable {recs : List (Option Json)}

theorem poll_eq (hr : readAll file = .ok recs) (limit : Option ℤ) (cursor : ℤ) :
    poll H (q.args limit) (some file) cursor =
      pollLoop H (q.args limit) cursor 0 recs ⟨[], cursor⟩ := by
  rw [poll, readLog, hr, ok_bind]

/-- The announcements that the reader still has to see, from a cursor on. -/
def Reader.ahead (H : Host) (q : Reader) (recs : List (Option Json)) (cursor : ℤ) :
    List (ℕ × TaskAnnouncement) :=
  visible (shown H (q.args none)) cursor 0 recs

/-- One poll, from a cursor behind `since`. -/
theorem exists_poll (hr : readAll file = .ok recs)
    (hq : ∀ (s : ℕ) raw, recs[s]? = some raw → since < (s : ℤ) → ∃ a, safeParse H q.stores raw = .ok a)
    {cursor : ℤ} (hc : since ≤ cursor) (limit : Option ℤ) :
    ∃ r, poll H (q.args limit) (some file) cursor = .ok r ∧ cursor ≤ r.cursor ∧
      (r.cursor = cursor ∨ r.cursor < recs.length) ∧
      r.announcements ++ q.ahead H recs r.cursor = q.ahead H recs cursor ∧
      (limit = none → q.ahead H recs r.cursor = []) ∧
      ((∀ n, limit = some n → 1 ≤ n) → r.cursor = cursor → q.ahead H recs cursor = []) := by
  obtain ⟨r, h⟩ : ∃ r, pollLoop H (q.args limit) cursor 0 recs ⟨[], cursor⟩ = .ok r :=
    pollLoop_ok (fun s raw hs hlt => hq s raw hs (by push_cast at hlt; omega)) _
  obtain ⟨news, hn⟩ : ∃ news, Polled H (q.args limit) cursor 0 recs ⟨[], cursor⟩ r news :=
    pollLoop_spec (r := ⟨[], cursor⟩) le_rfl (.inl le_rfl) h
  have hv := pollLoop_visible (r := ⟨[], cursor⟩) le_rfl (.inl le_rfl) h
  refine ⟨r, by rw [poll_eq hr, h], hn.le, by simpa using hn.cursor_lt, hv, ?_, ?_⟩
  · rintro rfl
    exact visible_of_le fun s hs => hn.progress rfl s hs
  · intro hl he
    refine visible_of_le fun s hs => ?_
    by_contra hlt
    have hfar : cursor < ((0 + s : ℕ) : ℤ) := by omega
    have : cursor < r.cursor :=
      pollLoop_advances (r := ⟨[], cursor⟩) hl (.inl rfl) le_rfl h hs hfar
    omega

/-- The pages so far, and what is left. -/
theorem exists_pages (hr : readAll file = .ok recs)
    (hq : ∀ (s : ℕ) raw, recs[s]? = some raw → since < (s : ℤ) → ∃ a, safeParse H q.stores raw = .ok a)
    (limits : ℕ → ℤ) (n : ℕ) :
    ∃ seen cursor, pages H q file since limits n = .ok (seen, cursor) ∧ since ≤ cursor ∧
      (cursor = since ∨ cursor < recs.length) ∧
      seen ++ q.ahead H recs cursor = q.ahead H recs since := by
  induction n with
  | zero => exact ⟨[], since, rfl, le_rfl, .inl rfl, rfl⟩
  | succ n ih =>
    obtain ⟨seen, cursor, hp, hc, hlt, hsplit⟩ := ih
    obtain ⟨r, hpoll, hle, hr', hv, -⟩ := exists_poll hr hq hc (some (limits n))
    refine ⟨seen ++ r.announcements, r.cursor, ?_, hc.trans hle, by omega, ?_⟩
    · rw [pages, hp, ok_bind]
      simp only [hpoll, ok_bind]
      rfl
    · rw [List.append_assoc, hv, hsplit]

/-- There is a page on which the cursor stays. -/
theorem exists_stop (hr : readAll file = .ok recs)
    (hq : ∀ (s : ℕ) raw, recs[s]? = some raw → since < (s : ℤ) → ∃ a, safeParse H q.stores raw = .ok a)
    (limits : ℕ → ℤ) : ∃ n seen seen' cursor, pages H q file since limits n = .ok (seen, cursor) ∧
      pages H q file since limits (n + 1) = .ok (seen', cursor) := by
  by_contra hno
  have far : ∀ n : ℕ, ∃ seen cursor, pages H q file since limits n = .ok (seen, cursor) ∧
      since + n ≤ cursor ∧ (cursor = since ∨ cursor < recs.length) := by
    intro n
    induction n with
    | zero => exact ⟨[], since, rfl, by simp, .inl rfl⟩
    | succ n ih =>
      obtain ⟨seen, cursor, hp, hfar, -⟩ := ih
      obtain ⟨seen', cursor', hp', -, hlt, -⟩ := exists_pages hr hq limits (n + 1)
      obtain ⟨r, hpoll, hle, -⟩ := exists_poll hr hq (show since ≤ cursor by omega)
        (some (limits n))
      have hcur : cursor' = r.cursor := by
        rw [pages, hp, ok_bind] at hp'
        simp only [hpoll, ok_bind] at hp'
        cases hp'
        rfl
      have hne : cursor' ≠ cursor := by
        rintro rfl
        exact hno ⟨n, seen, seen', cursor', hp, hp'⟩
      refine ⟨seen', cursor', hp', ?_, hlt⟩
      push_cast
      omega
  obtain ⟨seen, cursor, -, hfar, hlt⟩ := far ((recs.length - since).toNat + 1)
  push_cast at hfar
  omega

/-- **The pages are exact** just when the log can be read and no line behind the cursor
    makes its check raise. -/
theorem pages_exact_iff (H : Host) (q : Reader) (file : Bytes) (since : ℤ) :
    PagesExact H q file since ↔ Quiet H q file since := by
  constructor
  · rintro ⟨whole, hpoll, -⟩
    rw [poll, bind_eq_ok] at hpoll
    obtain ⟨recs, hr, h⟩ := hpoll
    refine ⟨recs, hr, fun s raw hs hlt => ?_⟩
    have := safeParse_of_pollLoop (p := q.args none) rfl h hs (by simpa using hlt)
    exact this
  · rintro ⟨recs, hr, hq⟩
    obtain ⟨whole, hpoll, -, -, hv, hall, -⟩ := exists_poll hr hq le_rfl none
    rw [hall rfl, List.append_nil] at hv
    refine ⟨whole, hpoll, hv ▸ (visible_pairwise recs).1, fun limits hl => ⟨fun n => ?_, ?_⟩⟩
    · obtain ⟨seen, cursor, hp, hc, -, hsplit⟩ := exists_pages hr hq limits n
      obtain ⟨r, hpoll', hle, -, hv', -, hstop⟩ := exists_poll hr hq hc (some (limits n))
      refine ⟨seen, cursor, r, hp, hpoll', hle, fun he => ?_⟩
      have hnil := hstop (fun m hm => Option.some.inj hm ▸ hl n) he
      rw [he, hnil, List.append_nil] at hv'
      rw [hnil, List.append_nil] at hsplit
      rw [hv', List.append_nil, hsplit, hv]
    · exact exists_stop hr hq limits

/-! ## A line that blocks every poll -/

/-- A record that `publish` does not write: its kind is a list. -/
def tamperedAnn : TaskAnnouncement :=
  { unsignedSample with
    kind := .arr []
    publisherSig := .str "s" }

/-- A reader whose stores know every listing. -/
def sampleReader : Reader := { now := 5, stores := bindsAll }

theorem printed_tamperedAnn : Printed tamperedAnn := ⟨by decide, by decide⟩

theorem readAll_line {a : TaskAnnouncement} (ha : Printed a) :
    readAll (lineBytes a) = .ok [some (.obj a.toDict)] := by
  have h := readAll_content (fun b hb => List.mem_singleton.1 hb ▸ ha) (q := []) (by simp)
  rw [List.append_nil] at h
  have hc : content [a] = payload a ++ ['\n'] := content_concat [] a
  rw [lineBytes, ← hc, h]
  rfl

/-- The check of the record raises: a list cannot be looked up in the set of kinds. -/
theorem verify_tamperedAnn :
    verifyAnnouncement checksumHost tamperedAnn = .error (.raises "unhashable type") := by
  rfl

/-- **One tampered line makes every poll raise**, so there are no pages at all. -/
theorem pages_tampered :
    ¬ PagesExact checksumHost sampleReader (lineBytes tamperedAnn) (-1) := by
  rintro ⟨whole, h, -⟩
  have hsafe : safeParse checksumHost ((sampleReader.args none).stores 0)
      (some (.obj tamperedAnn.toDict)) = .error "unhashable type" := by
    simp only [safeParse, fromDict_toDict, verify_tamperedAnn]
  have hpoll : poll checksumHost (sampleReader.args none) (some (lineBytes tamperedAnn)) (-1) =
      .error "unhashable type" := by
    rw [poll_eq (readAll_line printed_tamperedAnn), pollLoop, if_neg (by decide), hsafe]
  rw [hpoll] at h
  cases h

end Market

end NthDao
