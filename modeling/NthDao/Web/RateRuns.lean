/-
  Runs of the rate limiter (`PersistentRateLimiter`, `web/rate_limit.py`).

  Any number of workers check keys in any order; their clocks read anything.

  * `World.counted`, `World.used`: the times in the window, as a check finds them and at the
    last committed time;
  * `passed`: the times of the checks of a key that passed;
  * `RetryExact`: a denial says when the oldest time leaves the window;
  * `Repeats`: a denial repeats an earlier one of the worker, by the monotonic clock;
  * `limiter_enforces`: the budget holds in every run, and what each denial says.
-/
import NthDao.Reach
import NthDao.Web.RateState

namespace NthDao

open Py Runs SlidingWindow

namespace Web

variable (H : Host) (c : Settings)

/-! ## What is counted -/

namespace World

variable (w : World)

/-- The committed clock. -/
def lastNowMs : ℤ :=
  match loadState w.file with
  | .ok state => state.lastNowMs
  | .error _ => 0

/-- The times of a key that a check with this reading counts. -/
def counted (observedMs : ℤ) (key : String) : List ℤ :=
  match loadState w.file with
  | .ok state =>
    let kept := cleaned c (rebaseMs c state.lastNowMs observedMs)
      (nowMsValue c state.lastNowMs observedMs) state.buckets
    (kept.get (privateKey H (state.salt.getD "") key)).getD []
  | .error _ => []

/-- The times of a key in the file. -/
def stored (key : String) : List ℤ :=
  match loadState w.file with
  | .ok state =>
    match Json.get state.buckets (privateKey H (state.salt.getD "") key) with
    | .arr values => values.filterMap Json.asInt
    | _ => []
  | .error _ => []

/-- How much of the budget of a key is used at the last committed time. -/
def used (key : String) : ℕ := (inWindow c.windowMs w.lastNowMs (w.stored H key)).length

end World

/-- The times of the checks of a key that passed, the first one first. -/
def passed (runs : List CheckRun) (key : String) : List ℤ :=
  ((runs.filter fun r => r.key = key ∧ r.decision.allowed = true).map CheckRun.atMs).reverse

/-- The effective clock of the checks that read the file, the last one first. -/
def effective (runs : List CheckRun) : List ℤ :=
  (runs.filter fun r => r.basis = .file).map CheckRun.atMs

/-- The denial says after which time the oldest check in the window leaves it. -/
def RetryExact (r : CheckRun) (before : List CheckRun) : Prop :=
  ∃ oldest ∈ inWindow c.windowMs r.atMs (passed before r.key),
    (∀ t ∈ inWindow c.windowMs r.atMs (passed before r.key), oldest ≤ t) ∧
    r.decision.retryAfterSeconds = ((oldest + c.windowMs - r.atMs : ℤ) : ℚ) / 1000

/-- The worker repeats a denial from the file that has not ended by either of its clocks, less
    the time since by the monotonic clock. -/
def Repeats (r : CheckRun) (before : List CheckRun) : Prop :=
  r.decision.allowed = false ∧ ∃ first ∈ before, first.basis = .file ∧
    first.decision.allowed = false ∧ first.worker = r.worker ∧ first.key = r.key ∧
    r.decision.retryAfterSeconds = first.decision.retryAfterSeconds - (r.mono - first.mono) ∧
    0 < r.decision.retryAfterSeconds ∧
    (r.atMs : ℚ) < first.atMs + 1000 * first.decision.retryAfterSeconds

/-- The checks are those of `keys`. -/
def Uses (keys : Finset String) (_ : World) : Act → Prop
  | .arrive _ key _ _ => key ∈ keys
  | _ => True

/-! ## Records -/

variable {H c} {runs : List CheckRun} {r : CheckRun} {key : String}

theorem passed_cons (r : CheckRun) (runs : List CheckRun) (key : String) : passed (r :: runs) key =
    if r.key = key ∧ r.decision.allowed = true then passed runs key ++ [r.atMs]
    else passed runs key := by
  rw [passed, List.filter_cons]
  by_cases h : r.key = key ∧ r.decision.allowed = true
  · rw [if_pos h, if_pos (by simpa using h), List.map_cons, List.reverse_cons, passed]
  · rw [if_neg h, if_neg (by simpa using h), passed]

theorem effective_cons_file (h : r.basis = .file) : effective (r :: runs) = r.atMs :: effective runs := by
  rw [effective, List.filter_cons_of_pos (by simpa using h), List.map_cons, effective]

theorem effective_cons_of_ne (h : r.basis ≠ .file) : effective (r :: runs) = effective runs := by
  rw [effective, List.filter_cons_of_neg (by simpa using h), effective]

/-- The state is what the passed checks of the keys leave in the window, and its time is that of
    a check. -/
structure Tracks (H : Host) (c : Settings) (keys : Finset String) (s : RateState)
    (runs : List CheckRun) : Prop where
  window : ∀ key ∈ keys, key ≠ "" → inWindow c.windowMs s.lastNowMs (s.bucket H key) =
    inWindow c.windowMs s.lastNowMs (passed runs key)
  le : ∀ key ∈ keys, key ≠ "" → ∀ t ∈ passed runs key, t ≤ s.lastNowMs
  now : s.lastNowMs = 0 ∨ s.lastNowMs ∈ effective runs

/-- What holds of the records of a run. -/
structure Recorded (H : Host) (c : Settings) (keys : Finset String) (runs : List CheckRun) :
    Prop where
  mem : ∀ r ∈ runs, r.key ∈ keys
  noKey : ∀ r ∈ runs, r.decision.allowed = true → r.basis ≠ .file → r.key = ""
  repeats : ∀ r before, r :: before <:+ runs → r.basis = .memory → Repeats r before
  bounded : (effective runs).Pairwise (· ≥ ·) → ∀ key ∈ keys, key ≠ "" →
    Bounded c.maxPerWindow c.windowMs (passed runs key)
  exact : (effective runs).Pairwise (· ≥ ·) → ∀ r before, r :: before <:+ runs →
    r.basis = .file → r.decision.allowed = false → RetryExact c r before

/-- A denial that a worker remembers. -/
def Remembered (H : Host) (secret : Salt) (runs : List CheckRun) (i : ℕ) (pk : String)
    (entry : ℚ × ℤ) : Prop :=
  ∃ first ∈ runs, first.basis = .file ∧ first.decision.allowed = false ∧ first.worker = i ∧
    pk = localCacheKey H secret first.key ∧
    entry.1 = first.mono + first.decision.retryAfterSeconds ∧
    (entry.2 : ℚ) = first.atMs + 1000 * first.decision.retryAfterSeconds

/-- The invariant: `o` is the state in the file. -/
structure World.Sound (H : Host) (c : Settings) (keys : Finset String) (secret : ℕ → Salt)
    (w : World) (o : Option RateState) : Prop where
  file : w.file = o.map RateState.toJson
  ok : ∀ s, o = some s → s.Ok H c keys
  waiting : ∀ p ∈ w.waiting, p.key ∈ keys ∧ p.key ≠ ""
  denials : ∀ i pk entry, (w.denials i).get pk = some entry →
    Remembered H (secret i) w.runs i pk entry
  runs : Recorded H c keys w.runs
  tracks : (effective w.runs).Pairwise (· ≥ ·) → ∀ fresh,
    Tracks H c keys (o.getD { salt := fresh }) w.runs

/-! ## One more record -/

variable {keys : Finset String} {s : RateState}

theorem pairwise_of_cons (h : (effective (r :: runs)).Pairwise (· ≥ ·)) :
    (effective runs).Pairwise (· ≥ ·) := by
  by_cases hb : r.basis = .file
  · rw [effective_cons_file hb, List.pairwise_cons] at h
    exact h.2
  · rwa [effective_cons_of_ne hb] at h

theorem Recorded.cons (h : Recorded H c keys runs) (hkey : r.key ∈ keys)
    (hno : r.decision.allowed = true → r.basis ≠ .file → r.key = "")
    (hrep : r.basis = .memory → Repeats r runs)
    (hbound : (effective (r :: runs)).Pairwise (· ≥ ·) → ∀ key ∈ keys, key ≠ "" →
      Bounded c.maxPerWindow c.windowMs (passed (r :: runs) key))
    (hexact : (effective (r :: runs)).Pairwise (· ≥ ·) → r.basis = .file →
      r.decision.allowed = false → RetryExact c r runs) : Recorded H c keys (r :: runs) where
  mem := List.forall_mem_cons.2 ⟨hkey, h.mem⟩
  noKey := List.forall_mem_cons.2 ⟨hno, h.noKey⟩
  repeats := by
    intro r' before hsuf
    rcases List.suffix_cons_iff.1 hsuf with heq | hsuf
    · cases heq
      exact hrep
    · exact h.repeats r' before hsuf
  bounded := hbound
  exact := by
    intro hs r' before hsuf
    rcases List.suffix_cons_iff.1 hsuf with heq | hsuf
    · cases heq
      exact hexact hs
    · exact h.exact (pairwise_of_cons hs) r' before hsuf

/-- A record that is no passed check of a key, and that did not read the file. -/
theorem Tracks.other (h : Tracks H c keys s runs) (hb : r.basis ≠ .file)
    (hno : r.decision.allowed = true → r.key = "") : Tracks H c keys s (r :: runs) := by
  have hp : ∀ key, key ≠ "" → passed (r :: runs) key = passed runs key := by
    intro key hne
    rw [passed_cons, if_neg]
    rintro ⟨rfl, ha⟩
    exact hne (hno ha)
  refine ⟨fun key hk hne => ?_, fun key hk hne => ?_, ?_⟩
  · rw [hp key hne]
    exact h.window key hk hne
  · rw [hp key hne]
    exact h.le key hk hne
  · rw [effective_cons_of_ne hb]
    exact h.now

theorem Recorded.other (h : Recorded H c keys runs) (hkey : r.key ∈ keys) (hb : r.basis ≠ .file)
    (hno : r.decision.allowed = true → r.key = "") (hrep : r.basis = .memory → Repeats r runs) :
    Recorded H c keys (r :: runs) := by
  refine h.cons hkey (fun ha _ => hno ha) hrep (fun hs key hk hne => ?_) (fun _ hf => absurd hf hb)
  rw [passed_cons, if_neg]
  · exact h.bounded (pairwise_of_cons hs) key hk hne
  · rintro ⟨rfl, ha⟩
    exact hne (hno ha)

theorem Remembered.cons {secret : Salt} {i : ℕ} {pk : String} {entry : ℚ × ℤ}
    (h : Remembered H secret runs i pk entry) (r : CheckRun) :
    Remembered H secret (r :: runs) i pk entry := by
  obtain ⟨first, hmem, hrest⟩ := h
  exact ⟨first, List.mem_cons_of_mem _ hmem, hrest⟩

/-! ## The denials of a worker -/

theorem get_of_pop {d : Denials} {k l : String} {entry : ℚ × ℤ} (h : (d.pop k).get l = some entry) :
    d.get l = some entry := by
  rw [Dict.get_pop] at h
  split_ifs at h
  exact h

/-- What is remembered after a look at the denials was remembered before. -/
theorem get_of_cachedDenial {d : Denials} {pk k : String} {now : ℚ} {observed : ℤ}
    {entry : ℚ × ℤ} (h : (cachedDenial d pk now observed).1.get k = some entry) :
    d.get k = some entry := by
  unfold cachedDenial at h
  split at h
  · exact h
  · split_ifs at h
    · exact get_of_pop h
    · exact h

theorem cachedDenial_eq_some {d : Denials} {pk : String} {now : ℚ} {observed : ℤ}
    {decision : RateLimitDecision} (h : (cachedDenial d pk now observed).2 = some decision) :
    ∃ entry, d.get pk = some entry ∧ now < entry.1 ∧ observed < entry.2 ∧
      decision = ⟨false, entry.1 - now, 0⟩ := by
  unfold cachedDenial at h
  split at h
  · cases h
  · rename_i deniedUntil wallUntilMs hget
    split_ifs at h with hover
    cases h
    simp only [Bool.or_eq_true, decide_eq_true_eq, not_or, not_le] at hover
    exact ⟨_, hget, hover.1, hover.2, rfl⟩

/-- What is remembered after a denial is that one, or was remembered before. -/
theorem get_of_rememberDenial {d : Denials} {pk k : String} {now retry : ℚ} {wall : ℤ}
    {entry : ℚ × ℤ} (h : (rememberDenial c d pk now retry wall).get k = some entry) :
    (k = pk ∧ entry = (now + max 0 retry, wall)) ∨ d.get k = some entry := by
  unfold rememberDenial at h
  rw [Dict.get_set] at h
  by_cases hk : k = pk
  · rw [if_pos hk] at h
    exact .inl ⟨hk, (Option.some.inj h).symm⟩
  · rw [if_neg hk] at h
    right
    split_ifs at h
    · unfold popMin at h
      split at h
      · exact get_of_pop h
      · exact h
    · exact h

/-! ## A check that reads the file -/

/-- The first time of a full bucket is the oldest, and in the window. -/
theorem RateState.Ok.oldest (h : s.Ok H c keys) {observedMs : ℤ} (hpos : 0 ≤ observedMs)
    (hfull : c.maxPerWindow ≤ ((s.seen c observedMs).bucket H key).length) :
    ∃ oldest, ((s.seen c observedMs).bucket H key).headD 0 = oldest ∧
      oldest ∈ (s.seen c observedMs).bucket H key ∧
      (∀ t ∈ (s.seen c observedMs).bucket H key, oldest ≤ t) ∧
      (s.seen c observedMs).lastNowMs - c.windowMs < oldest := by
  have hmax := c.max_pos
  have hmem := h.bucket_seen observedMs key
  have hb := (h.seen hpos).bucket_of key
  cases hbucket : (s.seen c observedMs).bucket H key with
  | nil =>
    rw [hbucket] at hfull
    simp at hfull
    omega
  | cons oldest rest =>
    rw [hbucket] at hb hmem
    refine ⟨oldest, rfl, List.mem_cons_self, ?_, ?_⟩
    · rcases hb with hb | hb
      · cases hb
      · intro t ht
        rcases List.mem_cons.1 ht with rfl | ht
        · exact le_rfl
        · exact (List.pairwise_cons.1 hb.sorted).1 t ht
    · have hin : oldest ∈ oldest :: rest := List.mem_cons_self
      rw [hmem, mem_inWindow] at hin
      exact hin.2.1

/-- While the effective clock does not go back, no check moves the times in the file. -/
theorem Tracks.not_rebase (h : Tracks H c keys s runs) (hb : r.basis = .file) {observedMs : ℤ}
    (hat : r.atMs = nowMsValue c s.lastNowMs observedMs) (hpos : 0 ≤ observedMs)
    (hs : (effective (r :: runs)).Pairwise (· ≥ ·)) : ¬ c.windowMs < s.lastNowMs - observedMs := by
  intro hr
  have hw := c.window_pos
  rw [(nowMsValue_of_rebase hr).2] at hat
  rw [effective_cons_file hb, List.pairwise_cons] at hs
  rcases h.now with h0 | hmem
  · omega
  · have := hs.1 _ hmem
    omega

/-- A check then finds the passed checks that are in its window. -/
theorem Tracks.bucket_seen (h : Tracks H c keys s runs) (hok : s.Ok H c keys) {observedMs : ℤ}
    (hnr : ¬ c.windowMs < s.lastNowMs - observedMs) (hk : key ∈ keys) (hne : key ≠ "") :
    (s.seen c observedMs).bucket H key =
      inWindow c.windowMs (s.seen c observedMs).lastNowMs (passed runs key) := by
  obtain ⟨hreb, hnow⟩ := nowMsValue_of_not_rebase hnr
  have hle : s.lastNowMs ≤ (s.seen c observedMs).lastNowMs := by
    show s.lastNowMs ≤ nowMsValue c s.lastNowMs observedMs
    rw [hnow]
    exact le_max_right _ _
  have hbucket : ∀ t ∈ s.bucket H key, t ≤ s.lastNowMs := by
    rcases hok.bucket_of key with hb | hb
    · rw [hb]
      exact fun t ht => absurd ht List.not_mem_nil
    · exact hb.le
  calc (s.seen c observedMs).bucket H key
      = inWindow c.windowMs (s.seen c observedMs).lastNowMs (s.bucket H key) := by
        rw [hok.bucket_seen, hreb]
        simp only [sub_zero, List.map_id']
        rfl
    _ = inWindow c.windowMs (s.seen c observedMs).lastNowMs
          (inWindow c.windowMs s.lastNowMs (s.bucket H key)) := (inWindow_inWindow hle hbucket).symm
    _ = inWindow c.windowMs (s.seen c observedMs).lastNowMs (passed runs key) := by
        rw [h.window key hk hne, inWindow_inWindow hle (h.le key hk hne)]

/-- The state after a check, if it is another one. -/
def after (H : Host) (c : Settings) (o : Option RateState) (s : RateState) (key : String)
    (observedMs : ℤ) : Option RateState :=
  if c.maxPerWindow ≤ ((s.seen c observedMs).bucket H key).length then
    if rebaseMs c s.lastNowMs observedMs ≠ 0 then some (s.seen c observedMs) else o
  else some ((s.seen c observedMs).pass H key)

theorem file_verdict {file : Option Json} {o : Option RateState} (hf : file = o.map RateState.toJson)
    (s : RateState) (key : String) (observedMs : ℤ) :
    (verdict H c file s key observedMs).file =
      (after H c o s key observedMs).map RateState.toJson := by
  unfold verdict after
  dsimp only
  split_ifs
  · rfl
  · exact hf
  · rfl

theorem ok_after {o : Option RateState} (ho : ∀ s, o = some s → s.Ok H c keys)
    (hok : s.Ok H c keys) (hk : key ∈ keys) {observedMs : ℤ} (hpos : 0 ≤ observedMs) :
    ∀ s', after H c o s key observedMs = some s' → s'.Ok H c keys := by
  intro s' h
  unfold after at h
  split_ifs at h with hfull hr
  · cases h
    exact hok.seen hpos
  · exact ho s' h
  · cases h
    exact (hok.seen hpos).pass hk (not_le.1 hfull)

theorem nowMs_verdict (file : Option Json) (s : RateState) (key : String) (observedMs : ℤ) :
    (verdict H c file s key observedMs).nowMs = nowMsValue c s.lastNowMs observedMs := by
  unfold verdict
  dsimp only
  split_ifs <;> rfl

/-- What a check says: it passes while there is room, and else waits for the oldest time. -/
theorem decision_verdict (hok : s.Ok H c keys) {observedMs : ℤ} (hpos : 0 ≤ observedMs)
    (file : Option Json) (key : String) :
    (((s.seen c observedMs).bucket H key).length < c.maxPerWindow ∧
      (verdict H c file s key observedMs).decision.allowed = true ∧
      (verdict H c file s key observedMs).wallUntilMs = none) ∨
    ∃ oldest, oldest ∈ (s.seen c observedMs).bucket H key ∧
      (∀ t ∈ (s.seen c observedMs).bucket H key, oldest ≤ t) ∧
      c.maxPerWindow ≤ ((s.seen c observedMs).bucket H key).length ∧
      (verdict H c file s key observedMs).decision.allowed = false ∧
      0 < (verdict H c file s key observedMs).decision.retryAfterSeconds ∧
      (verdict H c file s key observedMs).decision.retryAfterSeconds =
        ((oldest + c.windowMs - nowMsValue c s.lastNowMs observedMs : ℤ) : ℚ) / 1000 ∧
      (verdict H c file s key observedMs).wallUntilMs = some (oldest + c.windowMs) := by
  by_cases hfull : c.maxPerWindow ≤ ((s.seen c observedMs).bucket H key).length
  · right
    obtain ⟨oldest, hhead, hmem, hleast, hin⟩ := hok.oldest hpos hfull
    have hpositive : 0 < oldest + c.windowMs - (s.seen c observedMs).lastNowMs := by omega
    have hcast : (0 : ℚ) < ((oldest + c.windowMs - (s.seen c observedMs).lastNowMs : ℤ) : ℚ) := by
      exact_mod_cast hpositive
    refine ⟨oldest, hmem, hleast, hfull, ?_⟩
    unfold verdict
    dsimp only
    rw [if_pos hfull, hhead, max_eq_right hpositive.le]
    exact ⟨rfl, by positivity, rfl, rfl⟩
  · left
    unfold verdict
    dsimp only
    rw [if_neg hfull]
    exact ⟨not_le.1 hfull, rfl, rfl⟩

theorem Tracks.denied (h : Tracks H c keys s runs) (hd : r.decision.allowed = false) :
    Tracks H c keys s (r :: runs) := by
  have hp : ∀ key, passed (r :: runs) key = passed runs key := by
    intro key
    rw [passed_cons, if_neg]
    rintro ⟨-, ha⟩
    rw [hd] at ha
    cases ha
  refine ⟨fun key hk hne => ?_, fun key hk hne => ?_, ?_⟩
  · rw [hp]
    exact h.window key hk hne
  · rw [hp]
    exact h.le key hk hne
  · rcases h.now with h0 | hmem
    · exact .inl h0
    · right
      by_cases hb : r.basis = .file
      · rw [effective_cons_file hb]
        exact List.mem_cons_of_mem _ hmem
      · rw [effective_cons_of_ne hb]
        exact hmem

/-- The state after a check that passes tracks it too. -/
theorem Tracks.pass (h : Tracks H c keys s runs) (hok : s.Ok H c keys)
    (hinj : Set.InjOn (privateKey H s.salt.text) keys) {observedMs : ℤ}
    (hnr : ¬ c.windowMs < s.lastNowMs - observedMs) (hk : r.key ∈ keys)
    (hat : r.atMs = nowMsValue c s.lastNowMs observedMs) (hb : r.basis = .file)
    (ha : r.decision.allowed = true) :
    Tracks H c keys ((s.seen c observedMs).pass H r.key) (r :: runs) := by
  have hlast : ((s.seen c observedMs).pass H r.key).lastNowMs = r.atMs := hat.symm
  have hle : s.lastNowMs ≤ r.atMs := by
    rw [hat, (nowMsValue_of_not_rebase hnr).2]
    exact le_max_right _ _
  have hseen : ∀ key ∈ keys, key ≠ "" → (s.seen c observedMs).bucket H key =
      inWindow c.windowMs r.atMs (passed runs key) := by
    intro key hk' hne
    rw [hat]
    exact h.bucket_seen hok hnr hk' hne
  have htimes : ∀ key ∈ keys, key ≠ "" → ∀ t ∈ passed runs key, t ≤ r.atMs :=
    fun key hk' hne t ht => (h.le key hk' hne t ht).trans hle
  have htwice : ∀ key ∈ keys, key ≠ "" →
      inWindow c.windowMs r.atMs (inWindow c.windowMs r.atMs (passed runs key)) =
        inWindow c.windowMs r.atMs (passed runs key) :=
    fun key hk' hne => inWindow_inWindow le_rfl (htimes key hk' hne)
  refine ⟨fun key hk' hne => ?_, fun key hk' hne t ht => ?_, ?_⟩
  · rw [hlast, RateState.bucket_pass, passed_cons]
    by_cases hkey : key = r.key
    · subst hkey
      have htime : (s.seen c observedMs).lastNowMs = r.atMs := hat.symm
      rw [if_pos rfl, if_pos ⟨rfl, ha⟩, hseen _ hk hne, htime, inWindow_self_push c.window_pos,
        inWindow_self_push c.window_pos, htwice _ hk hne]
    · have hpk : privateKey H (s.seen c observedMs).salt.text key ≠
          privateKey H (s.seen c observedMs).salt.text r.key := fun he => hkey (hinj hk' hk he)
      rw [if_neg hpk, if_neg fun hc => hkey hc.1.symm, hseen key hk' hne, htwice key hk' hne]
  · rw [hlast]
    rw [passed_cons] at ht
    split_ifs at ht with hr
    · rcases List.mem_append.1 ht with ht | ht
      · exact htimes key hk' hne t ht
      · rw [List.mem_singleton.1 ht]
    · exact htimes key hk' hne t ht
  · right
    rw [hlast, effective_cons_file hb]
    exact List.mem_cons_self

variable {secret : ℕ → Salt} {w : World} {o : Option RateState}

theorem World.Sound.loads (h : w.Sound H c keys secret o) (fresh : Salt) :
    Loads w.file fresh (o.getD { salt := fresh }) ∧ (o.getD { salt := fresh }).Ok H c keys := by
  cases o with
  | none =>
    exact ⟨.inl ⟨h.file, rfl⟩, ⟨le_rfl, List.nodup_nil, fun p hp => absurd hp List.not_mem_nil,
      fun p hp => absurd hp List.not_mem_nil⟩⟩
  | some s => exact ⟨.inr h.file, h.ok s rfl⟩

/-- **A check that gets the lock keeps the invariant.** -/
theorem World.Sound.enter (h : w.Sound H c keys secret o) (hcard : keys.card ≤ c.maxTrackedKeys)
    (hinj : ∀ salt : Salt, Set.InjOn (privateKey H salt.text) keys) {n : ℕ} {fresh : Salt}
    {mono : ℚ} {w' : World} (hs : step H c secret w (.enter n fresh mono) = some w') :
    ∃ p o', w.waiting[n]? = some p ∧ w'.Sound H c keys secret o' ∧
      o' = after H c o (o.getD { salt := fresh }) p.key p.observedMs := by
  simp only [step, Option.map_eq_some_iff] at hs
  obtain ⟨p, hp, hs⟩ := hs
  obtain ⟨hloads, hok⟩ := h.loads fresh
  obtain ⟨hk, hne⟩ := h.waiting p (List.mem_of_getElem? hp)
  have hpos : (0 : ℤ) ≤ p.observedMs := Int.natCast_nonneg _
  refine ⟨p, _, hp, ?_, rfl⟩
  generalize hst : o.getD { salt := fresh } = s at hloads hok
  rw [checkLocked_eq hok hcard hk hloads hpos] at hs
  dsimp only at hs
  subst hs
  have hdec := decision_verdict hok hpos w.file p.key
  have hnow := nowMs_verdict (H := H) (c := c) w.file s p.key p.observedMs
  have hfile := file_verdict (H := H) (c := c) h.file s p.key p.observedMs
  generalize verdict H c w.file s p.key p.observedMs = v at hdec hnow hfile
  -- what is recorded
  generalize hr : (⟨p.worker, p.key, v.nowMs, mono, v.decision, .file⟩ : CheckRun) = r
  have hkey : r.key = p.key := by rw [← hr]
  have hworker : r.worker = p.worker := by rw [← hr]
  have hbasis : r.basis = .file := by rw [← hr]
  have hdecision : r.decision = v.decision := by rw [← hr]
  have hmono : r.mono = mono := by rw [← hr]
  have hat : r.atMs = nowMsValue c s.lastNowMs p.observedMs := by rw [← hnow, ← hr]
  have htracks : (effective (r :: w.runs)).Pairwise (· ≥ ·) → Tracks H c keys s w.runs ∧
      ¬ c.windowMs < s.lastNowMs - p.observedMs := by
    intro hsorted
    have ht := h.tracks (pairwise_of_cons hsorted) fresh
    rw [hst] at ht
    exact ⟨ht, ht.not_rebase hbasis hat hpos hsorted⟩
  unfold World.settle
  rw [hr]
  refine ⟨hfile, ok_after h.ok hok hk hpos, ?_, ?_, ?_, ?_⟩
  · exact fun q hq => h.waiting q (List.mem_of_mem_eraseIdx hq)
  · intro i pk entry hget
    by_cases hi : i = p.worker
    · subst hi
      simp only [Function.update_self] at hget
      rcases hdec with ⟨-, -, hwall⟩ | ⟨oldest, -, -, -, hd, hpositive, hretry, hwall⟩
      · rw [hwall] at hget
        exact (h.denials _ pk entry (get_of_pop hget)).cons r
      · rw [hwall] at hget
        rcases get_of_rememberDenial hget with ⟨rfl, rfl⟩ | hget
        · refine ⟨r, List.mem_cons_self, hbasis, by rw [hdecision, hd], hworker, by rw [hkey], ?_, ?_⟩
          · rw [hmono, hdecision, max_eq_right hpositive.le]
          · rw [hdecision, hretry, hat]
            push_cast
            ring
        · exact (h.denials _ pk entry hget).cons r
    · simp only [Function.update_of_ne hi] at hget
      exact (h.denials i pk entry hget).cons r
  · refine h.runs.cons (hkey ▸ hk) (fun _ hb => absurd hbasis hb)
      (fun hb => by rw [hbasis] at hb; cases hb) (fun hsorted key hk' hne' => ?_)
      (fun hsorted _ hd => ?_)
    · obtain ⟨ht, hnr⟩ := htracks hsorted
      have hb := h.runs.bounded (pairwise_of_cons hsorted) key hk' hne'
      rw [passed_cons]
      split_ifs with hpass
      · have hle : ∀ t ∈ passed w.runs key, t ≤ r.atMs := by
          intro t ht'
          have h₁ := ht.le key hk' hne' t ht'
          have h₂ : s.lastNowMs ≤ r.atMs := by
            rw [hat, (nowMsValue_of_not_rebase hnr).2]
            exact le_max_right _ _
          exact h₁.trans h₂
        refine hb.push hle ?_
        rcases hdec with ⟨hroom, -⟩ | ⟨oldest, -, -, -, hd, -⟩
        · have hseen := ht.bucket_seen hok hnr hk' hne'
          rw [← hpass.1, hkey] at hseen ⊢
          rw [hat]
          rw [hseen] at hroom
          exact hroom
        · rw [hdecision, hd] at hpass
          exact absurd hpass.2 (by decide)
      · exact hb
    · obtain ⟨ht, hnr⟩ := htracks hsorted
      rcases hdec with ⟨-, hallowed, -⟩ | ⟨oldest, hmem, hleast, -, -, -, hretry, -⟩
      · rw [hdecision, hallowed] at hd
        cases hd
      · have hseen := ht.bucket_seen hok hnr hk hne
        have hlast : (s.seen c p.observedMs).lastNowMs = r.atMs := hat.symm
        rw [hlast] at hseen
        refine ⟨oldest, ?_, ?_, ?_⟩
        · rw [hkey, ← hseen]
          exact hmem
        · rw [hkey, ← hseen]
          exact hleast
        · rw [hdecision, hretry, hat]
  · intro hsorted fresh'
    obtain ⟨ht, hnr⟩ := htracks hsorted
    unfold after
    rcases hdec with ⟨hroom, hallowed, -⟩ | ⟨oldest, -, -, hfull, hd, -⟩
    · rw [if_neg (not_le.2 hroom), Option.getD_some, ← hkey]
      exact ht.pass hok (hinj s.salt) hnr (hkey ▸ hk) hat hbasis (hdecision ▸ hallowed)
    · rw [if_pos hfull, if_neg (by rw [(nowMsValue_of_not_rebase hnr).1]; simp)]
      exact (h.tracks (pairwise_of_cons hsorted) fresh').denied (hdecision ▸ hd)

/-- A check that arrives keeps it too. -/
theorem World.Sound.arrive (h : w.Sound H c keys secret o)
    (hinj : ∀ salt : Salt, Set.InjOn (privateKey H salt.text) keys) {i : ℕ} {key : String}
    {observedMs : ℕ} {mono : ℚ} {w' : World} (hk : key ∈ keys)
    (hs : step H c secret w (.arrive i key observedMs mono) = some w') :
    w'.Sound H c keys secret o := by
  rw [step] at hs
  by_cases hne : key = ""
  · rw [if_pos hne] at hs
    cases hs
    have hbasis : Basis.noKey ≠ .file := by decide
    refine ⟨h.file, h.ok, h.waiting, fun j pk entry hget => (h.denials j pk entry hget).cons _, ?_, ?_⟩
    · exact h.runs.other hk hbasis (fun _ => hne) (fun hb => by cases hb)
    · intro hsorted fresh
      exact (h.tracks (pairwise_of_cons hsorted) fresh).other hbasis fun _ => hne
  rw [if_neg hne] at hs
  have hget : ∀ {d j pk entry},
      Dict.get (Function.update w.denials i d j) pk = some entry →
      d = (cachedDenial (w.denials i) (localCacheKey H (secret i) key) mono observedMs).1 →
      Dict.get (w.denials j) pk = some entry := by
    rintro d j pk entry hg rfl
    by_cases hj : j = i
    · subst hj
      rw [Function.update_self] at hg
      exact get_of_cachedDenial hg
    · rwa [Function.update_of_ne hj] at hg
  split at hs
  · rename_i d decision hcached
    cases hs
    have hbasis : Basis.memory ≠ .file := by decide
    obtain ⟨entry, hentry, hmono, hwall, rfl⟩ := cachedDenial_eq_some (congrArg Prod.snd hcached)
    obtain ⟨first, hmem, hfile, hdenied, hworker, hpk, huntil, hends⟩ := h.denials i _ entry hentry
    have hkey : first.key = key :=
      (hinj (secret i) hk (h.runs.mem first hmem) hpk).symm
    have hrep : Repeats ⟨i, key, observedMs, mono, ⟨false, entry.1 - mono, 0⟩, .memory⟩ w.runs := by
      refine ⟨rfl, first, hmem, hfile, hdenied, hworker, hkey, ?_, sub_pos.2 hmono, ?_⟩
      · show entry.1 - mono = _
        rw [huntil]
        ring
      · show ((observedMs : ℤ) : ℚ) < _
        rw [← hends]
        exact_mod_cast hwall
    have hd : (⟨i, key, observedMs, mono, ⟨false, entry.1 - mono, 0⟩, .memory⟩ :
        CheckRun).decision.allowed ≠ true := Bool.false_ne_true
    refine ⟨h.file, h.ok, h.waiting, fun j pk e hg =>
      (h.denials j pk e (hget hg (congrArg Prod.fst hcached).symm)).cons _, ?_, ?_⟩
    · exact h.runs.other hk hbasis (fun ha => absurd ha hd) fun _ => hrep
    · intro hsorted fresh
      exact (h.tracks (pairwise_of_cons hsorted) fresh).other hbasis fun ha => absurd ha hd
  · rename_i d hcached
    cases hs
    refine ⟨h.file, h.ok, fun p hp => ?_, fun j pk e hg =>
      h.denials j pk e (hget hg (congrArg Prod.fst hcached).symm), h.runs, h.tracks⟩
    rcases List.mem_append.1 hp with hp | hp
    · exact h.waiting p hp
    · rw [List.mem_singleton.1 hp]
      exact ⟨hk, hne⟩

/-! ## Every run -/

theorem World.sound_start : ({} : World).Sound H c keys secret none where
  file := rfl
  ok := fun s hs => by cases hs
  waiting := fun p hp => absurd hp List.not_mem_nil
  denials := fun i pk entry h => by cases h
  runs := ⟨fun r hr => absurd hr List.not_mem_nil, fun r hr => absurd hr List.not_mem_nil,
    fun r before hs => by simp at hs, fun _ _ _ _ => bounded_nil _ _,
    fun _ r before hs => by simp at hs⟩
  tracks := fun _ fresh => ⟨fun _ _ _ => rfl, fun _ _ _ t ht => absurd ht List.not_mem_nil, .inl rfl⟩

theorem sound_of_reach (hcard : keys.card ≤ c.maxTrackedKeys)
    (hinj : ∀ salt : Salt, Set.InjOn (privateKey H salt.text) keys)
    (hr : Reach (step H c secret) (Uses keys) {} w) : ∃ o, w.Sound H c keys secret o := by
  refine hr.invariant (P := fun w => ∃ o, w.Sound H c keys secret o) ⟨none, World.sound_start⟩ ?_
  rintro w a w' ⟨o, h⟩ hk hs
  cases a with
  | arrive i key observedMs mono => exact ⟨o, h.arrive hinj hk hs⟩
  | enter n fresh mono =>
    obtain ⟨p, o', -, hsound, -⟩ := h.enter hcard hinj hs
    exact ⟨o', hsound⟩
  | timeout n =>
    cases hs
    exact ⟨o, h.file, h.ok, fun p hp => h.waiting p (List.mem_of_mem_eraseIdx hp), h.denials, h.runs,
      h.tracks⟩

/-! ## The budget -/

theorem World.counted_of_none (hf : w.file = none) (observedMs : ℤ) (key : String) :
    w.counted H c observedMs key = [] := by
  rw [counted, hf]
  simp [loadState, cleaned, Dict.get]

theorem World.used_of_none (hf : w.file = none) (key : String) : w.used H c key = 0 := by
  rw [used, stored, hf]
  rfl

theorem World.counted_eq (hf : w.file = some s.toJson) (hok : s.Ok H c keys)
    (hcard : keys.card ≤ c.maxTrackedKeys) (observedMs : ℤ) (key : String) :
    w.counted H c observedMs key = (s.seen c observedMs).bucket H key := by
  rw [counted, hf, loadState_toJson hok.now]
  simp only [hok.cleaned_eq hcard, Option.getD_some]
  rfl

theorem World.lastNowMs_eq (hf : w.file = some s.toJson) (hok : s.Ok H c keys) :
    w.lastNowMs = s.lastNowMs := by
  rw [lastNowMs, hf, loadState_toJson hok.now]

theorem World.stored_eq (hf : w.file = some s.toJson) (hok : s.Ok H c keys) (key : String) :
    w.stored H key = s.bucket H key := by
  have hints : ∀ ts : List ℤ, (ts.map Json.int).filterMap Json.asInt = ts := by
    intro ts
    rw [List.filterMap_map]
    exact List.filterMap_some
  rw [stored, hf, loadState_toJson hok.now]
  simp only [Option.getD_some, Json.get, Json.lookup, List.find?_map, RateState.bucket, Dict.get]
  cases hg : s.buckets.find? fun p => p.1 == privateKey H s.salt.text key with
  | none =>
    have hg' : s.buckets.find? ((fun p : String × Json => p.1 == privateKey H s.salt.text key) ∘
        fun p => (p.1, .arr (p.2.map .int))) = none := hg
    rw [hg']
    rfl
  | some p =>
    have hg' : s.buckets.find? ((fun p : String × Json => p.1 == privateKey H s.salt.text key) ∘
        fun p => (p.1, .arr (p.2.map .int))) = some p := hg
    rw [hg']
    exact hints p.2

theorem World.used_eq (hf : w.file = some s.toJson) (hok : s.Ok H c keys) (key : String) :
    w.used H c key = (inWindow c.windowMs s.lastNowMs (s.bucket H key)).length := by
  rw [used, lastNowMs_eq hf hok, stored_eq hf hok]

/-- A check that passes adds to the times of its key. -/
theorem RateState.length_bucket_pass (s : RateState) (key other : String) :
    (inWindow c.windowMs s.lastNowMs (s.bucket H other)).length ≤
      (inWindow c.windowMs s.lastNowMs ((s.pass H key).bucket H other)).length := by
  rw [bucket_pass]
  split_ifs with h
  · have hb : s.bucket H other = s.bucket H key := by rw [bucket, bucket, h]
    rw [hb, inWindow_append, List.length_append]
    exact Nat.le_add_right _ _
  · exact le_rfl

/-- **Going back frees no budget.** -/
theorem World.Sound.used_le (h : w.Sound H c keys secret o) (hcard : keys.card ≤ c.maxTrackedKeys)
    (hinj : ∀ salt : Salt, Set.InjOn (privateKey H salt.text) keys) {n : ℕ} {p : Waiting}
    {fresh : Salt} {mono : ℚ} {w' : World} (hp : w.waiting[n]? = some p)
    (hle : (p.observedMs : ℤ) ≤ w.lastNowMs)
    (hs : step H c secret w (.enter n fresh mono) = some w') (key : String) :
    w.used H c key ≤ w'.used H c key := by
  obtain ⟨p', o', hp', hsound, rfl⟩ := h.enter hcard hinj hs
  cases hp.symm.trans hp'
  cases o with
  | none =>
    rw [used_of_none h.file]
    exact Nat.zero_le _
  | some s =>
    have hf : w.file = some s.toJson := h.file
    have hok := h.ok s rfl
    have hpos : (0 : ℤ) ≤ p.observedMs := Int.natCast_nonneg _
    rw [lastNowMs_eq hf hok] at hle
    rw [used_eq hf hok, ← hok.length_bucket_seen hle]
    have hseen := hok.seen hpos
    have hall : (s.seen c p.observedMs).bucket H key =
        inWindow c.windowMs (s.seen c p.observedMs).lastNowMs
          ((s.seen c p.observedMs).bucket H key) := by
      have hin : ∀ t ∈ (s.seen c p.observedMs).bucket H key,
          (s.seen c p.observedMs).lastNowMs - c.windowMs < t ∧
            t ≤ (s.seen c p.observedMs).lastNowMs := by
        intro t ht
        rw [hok.bucket_seen, mem_inWindow] at ht
        exact ht.2
      exact (List.filter_eq_self.2 fun t ht => by simpa using hin t ht).symm
    have hnew := hsound.file
    rw [Option.getD_some, after] at hnew hsound
    split_ifs at hnew hsound with hfull hr
    · rw [used_eq hnew (hsound.ok _ rfl), ← hall]
    · rw [used_eq hnew (hsound.ok _ rfl), hok.length_bucket_seen hle]
    · rw [used_eq hnew (hsound.ok _ rfl)]
      have hgrow := RateState.length_bucket_pass (H := H) (c := c) (s.seen c p.observedMs) p.key key
      rw [← hall] at hgrow
      exact hgrow

/-- **The limiter in every run.**  A clock that has gone back, by any amount, finds as much of
    every budget used as at the last committed time, and its check frees none.  While the
    effective clock does not go back, no half-open interval of a window holds more checks of a
    key that passed than its budget, and a denial from the file gives the time until the oldest
    check leaves the window.  A denial without the file repeats one of these, less the time
    since then by the monotonic clock. -/
theorem limiter_enforces (hcard : keys.card ≤ c.maxTrackedKeys)
    (hinj : ∀ salt : Salt, Set.InjOn (privateKey H salt.text) keys)
    (hr : Reach (step H c secret) (Uses keys) {} w) :
    (∀ observedMs : ℕ, (observedMs : ℤ) ≤ w.lastNowMs → ∀ key,
      (w.counted H c observedMs key).length = w.used H c key) ∧
    (∀ n p fresh mono w', w.waiting[n]? = some p → (p.observedMs : ℤ) ≤ w.lastNowMs →
      step H c secret w (.enter n fresh mono) = some w' → ∀ key, w.used H c key ≤ w'.used H c key) ∧
    ((effective w.runs).Pairwise (· ≥ ·) →
      (∀ key, key ≠ "" → Bounded c.maxPerWindow c.windowMs (passed w.runs key)) ∧
      ∀ r before, r :: before <:+ w.runs → r.basis = .file → r.decision.allowed = false →
        RetryExact c r before) ∧
    ∀ r before, r :: before <:+ w.runs → r.basis = .memory → Repeats r before := by
  obtain ⟨o, h⟩ := sound_of_reach hcard hinj hr
  refine ⟨fun observedMs hle key => ?_, fun n p fresh mono w' hp hle hs key =>
    h.used_le hcard hinj hp hle hs key, fun hsorted => ⟨fun key hne => ?_,
    h.runs.exact hsorted⟩, h.runs.repeats⟩
  · cases o with
    | none => rw [World.counted_of_none h.file, World.used_of_none h.file, List.length_nil]
    | some s =>
      have hf : w.file = some s.toJson := h.file
      have hok := h.ok s rfl
      rw [World.lastNowMs_eq hf hok] at hle
      rw [World.counted_eq hf hok hcard, World.used_eq hf hok, hok.length_bucket_seen hle]
  · by_cases hk : key ∈ keys
    · exact h.runs.bounded hsorted key hk hne
    · have hnone : passed w.runs key = [] := by
        have hfilter : (w.runs.filter fun r => r.key = key ∧ r.decision.allowed = true) = [] := by
          rw [List.filter_eq_nil_iff]
          intro r hr' hpass
          rw [decide_eq_true_eq] at hpass
          exact hk (hpass.1 ▸ h.runs.mem r hr')
        rw [passed, hfilter]
        rfl
      rw [hnone]
      exact bounded_nil _ _

/-! ## Two runs of one worker -/

/-- One check in a second. -/
def sampleSettings : Settings := ⟨1, 1000, 10, Nat.one_pos, by decide, by decide⟩

def zeroSalt : Salt := ⟨String.ofList (List.replicate 64 '0'), by decide⟩

/-- A check that passes, one that is denied, and one more, half a second later by the wall clock
    but a tenth by the monotonic clock. -/
def sampleActs : List Act :=
  [.arrive 0 "k" 0 0, .enter 0 zeroSalt 0, .arrive 0 "k" 0 0, .enter 0 zeroSalt 0,
    .arrive 0 "k" 500 (1 / 10)]

def sampleRun (acts : List Act) : Option World :=
  run (step checksumHost sampleSettings fun _ => zeroSalt) {} acts

/-- The last two checks of the sample, the last one first. -/
def sampleDenial : CheckRun := ⟨0, "k", 500, 1 / 10, ⟨false, 9 / 10, 0⟩, .memory⟩

def sampleBefore : List CheckRun :=
  [⟨0, "k", 0, 0, ⟨false, 1, 0⟩, .file⟩, ⟨0, "k", 0, 0, ⟨true, 0, 0⟩, .file⟩,
    ⟨0, "", 0, 0, ⟨true, 0, 1⟩, .noKey⟩, ⟨0, "", 0, 0, ⟨true, 0, 1⟩, .noKey⟩]

/-- What the runs record; the second one starts with two checks without a key. -/
def sampleRecords : PLift ((sampleRun sampleActs).isSome = true ∧
    (sampleRun (.arrive 0 "" 0 0 :: .arrive 0 "" 0 0 :: sampleActs)).map World.runs =
      some (sampleDenial :: sampleBefore)) := ⟨by decide +kernel⟩

/-- **Not every check counts, and not every denial is exact**: checks without a key all pass, and
    a denial from memory goes by another clock. -/
theorem limiter_exceptions : ∃ w, Reach (step checksumHost sampleSettings fun _ => zeroSalt)
    (Uses {"", "k"}) {} w ∧ (effective w.runs).Pairwise (· ≥ ·) ∧
    ¬ Bounded sampleSettings.maxPerWindow sampleSettings.windowMs (passed w.runs "") ∧
    ∃ r before, r :: before <:+ w.runs ∧ r.decision.allowed = false ∧
      ¬ RetryExact sampleSettings r before := by
  obtain ⟨w, hw, hruns⟩ := Option.map_eq_some_iff.1 sampleRecords.down.2
  have hr : Reach (step checksumHost sampleSettings fun _ => zeroSalt) (Uses {"", "k"}) {} w := by
    refine reach_of_run .start hw fun s a ha => ?_
    simp only [sampleActs, List.mem_cons, List.not_mem_nil, or_false] at ha
    rcases ha with rfl | rfl | rfl | rfl | rfl | rfl | rfl
    · exact Finset.mem_insert_self _ _
    · exact Finset.mem_insert_self _ _
    · exact Finset.mem_insert_of_mem (Finset.mem_singleton_self _)
    · trivial
    · exact Finset.mem_insert_of_mem (Finset.mem_singleton_self _)
    · trivial
    · exact Finset.mem_insert_of_mem (Finset.mem_singleton_self _)
  refine ⟨w, hr, by rw [hruns]; decide, ?_, sampleDenial, sampleBefore, hruns ▸ List.suffix_rfl, rfl,
    ?_⟩
  · intro hb
    have h0 := hb 0
    rw [hruns] at h0
    exact absurd h0 (by decide)
  · rintro ⟨oldest, hmem, -, hretry⟩
    have hpassed : passed sampleBefore "k" = [0] := by decide
    have hzero : oldest = 0 := by
      rw [mem_inWindow] at hmem
      exact List.mem_singleton.1 (hpassed ▸ hmem.1)
    rw [hzero] at hretry
    have hne : (9 / 10 : ℚ) ≠ ((0 + 1000 - 500 : ℤ) : ℚ) / 1000 := by norm_num
    exact hne hretry

/-- The world after the first run. -/
def sampleWorld : World := (sampleRun sampleActs).getD {}

theorem reach_sampleWorld : Reach (step checksumHost sampleSettings fun _ => zeroSalt)
    (Uses {"k"}) {} sampleWorld := by
  obtain ⟨w, hw⟩ := Option.isSome_iff_exists.1 sampleRecords.down.1
  have hs : sampleWorld = w := by rw [sampleWorld, hw, Option.getD_some]
  rw [hs]
  refine reach_of_run .start hw fun s a ha => ?_
  simp only [sampleActs, List.mem_cons, List.not_mem_nil, or_false] at ha
  rcases ha with rfl | rfl | rfl | rfl | rfl
  · exact Finset.mem_singleton_self _
  · trivial
  · exact Finset.mem_singleton_self _
  · trivial
  · exact Finset.mem_singleton_self _

/-- The theorem on the first run. -/
theorem limiter_enforces_sample :
    (∀ observedMs : ℕ, (observedMs : ℤ) ≤ sampleWorld.lastNowMs → ∀ key,
      (sampleWorld.counted checksumHost sampleSettings observedMs key).length =
        sampleWorld.used checksumHost sampleSettings key) ∧
    (∀ n p fresh mono w', sampleWorld.waiting[n]? = some p →
      (p.observedMs : ℤ) ≤ sampleWorld.lastNowMs →
      step checksumHost sampleSettings (fun _ => zeroSalt) sampleWorld (.enter n fresh mono) =
        some w' →
      ∀ key, sampleWorld.used checksumHost sampleSettings key ≤
        w'.used checksumHost sampleSettings key) ∧
    ((effective sampleWorld.runs).Pairwise (· ≥ ·) →
      (∀ key, key ≠ "" → Bounded sampleSettings.maxPerWindow sampleSettings.windowMs
        (passed sampleWorld.runs key)) ∧
      ∀ r before, r :: before <:+ sampleWorld.runs → r.basis = .file →
        r.decision.allowed = false → RetryExact sampleSettings r before) ∧
    ∀ r before, r :: before <:+ sampleWorld.runs → r.basis = .memory → Repeats r before :=
  limiter_enforces (by decide) (fun _ => by simp) reach_sampleWorld

end Web

end NthDao
