/-
  The state of the rate limiter (`PersistentRateLimiter`, `web/rate_limit.py`).

  * `RateState.Ok`: what the file keeps to: each bucket is in order, within the budget, and
    not ahead of the clock;
  * `RateState.seen`: the state as a check finds it; `length_bucket_seen`: a clock that has gone
    back finds as many times in a window as before;
  * `RateState.pass`: the state after a check that passes;
  * `checkLocked_eq`: the check under the lock, on such states.
-/
import NthDao.Recent
import NthDao.SlidingWindow
import NthDao.Web.RateLimit

namespace NthDao

open Py SlidingWindow

namespace Web

variable (H : Host) (c : Settings)

/-! ## States -/

/-- The state of the limiter. -/
structure RateState where
  salt : Salt
  buckets : Buckets := []
  lastNowMs : ℤ := 0

namespace RateState

variable (s : RateState)

def toJson : Json := stateJson s.salt.text s.buckets s.lastNowMs

/-- The times of a key. -/
def bucket (key : String) : List ℤ := (s.buckets.get (privateKey H s.salt.text key)).getD []

/-- A bucket: in order, within the budget, and not ahead of the clock. -/
structure BucketOk (nowMs : ℤ) (ts : List ℤ) : Prop where
  nonempty : ts ≠ []
  sorted : ts.Pairwise (· ≤ ·)
  length : ts.length ≤ c.maxPerWindow
  le : ∀ t ∈ ts, t ≤ nowMs

/-- The states that the limiter writes for `keys`. -/
structure Ok (keys : Finset String) : Prop where
  now : 0 ≤ s.lastNowMs
  nodup : (s.buckets.map Prod.fst).Nodup
  mem : ∀ p ∈ s.buckets, p.1 ∈ keys.image (privateKey H s.salt.text)
  bucket : ∀ p ∈ s.buckets, BucketOk c s.lastNowMs p.2

variable (observedMs : ℤ)

/-- The bucket that is left of `ts`, if any. -/
def keep (rebaseMs nowMs : ℤ) (ts : List ℤ) : Option (List ℤ) :=
  match inWindow c.windowMs nowMs (ts.map (· - rebaseMs)) with
  | [] => none
  | t :: ts => some (t :: ts)

/-- The state as a check finds it. -/
def seen : RateState where
  salt := s.salt
  buckets := s.buckets.filterMap fun p =>
    (keep c (rebaseMs c s.lastNowMs observedMs) (nowMsValue c s.lastNowMs observedMs) p.2).map
      fun ts => (p.1, ts)
  lastNowMs := nowMsValue c s.lastNowMs observedMs

/-- The state after a check passes at the time of the state. -/
def pass (key : String) : RateState :=
  { s with
    buckets := s.buckets.set (privateKey H s.salt.text key) (s.bucket H key ++ [s.lastNowMs]) }

end RateState

/-- The state that a check loads. -/
def Loads (file : Option Json) (fresh : Salt) (s : RateState) : Prop :=
  (file = none ∧ s = { salt := fresh }) ∨ file = some s.toJson

/-! ## Loading -/

variable {H c}

theorem bytesFromHex_isSome : ∀ (n : ℕ) {cs : List Char}, isHex (2 * n) cs = true →
    (bytesFromHex cs).isSome
  | 0, cs, h => by
    rw [isHex, Bool.and_eq_true, beq_iff_eq] at h
    rw [List.length_eq_zero_iff.1 h.1]
    rfl
  | n + 1, cs, h => by
    rw [isHex, Bool.and_eq_true, beq_iff_eq, List.all_eq_true] at h
    obtain ⟨hlen, hall⟩ := h
    rcases cs with _ | ⟨a, _ | ⟨b, r⟩⟩
    · simp at hlen
    · simp at hlen
      omega
    · simp only [List.length_cons] at hlen
      have ih : (bytesFromHex r).isSome := bytesFromHex_isSome n (by
        rw [isHex, Bool.and_eq_true, beq_iff_eq, List.all_eq_true]
        exact ⟨by omega, fun c hc => hall c (by simp [hc])⟩)
      have digit : ∀ c, isHexChar c = true → ∃ v, hexVal c = some v := by
        intro c hc
        simp only [isHexChar, Bool.or_eq_true, Bool.and_eq_true, decide_eq_true_eq] at hc
        unfold hexVal
        rcases hc with hc | hc
        · exact ⟨_, if_pos hc⟩
        · by_cases hd : '0' ≤ c ∧ c ≤ '9'
          · exact ⟨_, if_pos hd⟩
          · exact ⟨_, by rw [if_neg hd, if_pos hc]⟩
      have blank : isAsciiSpace a = false := by
        have ha := hall a (by simp)
        rw [← Bool.not_eq_true]
        intro hs
        simp only [isAsciiSpace, Bool.or_eq_true, beq_iff_eq] at hs
        rcases hs with ((((rfl | rfl) | rfl) | rfl) | rfl) | rfl <;> exact absurd ha (by decide)
      obtain ⟨x, hx⟩ := digit a (hall a (by simp))
      obtain ⟨y, hy⟩ := digit b (hall b (by simp))
      obtain ⟨r', hr⟩ := Option.isSome_iff_exists.1 ih
      rw [bytesFromHex, blank, if_neg (by decide), hx, hy, hr]
      rfl

/-- What is written can be loaded. -/
theorem loadState_toJson {s : RateState} (h : 0 ≤ s.lastNowMs) : loadState (some s.toJson) =
    .ok ⟨some s.salt.text, s.buckets.map fun p => (p.1, .arr (p.2.map .int)), s.lastNowMs⟩ := by
  have hlen : (len s.salt.text == 64) = true := by
    have hhex := s.salt.hex
    rw [isHex, Bool.and_eq_true] at hhex
    rw [len, chars_eq]
    exact hhex.1
  have hhex : (bytesFromHex (chars s.salt.text)).isSome = true := by
    rw [chars_eq]
    exact bytesFromHex_isSome 32 s.salt.hex
  have hload : loadState (some s.toJson) = (do
      require (len s.salt.text == 64) "persistent rate-limit state is malformed"
      require (0 ≤ s.lastNowMs) "persistent rate-limit state is malformed"
      require (bytesFromHex (chars s.salt.text)).isSome "persistent rate-limit salt is malformed"
      return ⟨some s.salt.text, s.buckets.map fun p => (p.1, .arr (p.2.map .int)), s.lastNowMs⟩) :=
    rfl
  rw [hload, hlen, hhex, decide_eq_true h]
  rfl

/-! ## What a check keeps -/

theorem filterMap_keepTime (r now : ℤ) (ts : List ℤ) :
    (ts.map Json.int).filterMap (keepTime c r now) =
      inWindow c.windowMs now (ts.map (· - r)) := by
  induction ts with
  | nil => rfl
  | cons t ts ih =>
    rw [List.map_cons, List.filterMap_cons, ih, keepTime, List.map_cons, inWindow, inWindow,
      List.filter_cons]
    by_cases ht : now - c.windowMs < t - r ∧ t - r ≤ now
    · rw [if_pos ht, if_pos (by simpa using ht)]
    · rw [if_neg ht, if_neg (by simpa using ht)]

/-- Of a bucket in order and within the budget a check keeps the times in the window. -/
theorem timestamps_ints {r now : ℤ} {ts : List ℤ} (hs : ts.Pairwise (· ≤ ·))
    (hl : ts.length ≤ c.maxPerWindow) :
    timestamps c r now (ts.map .int) = inWindow c.windowMs now (ts.map (· - r)) := by
  have hsorted : (inWindow c.windowMs now (ts.map (· - r))).Pairwise (· ≤ ·) := by
    refine List.Pairwise.filter _ (List.pairwise_map.2 (hs.imp fun h => ?_))
    exact sub_le_sub_right h r
  have hlen : (inWindow c.windowMs now (ts.map (· - r))).length ≤ c.maxPerWindow :=
    (length_inWindow_le _ _ _).trans (by rwa [List.length_map])
  rw [timestamps, filterMap_keepTime, List.mergeSort_of_pairwise (by simpa using hsorted),
    Recent.rtake_eq_self hlen]

variable {s : RateState} {keys : Finset String}

/-- There are no more buckets than keys. -/
theorem RateState.Ok.length_le (h : s.Ok H c keys) : s.buckets.length ≤ keys.card := by
  have hsub : (s.buckets.map Prod.fst).toFinset ⊆ keys.image (privateKey H s.salt.text) := by
    intro k hk
    obtain ⟨p, hp, rfl⟩ := List.mem_map.1 (List.mem_toFinset.1 hk)
    exact h.mem p hp
  rw [← List.length_map (f := Prod.fst), ← List.toFinset_card_of_nodup h.nodup]
  exact (Finset.card_le_card hsub).trans Finset.card_image_le

/-- What a check keeps of the file. -/
theorem RateState.Ok.cleaned_eq (h : s.Ok H c keys) (hk : keys.card ≤ c.maxTrackedKeys)
    (observedMs : ℤ) :
    cleaned c (rebaseMs c s.lastNowMs observedMs) (nowMsValue c s.lastNowMs observedMs)
      (s.buckets.map fun p => (p.1, .arr (p.2.map .int))) = (s.seen c observedMs).buckets := by
  have hlen := h.length_le
  rw [cleaned, List.take_of_length_le (by rw [List.length_map]; omega), List.filterMap_map, seen]
  refine List.filterMap_congr fun p hp => ?_
  have hb := h.bucket p hp
  rw [Function.comp_apply, keep, ← timestamps_ints hb.sorted hb.length]
  dsimp only
  cases timestamps c _ _ (p.2.map .int) <;> rfl

/-! ## The state that a check finds -/

/-- A dictionary of which only some values are kept, changed. -/
theorem get_filterMap {α β : Type} (f : α → Option β) {d : Py.Dict String α}
    (hn : (d.map Prod.fst).Nodup) (k : String) :
    Dict.get (d.filterMap fun p => (f p.2).map fun b => (p.1, b)) k = (d.get k).bind f := by
  induction d with
  | nil => rfl
  | cons p d ih =>
    rw [List.map_cons, List.nodup_cons] at hn
    rw [List.filterMap_cons, Dict.get_cons]
    by_cases hp : p.1 = k
    · rw [if_pos hp, Option.bind_some]
      cases hf : f p.2 with
      | some b => rw [Option.map_some, Dict.get_cons, if_pos hp]
      | none =>
        have hnone : Dict.get d k = none := Dict.get_eq_none.2 (hp ▸ hn.1)
        rw [Option.map_none, ih hn.2, hnone]
        rfl
    · rw [if_neg hp, ← ih hn.2]
      cases f p.2 with
      | some b => rw [Option.map_some, Dict.get_cons, if_neg hp]
      | none => rfl

theorem keys_filterMap_sublist {α β : Type} (f : α → Option β) (d : Py.Dict String α) :
    ((d.filterMap fun p => (f p.2).map fun b => (p.1, b)).map Prod.fst).Sublist
      (d.map Prod.fst) := by
  induction d with
  | nil => exact List.Sublist.slnil
  | cons p d ih =>
    rw [List.filterMap_cons, List.map_cons]
    cases f p.2 with
    | some b => exact ih.cons_cons p.1
    | none => exact ih.cons p.1

theorem keep_getD (r now : ℤ) (o : Option (List ℤ)) : (o.bind (RateState.keep c r now)).getD [] =
    inWindow c.windowMs now ((o.getD []).map (· - r)) := by
  cases o with
  | none => rfl
  | some ts =>
    rw [Option.bind_some, RateState.keep, Option.getD_some]
    split
    · rename_i h
      rw [h]
      rfl
    · rename_i h
      rw [h]
      rfl

/-- **A check finds the times in its window.** -/
theorem RateState.Ok.bucket_seen (h : s.Ok H c keys) (observedMs : ℤ) (key : String) :
    (s.seen c observedMs).bucket H key =
      inWindow c.windowMs (nowMsValue c s.lastNowMs observedMs)
        ((s.bucket H key).map (· - rebaseMs c s.lastNowMs observedMs)) := by
  rw [RateState.bucket, RateState.seen, get_filterMap _ h.nodup, keep_getD, RateState.bucket]

theorem rebaseMs_nonneg (last observed : ℤ) : 0 ≤ rebaseMs c last observed := by
  have := c.window_pos
  unfold rebaseMs
  split_ifs <;> omega

theorem nowMsValue_of_rebase {last observed : ℤ} (h : c.windowMs < last - observed) :
    rebaseMs c last observed = last - observed ∧ nowMsValue c last observed = observed := by
  have hr : rebaseMs c last observed = last - observed := if_pos h
  have := c.window_pos
  exact ⟨hr, by rw [nowMsValue, hr, if_pos (by omega)]⟩

theorem nowMsValue_of_not_rebase {last observed : ℤ} (h : ¬ c.windowMs < last - observed) :
    rebaseMs c last observed = 0 ∧ nowMsValue c last observed = max observed last := by
  have hr : rebaseMs c last observed = 0 := if_neg h
  exact ⟨hr, by rw [nowMsValue, hr, if_neg (by simp)]⟩

/-- **A clock that has gone back finds as many times** as there were in the window before. -/
theorem RateState.Ok.length_bucket_seen (h : s.Ok H c keys) {observedMs : ℤ}
    (hle : observedMs ≤ s.lastNowMs) (key : String) :
    ((s.seen c observedMs).bucket H key).length =
      (inWindow c.windowMs s.lastNowMs (s.bucket H key)).length := by
  rw [h.bucket_seen]
  by_cases hr : c.windowMs < s.lastNowMs - observedMs
  · obtain ⟨hreb, hnow⟩ := nowMsValue_of_rebase hr
    rw [hreb, hnow]
    have hmove := inWindow_sub c.windowMs s.lastNowMs (s.lastNowMs - observedMs) (s.bucket H key)
    rw [sub_sub_cancel] at hmove
    rw [hmove, List.length_map]
  · obtain ⟨hreb, hnow⟩ := nowMsValue_of_not_rebase hr
    rw [hreb, hnow, max_eq_right hle]
    simp only [sub_zero, List.map_id']

/-- What a check finds is a state of the limiter. -/
theorem RateState.Ok.seen (h : s.Ok H c keys) {observedMs : ℤ} (hpos : 0 ≤ observedMs) :
    (s.seen c observedMs).Ok H c keys where
  now := by
    show 0 ≤ nowMsValue c s.lastNowMs observedMs
    unfold nowMsValue
    split_ifs <;> omega
  nodup := h.nodup.sublist (keys_filterMap_sublist _ s.buckets)
  mem := by
    intro p hp
    obtain ⟨q, hq, hqp⟩ := List.mem_filterMap.1 hp
    obtain ⟨ts, -, rfl⟩ := Option.map_eq_some_iff.1 hqp
    exact h.mem q hq
  bucket := by
    intro p hp
    obtain ⟨q, hq, hqp⟩ := List.mem_filterMap.1 hp
    obtain ⟨ts, hts, rfl⟩ := Option.map_eq_some_iff.1 hqp
    obtain ⟨hne, hsorted, hlen, -⟩ := h.bucket q hq
    have heq : ts = inWindow c.windowMs (nowMsValue c s.lastNowMs observedMs)
        (q.2.map (· - rebaseMs c s.lastNowMs observedMs)) ∧ ts ≠ [] := by
      unfold keep at hts
      split at hts
      · cases hts
      · rename_i heq
        cases hts
        exact ⟨heq.symm, List.cons_ne_nil _ _⟩
    refine ⟨heq.2, ?_, ?_, ?_⟩
    · rw [heq.1]
      refine List.Pairwise.filter _ (List.pairwise_map.2 (hsorted.imp fun hab => ?_))
      exact sub_le_sub_right hab _
    · rw [heq.1]
      exact (length_inWindow_le _ _ _).trans (by rwa [List.length_map])
    · intro t ht
      rw [heq.1, mem_inWindow] at ht
      exact ht.2.2

/-! ## A check under the lock -/

theorem RateState.Ok.bucket_of (h : s.Ok H c keys) (key : String) :
    s.bucket H key = [] ∨ BucketOk c s.lastNowMs (s.bucket H key) := by
  rw [RateState.bucket]
  cases hg : s.buckets.get (privateKey H s.salt.text key) with
  | none => exact .inl rfl
  | some ts => exact .inr (h.bucket _ (Dict.mem_of_get hg))

theorem RateState.bucket_pass (s : RateState) (key other : String) : (s.pass H key).bucket H other =
    if privateKey H s.salt.text other = privateKey H s.salt.text key then
      s.bucket H key ++ [s.lastNowMs]
    else s.bucket H other := by
  rw [bucket, pass, Dict.get_set]
  split_ifs <;> rfl

/-- A check that passes leaves a state of the limiter. -/
theorem RateState.Ok.pass (h : s.Ok H c keys) {key : String} (hk : key ∈ keys)
    (hroom : (s.bucket H key).length < c.maxPerWindow) : (s.pass H key).Ok H c keys where
  now := h.now
  nodup := Dict.nodup_set h.nodup _ _
  mem := by
    intro p hp
    rcases Dict.mem_set hp with hp | rfl
    · exact h.mem p hp
    · exact Finset.mem_image_of_mem _ hk
  bucket := by
    intro p hp
    rcases Dict.mem_set hp with hp | rfl
    · exact h.bucket p hp
    · have hle : ∀ t ∈ s.bucket H key, t ≤ s.lastNowMs := by
        rcases h.bucket_of key with hb | hb
        · rw [hb]
          exact fun t ht => absurd ht List.not_mem_nil
        · exact hb.le
      have hsorted : (s.bucket H key).Pairwise (· ≤ ·) := by
        rcases h.bucket_of key with hb | hb
        · rw [hb]
          exact List.Pairwise.nil
        · exact hb.sorted
      refine ⟨by simp, ?_, ?_, ?_⟩
      · refine List.pairwise_append.2 ⟨hsorted, List.pairwise_singleton _ _, ?_⟩
        intro t ht u hu
        rw [List.mem_singleton.1 hu]
        exact hle t ht
      · rw [List.length_append, List.length_singleton]
        exact hroom
      · intro t ht
        rcases List.mem_append.1 ht with ht | ht
        · exact hle t ht
        · rw [List.mem_singleton.1 ht]
          exact le_rfl

/-- A key that is not in the file finds room there. -/
theorem RateState.Ok.length_lt (h : s.Ok H c keys) (hcard : keys.card ≤ c.maxTrackedKeys)
    {key : String} (hk : key ∈ keys) (hnew : s.buckets.has (privateKey H s.salt.text key) = false) :
    s.buckets.length < c.maxTrackedKeys := by
  have hnodup : (privateKey H s.salt.text key :: s.buckets.map Prod.fst).Nodup :=
    List.nodup_cons.2 ⟨Dict.has_eq_false.1 hnew, h.nodup⟩
  have hsub : (privateKey H s.salt.text key :: s.buckets.map Prod.fst).toFinset ⊆
      keys.image (privateKey H s.salt.text) := by
    intro k hk'
    rcases List.mem_cons.1 (List.mem_toFinset.1 hk') with rfl | hk'
    · exact Finset.mem_image_of_mem _ hk
    · obtain ⟨p, hp, rfl⟩ := List.mem_map.1 hk'
      exact h.mem p hp
  have hle := (Finset.card_le_card hsub).trans Finset.card_image_le
  rw [List.toFinset_card_of_nodup hnodup, List.length_cons, List.length_map] at hle
  omega

variable (H c)

/-- What a check does in the state `s`. -/
def verdict (file : Option Json) (s : RateState) (key : String) (observedMs : ℤ) : Verdict :=
  let t := s.seen c observedMs
  let bucket := t.bucket H key
  if c.maxPerWindow ≤ bucket.length then
    { decision := ⟨false, (max 0 (bucket.headD 0 + c.windowMs - t.lastNowMs) : ℤ) / 1000, 0⟩
      file := if rebaseMs c s.lastNowMs observedMs ≠ 0 then some t.toJson else file
      nowMs := t.lastNowMs
      wallUntilMs := some (bucket.headD 0 + c.windowMs) }
  else
    { decision := ⟨true, 0, c.maxPerWindow - (bucket ++ [t.lastNowMs]).length⟩
      file := some (t.pass H key).toJson
      nowMs := t.lastNowMs }

variable {H c}

theorem loadState_of_loads {file : Option Json} {fresh : Salt} (h : s.Ok H c keys)
    (hl : Loads file fresh s) : ∃ salt, loadState file =
      .ok ⟨salt, s.buckets.map fun p => (p.1, .arr (p.2.map .int)), s.lastNowMs⟩ ∧
      salt.getD fresh.text = s.salt.text := by
  rcases hl with ⟨rfl, rfl⟩ | rfl
  · exact ⟨none, rfl, rfl⟩
  · exact ⟨_, loadState_toJson h.now, rfl⟩

/-- **The check under the lock**, of no more keys than can be tracked. -/
theorem checkLocked_eq (h : s.Ok H c keys) (hcard : keys.card ≤ c.maxTrackedKeys) {key : String}
    (hk : key ∈ keys) {file : Option Json} {fresh : Salt} (hl : Loads file fresh s)
    {observedMs : ℤ} (hpos : 0 ≤ observedMs) :
    checkLocked H c file fresh key observedMs = .ok (verdict H c file s key observedMs) := by
  obtain ⟨salt, hload, hsalt⟩ := loadState_of_loads h hl
  have hseen : (s.seen c observedMs).salt = s.salt := rfl
  have hroom : (!(s.seen c observedMs).buckets.has (privateKey H s.salt.text key) &&
      decide (c.maxTrackedKeys ≤ (s.seen c observedMs).buckets.length)) = false := by
    cases hnew : (s.seen c observedMs).buckets.has (privateKey H s.salt.text key) with
    | true => rfl
    | false =>
      have := (h.seen hpos).length_lt hcard hk (hseen ▸ hnew)
      simpa using this
  rw [checkLocked, hload, ok_bind]
  simp only [h.cleaned_eq hcard, hsalt, hroom, Bool.false_eq_true, if_false]
  unfold verdict
  by_cases hfull : c.maxPerWindow ≤ ((s.seen c observedMs).bucket H key).length
  · have hfull' := hfull
    rw [RateState.bucket, hseen] at hfull'
    rw [if_pos hfull', if_pos hfull]
    rfl
  · have hfull' := hfull
    rw [RateState.bucket, hseen] at hfull'
    rw [if_neg hfull', if_neg hfull]
    rfl

end Web

end NthDao
