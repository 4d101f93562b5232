/-
  Ratings are loaded as they were recorded (`nth_dao/reputation.py`).

  * `ghost`: what the loader makes of a file of credits;
  * `World.Sound`: a file of ratings holds the recorded ones of its agents, and every other file
    holds credits;
  * `loadAll_filter`: what is loaded of one rater, but for ghosts;
  * `ratings_loaded_iff`: the files keep apart just when their names do.
-/
import NthDao.Reputation

namespace NthDao

open Py Runs

namespace Reputation

variable {H : Host} {N : Numbers}

/-! ## Lists -/

theorem replaceFirst_map {α β : Type} {f : α → β} {test : β → Bool} {test' : α → Bool} {new : α}
    {xs : List α} (h : ∀ x ∈ xs, test (f x) = test' x) :
    replaceFirst test (f new) (xs.map f) = (replaceFirst test' new xs).map (List.map f) := by
  induction xs with
  | nil => rfl
  | cons x xs ih =>
    rw [List.forall_mem_cons] at h
    rw [List.map_cons, replaceFirst, replaceFirst, h.1, ih h.2]
    split_ifs
    · rfl
    · cases replaceFirst test' new xs <;> rfl

/-- The replacement is within the part of the list that the test is about. -/
theorem replaceFirst_filter {α : Type} {test p : α → Bool} {new : α} {xs : List α}
    (h : ∀ x ∈ xs, test x = true → p x = true) (hnew : p new = true) :
    replaceFirst test new (xs.filter p) = (replaceFirst test new xs).map (List.filter p) := by
  induction xs with
  | nil => rfl
  | cons x xs ih =>
    rw [List.forall_mem_cons] at h
    have ih := ih h.2
    rw [replaceFirst]
    by_cases ht : test x = true
    · rw [List.filter_cons_of_pos (h.1 ht), replaceFirst, if_pos ht, if_pos ht, Option.map_some,
        List.filter_cons_of_pos hnew]
    · rw [if_neg ht, Option.map_map]
      by_cases hp : p x = true
      · rw [List.filter_cons_of_pos hp, replaceFirst, if_neg ht, ih, Option.map_map]
        congr 1
        funext ys
        rw [Function.comp_apply, Function.comp_apply, List.filter_cons_of_pos hp]
      · rw [List.filter_cons_of_neg hp, ih]
        congr 1
        funext ys
        rw [Function.comp_apply, List.filter_cons_of_neg hp]

/-- Elsewhere nothing changes. -/
theorem filter_replaceFirst {α : Type} {test p : α → Bool} {new : α} {xs ys : List α}
    (h : ∀ x ∈ xs, test x = true → p x = false) (hnew : p new = false)
    (hr : replaceFirst test new xs = some ys) : ys.filter p = xs.filter p := by
  induction xs generalizing ys with
  | nil => cases hr
  | cons x xs ih =>
    rw [List.forall_mem_cons] at h
    rw [replaceFirst] at hr
    by_cases ht : test x = true
    · rw [if_pos ht] at hr
      cases hr
      rw [List.filter_cons_of_neg (by simp [hnew]), List.filter_cons_of_neg (by simp [h.1 ht])]
    · rw [if_neg ht, Option.map_eq_some_iff] at hr
      obtain ⟨zs, hz, rfl⟩ := hr
      rw [List.filter_cons, List.filter_cons, ih h.2 hz]

theorem mem_replaceFirst {α : Type} {test : α → Bool} {new : α} {xs ys : List α}
    (hr : replaceFirst test new xs = some ys) : ∀ y ∈ ys, y = new ∨ y ∈ xs := by
  induction xs generalizing ys with
  | nil => cases hr
  | cons x xs ih =>
    rw [replaceFirst] at hr
    split_ifs at hr
    · cases hr
      intro y hy
      rcases List.mem_cons.1 hy with rfl | hy
      · exact .inl rfl
      · exact .inr (List.mem_cons_of_mem _ hy)
    · rw [Option.map_eq_some_iff] at hr
      obtain ⟨zs, hz, rfl⟩ := hr
      intro y hy
      rcases List.mem_cons.1 hy with rfl | hy
      · exact .inr List.mem_cons_self
      · exact (ih hz y hy).imp_right (List.mem_cons_of_mem _)

/-- A list of parts of which only one is not empty. -/
theorem flatMap_single {α β : Type} [DecidableEq α] {f : α → List β} {t : α} {xs : List α}
    (hn : xs.Nodup) (h : ∀ x ∈ xs, x ≠ t → f x = []) :
    xs.flatMap f = if t ∈ xs then f t else [] := by
  induction xs with
  | nil => rfl
  | cons x xs ih =>
    rw [List.nodup_cons] at hn
    rw [List.forall_mem_cons] at h
    rw [List.flatMap_cons, ih hn.2 h.2]
    by_cases hx : x = t
    · subst hx
      rw [if_neg hn.1, if_pos List.mem_cons_self, List.append_nil]
    · rw [h.1 hx, List.nil_append]
      simp only [List.mem_cons, Ne.symm hx, false_or]

/-! ## Entries in files -/

theorem fromDict_toDict {e : ReputationEntry N} (h : N.inRange e.score = true) :
    ReputationEntry.fromDict N e.toDict = some e := by
  have hscore : Json.getD [("rater", e.rater), ("subject", e.subject), ("context", e.context),
      ("score", N.toJson e.score), ("reason", e.reason), ("timestamp", e.timestamp), ("sig", e.sig),
      ("evidence", e.evidence)] "score" (N.toJson N.middle) = N.toJson e.score := rfl
  rw [ReputationEntry.toDict, ReputationEntry.fromDict, hscore, N.float_toJson]
  show some _ = some e
  simp only [N.clamp_of_inRange _ h]
  rfl

theorem filterMap_toDict {es : List (ReputationEntry N)} (h : ∀ e ∈ es, N.inRange e.score = true) :
    (es.map ReputationEntry.toDict).filterMap (ReputationEntry.fromDict N) = es := by
  rw [List.filterMap_map]
  calc es.filterMap (ReputationEntry.fromDict N ∘ ReputationEntry.toDict)
      = es.filterMap some := List.filterMap_congr fun e he => fromDict_toDict (h e he)
    _ = es := List.filterMap_some

variable (N)

/-- What the loader makes of a file of credits. -/
def ghost : ReputationEntry N :=
  { rater := .str "?", subject := .str "?", context := .str "unknown", score := N.middle,
    timestamp := .str "" }

variable {N}

/-- None of the fields of an entry. -/
def NoEntry (kvs : Fields) : Prop :=
  ∀ k ∈ ["rater", "subject", "context", "score", "reason", "timestamp", "sig", "evidence"],
    Json.lookup kvs k = none

theorem entriesOf_credits {kvs : Fields} (h : NoEntry kvs) : entriesOf N (.obj kvs) = [ghost N] := by
  simp only [NoEntry, List.forall_mem_cons] at h
  obtain ⟨h₁, h₂, h₃, h₄, h₅, h₆, h₇, h₈, -⟩ := h
  have hget : ∀ {k d}, Json.lookup kvs k = none → Json.getD kvs k d = d := by
    intro k d hk
    rw [Json.getD, hk]
    rfl
  have hfrom : ReputationEntry.fromDict N (.obj kvs) = some (ghost N) := by
    rw [ReputationEntry.fromDict, hget h₁, hget h₂, hget h₃, hget h₄, hget h₅, hget h₆, hget h₇,
      hget h₈, N.float_toJson]
    show some _ = some (ghost N)
    rw [N.clamp_of_inRange _ N.inRange_middle]
    rfl
  rw [entriesOf, hfrom]
  rfl

theorem NoEntry.insert {kvs : Fields} (h : NoEntry kvs) {k : String} (v : Json)
    (hk : k ∉ ["rater", "subject", "context", "score", "reason", "timestamp", "sig", "evidence"]) :
    NoEntry (Json.insert kvs k v) := by
  intro l hl
  have hne : k ≠ l := fun he => hk (he ▸ hl)
  rw [Json.lookup_insert, if_neg hne]
  exact h l hl

/-- The credits are refilled without a field of an entry. -/
theorem NoEntry.refill {kvs kvs' : Fields} (h : NoEntry kvs) {today : ℤ}
    (hr : applyDailyRefill N kvs today = .ok kvs') : NoEntry kvs' := by
  simp only [applyDailyRefill, expect_bind_eq_ok] at hr
  obtain ⟨text, -, hr⟩ := hr
  split_ifs at hr
  · cases hr
    exact h
  · simp only [expect_bind_eq_ok, pure_eq_ok] at hr
    obtain ⟨balance, -, rfl⟩ := hr
    exact (h.insert _ (by decide)).insert _ (by decide)

/-! ## The directory -/

variable (H)

/-- The file of the ratings of its rater. -/
def fileOf (e : ReputationEntry N) : String :=
  match e.rater with
  | .str id => safeId H id ++ ".json"
  | _ => ""

/-- The recorded ratings of a file. -/
def inFile (name : String) (e : ReputationEntry N) : Bool := fileOf H e == name

/-- A file of the directory holds the recorded ratings of its agents, or credits. -/
structure World.Sound (agents : List Agent) (w : World N) : Prop where
  rater : ∀ e ∈ w.ratings, N.inRange e.score = true ∧ ∃ a ∈ agents, e.rater = .str a.id
  nodup : (w.dir.map Prod.fst).Nodup
  files : ∀ name content, w.dir.get name = some content →
    (∃ a ∈ agents, name = a.ratingsFile H ∧
      content = .arr ((w.ratings.filter (inFile H name)).map ReputationEntry.toDict)) ∨
    ∃ a ∈ agents, name = a.creditsFile H ∧ ∃ kvs, content = .obj kvs ∧ NoEntry kvs
  kept : ∀ e ∈ w.ratings, ∃ content, w.dir.get (fileOf H e) = some content

/-- No file of ratings has the name of a file of credits. -/
def Apart (agents : List Agent) : Prop :=
  ∀ a ∈ agents, ∀ b ∈ agents, a.ratingsFile H ≠ b.creditsFile H

variable {H} {agents : List Agent} {w : World N} {a : Agent}

theorem fileOf_of_rater {e : ReputationEntry N} (h : e.rater = .str a.id) :
    fileOf H e = a.ratingsFile H := by
  rw [fileOf, h]
  rfl

theorem inFile_of_rater {e : ReputationEntry N} (h : e.rater = .str a.id) (name : String) :
    inFile H name e = decide (a.ratingsFile H = name) := by
  rw [inFile, fileOf_of_rater h]
  rfl

theorem eq_str_of_eqv {v : Json} {s : String} (h : eqv v (.str s) = true) : v = .str s := by
  cases v <;> simp_all [eqv]

theorem rater_of_ofTriple {rater subject context : String} {e : ReputationEntry N}
    (h : ofTriple rater subject context e = true) : e.rater = .str rater := by
  simp only [ofTriple, Bool.and_eq_true, Json.eqStr_iff] at h
  exact h.1.1

theorem rater_of_sameEntry {id : String} {old e : ReputationEntry N} (ho : old.rater = .str id)
    (h : sameEntry old e = true) : e.rater = .str id := by
  simp only [sameEntry, Bool.and_eq_true, ho] at h
  exact eq_str_of_eqv h.1.1.1

/-- The list in the file of an agent. -/
theorem World.Sound.readList (h : w.Sound H agents) (hap : Apart H agents) (ha : a ∈ agents) :
    readList w.dir (a.ratingsFile H) =
      (w.ratings.filter (inFile H (a.ratingsFile H))).map ReputationEntry.toDict := by
  rw [Reputation.readList]
  cases hg : w.dir.get (a.ratingsFile H) with
  | none =>
    have hnil : w.ratings.filter (inFile H (a.ratingsFile H)) = [] := by
      rw [List.filter_eq_nil_iff]
      intro e he hin
      obtain ⟨content, hc⟩ := h.kept e he
      rw [inFile, beq_iff_eq] at hin
      rw [hin, hg] at hc
      cases hc
    rw [hnil]
    rfl
  | some content =>
    rcases h.files _ _ hg with ⟨b, -, -, rfl⟩ | ⟨b, hb, hname, -⟩
    · rfl
    · exact absurd hname (hap a ha b hb)

theorem World.Sound.inRange_filter (h : w.Sound H agents) (p : ReputationEntry N → Bool) :
    ∀ e ∈ w.ratings.filter p, N.inRange e.score = true :=
  fun e he => (h.rater e (List.mem_of_mem_filter he)).1

/-- The own entries of a rater, from its file. -/
theorem World.Sound.myEntries (h : w.Sound H agents) (hap : Apart H agents) (ha : a ∈ agents)
    (subject context : String) : myEntriesForTriple H N a w.dir subject context =
      byTimestamp (w.ratings.filter (ofTriple a.id subject context)) := by
  rw [myEntriesForTriple, h.readList hap ha, filterMap_toDict (h.inRange_filter _),
    List.filter_filter]
  congr 1
  refine List.filter_congr fun e _ => ?_
  cases ht : ofTriple a.id subject context e with
  | false => rfl
  | true => rw [inFile_of_rater (rater_of_ofTriple ht), decide_eq_true rfl, Bool.and_self]

theorem entry_rater (a : Agent) (x : RateArgs N) : (x.entry a).rater = .str a.id := rfl

theorem rater_of_latest {id subject context : String} {es : List (ReputationEntry N)}
    {old : ReputationEntry N}
    (h : (byTimestamp (es.filter (ofTriple id subject context))).getLast? = some old) :
    old.rater = .str id := by
  have hmem := List.mem_of_getLast? h
  rw [byTimestamp, List.mem_mergeSort] at hmem
  exact rater_of_ofTriple (List.mem_filter.1 hmem).2

/-- What is recorded is the new rating, or was. -/
theorem mem_record {x : RateArgs N} {ratings : List (ReputationEntry N)} :
    ∀ e ∈ record a x ratings, e = x.entry a ∨ e ∈ ratings := by
  intro e he
  unfold record at he
  split at he
  · rename_i old _ _
    cases hr : replaceFirst (sameEntry old) (x.entry a) ratings with
    | none =>
      rw [hr, Option.getD_none, List.mem_append, List.mem_singleton] at he
      exact he.symm
    | some es =>
      rw [hr, Option.getD_some] at he
      exact mem_replaceFirst hr e he
  · rw [List.mem_append, List.mem_singleton] at he
    exact he.symm

/-- The ratings of other files stay. -/
theorem record_other {x : RateArgs N} {ratings : List (ReputationEntry N)} {name : String}
    (hname : a.ratingsFile H ≠ name) :
    (record a x ratings).filter (inFile H name) = ratings.filter (inFile H name) := by
  have hfalse : ∀ e : ReputationEntry N, e.rater = .str a.id → inFile H name e = false := by
    intro e he
    rw [inFile_of_rater he, decide_eq_false hname]
  have hpush : (ratings ++ [x.entry a]).filter (inFile H name) = ratings.filter (inFile H name) := by
    rw [List.filter_append, List.filter_cons_of_neg (by simp [hfalse _ (entry_rater a x)]),
      List.filter_nil, List.append_nil]
  unfold record
  split
  · rename_i old hold _
    cases hr : replaceFirst (sameEntry old) (x.entry a) ratings with
    | none => exact hpush
    | some es =>
      refine filter_replaceFirst (fun e _ he => hfalse e ?_) (hfalse _ (entry_rater a x)) hr
      exact rater_of_sameEntry (rater_of_latest hold) he
  · exact hpush

/-! ## Steps -/

/-- The list that replaces the latest rating in a file is that of what is recorded. -/
theorem World.Sound.replaceMyEntry (h : w.Sound H agents) (x : RateArgs N)
    {old : ReputationEntry N} (ho : old.rater = .str a.id) :
    replaceMyEntry old (x.entry a)
        ((w.ratings.filter (inFile H (a.ratingsFile H))).map ReputationEntry.toDict) =
      (((replaceFirst (sameEntry old) (x.entry a) w.ratings).getD (w.ratings ++ [x.entry a])).filter
        (inFile H (a.ratingsFile H))).map ReputationEntry.toDict := by
  have hown : ∀ e : ReputationEntry N, e.rater = .str a.id →
      inFile H (a.ratingsFile H) e = true := by
    intro e he
    rw [inFile_of_rater he, decide_eq_true rfl]
  have hmap : replaceFirst (fun d => (ReputationEntry.fromDict N d).any (sameEntry old))
      (x.entry a).toDict
      ((w.ratings.filter (inFile H (a.ratingsFile H))).map ReputationEntry.toDict) =
        (replaceFirst (sameEntry old) (x.entry a)
          (w.ratings.filter (inFile H (a.ratingsFile H)))).map
            (List.map ReputationEntry.toDict) :=
    replaceFirst_map fun e he => by
      rw [fromDict_toDict (h.inRange_filter _ e he), Option.any_some]
  rw [Reputation.replaceMyEntry, hmap, replaceFirst_filter
    (fun e _ he => hown e (rater_of_sameEntry ho he)) (hown _ (entry_rater a x)), Option.map_map]
  cases replaceFirst (sameEntry old) (x.entry a) w.ratings with
  | none =>
    rw [Option.map_none, Option.getD_none, Option.getD_none, List.filter_append,
      List.filter_cons_of_pos (hown _ (entry_rater a x)), List.filter_nil, List.map_append]
    rfl
  | some es => rfl

theorem World.Sound.noEntry_readCredits (h : w.Sound H agents) (a : Agent) (today : ℤ) :
    NoEntry (readCredits H N a w.dir today) := by
  have hfresh : NoEntry [("agent_id", .str a.id), ("balance", .int initialRatingCredits),
      ("last_refill", .str (N.isoformat today))] := by
    intro k hk
    simp only [List.mem_cons, List.not_mem_nil, or_false] at hk
    rcases hk with rfl | rfl | rfl | rfl | rfl | rfl | rfl | rfl <;> rfl
  rw [readCredits]
  split
  · rename_i data hg
    split_ifs
    · rcases h.files _ _ hg with ⟨b, -, -, hc⟩ | ⟨b, -, -, kvs, hc, hno⟩
      · cases hc
      · cases hc
        exact hno
    · exact hfresh
  · exact hfresh

/-- Credits are written. -/
theorem World.Sound.setCredits (h : w.Sound H agents) (ha : a ∈ agents) {kvs : Fields}
    (hno : NoEntry kvs) :
    World.Sound H agents { w with dir := w.dir.set (a.creditsFile H) (.obj kvs) } where
  rater := h.rater
  nodup := Dict.nodup_set h.nodup _ _
  files := by
    intro name content hg
    dsimp only at hg
    rw [Dict.get_set] at hg
    split_ifs at hg with hname
    · cases hg
      exact .inr ⟨a, ha, hname, kvs, rfl, hno⟩
    · exact h.files name content hg
  kept := by
    intro e he
    dsimp only
    rw [Dict.get_set]
    split_ifs
    · exact ⟨_, rfl⟩
    · exact h.kept e he

/-- A rating is written. -/
theorem World.Sound.setRatings (h : w.Sound H agents) (ha : a ∈ agents) {x : RateArgs N}
    (hx : N.inRange x.score = true) :
    World.Sound H agents {
      dir := w.dir.set (a.ratingsFile H) (.arr (((record a x w.ratings).filter
        (inFile H (a.ratingsFile H))).map ReputationEntry.toDict))
      ratings := record a x w.ratings } where
  rater := by
    intro e he
    rcases mem_record e he with rfl | he
    · refine ⟨?_, a, ha, rfl⟩
      show N.inRange (N.clamp x.score) = true
      rw [N.clamp_of_inRange _ hx]
      exact hx
    · exact h.rater e he
  nodup := Dict.nodup_set h.nodup _ _
  files := by
    intro name content hg
    dsimp only at hg
    rw [Dict.get_set] at hg
    split_ifs at hg with hname
    · cases hg
      exact .inl ⟨a, ha, hname, by rw [hname]⟩
    · rcases h.files name content hg with ⟨b, hb, hfile, hc⟩ | hright
      · refine .inl ⟨b, hb, hfile, ?_⟩
        rw [hc, record_other (Ne.symm hname)]
      · exact .inr hright
  kept := by
    intro e he
    dsimp only
    rw [Dict.get_set]
    split_ifs with hfile
    · exact ⟨_, rfl⟩
    · rcases mem_record e he with rfl | he
      · exact absurd (fileOf_of_rater (entry_rater a x)) hfile
      · exact h.kept e he

/-- Rating writes the ratings of the file, perhaps after the credits. -/
theorem World.Sound.rate (h : w.Sound H agents) (hap : Apart H agents) (ha : a ∈ agents)
    {x : RateArgs N} {dir : Dir} (hr : rate H a x w.dir = .ok dir) :
    World.Sound H agents { dir := dir, ratings := record a x w.ratings } := by
  simp only [Reputation.rate, unit_bind_eq_ok, require_eq_ok] at hr
  obtain ⟨-, hx, -, -, hr⟩ := hr
  have hown : (w.ratings ++ [x.entry a]).filter (inFile H (a.ratingsFile H)) =
      w.ratings.filter (inFile H (a.ratingsFile H)) ++ [x.entry a] := by
    rw [List.filter_append, List.filter_cons_of_pos (by
      rw [inFile_of_rater (entry_rater a x), decide_eq_true rfl]), List.filter_nil]
  have spend : (do
      let dir ← spendCredit H N a w.dir x.today
      return dir.set (a.ratingsFile H)
        (.arr (Reputation.readList dir (a.ratingsFile H) ++ [(x.entry a).toDict]))) = .ok dir →
      record a x w.ratings = w.ratings ++ [x.entry a] →
      World.Sound H agents { dir := dir, ratings := record a x w.ratings } := by
    intro hs hrec
    rw [bind_eq_ok] at hs
    obtain ⟨mid, hmid, hs⟩ := hs
    cases hs
    simp only [spendCredit, bind_eq_ok, expect_eq_ok, require_eq_ok, pure_eq_ok] at hmid
    obtain ⟨state, hstate, balance, -, _, -, rfl⟩ := hmid
    have hno := ((h.noEntry_readCredits a x.today).refill hstate).insert (.int (balance - 1))
      (k := "balance") (by decide)
    have hmid := h.setCredits ha hno
    have hlist := hmid.readList hap ha
    have hset := hmid.setRatings ha hx
    dsimp only at hlist hset
    rw [hlist]
    rw [hrec, hown, List.map_append] at hset
    rw [hrec]
    exact hset
  have hmine := h.myEntries hap ha x.subject x.context
  rw [hmine] at hr
  cases hlatest : (byTimestamp (w.ratings.filter
      (ofTriple a.id x.subject x.context))).getLast? with
  | none =>
    rw [hlatest] at hr
    exact spend hr (by rw [record, hlatest])
  | some old =>
    rw [hlatest] at hr
    cases hu : x.upsert with
    | false =>
      rw [hu] at hr
      exact spend hr (by rw [record, hlatest, hu])
    | true =>
      rw [hu] at hr
      have hrec : record a x w.ratings =
          (replaceFirst (sameEntry old) (x.entry a) w.ratings).getD (w.ratings ++ [x.entry a]) := by
        rw [record, hlatest, hu]
      cases hr
      have hset := h.setRatings ha hx
      rw [h.readList hap ha, h.replaceMyEntry x (rater_of_latest hlatest), ← hrec]
      exact hset

/-- **Every act keeps the files apart.** -/
theorem sound_of_reach (hap : Apart H agents) (hr : Reach (step H) (Uses agents) {} w) :
    w.Sound H agents := by
  refine hr.invariant (P := World.Sound H agents) ?_ ?_
  · refine ⟨fun e he => absurd he List.not_mem_nil, List.nodup_nil, ?_,
      fun e he => absurd he List.not_mem_nil⟩
    intro name content hg
    cases hg
  · intro w act w' h hact hs
    cases act with
    | rate a x =>
      simp only [step] at hs
      split at hs
      · rename_i dir hrate
        cases hs
        exact h.rate hap hact hrate
      · cases hs
    | credits a today =>
      simp only [step] at hs
      split at hs
      · rename_i dir hcredits
        cases hs
        rw [Reputation.credits, bind_eq_ok] at hcredits
        obtain ⟨state, hstate, hcredits⟩ := hcredits
        cases hcredits
        exact h.setCredits hact ((h.noEntry_readCredits a today).refill hstate)
      · cases hs

/-! ## Loading -/

/-- The entries of a sound file: recorded ratings, or a ghost. -/
theorem World.Sound.entriesOf (h : w.Sound H agents) {name : String} {content : Json}
    (hg : w.dir.get name = some content) :
    (∃ a ∈ agents, name = a.ratingsFile H ∧
      entriesOf N content = w.ratings.filter (inFile H name)) ∨
    ∃ a ∈ agents, name = a.creditsFile H ∧ entriesOf N content = [ghost N] := by
  rcases h.files name content hg with ⟨a, ha, hname, rfl⟩ | ⟨a, ha, hname, kvs, rfl, hno⟩
  · exact .inl ⟨a, ha, hname, filterMap_toDict (h.inRange_filter _)⟩
  · exact .inr ⟨a, ha, hname, entriesOf_credits hno⟩

/-- The files that are loaded. -/
theorem mem_names {dir : Dir} {name : String} :
    name ∈ (((dir.map Prod.fst).filter fun name =>
      (chars ".json").isSuffixOf (chars name)).mergeSort fun a b => a ≤ b) ↔
    name ∈ dir.map Prod.fst ∧ (chars ".json").isSuffixOf (chars name) = true := by
  rw [List.mem_mergeSort, List.mem_filter]

theorem exists_of_mem_names {dir : Dir} {name : String} (h : name ∈ dir.map Prod.fst) :
    ∃ content, dir.get name = some content := by
  rw [← Option.isSome_iff_exists, Dict.get_isSome, Dict.has_iff]
  exact h

theorem isSuffixOf_json (s : String) :
    (chars ".json").isSuffixOf (chars (s ++ ".json")) = true := by
  rw [List.isSuffixOf_iff_suffix, chars_eq, chars_eq, String.toList_append]
  exact List.suffix_append _ _

/-- What is loaded of one file's ratings is what was recorded, but for ghosts. -/
theorem World.Sound.loadAll_filter (h : w.Sound H agents) (hap : Apart H agents) (name : String)
    {q : ReputationEntry N → Bool} (hq : q (ghost N) = false) :
    (loadAll N w.dir).filter (fun e => inFile H name e && q e) =
      w.ratings.filter fun e => inFile H name e && q e := by
  have hnodup : (((w.dir.map Prod.fst).filter fun name =>
      (chars ".json").isSuffixOf (chars name)).mergeSort fun a b => a ≤ b).Nodup :=
    (List.mergeSort_perm _ _).nodup_iff.2 (h.nodup.filter _)
  rw [loadAll, List.filter_flatMap, flatMap_single (t := name) hnodup]
  · split_ifs with hmem
    · rw [mem_names] at hmem
      obtain ⟨content, hg⟩ := exists_of_mem_names hmem.1
      rw [hg, Option.getD_some]
      rcases h.entriesOf hg with ⟨a, ha, hname, he⟩ | ⟨b, hb, hname, he⟩
      · rw [he, List.filter_filter]
        refine List.filter_congr fun e _ => ?_
        cases inFile H name e <;> simp
      · have hnil : w.ratings.filter (fun e => inFile H name e && q e) = [] := by
          rw [List.filter_eq_nil_iff]
          intro e hmem hin
          obtain ⟨-, a, ha, hrater⟩ := h.rater e hmem
          rw [inFile_of_rater hrater, Bool.and_eq_true, decide_eq_true_iff] at hin
          exact hap a ha b hb (hin.1.trans hname)
        rw [he, hnil, List.filter_cons_of_neg (by simp [hq]), List.filter_nil]
    · symm
      rw [List.filter_eq_nil_iff]
      intro e he hin
      obtain ⟨-, a, ha, hrater⟩ := h.rater e he
      obtain ⟨content, hc⟩ := h.kept e he
      rw [fileOf_of_rater hrater] at hc
      rw [inFile_of_rater hrater, Bool.and_eq_true, decide_eq_true_iff] at hin
      rw [hin.1] at hc
      refine hmem (mem_names.2 ⟨List.mem_map.2 ⟨_, Dict.mem_of_get hc, rfl⟩, ?_⟩)
      rw [← hin.1]
      exact isSuffixOf_json _
  · intro file hmem hne
    rw [mem_names] at hmem
    obtain ⟨content, hg⟩ := exists_of_mem_names hmem.1
    rw [hg, Option.getD_some, List.filter_eq_nil_iff]
    rcases h.entriesOf hg with ⟨a, -, -, he⟩ | ⟨b, -, -, he⟩
    · intro e hin hboth
      rw [he, List.mem_filter, inFile, beq_iff_eq] at hin
      rw [Bool.and_eq_true, inFile, beq_iff_eq] at hboth
      exact hne (hin.2.symm.trans hboth.1)
    · intro e hin hboth
      rw [he, List.mem_singleton] at hin
      rw [hin, hq, Bool.and_false] at hboth
      cases hboth

/-- The ratings that are loaded of an agent are those that were recorded. -/
theorem World.Sound.loaded (h : w.Sound H agents) (hap : Apart H agents) {id : String}
    (hid : id ≠ "?") : w.Loaded id := by
  have hghost : ¬(.str "?" : Json) = .str id := fun he => hid (Json.str.inj he).symm
  constructor
  · have hfile := h.loadAll_filter hap (safeId H id ++ ".json")
      (q := fun e => decide (e.rater = .str id)) (decide_eq_false hghost)
    have hall : ∀ e : ReputationEntry N,
        (inFile H (safeId H id ++ ".json") e && decide (e.rater = .str id)) =
          decide (e.rater = .str id) := by
      intro e
      by_cases he : e.rater = .str id
      · have hin := inFile_of_rater (H := H) (a := { id := id }) he (safeId H id ++ ".json")
        rw [hin, decide_eq_true he, Bool.and_true]
        exact decide_eq_true rfl
      · rw [decide_eq_false he, Bool.and_false]
    simpa only [hall] using hfile
  · rw [List.perm_iff_count]
    intro e
    by_cases he : e.subject = .str id
    · have hfile := h.loadAll_filter hap (fileOf H e)
        (q := fun e => decide (e.subject = .str id)) (decide_eq_false hghost)
      have hin : (inFile H (fileOf H e) e && decide (e.subject = .str id)) = true := by
        rw [inFile, beq_self_eq_true, decide_eq_true he, Bool.and_self]
      calc List.count e ((loadAll N w.dir).filter fun e => decide (e.subject = .str id))
          = List.count e (loadAll N w.dir) := List.count_filter (decide_eq_true he)
        _ = List.count e ((loadAll N w.dir).filter fun e' =>
              inFile H (fileOf H e) e' && decide (e'.subject = .str id)) :=
            (List.count_filter (p := fun e' =>
              inFile H (fileOf H e) e' && decide (e'.subject = .str id)) hin).symm
        _ = List.count e (w.ratings.filter fun e' =>
              inFile H (fileOf H e) e' && decide (e'.subject = .str id)) := by rw [hfile]
        _ = List.count e w.ratings := List.count_filter (p := fun e' =>
              inFile H (fileOf H e) e' && decide (e'.subject = .str id)) hin
        _ = List.count e (w.ratings.filter fun e => decide (e.subject = .str id)) :=
            (List.count_filter (p := fun e : ReputationEntry N => decide (e.subject = .str id))
              (decide_eq_true he)).symm
    · rw [List.count_eq_zero_of_not_mem, List.count_eq_zero_of_not_mem]
      · exact fun hm => he (of_decide_eq_true (List.mem_filter.1 hm).2)
      · exact fun hm => he (of_decide_eq_true (List.mem_filter.1 hm).2)

/-! ## Names that meet -/

/-- The credits of an agent that has no file of them. -/
def freshCredits (N : Numbers) (a : Agent) (today : ℤ) : Fields :=
  [("agent_id", .str a.id), ("balance", .int initialRatingCredits),
    ("last_refill", .str (N.isoformat today))]

theorem noEntry_fresh (a : Agent) (today : ℤ) : NoEntry (freshCredits N a today) := by
  intro k hk
  simp only [List.mem_cons, List.not_mem_nil, or_false] at hk
  rcases hk with rfl | rfl | rfl | rfl | rfl | rfl | rfl | rfl <;> rfl

theorem readCredits_fresh {dir : Dir} (h : ∀ data, dir.get (a.creditsFile H) ≠ some (.obj data))
    (today : ℤ) : readCredits H N a dir today = freshCredits N a today := by
  rw [readCredits]
  split
  · rename_i data hg
    exact absurd hg (h data)
  · rfl

/-- Fresh credits can be spent. -/
theorem refill_fresh (a : Agent) (today : ℤ) : ∃ state balance,
    applyDailyRefill N (freshCredits N a today) today = .ok state ∧
      N.int (Json.get state "balance") = some balance ∧ 0 < balance := by
  have hbalance : N.int (Json.getD (freshCredits N a today) "balance" (.int 0)) =
      some initialRatingCredits := N.int_int _
  have htext : (Json.getD (freshCredits N a today) "last_refill" (.str "")).asStr =
      some (N.isoformat today) := rfl
  rw [applyDailyRefill, htext]
  by_cases hd : today - (N.fromIso (N.isoformat today)).getD today ≤ 0
  · refine ⟨_, initialRatingCredits, if_pos hd, hbalance, by decide⟩
  · have hpos : 0 < min maxRatingCredits (initialRatingCredits +
        (today - (N.fromIso (N.isoformat today)).getD today) * dailyRatingCreditRefill) := by
      rw [initialRatingCredits, dailyRatingCreditRefill, maxRatingCredits]
      omega
    refine ⟨Json.insert (Json.insert (freshCredits N a today) "balance" (.int (min maxRatingCredits
      (initialRatingCredits + (today - (N.fromIso (N.isoformat today)).getD today) *
        dailyRatingCreditRefill)))) "last_refill" (.str (N.isoformat today)), _, ?_, ?_, hpos⟩
    · rw [hbalance]
      exact if_neg hd
    · rw [Json.get, Json.lookup_insert, if_neg (by decide), Json.lookup_insert, if_pos rfl]
      exact N.int_int _

theorem credits_fresh {dir : Dir} (h : ∀ data, dir.get (a.creditsFile H) ≠ some (.obj data))
    (today : ℤ) : ∃ state, NoEntry state ∧
      credits H N a dir today = .ok (dir.set (a.creditsFile H) (.obj state)) := by
  obtain ⟨state, balance, hstate, -⟩ := refill_fresh (N := N) a today
  refine ⟨state, (noEntry_fresh a today).refill hstate, ?_⟩
  rw [credits, readCredits_fresh h, hstate]
  rfl

/-- The first rating of an agent. -/
theorem rate_fresh (a : Agent) {x : RateArgs N} (hx : N.inRange x.score = true)
    (hself : x.subject ≠ a.id) : ∃ state, NoEntry state ∧
      rate H a x [] = .ok ((Dict.set [] (a.creditsFile H) (.obj state)).set (a.ratingsFile H)
        (.arr [(x.entry a).toDict])) := by
  obtain ⟨state, balance, hstate, hbalance, hpos⟩ := refill_fresh (N := N) a x.today
  have hno := (noEntry_fresh a x.today).refill hstate
  refine ⟨Json.insert state "balance" (.int (balance - 1)), hno.insert _ (by decide), ?_⟩
  have hmine : myEntriesForTriple H N a [] x.subject x.context = [] := by
    rw [myEntriesForTriple, readList]
    exact List.mergeSort_nil
  have hspend : spendCredit H N a [] x.today = .ok (Dict.set [] (a.creditsFile H)
      (.obj (Json.insert state "balance" (.int (balance - 1))))) := by
    rw [spendCredit, readCredits_fresh (fun data hg => by cases hg), hstate]
    show (do
      let balance ← expect (N.int (Json.get state "balance")) "int() argument"
      require (0 < balance) "out of rating credits"
      return _) = _
    rw [hbalance]
    simp only [expect_bind_eq_ok, unit_bind_eq_ok, require_eq_ok, decide_eq_true_eq]
    exact ⟨balance, rfl, hpos, rfl⟩
  have hlist : readList (Dict.set [] (a.creditsFile H)
      (.obj (Json.insert state "balance" (.int (balance - 1))))) (a.ratingsFile H) = [] := by
    rw [readList, Dict.get_set]
    split_ifs <;> rfl
  rw [rate, hmine]
  simp only [List.getLast?_nil, hspend]
  rw [hx, bne_iff_ne.2 hself]
  simp [require, maxEntriesPerTriple, hlist]
  rfl

/-- A directory of credits alone. -/
theorem loadAll_credits {dir : Dir}
    (h : ∀ name content, dir.get name = some content → ∃ kvs, content = .obj kvs ∧ NoEntry kvs) :
    ∀ e ∈ loadAll N dir, e = ghost N := by
  intro e he
  rw [loadAll, List.mem_flatMap] at he
  obtain ⟨name, hname, he⟩ := he
  rw [mem_names] at hname
  obtain ⟨content, hg⟩ := exists_of_mem_names hname.1
  obtain ⟨kvs, rfl, hno⟩ := h name content hg
  rw [hg, Option.getD_some, Reputation.entriesOf_credits hno, List.mem_singleton] at he
  exact he

/-- A file of credits is loaded. -/
theorem ghost_mem_loadAll {dir : Dir} {state : Fields}
    (hg : dir.get (a.creditsFile H) = some (.obj state)) (hno : NoEntry state) :
    ghost N ∈ loadAll N dir := by
  have hname : (chars ".json").isSuffixOf (chars (a.creditsFile H)) = true := by
    have hsplit : a.creditsFile H = (a.fingerprint.getD (safeId H a.id) ++ "_credits") ++ ".json" := by
      rw [String.append_assoc]
      rfl
    rw [hsplit]
    exact isSuffixOf_json _
  rw [loadAll, List.mem_flatMap]
  refine ⟨_, mem_names.2 ⟨List.mem_map.2 ⟨_, Dict.mem_of_get hg, rfl⟩, hname⟩, ?_⟩
  rw [hg, Option.getD_some, Reputation.entriesOf_credits hno]
  exact List.mem_singleton_self _

/-- A rating that stands first. -/
def firstRating (N : Numbers) (subject : String) : RateArgs N :=
  { subject := subject, context := "", score := N.middle, timestamp := "", today := 0 }

/-- The credits of `b` take the place of the ratings of `a`. -/
theorem exists_overwritten (ha : a ∈ agents) {b : Agent} (hb : b ∈ agents)
    (hfile : a.ratingsFile H = b.creditsFile H) {subject : String} (hself : subject ≠ a.id) :
    ∃ w : World N, Reach (step H) (Uses agents) {} w ∧ (∀ e ∈ loadAll N w.dir, e = ghost N) ∧
      w.ratings = [(firstRating N subject).entry a] := by
  obtain ⟨state, hno, hrate⟩ := rate_fresh (H := H) a (x := firstRating N subject)
    N.inRange_middle hself
  have hget : ∀ data, Dict.get ((Dict.set [] (a.creditsFile H) (Json.obj state)).set
      (a.ratingsFile H) (.arr [((firstRating N subject).entry a).toDict])) (b.creditsFile H) ≠
        some (.obj data) := by
    intro data hg
    rw [Dict.get_set, if_pos hfile.symm] at hg
    cases hg
  obtain ⟨state', hno', hcredits⟩ := credits_fresh (N := N) hget 0
  have hrecord : record a (firstRating N subject) [] = [(firstRating N subject).entry a] := by
    rw [record, List.filter_nil, byTimestamp, List.mergeSort_nil]
    rfl
  have hfirst : Reach (step H) (Uses agents) ({} : World N)
      ⟨(Dict.set [] (a.creditsFile H) (Json.obj state)).set (a.ratingsFile H)
        (.arr [((firstRating N subject).entry a).toDict]), record a (firstRating N subject) []⟩ :=
    Reach.start.step (a := Act.rate a (firstRating N subject)) ha (by rw [step, hrate])
  refine ⟨_, hfirst.step (a := Act.credits b 0) hb (by rw [step, hcredits]), ?_, ?_⟩
  · refine loadAll_credits fun name content hg => ?_
    dsimp only at hg
    rw [Dict.get_set] at hg
    split_ifs at hg with hb'
    · cases hg
      exact ⟨state', rfl, hno'⟩
    · rw [Dict.get_set, hfile, if_neg hb', Dict.get_set] at hg
      split_ifs at hg
      · cases hg
        exact ⟨state, rfl, hno⟩
      · cases hg
  · exact hrecord

/-- **The ratings of an agent are loaded as they were recorded in every run just when no file of
    ratings has the name of a file of credits**, and the agent does not have the name of a
    ghost. -/
theorem ratings_loaded_iff (agents : List Agent) (id : String) :
    (∀ w : World N, Reach (step H) (Uses agents) {} w → w.Loaded id) ↔
      agents = [] ∨ id ≠ "?" ∧ Apart H agents := by
  constructor
  · intro h
    rw [or_iff_not_imp_left]
    intro hagents
    have hid : id ≠ "?" := by
      rintro rfl
      obtain ⟨a, ha⟩ := List.exists_mem_of_ne_nil agents hagents
      obtain ⟨state, hno, hcredits⟩ : ∃ state, NoEntry state ∧
          credits H N a [] 0 = .ok (Dict.set [] (a.creditsFile H) (.obj state)) :=
        credits_fresh (fun data hg => by cases hg) 0
      have hl := (h _ (Reach.start.step (a := Act.credits a 0) ha (by rw [step, hcredits]))).1
      have hghost : ghost N ∈ loadAll N (Dict.set [] (a.creditsFile H) (.obj state)) :=
        ghost_mem_loadAll (H := H) (a := a) (by rw [Dict.get_set, if_pos rfl]) hno
      have hmem : ghost N ∈ (loadAll N (Dict.set [] (a.creditsFile H) (.obj state))).filter
          fun e => decide (e.rater = .str "?") :=
        List.mem_filter.2 ⟨hghost, decide_eq_true rfl⟩
      rw [hl] at hmem
      exact List.not_mem_nil hmem
    refine ⟨hid, fun a ha b hb hfile => ?_⟩
    by_cases hself : a.id = id
    · obtain ⟨w, hw, hghost, hratings⟩ := exists_overwritten (N := N) ha hb hfile
        (show "?" ≠ a.id by rw [hself]; exact hid.symm)
      have hl := (h w hw).1
      have hmem : (firstRating N "?").entry a ∈
          w.ratings.filter fun e => decide (e.rater = .str id) := by
        rw [hratings, List.mem_filter, ← hself]
        exact ⟨List.mem_singleton_self _, decide_eq_true rfl⟩
      rw [← hl, List.mem_filter, decide_eq_true_iff] at hmem
      rw [hghost _ hmem.1] at hmem
      exact hid (Json.str.inj hmem.2).symm
    · obtain ⟨w, hw, hghost, hratings⟩ := exists_overwritten (N := N) ha hb hfile
        (Ne.symm hself)
      have hl := (h w hw).2
      have hmem : (firstRating N id).entry a ∈
          w.ratings.filter fun e => decide (e.subject = .str id) := by
        rw [hratings, List.mem_filter]
        exact ⟨List.mem_singleton_self _, decide_eq_true rfl⟩
      rw [← hl.mem_iff, List.mem_filter, decide_eq_true_iff] at hmem
      rw [hghost _ hmem.1] at hmem
      exact hid (Json.str.inj hmem.2).symm
  · rintro (rfl | ⟨hid, hap⟩) w hw
    · have hempty : w = {} := by
        refine hw.invariant (P := fun w => w = {}) rfl fun w act w' _ hact _ => ?_
        cases act <;> exact absurd hact List.not_mem_nil
      have hload : loadAll N [] = [] := by
        rw [loadAll, List.map_nil, List.filter_nil, List.mergeSort_nil, List.flatMap_nil]
      rw [hempty, World.Loaded, hload]
      exact ⟨rfl, List.Perm.refl _⟩
    · exact (sound_of_reach hap hw).loaded hap hid

/-- A score in halves. -/
def sampleToJson (s : Fin 11) : Json := .other s!"{s.val / 2}.{s.val % 2 * 5}"

def sampleFloat (v : Json) : Option (Fin 11) := (List.finRange 11).find? fun s => v = sampleToJson s

theorem sampleFloat_toJson : ∀ s, sampleFloat (sampleToJson s) = some s := by decide +kernel

/-- Scores in halves, on one day. -/
def sampleNumbers : Numbers where
  Score := Fin 11
  decScore := inferInstance
  float := sampleFloat
  toJson := sampleToJson
  inRange := fun _ => true
  clamp := id
  middle := 5
  float_toJson := sampleFloat_toJson
  clamp_of_inRange := fun _ _ => rfl
  inRange_middle := rfl
  int := Json.asInt
  int_int := fun _ => rfl
  fromIso := fun s => if s = "2026-01-01" then some 0 else none
  isoformat := fun _ => "2026-01-01"

def sampleAgents : List Agent := [{ id := "x" }, { id := "x_credits" }]

theorem ratings_overwritten : ∃ w : World sampleNumbers,
    Reach (step checksumHost) (Uses sampleAgents) {} w ∧ w.ratings.length = 1 ∧
      (∀ e ∈ loadAll sampleNumbers w.dir, e = ghost sampleNumbers) ∧ ¬w.Loaded "x_credits" := by
  obtain ⟨w, hw, hghost, hratings⟩ : ∃ w : World sampleNumbers,
      Reach (step checksumHost) (Uses sampleAgents) {} w ∧
        (∀ e ∈ loadAll sampleNumbers w.dir, e = ghost sampleNumbers) ∧
          w.ratings = [(firstRating sampleNumbers "y").entry { id := "x_credits" }] :=
    exists_overwritten (b := { id := "x" }) (List.mem_cons_of_mem _ List.mem_cons_self)
      List.mem_cons_self (by decide +kernel) (by decide)
  refine ⟨w, hw, by rw [hratings]; rfl, hghost, fun hl => ?_⟩
  have hmem : (firstRating sampleNumbers "y").entry { id := "x_credits" } ∈
      w.ratings.filter fun e => decide (e.rater = .str "x_credits") := by
    rw [hratings, List.mem_filter]
    exact ⟨List.mem_singleton_self _, decide_eq_true rfl⟩
  rw [← hl.1, List.mem_filter] at hmem
  have hsubject := congrArg ReputationEntry.subject (hghost _ hmem.1)
  exact absurd (Json.str.inj hsubject) (by decide)

end Reputation

end NthDao
