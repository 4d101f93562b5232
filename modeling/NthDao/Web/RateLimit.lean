/-
  The rate limiter of the public routes (`PersistentRateLimiter`, `web/rate_limit.py`).

  Workers share a locked file with the times of the checks that passed, by key.  A worker
  remembers its last denials, and repeats them without the file.

  * `loadState`, `cleaned`: the state in the file, and what a check keeps of it;
  * `checkLocked`: the check of a key under the lock;
  * `cachedDenial`, `rememberDenial`: the denials of one worker;
  * `step`: checks arrive at workers, and get the lock in any order.

  Wall clock readings are whole milliseconds; those of the monotonic clock are seconds, as are
  the waits in a decision, without the rounding of `float`s.
-/
import Mathlib.Data.List.DropRight
import Mathlib.Data.List.MinMax
import Mathlib.Data.Rat.Floor
import NthDao.CapToken
import NthDao.Py.Check
import NthDao.Py.Dict
import NthDao.Py.Hex

namespace NthDao

open Py

namespace Web

variable (H : Host)

/-! ## Settings -/

/-- The arguments of the limiter, checked. -/
structure Settings where
  maxPerWindow : ℕ
  windowMs : ℤ
  maxTrackedKeys : ℕ
  max_pos : 0 < maxPerWindow
  window_pos : 0 < windowMs
  keys_pos : 0 < maxTrackedKeys

/-- `RateLimitDecision`. -/
structure RateLimitDecision where
  allowed : Bool
  retryAfterSeconds : ℚ
  remaining : ℤ
  deriving DecidableEq

/-- `hmac.new(key, msg, hashlib.sha256).hexdigest()`, of a key not longer than a block. -/
def hmacHex (key msg : Bytes) : String :=
  let block := key ++ List.replicate (64 - key.length) 0
  H.sha256 (block.map (· ^^^ 0x5c) ++ fromHex (H.sha256 (block.map (· ^^^ 0x36) ++ msg)).toList)

/-- `secrets.token_hex(32)`. -/
structure Salt where
  text : String
  hex : isHex 64 text.toList = true

/-- `_private_key`. -/
def privateKey (salt key : String) : String :=
  hmacHex H ((bytesFromHex (chars salt)).getD []) (utf8 (chars key))

variable (c : Settings)

/-! ## The denials of a worker -/

/-- `_denied_until`: the end of the denial by the monotonic clock and by the wall clock. -/
abbrev Denials := Py.Dict String (ℚ × ℤ)

/-- `d.pop(min(d, key=lambda item: f(d[item])), None)`. -/
def popMin {ν β : Type} [LinearOrder β] (f : ν → β) (d : Py.Dict String ν) :
    Py.Dict String ν :=
  match d.argmin fun p => f p.2 with
  | some p => d.pop p.1
  | none => d

/-- `_cached_denial`; `now` is the monotonic clock. -/
def cachedDenial (denials : Denials) (privateKey : String) (now : ℚ) (observedMs : ℤ) :
    Denials × Option RateLimitDecision :=
  match denials.get privateKey with
  | none => (denials, none)
  | some (deniedUntil, wallUntilMs) =>
    if deniedUntil ≤ now || wallUntilMs ≤ observedMs then (denials.pop privateKey, none)
    else (denials, some ⟨false, deniedUntil - now, 0⟩)

/-- `_remember_denial`. -/
def rememberDenial (denials : Denials) (privateKey : String) (now retryAfter : ℚ)
    (wallUntilMs : ℤ) : Denials :=
  let denials :=
    if !denials.has privateKey && decide (c.maxTrackedKeys ≤ denials.length) then
      popMin Prod.fst denials
    else denials
  denials.set privateKey (now + max 0 retryAfter, wallUntilMs)

/-! ## The file -/

/-- What a check takes from the file. -/
structure LoadedState where
  salt : Option String := none
  buckets : Fields := []
  lastNowMs : ℤ := 0

/-- `_load_state`; `none` is a file that is not there. -/
def loadState : Option Json → Except String LoadedState
  | none => .ok {}
  | some raw => do
    let malformed := "persistent rate-limit state is malformed"
    let raw ← match raw with
      | .obj kvs => .ok kvs
      | _ => .error malformed
    let version := Json.get raw "version"
    require (!CapToken.unhashable version) "unhashable type"
    require (eqv version (.int 1) || eqv version (.int 2)) malformed
    let salt ← expect (Json.get raw "salt").asStr malformed
    require (len salt == 64) malformed
    let buckets ← match Json.get raw "buckets" with
      | .obj kvs => .ok kvs
      | _ => .error malformed
    let lastNowMs ← expect (Json.getD raw "last_now_ms" (.int 0)).asInt malformed
    require (0 ≤ lastNowMs) malformed
    require (bytesFromHex (chars salt)).isSome "persistent rate-limit salt is malformed"
    return ⟨some salt, buckets, lastNowMs⟩

/-- The times of a bucket, by key. -/
abbrev Buckets := Py.Dict String (List ℤ)

/-- One item of a bucket, if it is a time in the window. -/
def keepTime (rebaseMs nowMs : ℤ) : Json → Option ℤ
  | .int n =>
    if nowMs - c.windowMs < n - rebaseMs ∧ n - rebaseMs ≤ nowMs then some (n - rebaseMs) else none
  | _ => none

/-- The times that a check keeps of one bucket, in their order. -/
def timestamps (rebaseMs nowMs : ℤ) (values : List Json) : List ℤ :=
  ((values.filterMap (keepTime c rebaseMs nowMs)).mergeSort fun a b => a ≤ b).rtake c.maxPerWindow

/-- `cleaned`. -/
def cleaned (rebaseMs nowMs : ℤ) (buckets : Fields) : Buckets :=
  (buckets.take (c.maxTrackedKeys * 2)).filterMap fun p =>
    match p.2 with
    | .arr values =>
      match timestamps c rebaseMs nowMs values with
      | [] => none
      | t :: ts => some (p.1, t :: ts)
    | _ => none

/-- The state that is written. -/
def stateJson (salt : String) (buckets : Buckets) (lastNowMs : ℤ) : Json :=
  .obj [("version", .int 2), ("salt", .str salt),
    ("buckets", .obj (buckets.map fun p => (p.1, .arr (p.2.map .int)))),
    ("last_now_ms", .int lastNowMs)]

/-! ## A check -/

/-- `rebase_ms`: how far the clock has gone back, if that is more than a window. -/
def rebaseMs (lastNowMs observedMs : ℤ) : ℤ :=
  if c.windowMs < lastNowMs - observedMs then lastNowMs - observedMs else 0

/-- `now_ms_value`: the effective clock. -/
def nowMsValue (lastNowMs observedMs : ℤ) : ℤ :=
  if rebaseMs c lastNowMs observedMs ≠ 0 then observedMs else max observedMs lastNowMs

/-- What a check under the lock does. -/
structure Verdict where
  decision : RateLimitDecision
  file : Option Json
  nowMs : ℤ
  /-- the end of the denial by the wall clock, for `_remember_denial` -/
  wallUntilMs : Option ℤ := none

/-- The part of `check` under the lock. -/
def checkLocked (file : Option Json) (fresh : Salt) (key : String) (observedMs : ℤ) :
    Except String Verdict := do
  let state ← loadState file
  let rebase := rebaseMs c state.lastNowMs observedMs
  let nowMs := nowMsValue c state.lastNowMs observedMs
  let salt := state.salt.getD fresh.text
  let kept := cleaned c rebase nowMs state.buckets
  let pk := privateKey H salt key
  let bucket := (kept.get pk).getD []
  if c.maxPerWindow ≤ bucket.length then
    let oldest := bucket.headD 0
    let retryMs := max 0 (oldest + c.windowMs - nowMs)
    return {
      decision := ⟨false, retryMs / 1000, 0⟩
      -- only a rebase is written on a denial
      file := if rebase ≠ 0 then some (stateJson salt kept nowMs) else file
      nowMs := nowMs
      wallUntilMs := some (oldest + c.windowMs) }
  else
    let kept :=
      if !kept.has pk && decide (c.maxTrackedKeys ≤ kept.length) then
        popMin (fun ts : List ℤ => ts.getLastD 0) kept
      else kept
    let bucket := bucket ++ [nowMs]
    return {
      decision := ⟨true, 0, c.maxPerWindow - bucket.length⟩
      file := some (stateJson salt (kept.set pk bucket) nowMs)
      nowMs := nowMs }

/-! ## Workers -/

/-- What a decision rests on. -/
inductive Basis where
  | noKey
  | memory
  | file
  deriving DecidableEq

/-- A check that has been decided; `atMs` is the effective clock where the file was read, the
    wall clock else, and `mono` the monotonic clock at the decision. -/
structure CheckRun where
  worker : ℕ
  key : String
  atMs : ℤ
  mono : ℚ
  decision : RateLimitDecision
  basis : Basis
  deriving DecidableEq

/-- A check on its way to the lock. -/
structure Waiting where
  worker : ℕ
  key : String
  observedMs : ℕ

/-- The file, the denials of each worker, and the checks: those on their way, and those that
    have been decided, the last one first. -/
structure World where
  file : Option Json := none
  denials : ℕ → Denials := fun _ => []
  waiting : List Waiting := []
  runs : List CheckRun := []

inductive Act where
  /-- a check reads the clocks of its worker and looks for a denial -/
  | arrive (worker : ℕ) (key : String) (observedMs : ℕ) (mono : ℚ)
  /-- a check gets the lock -/
  | enter (n : ℕ) (fresh : Salt) (mono : ℚ)
  /-- a check does not get it in time -/
  | timeout (n : ℕ)

/-- `_local_cache_key`; the secret of a worker has 32 bytes. -/
def localCacheKey (secret : Salt) (key : String) : String := privateKey H secret.text key

/-- The `n`-th check on its way has been decided. -/
def World.settle (secret : Salt) (w : World) (n : ℕ) (p : Waiting) (mono : ℚ) (v : Verdict) : World :=
  let pk := localCacheKey H secret p.key
  let denials :=
    match v.wallUntilMs with
    | some wallUntilMs =>
      rememberDenial c (w.denials p.worker) pk mono v.decision.retryAfterSeconds wallUntilMs
    | none => (w.denials p.worker).pop pk
  { file := v.file
    denials := Function.update w.denials p.worker denials
    waiting := w.waiting.eraseIdx n
    runs := ⟨p.worker, p.key, v.nowMs, mono, v.decision, .file⟩ :: w.runs }

/-- One step; a worker that is started again is another one, with its own secret. -/
def step (secret : ℕ → Salt) (w : World) : Act → Option World
  | .arrive i key observedMs mono =>
    if key = "" then
      some { w with runs := ⟨i, key, observedMs, mono, ⟨true, 0, c.maxPerWindow⟩, .noKey⟩ :: w.runs }
    else
      match cachedDenial (w.denials i) (localCacheKey H (secret i) key) mono observedMs with
      | (denials, some decision) =>
        some { w with
          denials := Function.update w.denials i denials
          runs := ⟨i, key, observedMs, mono, decision, .memory⟩ :: w.runs }
      | (denials, none) =>
        some { w with
          denials := Function.update w.denials i denials
          waiting := w.waiting ++ [⟨i, key, observedMs⟩] }
  | .enter n fresh mono =>
    (w.waiting[n]?).map fun p =>
      match checkLocked H c w.file fresh p.key p.observedMs with
      | .error _ => { w with waiting := w.waiting.eraseIdx n }
      | .ok v => w.settle H c (secret p.worker) n p mono v
  | .timeout n => some { w with waiting := w.waiting.eraseIdx n }

end Web

end NthDao
