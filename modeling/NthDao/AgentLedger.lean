/-
  The ledger of an agent (`nth_dao/agent_ledger.py`).

  One line of `ledger.jsonl` for each event; an event carries its number, the hash of the
  one before it, its own hash and, with a key, a signature.

  * `Request`: the `record_*` calls, each with the `type` and the `data` of its event;
  * `append`: the event of a call, from what is read of the file;
  * `readEvents`: the lines are cut by `splitlines`;
  * `verifyEvent`, `verifyChain`, `computeStats`;
  * `readEvents_content`, `verifyChain_content`: a file of whole lines reads back and
    verifies if no text of its events breaks a line.

  A `float` is known by its text; `int()` of a text or a `float`, and the text of a quotient,
  are parameters.
-/
import NthDao.Market.Feed
import NthDao.Membership.Config
import NthDao.Normalize
import NthDao.Py.Dict
import NthDao.Py.SplitLines
import NthDao.Trust.Endorsement

namespace NthDao

open Py

namespace AgentLedger

variable (H : Host) (intText : String → Except String (Option ℤ))

/-! ## Events -/

/-- `ZERO_HASH`. -/
def zeroHash : String := String.ofList (List.replicate 64 '0')

/-- `LedgerEvent`; what is read from a file has any values in its fields. -/
structure LedgerEvent where
  eventId : Json
  type : Json
  agentFingerprint : Json
  agentId : Json
  timestamp : Json
  data : Fields
  pubkey : Json
  seq : ℤ
  prevHash : Json
  eventHash : Json
  sig : Json

namespace LedgerEvent

def toDict (e : LedgerEvent) : Fields :=
  [("event_id", e.eventId), ("type", e.type), ("agent_fingerprint", e.agentFingerprint),
    ("agent_id", e.agentId), ("timestamp", e.timestamp), ("data", .obj e.data),
    ("pubkey", e.pubkey), ("seq", .int e.seq), ("prev_hash", e.prevHash),
    ("event_hash", e.eventHash), ("sig", e.sig)]

/-- `signable_dict`, `none` where it raises. -/
def signableDict (e : LedgerEvent) : Option Json :=
  normalizeForCanonicalJson
    (.obj (e.toDict.filter fun p => p.1 != "sig" && p.1 != "event_hash"))

/-- The bytes that are hashed and signed. -/
def signable (e : LedgerEvent) : Option Bytes := e.signableDict.bind canonicalJson

def computeHash (e : LedgerEvent) : Option String := e.signable.map H.sha256

end LedgerEvent

/-- What a line raises: an error that the loop over the lines catches (`TypeError`,
    `ValueError`), or another one. -/
inductive LineError where
  | caught
  | raised
  deriving DecidableEq

/-- `int(v)`. -/
def seqOf (v : Json) : Except LineError ℤ :=
  match CapToken.intOf intText v with
  | .ok (some n) => .ok n
  | .ok none => .error .caught
  | .error _ => .error .raised

/-- `LedgerEvent.from_dict`. -/
def fromDict : Json → Except LineError LedgerEvent
  | .obj d => do
    let data ← expect (Membership.dictValue (Json.getD d "data" (.obj []))) .caught
    let seq ← seqOf intText (Json.getD d "seq" (.int 0))
    return {
      eventId          := Json.getD d "event_id" (.str "")
      type             := Json.getD d "type" (.str "")
      agentFingerprint := Json.getD d "agent_fingerprint" (.str "")
      agentId          := Json.getD d "agent_id" (.str "")
      timestamp        := Json.getD d "timestamp" (.str "")
      data             := data
      pubkey           := Json.getD d "pubkey" (.str "")
      seq              := seq
      prevHash         := Json.getD d "prev_hash" (.str zeroHash)
      eventHash        := Json.getD d "event_hash" (.str "")
      sig              := Json.getD d "sig" (.str "") }
  | _ => .error .raised

/-! ## Reading -/

/-- How a read fails: at a corrupt line, or by an error that is not caught. -/
inductive ReadError where
  | corrupt (line : ℕ)
  | raised
  deriving DecidableEq

/-- The event on a line. -/
def readEvent (line : List Char) : Except LineError LedgerEvent :=
  match loads line with
  | some v => fromDict intText v
  | none => .error .caught

/-- The loop over the lines, from line `n`; `strict` stops it at a corrupt one. -/
def readLines (strict : Bool) : ℕ → List (List Char) → Except ReadError (List LedgerEvent)
  | _, [] => .ok []
  | n, line :: rest =>
    if Market.stripChars line = [] then readLines strict (n + 1) rest
    else
      match readEvent intText (Market.stripChars line) with
      | .ok e => (readLines strict (n + 1) rest).map (e :: ·)
      | .error .caught =>
        if strict then .error (.corrupt n) else readLines strict (n + 1) rest
      | .error .raised => .error .raised

/-- `_read_events_unlocked`; `none` is a file that does not exist. -/
def readEvents (strict : Bool) : Option Bytes → Except ReadError (List LedgerEvent)
  | none => .ok []
  | some raw => do
    let text ← expect (utf8Decode raw) .raised
    readLines intText strict 1 (splitlines (Market.universalNewlines text))

/-- `all_events`. -/
def allEvents (file : Option Bytes) : Except ReadError (List LedgerEvent) :=
  readEvents intText false file

/-- `ledger_hash`. -/
def ledgerHash : Option Bytes → String
  | none => zeroHash
  | some raw => H.sha256 raw

/-! ## Verifying -/

/-- The first sixteen digits of the hash of a text. -/
def shortHash (s : String) : String :=
  String.ofList ((H.sha256 (utf8 s.toList)).toList.take 16)

/-- Why an event is refused; the text of a reason names the event. -/
inductive Reason where
  | seqMismatch (eventId : Json) (expected : ℕ) (got : ℤ)
  | prevHashMismatch (eventId : Json)
  | eventHashMismatch (eventId : Json)
  | fingerprintMismatch (eventId : Json)
  | signatureInvalid (eventId : Json)
  | missingSignature (eventId : Json)
  | unreadable (error : ReadError)
  deriving DecidableEq

/-- What `verify_chain` returns, or that it raises. -/
inductive Verdict where
  | ok
  | refused (reason : Reason)
  | raises
  deriving DecidableEq

/-- The signature of an event is the one of its key. -/
def signed (e : LedgerEvent) : Bool :=
  match e.pubkey, e.sig with
  | .str key, .str sig => Trust.verifyHex H key e.signable sig
  | _, _ => false

/-- The fingerprint of the key, or of the id. -/
def expectedFingerprint (e : LedgerEvent) : Option String :=
  (if truthy e.pubkey then e.pubkey else e.agentId).asStr.map (shortHash H)

/-- `verify_event`. -/
def verifyEvent (e : LedgerEvent) (previousHash : String) (expectedSeq : ℕ) : Verdict :=
  if e.seq ≠ expectedSeq then .refused (.seqMismatch e.eventId expectedSeq e.seq)
  else if e.prevHash.eqStr previousHash = false then .refused (.prevHashMismatch e.eventId)
  else
    match e.computeHash H with
    | none => .raises
    | some actualHash =>
      if e.eventHash.eqStr actualHash = false then .refused (.eventHashMismatch e.eventId)
      else
        match expectedFingerprint H e with
        | none => .raises
        | some fingerprint =>
          if e.agentFingerprint.eqStr fingerprint = false then
            .refused (.fingerprintMismatch e.eventId)
          else if truthy e.pubkey then
            if truthy e.sig then
              if signed H e then .ok else .refused (.signatureInvalid e.eventId)
            else .refused (.missingSignature e.eventId)
          else .ok

/-- The loop of `verify_chain`; an event that passed has the text of its hash. -/
def verifyEvents (prevHash : String) (expectedSeq : ℕ) : List LedgerEvent → Verdict
  | [] => .ok
  | e :: rest =>
    match verifyEvent H e prevHash expectedSeq with
    | .ok => verifyEvents (e.eventHash.asStr.getD "") (expectedSeq + 1) rest
    | verdict => verdict

/-- `verify_chain`. -/
def verifyChain (file : Option Bytes) : Verdict :=
  match readEvents intText true file with
  | .error e => .refused (.unreadable e)
  | .ok events => verifyEvents H zeroHash 1 events

/-! ## Recording -/

/-- The text of a `float`. -/
structure FloatArg where
  text : String
  isFloat : floatText text = true
  printable : text.toList.all Py.printable = true

/-- `uuid4().hex[:12]` and `datetime.now().isoformat()`. -/
structure Stamp where
  eventId : String
  timestamp : String
  eventId_printable : eventId.toList.all Py.printable = true
  timestamp_printable : timestamp.toList.all Py.printable = true

/-- What an `AgentLedger` is opened with: an id, or the identity of a key, which can sign
    where its secret half is there. -/
inductive Owner where
  | plain (agentId : String)
  | keyed (pub : { b : Bytes // b.length = 32 }) (key : Option { k // H.pubkey k = pub.1 })

namespace Owner

variable {H}

def agentId : Owner H → String
  | .plain agentId => agentId
  | .keyed pub _ => String.ofList ((H.sha256 pub.1).toList.take 12)

def pubkeyHex : Owner H → String
  | .plain _ => ""
  | .keyed pub _ => Trust.hex pub.1

/-- `fingerprint`: of the key, if there is one. -/
def fingerprint (o : Owner H) : String :=
  shortHash H (if o.pubkeyHex = "" then o.agentId else o.pubkeyHex)

/-- `identity.sign_json` where the identity can sign, the empty text elsewhere. -/
def signJson (o : Owner H) (payload : Option Bytes) : String :=
  match o with
  | .keyed _ (some k) => Trust.hex (H.sign k.1 (payload.getD []))
  | _ => ""

/-- There is no key without its secret half. -/
def signs : Owner H → Bool
  | .keyed _ none => false
  | _ => true

end Owner

/-- The `record_*` calls. -/
inductive Request where
  | stepClaim (missionId stepId templateId templateVersion category : String)
  | stepComplete (missionId stepId templateId templateVersion category : String)
      (tokenCost : ℤ) (elapsedSeconds : FloatArg) (outputSummary : String)
  | stepFailed (missionId stepId templateId category reason : String)
  | handoffReceived (missionId stepId fromAgent templateId : String)
  | handoffGiven (missionId stepId toAgent templateId : String)
  | reviewGiven (templateId templateVersion missionId : String) (score : FloatArg)
  | reviewReceived (templateId templateVersion missionId : String) (score : FloatArg)
      (reviewerPubkey : String)
  | endorsementGiven (subjectPubkey context : String)
  | endorsementReceived (endorserPubkey context : String)
  | missionOwned (missionId templateId : String)

namespace Request

/-- The `EVENT_*` text of a call. -/
def type : Request → String
  | stepClaim .. => "step_claim"
  | stepComplete .. => "step_complete"
  | stepFailed .. => "step_failed"
  | handoffReceived .. => "step_handoff"
  | handoffGiven .. => "step_handoff"
  | reviewGiven .. => "review_given"
  | reviewReceived .. => "review_received"
  | endorsementGiven .. => "endorsement_given"
  | endorsementReceived .. => "endorsement_received"
  | missionOwned .. => "mission_owned"

/-- `s[:200]`. -/
def shorten (s : String) : String := String.ofList (s.toList.take 200)

/-- The `data` of the event of a call. -/
def data : Request → Fields
  | stepClaim mission step template version category =>
    [("mission_id", .str mission), ("step_id", .str step), ("template_id", .str template),
      ("template_version", .str version), ("category", .str category)]
  | stepComplete mission step template version category cost elapsed summary =>
    [("mission_id", .str mission), ("step_id", .str step), ("template_id", .str template),
      ("template_version", .str version), ("category", .str category), ("token_cost", .int cost),
      ("elapsed_seconds", .other elapsed.text), ("output_summary", .str (shorten summary))]
  | stepFailed mission step template category reason =>
    [("mission_id", .str mission), ("step_id", .str step), ("template_id", .str template),
      ("category", .str category), ("reason", .str (shorten reason))]
  | handoffReceived mission step fromAgent template =>
    [("direction", .str "received"), ("mission_id", .str mission), ("step_id", .str step),
      ("from_agent", .str fromAgent), ("template_id", .str template)]
  | handoffGiven mission step toAgent template =>
    [("direction", .str "given"), ("mission_id", .str mission), ("step_id", .str step),
      ("to_agent", .str toAgent), ("template_id", .str template)]
  | reviewGiven template version mission score =>
    [("template_id", .str template), ("template_version", .str version),
      ("mission_id", .str mission), ("score", .other score.text)]
  | reviewReceived template version mission score reviewer =>
    [("template_id", .str template), ("template_version", .str version),
      ("mission_id", .str mission), ("score", .other score.text),
      ("reviewer_pubkey", .str reviewer)]
  | endorsementGiven subject context =>
    [("subject_pubkey", .str subject), ("context", .str context)]
  | endorsementReceived endorser context =>
    [("endorser_pubkey", .str endorser), ("context", .str context)]
  | missionOwned mission template => [("mission_id", .str mission), ("template_id", .str template)]

/-- No text of the event breaks a line. -/
def oneLine (r : Request) : Bool := (Json.obj r.data).allTexts Trust.oneLine

end Request

/-- The event of a call after `previous`, without its hash and signature. -/
def newEvent (o : Owner H) (r : Request) (t : Stamp) (previous : List LedgerEvent) :
    LedgerEvent where
  eventId          := .str t.eventId
  type             := .str r.type
  agentFingerprint := .str o.fingerprint
  agentId          := .str o.agentId
  timestamp        := .str t.timestamp
  data             := r.data
  pubkey           := .str o.pubkeyHex
  seq              := previous.length + 1
  prevHash         := (previous.getLast?.map LedgerEvent.eventHash).getD (.str zeroHash)
  eventHash        := .str ""
  sig              := .str ""

/-- The event that `_append` writes, `none` where it raises. -/
def append (o : Owner H) (r : Request) (t : Stamp) (file : Option Bytes) : Option LedgerEvent :=
  match readEvents intText false file with
  | .error _ => none
  | .ok previous => do
    let event := newEvent H o r t previous
    let hash ← event.computeHash H
    let event := { event with eventHash := .str hash, sig := .str (o.signJson event.signable) }
    if (Json.obj event.toDict).writable then some event else none

/-- The text of the line of an event. -/
def lineOf (e : LedgerEvent) : List Char := dumpsSpaced (.obj e.toDict)

/-- The bytes that are appended for an event. -/
def lineBytes (e : LedgerEvent) : Bytes := utf8 (lineOf e ++ ['\n'])

/-! ## Statistics -/

/-- The counters of `compute_stats`. -/
structure Tally where
  missionsOwned : ℕ := 0
  stepsCompleted : ℕ := 0
  stepsFailed : ℕ := 0
  handoffsReceived : ℕ := 0
  handoffsGiven : ℕ := 0
  reviewsGiven : ℕ := 0
  reviewsReceived : ℕ := 0
  endorsementsGiven : ℕ := 0
  endorsementsReceived : ℕ := 0
  templatesUsed : Py.Dict String ℕ := []
  categories : Py.Dict String ℕ := []
  totalTokenCost : ℤ := 0

/-- `counts[k] = counts.get(k, 0) + 1` for a key that is not empty; keys are texts. -/
def countKey (counts : Py.Dict String ℕ) (key : Json) : Option (Py.Dict String ℕ) :=
  if truthy key then key.asStr.map fun k => counts.set k ((counts.get k).getD 0 + 1)
  else some counts

namespace Tally

/-- The body of the loop, `none` where it raises. -/
def add (s : Tally) (e : LedgerEvent) : Option Tally :=
  if e.type.eqStr "mission_owned" then some { s with missionsOwned := s.missionsOwned + 1 }
  else if e.type.eqStr "step_complete" then do
    let cost ← (seqOf intText (Json.getD e.data "token_cost" (.int 0))).toOption
    let templates ← countKey s.templatesUsed (Json.get e.data "template_id")
    let categories ← countKey s.categories (Json.get e.data "category")
    return { s with
      stepsCompleted := s.stepsCompleted + 1
      totalTokenCost := s.totalTokenCost + cost
      templatesUsed := templates
      categories := categories }
  else if e.type.eqStr "step_failed" then do
    let categories ← countKey s.categories (Json.get e.data "category")
    return { s with stepsFailed := s.stepsFailed + 1, categories := categories }
  else if e.type.eqStr "step_handoff" then
    if (Json.get e.data "direction").eqStr "received" then
      some { s with handoffsReceived := s.handoffsReceived + 1 }
    else if (Json.get e.data "direction").eqStr "given" then
      some { s with handoffsGiven := s.handoffsGiven + 1 }
    else some s
  else if e.type.eqStr "review_given" then some { s with reviewsGiven := s.reviewsGiven + 1 }
  else if e.type.eqStr "review_received" then
    some { s with reviewsReceived := s.reviewsReceived + 1 }
  else if e.type.eqStr "endorsement_given" then
    some { s with endorsementsGiven := s.endorsementsGiven + 1 }
  else if e.type.eqStr "endorsement_received" then
    some { s with endorsementsReceived := s.endorsementsReceived + 1 }
  else some s

/-- The items of the snapshot that count. -/
def items (s : Tally) : Fields :=
  [("missions_owned", .int s.missionsOwned), ("steps_completed", .int s.stepsCompleted),
    ("steps_failed", .int s.stepsFailed), ("handoffs_received", .int s.handoffsReceived),
    ("handoffs_given", .int s.handoffsGiven), ("reviews_given", .int s.reviewsGiven),
    ("reviews_received", .int s.reviewsReceived),
    ("endorsements_given", .int s.endorsementsGiven),
    ("endorsements_received", .int s.endorsementsReceived),
    ("templates_used", .obj (s.templatesUsed.map fun p => (p.1, .int p.2))),
    ("categories", .obj (s.categories.map fun p => (p.1, .int p.2))),
    ("total_token_cost", .int s.totalTokenCost)]

end Tally

variable (quotient : ℕ → ℕ → FloatArg)

/-- `success_rate`. -/
def successRate (s : Tally) : Json :=
  let totalAttempts := s.stepsCompleted + s.stepsFailed
  .other (if totalAttempts ≠ 0 then (quotient s.stepsCompleted totalAttempts).text else "0.0")

/-- The fold of `compute_stats` over the events, with the hash that the file has then. -/
def computeStats (fingerprint agentId : String) (events : List LedgerEvent) (hash : String) :
    Option Fields := do
  let s ← events.foldlM (Tally.add intText) {}
  let timeOf (e : Option LedgerEvent) : Json := (e.map LedgerEvent.timestamp).getD (.str "")
  return [("fingerprint", .str fingerprint), ("agent_id", .str agentId),
    ("period_start", timeOf events.head?), ("period_end", timeOf events.getLast?),
    ("event_count", .int events.length)] ++ s.items ++
    [("last_active_at", timeOf events.getLast?), ("ledger_hash", .str hash),
      ("success_rate", successRate quotient s)]

/-- `compute_stats` while the file is left alone. -/
def statsOf (fingerprint agentId : String) (file : Option Bytes) : Option Fields :=
  match allEvents intText file with
  | .error _ => none
  | .ok events =>
    computeStats intText quotient fingerprint agentId events (ledgerHash H file)

/-! ## Whole lines -/

/-- The text of a file with these events. -/
def content (es : List LedgerEvent) : List Char := (es.map lineOf).flatMap (· ++ ['\n'])

/-- `json.dumps` writes the event on one line. -/
structure Printed (e : LedgerEvent) : Prop where
  wf : (Json.obj e.toDict).wf = true
  writable : (Json.obj e.toDict).writable = true
  oneLine : ∀ c ∈ lineOf e, isBreak c = false

section Lines

variable {e : LedgerEvent} {es : List LedgerEvent}

theorem fromDict_toDict (e : LedgerEvent) : fromDict intText (.obj e.toDict) = .ok e := by
  simp [fromDict, LedgerEvent.toDict, Json.getD, Json.lookup_cons, Membership.dictValue, seqOf,
    CapToken.intOf, expect, bind, Except.bind, pure, Except.pure]

theorem lineOf_eq (e : LedgerEvent) : ∃ cs, lineOf e = '{' :: (cs ++ ['}']) := by
  rw [lineOf, dumpsSpaced]
  exact ⟨_, rfl⟩

theorem stripChars_lineOf (e : LedgerEvent) : Market.stripChars (lineOf e) = lineOf e := by
  obtain ⟨cs, hcs⟩ := lineOf_eq e
  rw [hcs, Market.stripChars, List.dropWhile_cons_of_neg (by decide), ← List.cons_append,
    List.reverse_append, List.reverse_singleton, List.singleton_append,
    List.dropWhile_cons_of_neg (by decide)]
  simp

theorem Printed.readEvent (h : Printed e) : readEvent intText (lineOf e) = .ok e := by
  have hl : loads (lineOf e) = some (.obj e.toDict) := loads_dumpsSpaced h.wf h.writable
  rw [AgentLedger.readEvent, hl]
  exact fromDict_toDict intText e

theorem readLines_lineOf (strict : Bool) (n : ℕ) (h : ∀ e ∈ es, Printed e) :
    readLines intText strict n (es.map lineOf) = .ok es := by
  induction es generalizing n with
  | nil => rfl
  | cons e es ih =>
    rw [List.forall_mem_cons] at h
    have hne : lineOf e ≠ [] := by
      obtain ⟨cs, hcs⟩ := lineOf_eq e
      simp [hcs]
    rw [List.map_cons, readLines, stripChars_lineOf, if_neg hne, h.1.readEvent,
      ih (n + 1) h.2]
    rfl

theorem content_concat (es : List LedgerEvent) (e : LedgerEvent) :
    content (es ++ [e]) = content es ++ (lineOf e ++ ['\n']) := by
  simp [content]

/-- **A file of whole lines** reads back. -/
theorem readEvents_content (strict : Bool) (h : ∀ e ∈ es, Printed e) :
    readEvents intText strict (some (utf8 (content es))) = .ok es := by
  have hb : ∀ l ∈ es.map lineOf, ∀ c ∈ l, isBreak c = false :=
    List.forall_mem_map.2 fun e he => (h e he).oneLine
  have hcr : ∀ c ∈ content es, c ≠ '\r' := by
    rintro c hc rfl
    obtain ⟨l, hl, hc⟩ := List.mem_flatMap.1 hc
    rcases List.mem_append.1 hc with hc | hc
    · exact absurd (hb l hl _ hc) (by decide)
    · exact absurd (List.mem_singleton.1 hc) (by decide)
  rw [readEvents, utf8Decode_utf8]
  show readLines intText strict 1 (splitlines (Market.universalNewlines (content es))) = _
  rw [Market.universalNewlines_of_le hcr, content, splitlines_lines hb,
    readLines_lineOf intText strict 1 h]

end Lines

/-! ## The chain -/

/-- The hash that the next event carries as `prev_hash`. -/
def lastHash (prevHash : String) (es : List LedgerEvent) : String :=
  (es.getLast?.map fun e => e.eventHash.asStr.getD "").getD prevHash

section Chain

variable {H intText} {e : LedgerEvent} {es : List LedgerEvent}

theorem verifyEvents_concat {prevHash : String} {n : ℕ}
    (h : verifyEvents H prevHash n es = .ok) (e : LedgerEvent) :
    verifyEvents H prevHash n (es ++ [e]) =
      match verifyEvent H e (lastHash prevHash es) (n + es.length) with
      | .ok => .ok
      | verdict => verdict := by
  induction es generalizing prevHash n with
  | nil => rfl
  | cons x es ih =>
    rw [verifyEvents] at h
    rw [List.cons_append, verifyEvents]
    cases hx : verifyEvent H x prevHash n with
    | ok =>
      rw [hx] at h
      simp only
      rw [ih h, List.length_cons, Nat.add_right_comm, Nat.add_assoc]
      cases es with
      | nil => rfl
      | cons y ys => rfl
    | refused reason => rw [hx] at h; cases h
    | raises => rw [hx] at h; cases h

/-- An event that is accepted carries its own hash. -/
theorem eventHash_of_verifyEvent {prevHash : String} {n : ℕ}
    (h : verifyEvent H e prevHash n = .ok) : ∃ m, e.eventHash = .str (H.sha256 m) := by
  unfold verifyEvent at h
  split at h
  · cases h
  split at h
  · cases h
  split at h
  · cases h
  · rename_i actualHash hc
    split at h
    · cases h
    · rename_i hh
      obtain ⟨m, -, rfl⟩ := Option.map_eq_some_iff.1 hc
      exact ⟨m, by simpa using hh⟩

theorem eventHash_of_verifyEvents {prevHash : String} {n : ℕ}
    (h : verifyEvents H prevHash n es = .ok) :
    ∀ e ∈ es, ∃ m, e.eventHash = .str (H.sha256 m) := by
  induction es generalizing prevHash n with
  | nil => exact fun e he => absurd he List.not_mem_nil
  | cons x es ih =>
    rw [verifyEvents] at h
    cases hx : verifyEvent H x prevHash n with
    | ok =>
      rw [hx] at h
      exact List.forall_mem_cons.2 ⟨eventHash_of_verifyEvent hx, ih h⟩
    | refused reason => rw [hx] at h; cases h
    | raises => rw [hx] at h; cases h

/-- The hash of the last event, as the next event takes it. -/
theorem prevHash_newEvent (h : verifyEvents H zeroHash 1 es = .ok) :
    (es.getLast?.map LedgerEvent.eventHash).getD (.str zeroHash) = .str (lastHash zeroHash es) := by
  rw [lastHash]
  cases hl : es.getLast? with
  | none => rfl
  | some e =>
    obtain ⟨hash, hh⟩ := eventHash_of_verifyEvents h e (List.mem_of_getLast? hl)
    rw [Option.map_some, Option.map_some, Option.getD_some, Option.getD_some, hh]
    rfl

/-- The hash and the signature are not signed. -/
theorem signable_signed (e : LedgerEvent) (hash sig : Json) :
    { e with eventHash := hash, sig := sig }.signable = e.signable := by
  rfl

/-- What `append` makes of a call. -/
theorem append_eq_some {o : Owner H} {r : Request} {t : Stamp} {file : Option Bytes}
    (hr : allEvents intText file = .ok es) (h : append H intText o r t file = some e) :
    ∃ hash, (newEvent H o r t es).computeHash H = some hash ∧
      e = { newEvent H o r t es with
        eventHash := .str hash
        sig := .str (o.signJson (newEvent H o r t es).signable) } ∧
      (Json.obj e.toDict).writable = true := by
  rw [allEvents] at hr
  rw [append, hr] at h
  simp only [Option.bind_eq_bind, Option.bind_eq_some_iff, Option.ite_none_right_eq_some,
    Option.some.injEq] at h
  obtain ⟨hash, hh, hw, rfl⟩ := h
  exact ⟨hash, hh, rfl, hw⟩

/-- The fingerprint of an event is the one of its key, or of its id. -/
theorem expectedFingerprint_newEvent (o : Owner H) (r : Request) (t : Stamp)
    (es : List LedgerEvent) (hash sig : Json) :
    expectedFingerprint H { newEvent H o r t es with eventHash := hash, sig := sig } =
      some o.fingerprint := by
  by_cases hk : o.pubkeyHex = ""
  · simp [expectedFingerprint, newEvent, truthy, hk, Json.asStr, Owner.fingerprint]
  · simp [expectedFingerprint, newEvent, truthy, hk, Json.asStr, Owner.fingerprint]

/-- The signature of an identity that can sign verifies. -/
theorem verifyHex_signJson {o : Owner H} (ho : o.signs = true) {payload : Option Bytes}
    {m : Bytes} (hm : payload = some m) : o.pubkeyHex = "" ∨
      (o.pubkeyHex ≠ "" ∧ o.signJson payload ≠ "" ∧
        Trust.verifyHex H o.pubkeyHex payload (o.signJson payload) = true) := by
  cases o with
  | plain agentId => exact .inl rfl
  | keyed pub key =>
    cases key with
    | none => cases ho
    | some k =>
      obtain ⟨pub, hp⟩ := pub
      obtain ⟨k, hk⟩ := k
      cases hk
      refine .inr ⟨Trust.hex_ne_empty (Trust.pubkey_ne_nil H k), ?_, ?_⟩
      · exact Trust.hex_ne_empty (Trust.sign_ne_nil H k _)
      · rw [Owner.signJson, hm]
        exact Trust.verifyHex_sign H k rfl

/-- **An event that is appended is accepted** after the ones it was appended to, if the
    identity that wrote it can sign. -/
theorem verifyEvent_append {o : Owner H} {r : Request} {t : Stamp} {file : Option Bytes}
    (hr : allEvents intText file = .ok es) (hv : verifyEvents H zeroHash 1 es = .ok)
    (h : append H intText o r t file = some e) (ho : o.signs = true) :
    verifyEvents H zeroHash 1 (es ++ [e]) = .ok := by
  obtain ⟨hash, hh, rfl, -⟩ := append_eq_some hr h
  rw [verifyEvents_concat hv]
  set e := newEvent H o r t es with he
  have hseq : e.seq = ((1 + es.length : ℕ) : ℤ) := by
    rw [he]
    show (es.length : ℤ) + 1 = _
    push_cast
    ring
  have hprev : e.prevHash.eqStr (lastHash zeroHash es) = true :=
    Json.eqStr_iff.2 (prevHash_newEvent hv)
  obtain ⟨m, hm, -⟩ := Option.map_eq_some_iff.1 hh
  have hsig : ∀ hash sig, signed H { e with eventHash := hash, sig := .str sig } =
      Trust.verifyHex H o.pubkeyHex e.signable sig := fun _ _ => rfl
  have hpub : truthy e.pubkey = (o.pubkeyHex != "") := rfl
  have hcompute : ∀ hash sig, { e with eventHash := hash, sig := sig }.computeHash H =
      e.computeHash H := fun _ _ => rfl
  have hfinger : e.agentFingerprint.eqStr o.fingerprint = true := Json.eqStr_iff.2 rfl
  have hself : (Json.str hash).eqStr hash = true := Json.eqStr_iff.2 rfl
  unfold verifyEvent
  rw [if_neg (not_not.2 hseq), if_neg (by rw [hprev]; decide), hcompute, hh]
  simp only [hself, he, expectedFingerprint_newEvent]
  rw [← he, hfinger, hpub]
  rcases verifyHex_signJson ho hm with h₀ | ⟨h₁, h₂, h₃⟩
  · simp [h₀]
  · simp only [hsig, h₃, truthy]
    simp [h₁, h₂]

end Chain

end AgentLedger

end NthDao
