/-
  The ledger of an agent in the hands of any number of processes.

  A `World` is the two files of a ledger, the calls of `stats` on their way, and what the
  calls have returned; a process may stop while it writes a line.

  * `World.step`: the `record_*` calls, a call that stops after some bytes of its line, and
    `stats` and `refresh_stats` in two steps, since the hash of the file is taken after its
    events are read;
  * `World.Meets`: no text breaks a line, a key is there with its secret half, nothing is
    appended to a part of a line, and no file is taken for another one by its hash;
  * `ledger_kept`: in the runs of such steps the chain verifies, every event is returned,
    and `stats` is `compute_stats`;
  * `ledger_broken`: a line separator in a text, or a part of a line, loses events.

  The other file is `stats.json`; what is written there is read back.
-/
import NthDao.AgentLedger
import NthDao.Reach

namespace NthDao

open Py

namespace AgentLedger

variable (H : Host) (intText : String → Except String (Option ℤ)) (quotient : ℕ → ℕ → FloatArg)

/-! ## The system -/

/-- `stats.json`, with the id of the ledger object that wrote it and the ledger it is of. -/
structure Snapshot where
  stats : Fields
  agentId : String
  file : Option Bytes

/-- A call of `compute_stats` that has read its events. -/
structure Reading where
  owner : Owner H
  file : Option Bytes
  events : List LedgerEvent

/-- A call of `stats` that has returned, `none` where it raised. -/
structure Answer where
  owner : Owner H
  file : Option Bytes
  result : Option Fields

structure World where
  file : Option Bytes := none
  cache : Option Snapshot := none
  reading : List (Reading H) := []
  recorded : List LedgerEvent := []
  answers : List (Answer H) := []

inductive Act where
  | record (o : Owner H) (r : Request) (t : Stamp)
  /-- the process stops after `n` bytes of the line -/
  | crash (o : Owner H) (r : Request) (t : Stamp) (n : ℕ)
  | stats (o : Owner H)
  | refresh (o : Owner H)
  /-- the `i`th `compute_stats` takes the hash of the file, and the call returns -/
  | finish (i : ℕ)

namespace World

variable {H}

/-- `compute_stats` reads the events. -/
def startReading (w : World H) (o : Owner H) : World H :=
  match allEvents intText w.file with
  | .ok events => { w with reading := w.reading ++ [⟨o, w.file, events⟩] }
  | .error _ => { w with answers := w.answers ++ [⟨o, w.file, none⟩] }

/-- `compute_stats` takes the hash, and the snapshot is written and returned. -/
def finishReading (fingerprint : String) (w : World H) (i : ℕ) (x : Reading H) : World H :=
  let reading := w.reading.eraseIdx i
  match computeStats intText quotient fingerprint x.owner.agentId x.events
      (ledgerHash H w.file) with
  | some fresh =>
    if (Json.obj fresh).writable then
      { w with
        cache   := some ⟨fresh, x.owner.agentId, w.file⟩
        reading := reading
        answers := w.answers ++ [⟨x.owner, w.file, some fresh⟩] }
    else { w with reading := reading, answers := w.answers ++ [⟨x.owner, w.file, none⟩] }
  | none => { w with reading := reading, answers := w.answers ++ [⟨x.owner, w.file, none⟩] }

/-- The snapshot is there and of this file. -/
def hit (w : World H) : Option Snapshot :=
  w.cache.filter fun c =>
    truthy (.obj c.stats) && (Json.get c.stats "ledger_hash").eqStr (ledgerHash H w.file)

/-- One step of the processes whose ledger is the one of a fingerprint. -/
def step (fingerprint : String) (w : World H) : Act H → Option (World H)
  | .record o r t =>
    if o.fingerprint ≠ fingerprint then none
    else
      match append H intText o r t w.file with
      | none => some w
      | some e =>
        some { w with
          file := some (w.file.getD [] ++ lineBytes e)
          recorded := w.recorded ++ [e] }
  | .crash o r t n =>
    if o.fingerprint ≠ fingerprint then none
    else
      match append H intText o r t w.file with
      | none => some w
      | some e =>
        some { w with
          file := some (w.file.getD [] ++ (lineBytes e).take n)
          -- the whole line is there
          recorded := if (lineBytes e).length ≤ n then w.recorded ++ [e] else w.recorded }
  | .stats o =>
    if o.fingerprint ≠ fingerprint then none
    else
      match w.hit with
      | some c => some { w with answers := w.answers ++ [⟨o, w.file, some c.stats⟩] }
      | none => some (w.startReading intText o)
  | .refresh o =>
    if o.fingerprint ≠ fingerprint then none else some (w.startReading intText o)
  | .finish i => (w.reading[i]?).map (w.finishReading intText quotient fingerprint i)

end World

/-! ## What the steps meet -/

/-- A file of whole lines. -/
def Whole (file : Option Bytes) : Prop :=
  file.getD [] = [] ∨ (file.getD []).getLast? = some 10

/-- The tokens of an event of a step that was completed. -/
def tokenCost (e : LedgerEvent) : ℤ :=
  if e.type.eqStr "step_complete" then
    ((seqOf intText (Json.getD e.data "token_cost" (.int 0))).toOption).getD 0
  else 0

/-- The numbers of a snapshot have a text. -/
def Fits (events : List LedgerEvent) : Prop :=
  (Json.int events.length).encodable = true ∧
    (Json.int (events.map (tokenCost intText)).sum).encodable = true

namespace World

variable {H}

/-- A call may append to the file. -/
def MayAppend (w : World H) (o : Owner H) (r : Request) : Prop :=
  Whole w.file ∧ o.signs = true ∧ Trust.oneLine o.agentId = true ∧ r.oneLine = true

/-- What the steps of a run meet. -/
def Meets (w : World H) : Act H → Prop
  | .record o r _ => w.MayAppend o r
  | .crash o r _ _ => w.MayAppend o r
  | .stats o => ∀ c ∈ w.cache, ledgerHash H c.file = ledgerHash H w.file →
      c.file = w.file ∧ c.agentId = o.agentId
  | .refresh _ => True
  | .finish i => ∀ x ∈ w.reading[i]?, x.file = w.file ∧ Fits intText x.events

/-- What the ledger promises. -/
structure Kept (fingerprint : String) (w : World H) : Prop where
  allEvents : Whole w.file → allEvents intText w.file = .ok w.recorded
  verifyChain : Whole w.file → verifyChain H intText w.file = .ok
  computes : Whole w.file → ∀ agentId,
    (statsOf H intText quotient fingerprint agentId w.file).isSome = true
  stats : ∀ a ∈ w.answers, Whole a.file →
    a.result = statsOf H intText quotient fingerprint a.owner.agentId a.file

end World

/-! ## Counting -/

section Counting

variable {intText} {s s' : Tally} {e : LedgerEvent} {n : ℕ}

theorem countKey_str (counts : Py.Dict String ℕ) (key : String) :
    (countKey counts (.str key)).isSome = true := by
  unfold countKey
  split_ifs <;> rfl

theorem le_of_countKey {counts counts' : Py.Dict String ℕ} {key : Json}
    (h : ∀ p ∈ counts, p.2 ≤ n) (hc : countKey counts key = some counts') :
    ∀ p ∈ counts', p.2 ≤ n + 1 := by
  unfold countKey at hc
  split_ifs at hc with hk
  · obtain ⟨k, -, rfl⟩ := Option.map_eq_some_iff.1 hc
    intro p hp
    have hget : (counts.get k).getD 0 ≤ n := by
      cases hg : counts.get k with
      | none => exact Nat.zero_le n
      | some m => exact h _ (Dict.mem_of_get hg)
    rcases Dict.mem_set hp with hp | rfl
    · exact (h p hp).trans (Nat.le_succ n)
    · exact Nat.succ_le_succ hget
  · cases hc
    exact fun p hp => (h p hp).trans (Nat.le_succ n)

/-- The loop raises on no event of a call. -/
theorem add_isSome {r : Request} (ht : e.type = .str r.type) (hd : e.data = r.data) (s : Tally) :
    (s.add intText e).isSome = true := by
  unfold Tally.add
  rw [ht, hd]
  cases r with
  | stepComplete mission step template version category cost elapsed summary =>
    obtain ⟨ts, hts⟩ := Option.isSome_iff_exists.1 (countKey_str s.templatesUsed template)
    obtain ⟨cs, hcs⟩ := Option.isSome_iff_exists.1 (countKey_str s.categories category)
    simp [Request.type, Request.data, Json.eqStr, Json.getD, Json.get, Json.lookup_cons, seqOf,
      CapToken.intOf, Except.toOption, hts, hcs]
  | stepFailed mission step template category reason =>
    obtain ⟨cs, hcs⟩ := Option.isSome_iff_exists.1 (countKey_str s.categories category)
    simp [Request.type, Request.data, Json.eqStr, Json.get, Json.lookup_cons, hcs]
  | _ => simp [Request.type, Request.data, Json.eqStr, Json.get, Json.lookup_cons]

/-- No counter is above `n`. -/
structure Tally.Within (n : ℕ) (s : Tally) : Prop where
  numbers : ∀ k ∈ [s.missionsOwned, s.stepsCompleted, s.stepsFailed, s.handoffsReceived,
    s.handoffsGiven, s.reviewsGiven, s.reviewsReceived, s.endorsementsGiven,
    s.endorsementsReceived], k ≤ n
  templates : ∀ p ∈ s.templatesUsed, p.2 ≤ n
  categories : ∀ p ∈ s.categories, p.2 ≤ n

/-- Each event is counted once. -/
theorem Tally.Within.add (h : s.Within n) (ha : s.add intText e = some s') :
    s'.Within (n + 1) := by
  obtain ⟨hn, ht, hc⟩ := h
  simp only [List.forall_mem_cons, List.not_mem_nil, IsEmpty.forall_iff, implies_true,
    and_true] at hn
  have ht' : ∀ p ∈ s.templatesUsed, p.2 ≤ n + 1 := fun p hp => (ht p hp).trans (Nat.le_succ n)
  have hc' : ∀ p ∈ s.categories, p.2 ≤ n + 1 := fun p hp => (hc p hp).trans (Nat.le_succ n)
  unfold Tally.add at ha
  simp only [Option.bind_eq_bind, Option.pure_def] at ha
  split_ifs at ha with _ hcomplete hfailed
  · cases ha
    exact ⟨by simp; omega, ht', hc'⟩
  · simp only [Option.bind_eq_some_iff, Option.some.injEq] at ha
    obtain ⟨cost, -, ts, hts, cs, hcs, rfl⟩ := ha
    exact ⟨by simp; omega, le_of_countKey ht hts, le_of_countKey hc hcs⟩
  · simp only [Option.bind_eq_some_iff, Option.some.injEq] at ha
    obtain ⟨cs, hcs, rfl⟩ := ha
    exact ⟨by simp; omega, ht', le_of_countKey hc hcs⟩
  all_goals
    cases ha
    exact ⟨by simp; omega, ht', hc'⟩

theorem totalTokenCost_add (ha : s.add intText e = some s') :
    s'.totalTokenCost = s.totalTokenCost + tokenCost intText e := by
  unfold Tally.add at ha
  unfold tokenCost
  simp only [Option.bind_eq_bind, Option.pure_def] at ha
  split_ifs at ha with howned hcomplete hfailed
  · cases ha
    rw [if_neg (by rw [Json.eqStr_iff.1 howned]; decide), add_zero]
  · simp only [Option.bind_eq_some_iff, Option.some.injEq] at ha
    obtain ⟨cost, hcost, ts, -, cs, -, rfl⟩ := ha
    rw [if_pos hcomplete, hcost]
    rfl
  · simp only [Option.bind_eq_some_iff, Option.some.injEq] at ha
    obtain ⟨cs, -, rfl⟩ := ha
    rw [if_neg hcomplete, add_zero]
  all_goals
    cases ha
    rw [if_neg hcomplete, add_zero]

/-- What the loop makes of the events. -/
theorem foldlM_add {es : List LedgerEvent} (h : s.Within n)
    (hf : es.foldlM (Tally.add intText) s = some s') : s'.Within (n + es.length) ∧
      s'.totalTokenCost = s.totalTokenCost + (es.map (tokenCost intText)).sum := by
  induction es generalizing s n with
  | nil =>
    cases hf
    exact ⟨h, by simp⟩
  | cons e es ih =>
    rw [List.foldlM_cons, Option.bind_eq_bind, Option.bind_eq_some_iff] at hf
    obtain ⟨s₁, h₁, hf⟩ := hf
    obtain ⟨hw, ht⟩ := ih (h.add h₁) hf
    refine ⟨by rwa [List.length_cons, Nat.add_comm es.length, ← Nat.add_assoc], ?_⟩
    rw [ht, totalTokenCost_add h₁, List.map_cons, List.sum_cons, add_assoc]

theorem encodable_of_le {a b : ℕ} (hb : (Json.int b).encodable = true) (h : a ≤ b) :
    (Json.int a).encodable = true := by
  rw [Json.encodable, decide_eq_true_iff, Int.natAbs_natCast] at hb ⊢
  rw [Nat.length_toDigits_le_iff (by decide) (by decide)] at hb ⊢
  exact h.trans_lt hb

/-- **A snapshot can be written** if its numbers have a text. -/
theorem writable_stats {fingerprint agentId hash : String} {es : List LedgerEvent}
    {fresh : Fields} (hfits : Fits intText es)
    (ht : ∀ e ∈ es, e.timestamp.writable = true)
    (h : computeStats intText quotient fingerprint agentId es hash = some fresh) :
    (Json.obj fresh).writable = true := by
  simp only [computeStats, Option.bind_eq_bind, Option.bind_eq_some_iff, Option.pure_def,
    Option.some.injEq] at h
  obtain ⟨s, hs, rfl⟩ := h
  have h₀ : Tally.Within 0 {} := ⟨by simp, by simp, by simp⟩
  obtain ⟨⟨hn, hts, hcs⟩, hcost⟩ := foldlM_add h₀ hs
  rw [Nat.zero_add] at hn hts hcs
  have hint : ∀ k : ℕ, k ≤ es.length → (Json.int k).writable = true := fun k hk =>
    Json.writable_of_encodable _ (encodable_of_le hfits.1 hk)
  have htime : ∀ o : Option LedgerEvent, (∀ e ∈ o, e ∈ es) →
      ((o.map LedgerEvent.timestamp).getD (.str "")).writable = true := by
    intro o ho
    cases o with
    | none => rfl
    | some e => exact ht e (ho e rfl)
  have hcounts : ∀ counts : Py.Dict String ℕ, (∀ p ∈ counts, p.2 ≤ es.length) →
      (Json.obj (counts.map fun p => (p.1, Json.int p.2))).writable = true := by
    intro counts hc
    rw [Json.writable_obj, List.forall_mem_map]
    exact fun p hp => hint p.2 (hc p hp)
  have hrate : (successRate quotient s).writable = true := by
    simp only [successRate, Json.writable]
    split_ifs
    · exact (quotient _ _).isFloat
    · decide
  have htotal : (Json.int s.totalTokenCost).writable = true := by
    rw [hcost]
    exact Json.writable_of_encodable _ (by simpa using hfits.2)
  simp only [List.forall_mem_cons] at hn
  obtain ⟨h₁, h₂, h₃, h₄, h₅, h₆, h₇, h₈, h₉, -⟩ := hn
  rw [Json.writable_obj]
  simp only [Tally.items, List.cons_append, List.nil_append, List.forall_mem_cons,
    List.not_mem_nil, IsEmpty.forall_iff, implies_true, and_true]
  have hhead := htime es.head? fun e he => List.mem_of_head? he
  have hlast := htime es.getLast? fun e he => List.mem_of_getLast? he
  exact ⟨rfl, rfl, hhead, hlast, hint _ le_rfl, hint _ h₁, hint _ h₂, hint _ h₃, hint _ h₄,
    hint _ h₅, hint _ h₆, hint _ h₇, hint _ h₈, hint _ h₉, hcounts _ hts, hcounts _ hcs, htotal,
    hlast, rfl, hrate⟩

end Counting

/-! ## The line of an event -/

section Line

variable {H intText}

theorem oneLine_of_printable {s : String} (h : s.toList.all Py.printable = true) :
    Trust.oneLine s = true := by
  rw [List.all_eq_true] at h
  rw [Trust.oneLine, List.all_eq_true]
  intro c hc
  have := h c hc
  simp only [Py.printable, Bool.and_eq_true, decide_eq_true_eq] at this
  simp only [Trust.isLineBreak, Bool.not_eq_true', Bool.or_eq_false_iff, beq_eq_false_iff_ne]
  omega

theorem printable_sha256 (m : Bytes) : (H.sha256 m).toList.all Py.printable = true := by
  have h := H.sha256_isHex m
  rw [isHex, Bool.and_eq_true, List.all_eq_true] at h
  rw [List.all_eq_true]
  intro c hc
  have := plain_of_isHexChar (h.2 c hc)
  simp only [plain, Bool.and_eq_true, decide_eq_true_eq] at this
  simp only [Py.printable, Bool.and_eq_true, decide_eq_true_eq]
  omega

theorem oneLine_shortHash (s : String) : Trust.oneLine (shortHash H s) = true := by
  refine oneLine_of_printable ?_
  have h := printable_sha256 (H := H) (utf8 s.toList)
  rw [List.all_eq_true] at h
  rw [shortHash, String.toList_ofList, List.all_eq_true]
  exact fun c hc => h c (List.mem_of_mem_take hc)

/-- What `splitlines` breaks a line of JSON at. -/
theorem oneLine_eq : (fun s : String => s.toList.all fun c => !(isBreak c && 0x20 ≤ c.toNat)) =
    Trust.oneLine := by
  funext s
  rw [Trust.oneLine]
  congr 1
  funext c
  congr 1
  rw [Bool.eq_iff_iff]
  simp only [isBreak, Trust.isLineBreak, Bool.and_eq_true, List.contains_eq_mem,
    decide_eq_true_eq, List.mem_cons, List.not_mem_nil, or_false, Bool.or_eq_true, beq_iff_eq]
  omega

theorem oneLine_signJson (o : Owner H) (payload : Option Bytes) :
    Trust.oneLine (o.signJson payload) = true := by
  cases o with
  | plain agentId => rfl
  | keyed pub key =>
    cases key with
    | none => rfl
    | some k => exact Trust.oneLine_hex _

theorem oneLine_pubkeyHex (o : Owner H) : Trust.oneLine o.pubkeyHex = true := by
  cases o with
  | plain agentId => rfl
  | keyed pub key => exact Trust.oneLine_hex _

theorem oneLine_lastHash {es : List LedgerEvent} (hv : verifyEvents H zeroHash 1 es = .ok) :
    Trust.oneLine (lastHash zeroHash es) = true := by
  rw [lastHash]
  cases hl : es.getLast? with
  | none => decide
  | some e =>
    obtain ⟨m, hm⟩ := eventHash_of_verifyEvents hv e (List.mem_of_getLast? hl)
    rw [Option.map_some, Option.getD_some, hm]
    exact oneLine_of_printable (printable_sha256 m)

theorem wf_data (r : Request) : (Json.obj r.data).wf = true := by
  rw [Json.wf_obj]
  cases r <;> exact ⟨by simp [Request.data], by simp [Request.data, Json.wf]⟩

theorem oneLine_type (r : Request) : Trust.oneLine r.type = true := by
  cases r <;> simp only [Request.type] <;> decide

/-- **The event of a call is printed on one line.** -/
theorem printed_append {es : List LedgerEvent} {e : LedgerEvent} {o : Owner H} {r : Request}
    {t : Stamp} {file : Option Bytes} (hr : allEvents intText file = .ok es)
    (hv : verifyEvents H zeroHash 1 es = .ok) (h : append H intText o r t file = some e)
    (ho : Trust.oneLine o.agentId = true) (hl : r.oneLine = true) : Printed e := by
  obtain ⟨hash, hh, rfl, hw⟩ := append_eq_some hr h
  obtain ⟨m, -, rfl⟩ := Option.map_eq_some_iff.1 hh
  refine ⟨?_, hw, isBreak_of_mem_dumpsSpaced hw ?_⟩
  · rw [Json.wf_obj]
    refine ⟨by simp [LedgerEvent.toDict], ?_⟩
    have hp := prevHash_newEvent hv
    simp only [LedgerEvent.toDict, newEvent, hp, List.forall_mem_cons, List.not_mem_nil,
      IsEmpty.forall_iff, implies_true, and_true]
    exact ⟨rfl, rfl, rfl, rfl, rfl, wf_data r, rfl, rfl, rfl, rfl, rfl⟩
  · have htype := oneLine_type r
    have hp := prevHash_newEvent hv
    rw [oneLine_eq, Json.allTexts_obj]
    simp only [LedgerEvent.toDict, newEvent, hp, List.forall_mem_cons, List.not_mem_nil,
      IsEmpty.forall_iff, implies_true, and_true, Json.allTexts]
    refine ⟨⟨by decide, oneLine_of_printable t.eventId_printable⟩, ⟨by decide, htype⟩,
      ⟨by decide, oneLine_shortHash _⟩, ⟨by decide, ho⟩,
      ⟨by decide, oneLine_of_printable t.timestamp_printable⟩, ⟨by decide, hl⟩,
      ⟨by decide, oneLine_pubkeyHex o⟩, by decide, ⟨by decide, oneLine_lastHash hv⟩,
      ⟨by decide, oneLine_of_printable (printable_sha256 m)⟩,
      ⟨by decide, oneLine_signJson o _⟩⟩

end Line

/-! ## The invariant -/

section Runs

variable {H intText quotient} {fingerprint : String}

/-- What holds in every state: whole lines and a part of a line, and the chain of them. -/
structure World.Inv (H : Host) (intText : String → Except String (Option ℤ))
    (quotient : ℕ → ℕ → FloatArg) (fingerprint : String) (w : World H) : Prop where
  file : ∃ torn, w.file.getD [] = utf8 (content w.recorded) ++ torn ∧ 10 ∉ torn
  printed : ∀ e ∈ w.recorded, Printed e
  counted : ∀ e ∈ w.recorded, ∃ r : Request, e.type = .str r.type ∧ e.data = r.data
  chain : verifyEvents H zeroHash 1 w.recorded = .ok
  cache : ∀ c ∈ w.cache,
    statsOf H intText quotient fingerprint c.agentId c.file = some c.stats
  reading : ∀ x ∈ w.reading, AgentLedger.allEvents intText x.file = .ok x.events
  answers : ∀ a ∈ w.answers, Whole a.file →
    a.result = statsOf H intText quotient fingerprint a.owner.agentId a.file

theorem nl_not_mem_lineOf {e : LedgerEvent} (h : Printed e) : 10 ∉ utf8 (lineOf e) := fun hm =>
  absurd (le_of_mem_utf8_of_le (le_of_mem_dumpsSpaced _ h.writable) hm) (by decide)

theorem lineBytes_eq (e : LedgerEvent) : lineBytes e = utf8 (lineOf e) ++ [10] := by
  rw [lineBytes, utf8_append]
  rfl

/-- A file of whole lines is the lines of the recorded events. -/
theorem World.Inv.content_of_whole {w : World H} (h : w.Inv H intText quotient fingerprint)
    (hw : Whole w.file) : w.file.getD [] = utf8 (content w.recorded) := by
  obtain ⟨torn, hf, hn⟩ := h.file
  have ht : torn = [] := by
    by_contra hne
    rcases hw with hw | hw
    · rw [hf, List.append_eq_nil_iff] at hw
      exact hne hw.2
    · rw [hf, List.getLast?_append_of_ne_nil _ hne] at hw
      exact hn (List.mem_of_getLast? hw)
  rw [hf, ht, List.append_nil]

/-- **The recorded events are read** from whole lines. -/
theorem World.Inv.readEvents {w : World H} (h : w.Inv H intText quotient fingerprint)
    (hw : Whole w.file) (strict : Bool) :
    AgentLedger.readEvents intText strict w.file = .ok w.recorded := by
  have hc := h.content_of_whole hw
  cases hf : w.file with
  | none =>
    rw [hf, Option.getD_none] at hc
    have hnil : w.recorded = [] := by
      by_contra hne
      obtain ⟨e, es, hes⟩ := List.exists_cons_of_ne_nil hne
      have hnl : (10 : UInt8) ∈ utf8 (content w.recorded) := by
        rw [hes, content, List.map_cons, List.flatMap_cons, utf8_append, List.mem_append]
        refine .inl ?_
        rw [← lineBytes, lineBytes_eq]
        simp
      rw [← hc] at hnl
      cases hnl
    rw [hnil]
    rfl
  | some raw =>
    rw [hf, Option.getD_some] at hc
    rw [hc, readEvents_content intText strict h.printed]

theorem World.Inv.kept {w : World H} (h : w.Inv H intText quotient fingerprint) :
    w.Kept intText quotient fingerprint where
  allEvents hw := h.readEvents hw false
  verifyChain hw := by
    rw [AgentLedger.verifyChain, h.readEvents hw true]
    exact h.chain
  computes hw agentId := by
    have hfold : ∀ es : List LedgerEvent,
        (∀ e ∈ es, ∃ r : Request, e.type = .str r.type ∧ e.data = r.data) → ∀ s : Tally,
        (es.foldlM (Tally.add intText) s).isSome = true := by
      intro es hes
      induction es with
      | nil => exact fun s => rfl
      | cons e es ih =>
        intro s
        rw [List.forall_mem_cons] at hes
        obtain ⟨⟨r, ht, hd⟩, hes⟩ := hes
        have hs : (s.add intText e).isSome = true := add_isSome ht hd s
        obtain ⟨s₁, h₁⟩ := Option.isSome_iff_exists.1 hs
        rw [List.foldlM_cons, h₁]
        exact ih hes s₁
    obtain ⟨s, hs⟩ := Option.isSome_iff_exists.1 (hfold w.recorded h.counted {})
    rw [statsOf, AgentLedger.allEvents, h.readEvents hw false]
    simp only [computeStats, hs]
    rfl
  stats := h.answers

theorem World.inv_start : World.Inv H intText quotient fingerprint {} where
  file := ⟨[], rfl, List.not_mem_nil⟩
  printed := fun e he => absurd he List.not_mem_nil
  counted := fun e he => absurd he List.not_mem_nil
  chain := rfl
  cache := fun c hc => by cases hc
  reading := fun x hx => absurd hx List.not_mem_nil
  answers := fun a ha => absurd ha List.not_mem_nil

/-! ## The steps -/

/-- A call appends the line of its event. -/
theorem World.Inv.append {w : World H} (h : w.Inv H intText quotient fingerprint) {o : Owner H}
    {r : Request} {t : Stamp} {e : LedgerEvent} (hm : w.MayAppend o r)
    (ha : AgentLedger.append H intText o r t w.file = some e) :
    World.Inv H intText quotient fingerprint
      { w with
        file := some (w.file.getD [] ++ lineBytes e)
        recorded := w.recorded ++ [e] } := by
  obtain ⟨hwhole, hsigns, hid, hline⟩ := hm
  have hread : AgentLedger.allEvents intText w.file = .ok w.recorded := h.readEvents hwhole false
  have hprinted := printed_append hread h.chain ha hid hline
  obtain ⟨hash, -, he, -⟩ := append_eq_some hread ha
  refine { h with
    file := ⟨[], ?_, List.not_mem_nil⟩
    printed := ?_
    counted := ?_
    chain := verifyEvent_append hread h.chain ha hsigns }
  · rw [Option.getD_some, h.content_of_whole hwhole, content_concat, utf8_append, List.append_nil]
    rfl
  · exact List.forall_mem_append.2 ⟨h.printed, List.forall_mem_singleton.2 hprinted⟩
  · exact List.forall_mem_append.2
      ⟨h.counted, List.forall_mem_singleton.2 ⟨r, by rw [he]; rfl, by rw [he]; rfl⟩⟩

/-- A call that stops leaves a part of the line. -/
theorem World.Inv.torn {w : World H} (h : w.Inv H intText quotient fingerprint) {o : Owner H}
    {r : Request} {t : Stamp} {e : LedgerEvent} {n : ℕ} (hm : w.MayAppend o r)
    (ha : AgentLedger.append H intText o r t w.file = some e) (hn : n < (lineBytes e).length) :
    World.Inv H intText quotient fingerprint
      { w with file := some (w.file.getD [] ++ (lineBytes e).take n) } := by
  obtain ⟨hwhole, -, hid, hline⟩ := hm
  have hread : AgentLedger.allEvents intText w.file = .ok w.recorded := h.readEvents hwhole false
  have hprinted := printed_append hread h.chain ha hid hline
  refine { h with file := ⟨(lineBytes e).take n, ?_, ?_⟩ }
  · rw [Option.getD_some, h.content_of_whole hwhole]
  · rw [lineBytes_eq, List.length_append, List.length_singleton] at hn
    rw [lineBytes_eq, List.take_append_of_le_length (by omega)]
    exact fun hm => nl_not_mem_lineOf hprinted (List.mem_of_mem_take hm)

theorem World.Inv.startReading {w : World H} (h : w.Inv H intText quotient fingerprint)
    (o : Owner H) : World.Inv H intText quotient fingerprint (w.startReading intText o) := by
  unfold World.startReading
  split
  · rename_i events hr
    exact { h with
      reading := List.forall_mem_append.2 ⟨h.reading, List.forall_mem_singleton.2 hr⟩ }
  · rename_i hr
    refine { h with
      answers := List.forall_mem_append.2 ⟨h.answers, List.forall_mem_singleton.2 fun _ => ?_⟩ }
    simp only [statsOf, hr]

theorem World.Inv.finishReading {w : World H} (h : w.Inv H intText quotient fingerprint) {i : ℕ}
    {x : Reading H} (hx : w.reading[i]? = some x) (hf : x.file = w.file)
    (hfits : Fits intText x.events) : World.Inv H intText quotient fingerprint
      (w.finishReading intText quotient fingerprint i x) := by
  have hread : AgentLedger.allEvents intText w.file = .ok x.events :=
    hf ▸ h.reading x (List.mem_of_getElem? hx)
  have hstats : statsOf H intText quotient fingerprint x.owner.agentId w.file =
      computeStats intText quotient fingerprint x.owner.agentId x.events
        (ledgerHash H w.file) := by
    simp only [statsOf, hread]
  have hrest : ∀ y ∈ w.reading.eraseIdx i, AgentLedger.allEvents intText y.file = .ok y.events :=
    fun y hy => h.reading y (List.mem_of_mem_eraseIdx hy)
  simp only [World.finishReading]
  cases hc : computeStats intText quotient fingerprint x.owner.agentId x.events
      (ledgerHash H w.file) with
  | none =>
    exact { h with
      reading := hrest
      answers := List.forall_mem_append.2
        ⟨h.answers, List.forall_mem_singleton.2 fun _ => (hstats.trans hc).symm⟩ }
  | some fresh =>
    simp only
    split_ifs with hw
    · exact { h with
        reading := hrest
        cache := fun c hcache => by cases hcache; exact hstats.trans hc
        answers := List.forall_mem_append.2
          ⟨h.answers, List.forall_mem_singleton.2 fun _ => (hstats.trans hc).symm⟩ }
    · refine { h with
        reading := hrest
        answers := List.forall_mem_append.2
          ⟨h.answers, List.forall_mem_singleton.2 fun hwhole => absurd ?_ hw⟩ }
      -- the events of whole lines are the recorded ones
      have hev : x.events = w.recorded := by
        have := h.readEvents hwhole false
        rw [← AgentLedger.allEvents, hread] at this
        exact Except.ok.inj this
      refine writable_stats quotient hfits (fun e he => ?_) hc
      have hp := (h.printed e (hev ▸ he)).writable
      rw [Json.writable_obj] at hp
      exact hp ("timestamp", e.timestamp) (by simp [LedgerEvent.toDict])

/-- The hash of a snapshot is the one of its file. -/
theorem get_ledger_hash {agentId : String} {file : Option Bytes} {fresh : Fields}
    (h : statsOf H intText quotient fingerprint agentId file = some fresh) :
    Json.get fresh "ledger_hash" = .str (ledgerHash H file) := by
  unfold statsOf at h
  split at h
  · cases h
  · simp only [computeStats, Option.bind_eq_bind, Option.bind_eq_some_iff, Option.pure_def,
      Option.some.injEq] at h
    obtain ⟨s, -, rfl⟩ := h
    simp [Tally.items, Json.get, Json.lookup_cons]

theorem World.Inv.step {w w' : World H} (h : w.Inv H intText quotient fingerprint) {a : Act H}
    (hm : w.Meets intText a) (hs : w.step intText quotient fingerprint a = some w') :
    w'.Inv H intText quotient fingerprint := by
  cases a with
  | record o r t =>
    simp only [World.step] at hs
    split_ifs at hs
    split at hs
    · cases hs; exact h
    · rename_i e ha
      cases hs
      exact h.append hm ha
  | crash o r t n =>
    simp only [World.step] at hs
    split_ifs at hs
    split at hs
    · cases hs; exact h
    · rename_i e ha
      cases hs
      by_cases hn : (lineBytes e).length ≤ n
      · rw [if_pos hn, List.take_of_length_le hn]
        exact h.append hm ha
      · rw [if_neg hn]
        exact h.torn hm ha (by omega)
  | stats o =>
    simp only [World.step] at hs
    split_ifs at hs
    split at hs
    · rename_i c hc
      cases hs
      obtain ⟨hc, hhit⟩ := Option.filter_eq_some_iff.1 hc
      have hstats := h.cache c hc
      rw [Bool.and_eq_true, get_ledger_hash hstats, Json.eqStr_iff, Json.str.injEq] at hhit
      obtain ⟨hfile, hid⟩ := hm c hc hhit.2
      refine { h with
        answers := List.forall_mem_append.2
          ⟨h.answers, List.forall_mem_singleton.2 fun _ => ?_⟩ }
      rw [← hstats, hfile, hid]
    · cases hs
      exact h.startReading o
  | refresh o =>
    simp only [World.step] at hs
    split_ifs at hs
    cases hs
    exact h.startReading o
  | finish i =>
    simp only [World.step, Option.map_eq_some_iff] at hs
    obtain ⟨x, hx, rfl⟩ := hs
    obtain ⟨hf, hfits⟩ := hm x hx
    exact h.finishReading hx hf hfits

/-- **The ledger keeps what it promises** in the runs whose steps meet the condition: whole
    lines verify and read back as the recorded events, and `stats` is `compute_stats`. -/
theorem ledger_kept (H : Host) (intText : String → Except String (Option ℤ))
    (quotient : ℕ → ℕ → FloatArg) (fingerprint : String) (w : World H)
    (h : Runs.Reach (World.step intText quotient fingerprint) (World.Meets intText) {} w) :
    w.Kept intText quotient fingerprint :=
  (h.invariant World.inv_start fun _ _ _ hi hm hs => World.Inv.step hi hm hs).kept

end Runs

/-! ## A run that meets the condition, and two that do not -/

theorem readEvents_utf8 (strict : Bool) (cs : List Char) :
    readEvents intText strict (some (utf8 cs)) =
      readLines intText strict 1 (splitlines (Market.universalNewlines cs)) := by
  rw [readEvents, utf8Decode_utf8]
  rfl

def ada : Owner checksumHost := .plain "ada"

def sampleStamp : Stamp where
  eventId             := "0123456789ab"
  timestamp           := "2026-01-01T09:00:00"
  eventId_printable   := by decide
  timestamp_printable := by decide

def sampleFloat : FloatArg := ⟨"0.5", by decide, by decide⟩

/-- No text is a number for this `int()`. -/
def noInt : String → Except String (Option ℤ) := fun _ => .ok none

abbrev sampleStep := World.step (H := checksumHost) noInt (fun _ _ => sampleFloat) ada.fingerprint

/-- The event that a call appends to a ledger whose file has no event. -/
theorem exists_append (mission : String) (file : Option Bytes)
    (hr : allEvents noInt file = .ok [])
    (hs : (append checksumHost noInt ada (.missionOwned mission "t") sampleStamp none).isSome) :
    ∃ e, append checksumHost noInt ada (.missionOwned mission "t") sampleStamp file = some e ∧
      append checksumHost noInt ada (.missionOwned mission "t") sampleStamp none = some e := by
  obtain ⟨e, he⟩ := Option.isSome_iff_exists.1 hs
  rw [allEvents] at hr
  refine ⟨e, ?_, he⟩
  rw [append] at he ⊢
  rw [hr]
  exact he

theorem ledger_kept_ada : ∃ w : World checksumHost, w.recorded.length = 1 ∧
    w.answers.length = 1 ∧ w.Kept noInt (fun _ _ => sampleFloat) ada.fingerprint := by
  obtain ⟨e, he, -⟩ := exists_append "m" none rfl (by decide +kernel)
  have h₁ : Runs.Reach sampleStep (World.Meets noInt) {}
      { file := some (lineBytes e), recorded := [e] } :=
    Runs.Reach.start.step (a := .record ada (.missionOwned "m" "t") sampleStamp)
      ⟨.inl rfl, rfl, by decide, by decide⟩ (by simp [World.step, he])
  have hwhole : Whole (some (lineBytes e)) := .inr (by simp [lineBytes_eq])
  have hread : allEvents noInt (some (lineBytes e)) = .ok [e] :=
    (ledger_kept _ _ _ _ _ h₁).allEvents hwhole
  have h₂ := h₁.step (a := Act.refresh ada) True.intro
    (by simp [World.step, World.startReading, hread]; rfl)
  have htype : e.type = .str "mission_owned" := by
    obtain ⟨-, -, rfl, -⟩ := append_eq_some rfl he
    rfl
  have hfits : Fits noInt [e] := by
    have hone : (Json.int (1 : ℕ)).encodable = true := by decide
    have hzero : (Json.int 0).encodable = true := by decide
    exact ⟨hone, by simpa [tokenCost, htype, Json.eqStr] using hzero⟩
  have h₃ := h₂.step (a := Act.finish 0) (fun (x : Reading checksumHost) hx => by
    cases hx; exact ⟨rfl, hfits⟩) rfl
  refine ⟨_, ?_, ?_, ledger_kept _ _ _ _ _ h₃⟩
  · simp only [World.finishReading]
    split <;> (try split_ifs) <;> rfl
  · simp only [World.finishReading]
    split <;> (try split_ifs) <;> rfl

/-- What is read of a line, cut as the code cuts it. -/
def readsAs (strict : Bool) (line : Option (List Char)) : Option (Except ReadError ℕ) :=
  line.map fun cs => (readLines noInt strict 1
    (splitlines (Market.universalNewlines (cs ++ ['\n'])))).map List.length

/-- **The ledger loses events.**  An event with a line separator in a text is not read
    back, and the chain does not verify; an event that is appended to the first byte of a
    line is not read back either. -/
theorem ledger_broken :
    (∃ w : World checksumHost,
      Runs.run sampleStep {} [.record ada (.missionOwned "a\u2028b" "t") sampleStamp] = some w ∧
      w.recorded.length = 1 ∧ allEvents noInt w.file = .ok [] ∧
      verifyChain checksumHost noInt w.file = .refused (.unreadable (.corrupt 1))) ∧
    ∃ w : World checksumHost,
      Runs.run sampleStep {} [.crash ada (.missionOwned "m" "t") sampleStamp 1,
        .record ada (.missionOwned "m" "t") sampleStamp] = some w ∧
      w.recorded.length = 1 ∧ allEvents noInt w.file = .ok [] := by
  have hempty : ∀ {r : Except ReadError (List LedgerEvent)}, r.map List.length = .ok 0 →
      r = .ok [] := by
    intro r hr
    cases r with
    | error e => cases hr
    | ok es => rw [List.length_eq_zero_iff.1 (Except.ok.inj hr)]
  constructor
  · obtain ⟨e, he, -⟩ := exists_append "a\u2028b" none rfl (by decide +kernel)
    have hread : ∀ strict, some ((readEvents noInt strict (some (lineBytes e))).map List.length) =
        readsAs strict ((append checksumHost noInt ada (.missionOwned "a\u2028b" "t") sampleStamp
          none).map lineOf) := by
      intro strict
      rw [he, lineBytes, readEvents_utf8]
      rfl
    have hloose : readsAs false ((append checksumHost noInt ada (.missionOwned "a\u2028b" "t")
        sampleStamp none).map lineOf) = some (.ok 0) := by decide +kernel
    have hstrict : readsAs true ((append checksumHost noInt ada (.missionOwned "a\u2028b" "t")
        sampleStamp none).map lineOf) = some (.error (.corrupt 1)) := by decide +kernel
    have hchain : readEvents noInt true (some (lineBytes e)) = .error (.corrupt 1) := by
      have := Option.some.inj ((hread true).trans hstrict)
      cases hr : readEvents noInt true (some (lineBytes e)) with
      | error x => rw [hr] at this; cases this; rfl
      | ok es => rw [hr] at this; cases this
    refine ⟨{ file := some (lineBytes e), recorded := [e] }, ?_, rfl,
      hempty (Option.some.inj ((hread false).trans hloose)), ?_⟩
    · simp [Runs.run, sampleStep, World.step, he]
    · rw [verifyChain, hchain]
  · have hbrace : allEvents noInt (some [0x7b]) = .ok [] := by
      have : ([0x7b] : Bytes) = utf8 ['{'] := rfl
      rw [this, allEvents, readEvents_utf8]
      rfl
    obtain ⟨e, he, he'⟩ := exists_append "m" (some [0x7b]) hbrace (by decide +kernel)
    have htake : (lineBytes e).take 1 = [0x7b] := by
      obtain ⟨cs, hcs⟩ := lineOf_eq e
      rw [lineBytes, hcs, List.cons_append, utf8_cons]
      rfl
    have hlen : ¬ (lineBytes e).length ≤ 1 := by
      intro hle
      have hline := htake.symm.trans (List.take_of_length_le hle)
      rw [lineBytes_eq] at hline
      have hlast := congrArg List.getLast? hline
      rw [List.getLast?_concat] at hlast
      exact absurd hlast (by decide)
    have hread : some ((allEvents noInt (some ([0x7b] ++ lineBytes e))).map List.length) =
        readsAs false ((append checksumHost noInt ada (.missionOwned "m" "t") sampleStamp
          none).map fun e => '{' :: lineOf e) := by
      have : [0x7b] ++ lineBytes e = utf8 ('{' :: (lineOf e ++ ['\n'])) := by
        rw [utf8_cons, lineBytes]; rfl
      rw [he', this, allEvents, readEvents_utf8]
      rfl
    have hloose : readsAs false ((append checksumHost noInt ada (.missionOwned "m" "t")
        sampleStamp none).map fun e => '{' :: lineOf e) = some (.ok 0) := by decide +kernel
    refine ⟨{ file := some ([0x7b] ++ lineBytes e), recorded := [e] }, ?_, rfl,
      hempty (Option.some.inj (hread.trans hloose))⟩
    simp [Runs.run, sampleStep, World.step, he, he', htake, hlen]

end AgentLedger

end NthDao
