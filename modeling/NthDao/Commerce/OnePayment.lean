/-
  One payment per trade with signed terms.

  * `recordSettlement_events`: a record extends the chain of its file;
  * `TermsKept`: all a worker has read of the trade starts with its opening
    event, and a worker before `pay` has the key of the terms;
  * `one_payment_per_trade`: every payment call for the trade carries that key,
    and a rail that deduplicates by key commits one of them.
-/
import NthDao.Commerce.Executor
import NthDao.Reach

namespace NthDao

open Py

variable {H : Host}

/-! ## The opening event -/

/-- The chain starts with the event `o`. -/
def StartsWith (o : Json) (events : Option (List Json)) : Prop := ∃ rest, events = some (o :: rest)

theorem openedPayload_cons (o : Json) (rest : List Json) :
    openedPayload (o :: rest) = openedPayload [o] := by
  cases o <;> rfl

/-- A record of a settlement adds an event to the chain of its file and leaves
    the other files as they are. -/
theorem recordSettlement_events {s s' : TradeStore} {tid : String} {k : H.SecretKey}
    {settlement : Json} {ov now : ℤ} {ev : TradeEvent}
    (h : recordSettlement H s tid k settlement ov now = .ok (ev, s')) (tid' : String) :
    s'.getEvents H tid' = s.getEvents H tid' ∨
      ∃ events, events ≠ [] ∧ s.getEvents H tid' = some events ∧
        s'.getEvents H tid' = some (events ++ [ev.toDict]) := by
  simp only [recordSettlement, bind_eq_ok] at h
  obtain ⟨_, -, h⟩ := h
  obtain ⟨events, prev, -, hev, -, hprev, -, -, rfl⟩ := appendEvent_ok H h
  by_cases hf : safeId H tid' = safeId H tid
  · have hne : events ≠ [] := by
      rintro rfl
      simp [priorState, require, error_bind] at hprev
    have hr : s.read H tid' = s.read H tid := by rw [TradeStore.read, hf]; rfl
    refine Or.inr ⟨events, hne, ?_, ?_⟩
    · rw [TradeStore.getEvents, hr]; exact events_of_storedEvents hne hev
    · have hw := getEvents_write H s tid (events ++ [ev.toDict])
      rw [TradeStore.getEvents, TradeStore.read] at hw ⊢
      rw [hf]; exact hw
  · left
    rw [TradeStore.getEvents, TradeStore.getEvents, TradeStore.read, TradeStore.read,
      TradeStore.write, if_neg hf]

theorem StartsWith.record {o : Json} {s s' : TradeStore} {tid tid' : String} {k : H.SecretKey}
    {settlement : Json} {ov now : ℤ} {ev : TradeEvent}
    (h : recordSettlement H s tid k settlement ov now = .ok (ev, s'))
    (ho : StartsWith o (s.getEvents H tid')) : StartsWith o (s'.getEvents H tid') := by
  obtain ⟨rest, ho⟩ := ho
  rcases recordSettlement_events h tid' with he | ⟨events, -, he, he'⟩
  · exact ⟨rest, he.trans ho⟩
  · rw [ho, Option.some_inj] at he
    exact ⟨rest ++ [ev.toDict], by rw [he', ← he]; rfl⟩

/-! ## The key of the terms -/

variable {tid : String} {opened terms : Fields} {o : Json}

/-- The key of the terms of the trade `tid` is `key`. -/
def TermsKey (H : Host) (tid : String) (opened terms : Fields) (key : String) : Prop :=
  settlementIdempotencyKey H (termsIntent H tid opened terms) = .ok key

/-- A worker that concerns the trade has read its opening event, and before
    `pay` it has the key of the terms. -/
def TermsKept (H : Host) (tid : String) (o : Json) (opened terms : Fields) : Worker H → Prop
  | .reading c readings => c.tradeId = tid → ∀ r ∈ readings, StartsWith o r
  | .cleared c => c.tradeId = tid →
    Cleared H tid (asDid H c.settler) (c.adapterOver none).adapterId c.intent opened
  | .absent c key => c.tradeId = tid → TermsKey H tid opened terms key
  | _ => True

/-- The invariant of the runs: the trade keeps its opening event, and the calls
    of `pay` for it carry the key of its terms. -/
structure OneKey (H : Host) (tid : String) (o : Json) (opened terms : Fields) (w : World H) :
    Prop where
  trade : StartsWith o (w.trades.getEvents H tid)
  workers : ∀ i, TermsKept H tid o opened terms (w.workers i)
  pays : ∀ p ∈ w.pays, p.tradeId = tid → TermsKey H tid opened terms p.key
  commits : ∀ p ∈ w.commits, p ∈ w.pays ∧ (w.rail p.key).isSome = true
  once : (w.commits.map PayCall.key).Nodup

/-- The trade files change, but the opening event of the trade stays. -/
def KeepsOpening (tid : String) (w : World H) : Action H → Prop
  | .trade trades => ∀ o, StartsWith o (w.trades.getEvents H tid) →
    StartsWith o (trades.getEvents H tid)
  | _ => True

theorem OneKey.goto {w : World H} (h : OneKey H tid o opened terms w) (i : ℕ) {x : Worker H}
    (hx : TermsKept H tid o opened terms x) : OneKey H tid o opened terms (w.goto i x) := by
  refine { h with workers := fun j => ?_ }
  by_cases hj : j = i
  · rw [hj, World.goto_workers]; exact hx
  · rw [World.goto_workers_of_ne hj]; exact h.workers j

theorem OneKey.store {w : World H} (h : OneKey H tid o opened terms w) (id : String)
    (events : List Json) : OneKey H tid o opened terms (w.store id events) := { h with }

theorem OneKey.conclude {w : World H} (h : OneKey H tid o opened terms w) (i : ℕ) (id : String)
    (k : H.SecretKey) (at' now : ℤ) (op : AttemptOp) :
    OneKey H tid o opened terms (w.conclude i id k at' now op) := by
  unfold World.conclude
  split
  · exact (h.store _ _).goto i trivial
  · exact h.goto i trivial

/-- A payment on a key that is not committed. -/
theorem OneKey.commit {w : World H} (h : OneKey H tid o opened terms w) {p : PayCall}
    (hp : p ∈ w.pays) (hnone : w.rail p.key = none) (ret : RailReturn) :
    OneKey H tid o opened terms (w.commit p ret) := by
  have hnew : p.key ∉ w.commits.map PayCall.key := by
    intro hm
    obtain ⟨q, hq, he⟩ := List.mem_map.1 hm
    have := (h.commits q hq).2
    rw [he, hnone] at this; cases this
  refine { h with commits := fun q hq => ?_, once := ?_ }
  · rcases List.mem_append.1 hq with hq | hq
    · obtain ⟨h₁, h₂⟩ := h.commits q hq
      refine ⟨h₁, ?_⟩
      have hne : q.key ≠ p.key := fun he => hnew (he ▸ List.mem_map_of_mem hq)
      rw [World.commit_rail_of_ne hne]; exact h₂
    · rw [List.mem_singleton.1 hq, World.commit_rail]
      exact ⟨hp, rfl⟩
  · rw [World.commit, List.map_append]
    exact List.nodup_append.2 ⟨h.once, by simp, fun a ha b hb => by
      rw [List.map_singleton, List.mem_singleton] at hb
      rintro rfl; exact hnew (hb ▸ ha)⟩

theorem OneKey.recordResult {w : World H} (h : OneKey H tid o opened terms w) (i : ℕ)
    (c : Settling H) (seen : Option RailReturn) (t t' : ℤ) :
    OneKey H tid o opened terms (w.recordResult i c seen t t') := by
  unfold World.recordResult
  split
  · exact h.goto i trivial
  · split
    · exact h.goto i trivial
    · rename_i hr
      exact { h with trade := h.trade.record hr : OneKey H tid o opened terms { w with trades := _ } }.goto
        i trivial

/-- Preflight on readings of the trade clears the intent for its terms. -/
theorem cleared_of_preflight {now : ℤ} {did adapterId : String} {intent : SettlementIntent}
    {r : Readings} (hop : openedPayload [o] = .ok opened) (ho : StartsWith o r.events)
    (h : preflight H now tid did adapterId intent r = .ok .pay) :
    Cleared H tid did adapterId intent opened := by
  obtain ⟨opened', hop', -, -, -, hc⟩ := preflight_pay H h
  obtain ⟨rest, hr⟩ := ho
  rw [hr, Option.getD_some, openedPayload_cons, hop] at hop'
  cases hop'
  exact hc

/-- The key of a cleared call is the key of the terms. -/
theorem Cleared.termsKey {c : Settling H} {key did : String}
    (h : Cleared H tid did adapterX402Testnet c.intent opened)
    (ht : tradeTerms opened = some terms) (hk : c.key = .ok key) :
    TermsKey H tid opened terms key := by
  simp only [Settling.key, bind_eq_ok] at hk
  obtain ⟨_, -, _, -, hk⟩ := hk
  rw [TermsKey, h.termsIntent_eq H ht]
  exact settlementIdempotencyKey_memo H hk

/-- Every step keeps the invariant. -/
theorem OneKey.step {w w' : World H} {a : Action H} (hop : openedPayload [o] = .ok opened)
    (ht : tradeTerms opened = some terms) (h : OneKey H tid o opened terms w)
    (hc : KeepsOpening tid w a) (hs : w.step a = some w') : OneKey H tid o opened terms w' := by
  cases a with
  | create actor intent adapterId at' now =>
    simp only [World.step, World.create] at hs
    split at hs
    · cases hs
    · split at hs
      · cases hs; exact h.store _ _
      · cases hs
  | settle i c =>
    simp only [World.step] at hs
    split at hs
    · cases hs; exact h.goto i fun _ r hr => absurd hr List.not_mem_nil
    · cases hs
  | claim i id config actor network ov clock now lease =>
    simp only [World.step, World.claim] at hs
    split at hs
    · split at hs
      · split at hs
        · cases hs; exact h.store _ _
        · cases hs; exact (h.store _ _).goto i fun _ r hr => absurd hr List.not_mem_nil
      · cases hs
    · cases hs
  | reconcile i id actor network ov now =>
    simp only [World.step, World.reconcile] at hs
    split at hs
    · split at hs
      · split at hs
        · cases hs
        · cases hs; exact h.goto i fun _ r hr => absurd hr List.not_mem_nil
      · cases hs
    · cases hs
  | read i =>
    simp only [World.step, World.read] at hs
    split at hs
    · rename_i c readings hw
      cases hs
      refine h.goto i fun htid r hr => ?_
      have hk := h.workers i
      rw [hw] at hk
      rcases List.mem_append.1 hr with hr | hr
      · exact hk htid r hr
      · rw [List.mem_singleton.1 hr, htid]; exact h.trade
    · cases hs
  | preflight i now =>
    simp only [World.step, World.preflight] at hs
    split at hs
    · rename_i c r₁ r₂ r₃ r₄ r₅ hw
      have hk := h.workers i
      rw [hw] at hk
      split at hs
      · rename_i hpf
        cases hs
        refine h.goto i fun htid => ?_
        rw [htid] at hpf
        exact cleared_of_preflight hop (hk htid r₁ (by simp)) hpf
      · cases hs; exact h.goto i trivial
      · cases hs; exact h.goto i trivial
    · cases hs
  | lookup i raises =>
    simp only [World.step, World.lookup] at hs
    split at hs
    · rename_i c hw
      have hk := h.workers i
      rw [hw] at hk
      split at hs
      · cases hs
      · split at hs
        · cases hs; exact h.goto i trivial
        · rename_i key hkey
          split at hs
          · cases hs; exact h.goto i trivial
          · cases hs; exact h.goto i trivial
          · split_ifs at hs with hx
            · cases hs
              refine h.goto i fun htid => ?_
              have hcl := hk htid
              rw [Settling.adapterOver, hx] at hcl
              exact hcl.termsKey ht hkey
            · cases hs; exact h.goto i trivial
    · cases hs
  | pay i outcome =>
    simp only [World.step, World.pay] at hs
    split at hs
    · rename_i c key hw
      have hk := h.workers i
      rw [hw] at hk
      have hpays : OneKey H tid o opened terms
          { w with pays := w.pays ++ [⟨c.tradeId, key⟩] } := by
        refine { h with pays := fun p hp htid => ?_, commits := fun p hp => ?_ }
        · rcases List.mem_append.1 hp with hp | hp
          · exact h.pays p hp htid
          · rw [List.mem_singleton.1 hp] at htid ⊢; exact hk htid
        · exact ⟨List.mem_append_left _ (h.commits p hp).1, (h.commits p hp).2⟩
      have hmem : (⟨c.tradeId, key⟩ : PayCall) ∈ w.pays ++ [⟨c.tradeId, key⟩] := by simp
      split at hs
      · cases hs; exact hpays.goto i trivial
      · rename_i hnone
        cases hs; exact (hpays.commit hmem hnone _).goto i trivial
      · cases hs; exact hpays.goto i trivial
      · rename_i hnone
        cases hs; exact (hpays.commit hmem hnone _).goto i trivial
      · cases hs; exact hpays.goto i trivial
    · cases hs
  | record i t t' =>
    simp only [World.step, World.record] at hs
    split at hs
    · split_ifs at hs
      cases hs; exact h.recordResult i _ _ _ _
    · cases hs; exact h.recordResult i _ _ _ _
    · cases hs
  | handle i clock now =>
    simp only [World.step, World.handle] at hs
    split at hs
    · split at hs
      · cases hs; exact h.goto i trivial
      · cases hs; exact h.goto i trivial
      · split at hs
        · cases hs; exact h.goto i trivial
        · cases hs; exact h.conclude i _ _ _ _ _
    · cases hs
  | finish i clock now =>
    simp only [World.step, World.finish] at hs
    split at hs
    · split at hs
      · cases hs; exact h.conclude i _ _ _ _ _
      · cases hs; exact h.conclude i _ _ _ _ _
      · cases hs; exact h.goto i trivial
    · cases hs
  | crash i => cases hs; exact h.goto i trivial
  | trade trades => cases hs; exact { h with trade := hc o h.trade }

/-! ## Whole runs -/

theorem OneKey.start {w : World H} (ho : StartsWith o (w.trades.getEvents H tid))
    (hw : ∀ i, w.workers i = .idle) (hp : w.pays = []) (hc : w.commits = []) :
    OneKey H tid o opened terms w where
  trade := ho
  workers i := by rw [hw i]; trivial
  pays := by simp [hp]
  commits := by simp [hc]
  once := by simp [hc]

/-- The committed payments of the trade have distinct keys, and there is one. -/
theorem OneKey.commits_le_one {w : World H} (h : OneKey H tid o opened terms w) :
    (w.commits.filter fun p => p.tradeId = tid).length ≤ 1 := by
  set ps := w.commits.filter fun p => p.tradeId = tid with hps
  have hsub : (ps.map PayCall.key).Nodup := h.once.sublist (List.filter_sublist.map _)
  have hkey : ∀ p ∈ ps, TermsKey H tid opened terms p.key := by
    intro p hp
    obtain ⟨hmem, htid⟩ := List.mem_filter.1 hp
    exact h.pays p (h.commits p hmem).1 (of_decide_eq_true htid)
  match ps, hsub, hkey with
  | [], _, _ => simp
  | [p], _, _ => simp
  | p :: q :: rest, hsub, hkey =>
    have he : p.key = q.key :=
      Except.ok.inj ((hkey p (by simp)).symm.trans (hkey q (by simp)))
    simp [he] at hsub

/-- **One payment per trade with signed terms.**  In every run of workers in
    which the opening event of the trade stays in the store, every call of `pay`
    for the trade carries the key of its terms, and the rail commits at most one
    of them. -/
theorem one_payment_per_trade {w₀ w : World H} (ho : StartsWith o (w₀.trades.getEvents H tid))
    (hop : openedPayload [o] = .ok opened) (ht : tradeTerms opened = some terms)
    (hw : ∀ i, w₀.workers i = .idle) (hp : w₀.pays = []) (hc : w₀.commits = [])
    (hr : Runs.Reach World.step (KeepsOpening tid) w₀ w) :
    (∀ p ∈ w.pays, p.tradeId = tid →
      settlementIdempotencyKey H (termsIntent H tid opened terms) = .ok p.key) ∧
    (∀ p ∈ w.pays, ∀ q ∈ w.pays, p.tradeId = tid → q.tradeId = tid → p.key = q.key) ∧
    (w.commits.filter fun p => p.tradeId = tid).length ≤ 1 := by
  have h : OneKey H tid o opened terms w :=
    hr.invariant (OneKey.start ho hw hp hc) fun _ _ _ h hc hs => h.step hop ht hc hs
  refine ⟨h.pays, fun p hp q hq htp htq => ?_, h.commits_le_one⟩
  exact Except.ok.inj ((h.pays p hp htp).symm.trans (h.pays q hq htq))

/-- A verified trade of the publisher with key 4, who is also its settler. -/
def payerWorld : World checksumHost :=
  { trades := verifiedStore [("publisher_did", .str (asDid checksumHost (4 : UInt8)))] }

/-- A call of `settle_trade` for that trade. -/
def payerCall (memo : String) : Settling checksumHost :=
  { job := .direct, tradeId := "t", settler := (4 : UInt8), adapter := .x402,
    network := .str "aptos:2", intent := { sampleIntent (asDid checksumHost (4 : UInt8)) with memo },
    nowMsOverride := 0 }

/-- The call of worker `i` up to the end of `lookup`. -/
def upToLookup (i : ℕ) (memo : String) : List (Action checksumHost) :=
  [.settle i (payerCall memo), .read i, .read i, .read i, .read i, .read i, .preflight i 10,
    .lookup i none]

/-- A receipt for the payment. -/
def payerReceipt : RailReturn :=
  .receipt { txRef := .str "0x1", status := .str "confirmed", proof := .obj [("block", .int 1)],
             idempotencyKey :=
               .str ((settlementIdempotencyKey checksumHost (payerCall "").intent).toOption.getD "") }

/-- Two workers that race between `lookup` and `pay`. -/
def payRace : List (Action checksumHost) :=
  upToLookup 0 "a" ++ upToLookup 1 "b" ++ [.pay 0 (.paid payerReceipt), .pay 1 (.paid payerReceipt)]

/-- The race is a run, with two payments. -/
def payRaceRun : PLift ((Runs.run World.step payerWorld payRace).map (fun w => w.pays.length) =
    some 2) := ⟨by decide +kernel⟩

/-- The opening payload of the sample trade. -/
def samplePublisher : Fields := [("publisher_did", .str (asDid checksumHost (4 : UInt8)))]

/-- The sample trade starts with its opening event, which carries the payload. -/
def publisherOpened : PLift (
    payerWorld.trades.getEvents checksumHost "t" = some ((sampleChain samplePublisher "").headD .null ::
      ((sampleChain samplePublisher "").take 3).tail) ∧
    openedPayload [(sampleChain samplePublisher "").headD .null] =
      .ok (sampleOpened samplePublisher)) := ⟨by decide +kernel⟩

theorem one_payment_per_trade_race :
    ∃ w, Runs.run World.step payerWorld payRace = some w ∧ w.pays.length = 2 ∧
      (w.commits.filter fun p => p.tradeId = "t").length ≤ 1 := by
  obtain ⟨w, hw, hn⟩ := Option.map_eq_some_iff.1 payRaceRun.down
  have ho : StartsWith ((sampleChain samplePublisher "").headD .null)
      (payerWorld.trades.getEvents checksumHost "t") := ⟨_, publisherOpened.down.1⟩
  have hop := publisherOpened.down.2
  have hreach : Runs.Reach World.step (KeepsOpening "t") payerWorld w :=
    Runs.reach_of_run .start hw fun _ => by simp [payRace, upToLookup, KeepsOpening]
  exact ⟨w, hw, hn, (one_payment_per_trade ho hop rfl (fun _ => rfl) rfl rfl hreach).2.2⟩

end NthDao
