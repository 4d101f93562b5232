/-
  The routers of an agent over whole runs.

  Any number of routers share a ledger.  A `handle` call goes through three
  stages, and everything else may happen between them: the gate, the ledger,
  and the handler under its router's lock.

  * `World.step`: routers start, calls begin and go on, time passes;
  * `InTime`: a copy comes to the ledger while the reservation is kept;
  * `handled_once`: in runs of such deliveries no pair is handled twice; and a
    pair that is new is not refused as a replay, its key given;
  * `InTime.of_dated`: dated requests that are reserved before they expire, at
    routers with one setting;
  * `handled_twice`: a copy that expires between the gate and the ledger runs
    again, and two pairs with one key shut each other out.
-/
import NthDao.Reach
import NthDao.Routing.Router

namespace NthDao.Routing

open Py Runs Trust

variable {H : Host}

/-! ## The world -/

/-- An entry that a router has written to the ledger. -/
structure Grant where
  request : ActionRequest
  /-- the clock at the sweep, and what the router keeps -/
  now : ℤ
  retention : ℤ
  /-- the clock at the entry -/
  stored : ℤ

variable (H)

structure World where
  routers : List (Router H) := []
  ledger : Py.Dict String ℤ := []
  clock : ℤ := 0
  /-- the calls that are through the gate -/
  waiting : List (ℕ × ActionRequest) := []
  /-- the calls that have their nonce -/
  cleared : List (ℕ × ActionRequest) := []
  /-- what the calls have returned or raised -/
  replies : List (ActionRequest × Except String ActionResponse) := []
  /-- every entry ever written to the ledger -/
  granted : List Grant := []
  /-- the pairs of the requests that handlers have been run for -/
  handled : List (String × String) := []

inductive Action where
  | start (c : Config H)
  /-- the handlers of a router change -/
  | register (i : ℕ) (handlers : String → Option Handler)
  | tick (d : ℕ)
  /-- a call of `handle` on a router -/
  | handle (i : ℕ) (r : ActionRequest) (stamp : Stamp)
  /-- a waiting call comes to the ledger; its second reading of the clock is `d` later -/
  | reserve (n : ℕ) (io : LedgerIo) (d : ℕ) (stamp : Stamp)
  /-- a cleared call gets the router's lock -/
  | dispatch (n : ℕ) (stamp : Stamp)

variable {H}

/-- One step, `none` where there is no such router or call. -/
def World.step (iso : String → Option Moment) (w : World H) : Action H → Option (World H)
  | .start c => some { w with routers := w.routers ++ [c.router] }
  | .register i handlers => do
    let R ← w.routers[i]?
    return { w with routers := w.routers.set i { R with handlers } }
  | .tick d => some { w with clock := w.clock + d }
  | .handle i r stamp => do
    let R ← w.routers[i]?
    match R.gate iso w.clock stamp r with
    | some refusal => return { w with replies := w.replies ++ [(r, .ok refusal)] }
    | none => return { w with waiting := w.waiting ++ [(i, r)] }
  | .reserve n io d stamp => do
    let (i, r) ← w.waiting[n]?
    let R ← w.routers[i]?
    let waiting := w.waiting.eraseIdx n
    match reserveNonce io w.ledger R.retention w.clock (w.clock + d) r.pair with
    | none =>
      return { w with waiting, clock := w.clock + d,
                      replies := w.replies ++ [(r, .ok (R.replayDetected r stamp))] }
    | some ledger =>
      return { w with waiting, clock := w.clock + d, ledger, cleared := w.cleared ++ [(i, r)],
                      granted := w.granted ++ [⟨r, w.clock, R.retention, w.clock + d⟩] }
  | .dispatch n stamp => do
    let (i, r) ← w.cleared[n]?
    let R ← w.routers[i]?
    let (reply, R') := R.dispatch r stamp
    return { w with cleared := w.cleared.eraseIdx n, routers := w.routers.set i R',
                    replies := w.replies ++ [(r, reply)],
                    handled := if R.runs r then w.handled ++ [r.pair] else w.handled }

/-- The world before the first router. -/
def World.empty : World H := {}

/-! ## Runs -/

/-- A copy comes to the ledger while the reservation of its pair is kept: neither
    its router nor one that has written the ledger reads the clock more than its
    own `ttl + skew` after the reservation.  The ledger can be read. -/
def InTime (w : World H) : Action H → Prop
  | .reserve n io _ _ => io ≠ .unread ∧ ∀ i r R, w.waiting[n]? = some (i, r) →
      w.routers[i]? = some R → ∀ g ∈ w.granted, g.request.pair = r.pair →
        w.clock ≤ g.stored + R.retention ∧ ∀ g' ∈ w.granted, g'.now ≤ g.stored + g'.retention
  | _ => True

instance (w : World H) (a : Action H) : Decidable (InTime w a) :=
  match a with
  | .reserve n io _ _ =>
    decidable_of_iff (io ≠ .unread ∧ ∀ c ∈ w.waiting[n]?.toList, ∀ R ∈ w.routers[c.1]?.toList,
        ∀ g ∈ w.granted, g.request.pair = c.2.pair → w.clock ≤ g.stored + R.retention ∧
          ∀ g' ∈ w.granted, g'.now ≤ g.stored + g'.retention)
      (by
        simp only [InTime, Option.mem_toList, Prod.forall]
        exact and_congr_right fun _ => ⟨fun h i r R hc => h i r hc R, fun h i r hc R => h i r R hc⟩)
  | .start _ | .register _ _ | .tick _ | .handle _ _ _ | .dispatch _ _ => isTrue trivial

/-- What the ledger knows of the past. -/
structure Recorded (w : World H) : Prop where
  retention : ∀ R ∈ w.routers, 0 ≤ R.retention
  past : ∀ g ∈ w.granted, g.now ≤ g.stored ∧ g.stored ≤ w.clock
  known : ∀ e ∈ w.ledger, ∃ g ∈ w.granted, nonceKey g.request.pair = e.1

/-- Reservations that no router has swept are in the ledger, and no pair has two. -/
structure Reserved (w : World H) : Prop where
  kept : ∀ g ∈ w.granted, (∀ g' ∈ w.granted, g'.now ≤ g.stored + g'.retention) →
    ∃ v, w.ledger.get (nonceKey g.request.pair) = some v ∧ g.stored ≤ v
  once : (w.granted.map fun g => g.request.pair).Nodup
  calls : (w.handled ++ w.cleared.map fun c => c.2.pair).Nodup
  handled : ∀ p ∈ w.handled ++ w.cleared.map fun c => c.2.pair, ∃ g ∈ w.granted, g.request.pair = p

variable {iso : String → Option Moment} {w w' : World H}

/-! ## Steps -/

theorem step_handle {i : ℕ} {r : ActionRequest} {stamp : Stamp}
    (h : w.step iso (.handle i r stamp) = some w') : ∃ R, w.routers[i]? = some R ∧
      ((∃ refusal, R.gate iso w.clock stamp r = some refusal ∧
          w' = { w with replies := w.replies ++ [(r, .ok refusal)] }) ∨
        (R.gate iso w.clock stamp r = none ∧ w' = { w with waiting := w.waiting ++ [(i, r)] })) := by
  simp only [World.step, Option.bind_eq_bind, Option.bind_eq_some_iff] at h
  obtain ⟨R, hR, h⟩ := h
  refine ⟨R, hR, ?_⟩
  cases hg : R.gate iso w.clock stamp r with
  | some refusal =>
    rw [hg] at h
    exact .inl ⟨refusal, rfl, (Option.some.inj h).symm⟩
  | none =>
    rw [hg] at h
    exact .inr ⟨rfl, (Option.some.inj h).symm⟩

theorem step_reserve {n d : ℕ} {io : LedgerIo} {stamp : Stamp}
    (h : w.step iso (.reserve n io d stamp) = some w') : ∃ i r R,
      w.waiting[n]? = some (i, r) ∧ w.routers[i]? = some R ∧
      ((reserveNonce io w.ledger R.retention w.clock (w.clock + d) r.pair = none ∧
          w' = { w with
            waiting := w.waiting.eraseIdx n, clock := w.clock + d
            replies := w.replies ++ [(r, .ok (R.replayDetected r stamp))] }) ∨
        ∃ ledger, reserveNonce io w.ledger R.retention w.clock (w.clock + d) r.pair = some ledger ∧
          w' = { w with
            waiting := w.waiting.eraseIdx n, clock := w.clock + d, ledger
            cleared := w.cleared ++ [(i, r)]
            granted := w.granted ++ [⟨r, w.clock, R.retention, w.clock + d⟩] }) := by
  simp only [World.step, Option.bind_eq_bind, Option.bind_eq_some_iff] at h
  obtain ⟨⟨i, r⟩, hc, R, hR, h⟩ := h
  refine ⟨i, r, R, hc, hR, ?_⟩
  cases hn : reserveNonce io w.ledger R.retention w.clock (w.clock + d) r.pair with
  | none =>
    simp only [hn] at h
    exact .inl ⟨rfl, (Option.some.inj h).symm⟩
  | some ledger =>
    simp only [hn] at h
    exact .inr ⟨ledger, rfl, (Option.some.inj h).symm⟩

theorem step_dispatch {n : ℕ} {stamp : Stamp}
    (h : w.step iso (.dispatch n stamp) = some w') : ∃ i r R,
      w.cleared[n]? = some (i, r) ∧ w.routers[i]? = some R ∧
      w' = { w with
        cleared := w.cleared.eraseIdx n, routers := w.routers.set i (R.dispatch r stamp).2
        replies := w.replies ++ [(r, (R.dispatch r stamp).1)]
        handled := if R.runs r then w.handled ++ [r.pair] else w.handled } := by
  simp only [World.step, Option.bind_eq_bind, Option.bind_eq_some_iff] at h
  obtain ⟨⟨i, r⟩, hc, R, hR, h⟩ := h
  exact ⟨i, r, R, hc, hR, (Option.some.inj h).symm⟩

/-! ## The ledger -/

theorem get_loadNonceLedger {ledger : Py.Dict String ℤ} {k : String} {v now retention : ℤ}
    (h : ledger.get k = some v) (hv : now - retention ≤ v) :
    (loadNonceLedger ledger now retention).get k = some v :=
  Dict.get_filter_of h fun _ => decide_eq_true hv

theorem reserveNonce_eq_some {io : LedgerIo} {ledger ledger' : Py.Dict String ℤ}
    {retention now later : ℤ} {p : String × String}
    (h : reserveNonce io ledger retention now later p = some ledger') (hio : io ≠ .unread) :
    (loadNonceLedger ledger now retention).get (nonceKey p) = none ∧
      ledger' = (loadNonceLedger ledger now retention).set (nonceKey p) later := by
  simp only [reserveNonce, if_neg hio] at h
  split_ifs at h with hc
  rw [not_or, Bool.not_eq_true, Dict.has_eq_false] at hc
  exact ⟨Dict.get_eq_none.2 hc.2, (Option.some.inj h).symm⟩

/-- The entries of the new ledger are old ones and the new one. -/
theorem keys_reserveNonce {io : LedgerIo} {ledger ledger' : Py.Dict String ℤ}
    {retention now later : ℤ} {p : String × String}
    (h : reserveNonce io ledger retention now later p = some ledger') {e : String × ℤ}
    (he : e ∈ ledger') : e ∈ ledger ∨ e.1 = nonceKey p := by
  simp only [reserveNonce] at h
  split_ifs at h with hu hc hc
  · cases h
    rcases Dict.mem_set he with he | rfl
    · cases he
    · exact .inr rfl
  · cases h
    rcases Dict.mem_set he with he | rfl
    · exact .inl (List.mem_filter.1 he).1
    · exact .inr rfl

theorem reserveNonce_eq_none {ledger : Py.Dict String ℤ} {retention now later : ℤ}
    {p : String × String} (h : reserveNonce .ok ledger retention now later p = none) :
    ∃ e ∈ ledger, e.1 = nonceKey p := by
  simp only [reserveNonce, reduceCtorEq, if_false, false_or] at h
  split_ifs at h with hc
  obtain ⟨e, he, hk⟩ := List.mem_map.1 (Dict.has_iff.1 hc)
  exact ⟨e, (List.mem_filter.1 he).1, hk⟩

/-! ## What holds in every run -/

theorem Recorded.empty : Recorded (World.empty : World H) :=
  ⟨by simp [World.empty], by simp [World.empty], by simp [World.empty]⟩

theorem Recorded.step (h : Recorded w) {a : Action H} (hs : w.step iso a = some w') :
    Recorded w' := by
  cases a with
  | start c =>
    cases hs
    refine ⟨fun R hR => ?_, h.past, h.known⟩
    rcases List.mem_append.1 hR with hR | hR
    · exact h.retention R hR
    · rw [List.mem_singleton.1 hR]
      exact add_nonneg (le_max_left 0 _) (le_max_left 0 _)
  | register i handlers =>
    simp only [World.step, Option.bind_eq_bind, Option.bind_eq_some_iff] at hs
    obtain ⟨R, hR, hs⟩ := hs
    cases hs
    refine ⟨fun R' hR' => ?_, h.past, h.known⟩
    rcases List.mem_or_eq_of_mem_set hR' with hR' | rfl
    · exact h.retention R' hR'
    · exact h.retention R (List.mem_of_getElem? hR)
  | tick d =>
    cases hs
    refine ⟨h.retention, fun g hg => ⟨(h.past g hg).1, ?_⟩, h.known⟩
    have := (h.past g hg).2
    show g.stored ≤ w.clock + d
    omega
  | handle i r stamp =>
    obtain ⟨R, -, ⟨_, -, rfl⟩ | ⟨-, rfl⟩⟩ := step_handle hs
    · exact ⟨h.retention, h.past, h.known⟩
    · exact ⟨h.retention, h.past, h.known⟩
  | reserve n io d stamp =>
    have hpast : ∀ g ∈ w.granted, g.now ≤ g.stored ∧ g.stored ≤ w.clock + d := by
      intro g hg
      have := h.past g hg
      omega
    obtain ⟨i, r, R, -, -, ⟨-, rfl⟩ | ⟨ledger, hl, rfl⟩⟩ := step_reserve hs
    · exact ⟨h.retention, hpast, h.known⟩
    · refine ⟨h.retention, fun g hg => ?_, fun e he => ?_⟩
      · rcases List.mem_append.1 hg with hg | hg
        · exact hpast g hg
        · rw [List.mem_singleton.1 hg]
          show w.clock ≤ w.clock + d ∧ w.clock + (d : ℤ) ≤ w.clock + d
          omega
      · rcases keys_reserveNonce hl he with he | he
        · obtain ⟨g, hg, hk⟩ := h.known e he
          exact ⟨g, List.mem_append_left _ hg, hk⟩
        · exact ⟨_, List.mem_append_right _ (List.mem_singleton_self _), he.symm⟩
  | dispatch n stamp =>
    obtain ⟨i, r, R, -, hR, rfl⟩ := step_dispatch hs
    refine ⟨fun R' hR' => ?_, h.past, h.known⟩
    rcases List.mem_or_eq_of_mem_set hR' with hR' | rfl
    · exact h.retention R' hR'
    · rw [Router.retention_dispatch]
      exact h.retention R (List.mem_of_getElem? hR)

/-! ## What holds in runs of deliveries in time -/

theorem Reserved.empty : Reserved (World.empty : World H) :=
  ⟨by simp [World.empty], by simp [World.empty], by simp [World.empty], by simp [World.empty]⟩

/-- A pair that has been reserved is not reserved again in time. -/
theorem Reserved.fresh (h : Reserved w) {n d : ℕ} {io : LedgerIo} {stamp : Stamp}
    (ht : InTime w (.reserve n io d stamp)) {i : ℕ} {r : ActionRequest} {R : Router H}
    (hc : w.waiting[n]? = some (i, r)) (hR : w.routers[i]? = some R) {ledger : Py.Dict String ℤ}
    (hl : reserveNonce io w.ledger R.retention w.clock (w.clock + d) r.pair = some ledger) :
    ∀ g ∈ w.granted, g.request.pair ≠ r.pair := by
  intro g hg hp
  obtain ⟨hnow, hsweeps⟩ := ht.2 i r R hc hR g hg hp
  obtain ⟨v, hv, hle⟩ := h.kept g hg hsweeps
  have hkept : (loadNonceLedger w.ledger w.clock R.retention).get (nonceKey g.request.pair) = some v :=
    get_loadNonceLedger hv (by omega)
  rw [hp, (reserveNonce_eq_some hl ht.1).1] at hkept
  cases hkept

/-- The new ledger has every reservation that has not been swept. -/
theorem Reserved.kept_reserve (h : Reserved w) (hw : Recorded w) {n d : ℕ} {io : LedgerIo}
    {stamp : Stamp} (ht : InTime w (.reserve n io d stamp)) {r : ActionRequest} {R : Router H}
    {ledger : Py.Dict String ℤ}
    (hl : reserveNonce io w.ledger R.retention w.clock (w.clock + d) r.pair = some ledger)
    {g : Grant} (hg : g ∈ w.granted ++ [⟨r, w.clock, R.retention, w.clock + d⟩])
    (hsweeps : ∀ g' ∈ w.granted ++ [⟨r, w.clock, R.retention, w.clock + d⟩],
      g'.now ≤ g.stored + g'.retention) :
    ∃ v, ledger.get (nonceKey g.request.pair) = some v ∧ g.stored ≤ v := by
  obtain ⟨-, rfl⟩ := reserveNonce_eq_some hl ht.1
  rw [Dict.get_set]
  have hclock : g.stored ≤ w.clock + d := by
    rcases List.mem_append.1 hg with hg | hg
    · have := (hw.past g hg).2
      omega
    · rw [List.mem_singleton.1 hg]
  split_ifs with hk
  · exact ⟨_, rfl, hclock⟩
  rcases List.mem_append.1 hg with hg | hg
  · obtain ⟨v, hv, hle⟩ := h.kept g hg fun g' hg' => hsweeps g' (List.mem_append_left _ hg')
    have hnew := hsweeps _ (List.mem_append_right _ (List.mem_singleton_self _))
    exact ⟨v, get_loadNonceLedger hv (by simp only at hnew; omega), hle⟩
  · rw [List.mem_singleton.1 hg] at hk
    exact absurd rfl hk

/-- A call that gets the lock leaves the ones that wait for it. -/
theorem calls_dispatch {n i : ℕ} {r : ActionRequest} (hc : w.cleared[n]? = some (i, r)) :
    (w.handled ++ r.pair :: (w.cleared.eraseIdx n).map fun c => c.2.pair).Perm
      (w.handled ++ w.cleared.map fun c => c.2.pair) := by
  obtain ⟨hn, hget⟩ := List.getElem?_eq_some_iff.1 hc
  have hperm := (List.getElem_cons_eraseIdx_perm hn).map fun c : ℕ × ActionRequest => c.2.pair
  rw [List.map_cons, hget] at hperm
  exact hperm.append_left _

theorem Reserved.step (h : Reserved w) (hw : Recorded w) {a : Action H} (ht : InTime w a)
    (hs : w.step iso a = some w') : Reserved w' := by
  cases a with
  | start c =>
    cases hs
    exact ⟨h.kept, h.once, h.calls, h.handled⟩
  | register i handlers =>
    simp only [World.step, Option.bind_eq_bind, Option.bind_eq_some_iff] at hs
    obtain ⟨R, -, hs⟩ := hs
    cases hs
    exact ⟨h.kept, h.once, h.calls, h.handled⟩
  | tick d =>
    cases hs
    exact ⟨h.kept, h.once, h.calls, h.handled⟩
  | handle i r stamp =>
    obtain ⟨R, -, ⟨_, -, rfl⟩ | ⟨-, rfl⟩⟩ := step_handle hs
    · exact ⟨h.kept, h.once, h.calls, h.handled⟩
    · exact ⟨h.kept, h.once, h.calls, h.handled⟩
  | reserve n io d stamp =>
    obtain ⟨i, r, R, hc, hR, ⟨-, rfl⟩ | ⟨ledger, hl, rfl⟩⟩ := step_reserve hs
    · exact ⟨h.kept, h.once, h.calls, h.handled⟩
    have hfresh := h.fresh ht hc hR hl
    refine ⟨fun g hg => h.kept_reserve hw ht hl hg, ?_, ?_, fun p hp => ?_⟩
    · rw [List.map_append, List.map_singleton, ← List.concat_eq_append, List.nodup_concat]
      refine ⟨fun hm => ?_, h.once⟩
      obtain ⟨g, hg, hp⟩ := List.mem_map.1 hm
      exact hfresh g hg hp
    · rw [List.map_append, List.map_singleton, ← List.append_assoc, ← List.concat_eq_append,
        List.nodup_concat]
      refine ⟨fun hm => ?_, h.calls⟩
      obtain ⟨g, hg, hp⟩ := h.handled _ hm
      exact hfresh g hg hp
    · rw [List.map_append, List.map_singleton, ← List.append_assoc] at hp
      rcases List.mem_append.1 hp with hp | hp
      · obtain ⟨g, hg, hgp⟩ := h.handled p hp
        exact ⟨g, List.mem_append_left _ hg, hgp⟩
      · exact ⟨_, List.mem_append_right _ (List.mem_singleton_self _), (List.mem_singleton.1 hp).symm⟩
  | dispatch n stamp =>
    obtain ⟨i, r, R, hc, -, rfl⟩ := step_dispatch hs
    have hperm := calls_dispatch hc
    have hsub : ((if R.runs r then w.handled ++ [r.pair] else w.handled) ++
        (w.cleared.eraseIdx n).map fun c => c.2.pair).Sublist
          (w.handled ++ r.pair :: (w.cleared.eraseIdx n).map fun c => c.2.pair) := by
      split_ifs
      · rw [List.append_assoc, List.singleton_append]
      · exact (List.sublist_cons_self _ _).append_left _
    exact ⟨h.kept, h.once, (hperm.nodup_iff.2 h.calls).sublist hsub, fun p hp =>
      h.handled p (hperm.subset (hsub.subset hp))⟩

theorem recorded_of_reach {cond : World H → Action H → Prop}
    (h : Reach (World.step iso) cond World.empty w) : Recorded w :=
  Reach.invariant (P := Recorded) h .empty fun _ _ _ hw _ hs => hw.step hs

theorem reserved_of_reach (h : Reach (World.step iso) InTime World.empty w) : Reserved w := by
  have hboth : Recorded w ∧ Reserved w :=
    Reach.invariant (P := fun w => Recorded w ∧ Reserved w) h ⟨.empty, .empty⟩
      fun _ _ _ hw ht hs => ⟨hw.1.step hs, hw.2.step hw.1 ht hs⟩
  exact hboth.2

/-- **A pair is handled once, and a new one is handled**: in runs whose copies
    come in time no handler runs twice for a pair; and in every run the ledger
    takes a pair that is new, if no other pair has its key. -/
theorem handled_once (iso : String → Option Moment) :
    (∀ w : World H, Reach (World.step iso) InTime World.empty w → w.handled.Nodup) ∧
      ∀ w : World H, Reach (World.step iso) (fun _ _ => True) World.empty w →
        ∀ (r : ActionRequest) (retention later : ℤ),
          (∀ g ∈ w.granted, g.request.pair ≠ r.pair) →
          (∀ g ∈ w.granted, nonceKey g.request.pair = nonceKey r.pair → g.request.pair = r.pair) →
          (reserveNonce .ok w.ledger retention w.clock later r.pair).isSome := by
  refine ⟨fun w h => (reserved_of_reach h).calls.of_append_left, fun w h r retention later hnew hkey => ?_⟩
  rw [Option.isSome_iff_ne_none]
  intro hnone
  obtain ⟨e, he, hk⟩ := reserveNonce_eq_none hnone
  obtain ⟨g, hg, hgk⟩ := (recorded_of_reach h).known e he
  exact hnew g hg (hkey g hg (hgk.trans hk))

/-! ## Dated requests -/

/-- Deliveries at routers of one setting: a request has a time, the same in all
    copies, and is reserved before it expires. -/
def Dated (iso : String → Option Moment) (ttl skew : ℤ) (w : World H) : Action H → Prop
  | .start c => 0 < ttl ∧ 0 ≤ skew ∧ c.requestTtlSeconds = ttl ∧ c.clockSkewSeconds = skew
  | .reserve n io _ _ => io ≠ .unread ∧ ∀ i r, w.waiting[n]? = some (i, r) →
      (∃ ts, r.timestamp ≠ "" ∧ iso r.timestamp = some (.aware ts) ∧ w.clock ≤ ts + ttl) ∧
        ∀ g ∈ w.granted, g.request.pair = r.pair → g.request.timestamp = r.timestamp
  | _ => True

/-- What is known of dated requests. -/
structure Punctual (iso : String → Option Moment) (ttl skew : ℤ) (w : World H) : Prop where
  routers : ∀ R ∈ w.routers, R.requestTtlSeconds = ttl ∧ R.clockSkewSeconds = skew ∧ 0 < ttl
  waiting : ∀ c ∈ w.waiting, ∀ ts, c.2.timestamp ≠ "" → iso c.2.timestamp = some (.aware ts) →
    ts ≤ w.clock + skew
  granted : ∀ g ∈ w.granted, g.retention = ttl + skew ∧ g.now ≤ w.clock ∧
    ∀ ts, g.request.timestamp ≠ "" → iso g.request.timestamp = some (.aware ts) →
      ts ≤ g.stored + skew

theorem Punctual.step {ttl skew : ℤ} (h : Punctual iso ttl skew w) {a : Action H}
    (hd : Dated iso ttl skew w a) (hs : w.step iso a = some w') : Punctual iso ttl skew w' := by
  cases a with
  | start c =>
    cases hs
    refine ⟨fun R hR => ?_, h.waiting, h.granted⟩
    rcases List.mem_append.1 hR with hR | hR
    · exact h.routers R hR
    · obtain ⟨httl, hskew, hc, hc'⟩ := hd
      rw [List.mem_singleton.1 hR]
      show max 0 c.requestTtlSeconds = ttl ∧ max 0 c.clockSkewSeconds = skew ∧ 0 < ttl
      omega
  | register i handlers =>
    simp only [World.step, Option.bind_eq_bind, Option.bind_eq_some_iff] at hs
    obtain ⟨R, hR, hs⟩ := hs
    cases hs
    refine ⟨fun R' hR' => ?_, h.waiting, h.granted⟩
    rcases List.mem_or_eq_of_mem_set hR' with hR' | rfl
    · exact h.routers R' hR'
    · exact h.routers R (List.mem_of_getElem? hR)
  | tick d =>
    cases hs
    refine ⟨h.routers, fun c hc ts hts hiso => ?_, fun g hg => ?_⟩
    · have := h.waiting c hc ts hts hiso
      show ts ≤ w.clock + d + skew
      omega
    · have := (h.granted g hg).2.1
      exact ⟨(h.granted g hg).1, by show g.now ≤ w.clock + d; omega, (h.granted g hg).2.2⟩
  | handle i r stamp =>
    obtain ⟨R, hR, ⟨_, -, rfl⟩ | ⟨hgate, rfl⟩⟩ := step_handle hs
    · exact ⟨h.routers, h.waiting, h.granted⟩
    · refine ⟨h.routers, fun c hc ts hts hiso => ?_, h.granted⟩
      rcases List.mem_append.1 hc with hc | hc
      · exact h.waiting c hc ts hts hiso
      · obtain ⟨hrt, hrs, httl⟩ := h.routers R (List.mem_of_getElem? hR)
        rw [List.mem_singleton.1 hc] at hts hiso
        have := (R.age_of_gate iso hgate (by omega) hts hiso).2
        rwa [hrs] at this
  | reserve n io d stamp =>
    have hwaiting : ∀ c ∈ w.waiting.eraseIdx n, ∀ ts, c.2.timestamp ≠ "" →
        iso c.2.timestamp = some (.aware ts) → ts ≤ w.clock + d + skew := by
      intro c hc ts hts hiso
      have := h.waiting c (List.mem_of_mem_eraseIdx hc) ts hts hiso
      omega
    have hgranted : ∀ g ∈ w.granted, g.retention = ttl + skew ∧ g.now ≤ w.clock + d ∧
        ∀ ts, g.request.timestamp ≠ "" → iso g.request.timestamp = some (.aware ts) →
          ts ≤ g.stored + skew := by
      intro g hg
      have := (h.granted g hg).2.1
      exact ⟨(h.granted g hg).1, by omega, (h.granted g hg).2.2⟩
    obtain ⟨i, r, R, hc, hR, ⟨-, rfl⟩ | ⟨ledger, -, rfl⟩⟩ := step_reserve hs
    · exact ⟨h.routers, hwaiting, hgranted⟩
    · refine ⟨h.routers, hwaiting, fun g hg => ?_⟩
      rcases List.mem_append.1 hg with hg | hg
      · exact hgranted g hg
      · obtain ⟨hrt, hrs, -⟩ := h.routers R (List.mem_of_getElem? hR)
        rw [List.mem_singleton.1 hg]
        refine ⟨by rw [Router.retention, hrt, hrs], by show w.clock ≤ w.clock + d; omega,
          fun ts hts hiso => ?_⟩
        have := h.waiting _ (List.mem_of_getElem? hc) ts hts hiso
        show ts ≤ w.clock + d + skew
        omega
  | dispatch n stamp =>
    obtain ⟨i, r, R, -, hR, rfl⟩ := step_dispatch hs
    refine ⟨fun R' hR' => ?_, h.waiting, h.granted⟩
    rcases List.mem_or_eq_of_mem_set hR' with hR' | rfl
    · exact h.routers R' hR'
    · rw [(R.dispatch_setting r stamp).1, (R.dispatch_setting r stamp).2]
      exact h.routers R (List.mem_of_getElem? hR)

/-- Dated requests come in time. -/
theorem InTime.of_dated {ttl skew : ℤ} (h : Punctual iso ttl skew w) {a : Action H}
    (hd : Dated iso ttl skew w a) : InTime w a := by
  cases a with
  | reserve n io d stamp =>
    refine ⟨hd.1, fun i r R hc hR g hg hp => ?_⟩
    obtain ⟨⟨ts, hts, hiso, hexp⟩, hcopy⟩ := hd.2 i r hc
    obtain ⟨hrt, hrs, -⟩ := h.routers R (List.mem_of_getElem? hR)
    have hstored := (h.granted g hg).2.2 ts (hcopy g hg hp ▸ hts) (by rw [hcopy g hg hp, hiso])
    refine ⟨by rw [Router.retention, hrt, hrs]; omega, fun g' hg' => ?_⟩
    have := (h.granted g' hg').2.1
    rw [(h.granted g' hg').1]
    omega
  | _ => trivial

/-- **Dated requests run once**: where the routers share one setting, every
    request has a time, the same in all copies, and none expires on its way from
    the gate to the ledger. -/
theorem dated_handled_once {ttl skew : ℤ}
    (h : Reach (World.step iso) (Dated iso ttl skew) World.empty w) : w.handled.Nodup := by
  have hall : (Recorded w ∧ Reserved w) ∧ Punctual iso ttl skew w :=
    Reach.invariant (P := fun w => (Recorded w ∧ Reserved w) ∧ Punctual iso ttl skew w) h
      ⟨⟨.empty, .empty⟩, by simp [World.empty], by simp [World.empty], by simp [World.empty]⟩
      fun _ _ _ hw hd hs => ⟨⟨hw.1.1.step hs, hw.1.2.step hw.1.1 (.of_dated hw.2 hd) hs⟩,
        hw.2.step hd hs⟩
  exact hall.1.2.calls.of_append_left

/-! ## Samples -/

/-- What is read of the one time that the samples carry. -/
def sampleIso (s : String) : Option Moment :=
  if s = "1970-01-01T00:01:40+00:00" then some (.aware 100) else none

/-- A request of `sender`, signed. -/
def ping (sender requestId : String) : ActionRequest :=
  let r : ActionRequest :=
    ⟨requestId, "ping", sender, "alice", [], "direct", "", "", "1970-01-01T00:01:40+00:00", ""⟩
  (signRequest checksumHost (2 : UInt8) r).getD r

/-- A router that keeps a nonce for fifteen seconds. -/
def alice : Config checksumHost where
  agentId := "alice"
  identity := (1 : UInt8)
  pubkeyLookup _ := .ok (some (hex (checksumHost.pubkey (2 : UInt8))))
  requestTtlSeconds := 10
  clockSkewSeconds := 5

def pong : String → Option Handler := fun _ => some fun _ => .ok (.str "pong")

/-- A router answers a request, and a second router has a copy of it through its
    gate `wait` seconds later. -/
def copied (wait : ℕ) : List (Action checksumHost) :=
  [.start alice, .register 0 pong, .start alice, .register 1 pong, .tick 95,
    .handle 0 (ping "bob" "r1") ⟨"", .null⟩, .reserve 0 .ok 0 ⟨"", .null⟩, .dispatch 0 ⟨"", .null⟩,
    .tick wait, .handle 1 (ping "bob" "r1") ⟨"", .null⟩]

/-- The copy in time. -/
def copiedRun : PLift ((run (guarded (World.step sampleIso) InTime) (World.empty : World checksumHost)
    (copied 15 ++ [.reserve 0 .ok 0 ⟨"", .null⟩])).any (fun w => w.handled == [("bob", "r1")] &&
      w.granted.map (fun g => g.request.pair) == [("bob", "r1")]) = true) := ⟨by decide +kernel⟩

/-- A copy in time is refused. -/
theorem handled_once_copied :
    ∃ w, Reach (World.step sampleIso) InTime (World.empty : World checksumHost) w ∧
      w.handled = [("bob", "r1")] ∧ w.handled.Nodup ∧
        (reserveNonce .ok w.ledger 15 w.clock w.clock ("bob", "r2")).isSome := by
  have hrun := copiedRun.down
  obtain ⟨w, hw, hcheck⟩ := (Option.any_eq_true _ _).1 hrun
  simp only [Bool.and_eq_true, beq_iff_eq] at hcheck
  have hreach : Reach (World.step sampleIso) InTime World.empty w := reach_of_guarded .start hw
  have hpair : ∀ g ∈ w.granted, g.request.pair = ("bob", "r1") := by
    intro g hg
    have := List.mem_map_of_mem (f := fun g : Grant => g.request.pair) hg
    rw [hcheck.2] at this
    exact List.mem_singleton.1 this
  refine ⟨w, hreach, hcheck.1, (handled_once sampleIso).1 w hreach, ?_⟩
  refine (handled_once sampleIso).2 w (hreach.mono fun _ _ _ => trivial)
    { ping "bob" "r2" with requestId := "r2", fromAgent := "bob" } 15 w.clock ?_ ?_
  · intro g hg
    rw [hpair g hg]
    simp [ActionRequest.pair]
  · intro g hg hk
    rw [hpair g hg] at hk
    simp [nonceKey, ActionRequest.pair] at hk

/-- The copy one second later. -/
def twiceRun : PLift ((run (World.step sampleIso) (World.empty : World checksumHost)
    (copied 15 ++ [.tick 1, .reserve 0 .ok 0 ⟨"", .null⟩, .dispatch 0 ⟨"", .null⟩])).any
      (fun w => w.handled == [("bob", "r1"), ("bob", "r1")]) = true) := ⟨by decide +kernel⟩

/-- The pairs that collide. -/
def shutOutRun : PLift ((run (World.step sampleIso) (World.empty : World checksumHost)
    [.start alice, .tick 100, .handle 0 (ping "bob|x" "1") ⟨"", .null⟩,
      .reserve 0 .ok 0 ⟨"", .null⟩, .handle 0 (ping "bob" "x|1") ⟨"", .null⟩]).any
      (fun w => w.waiting == [(0, ping "bob" "x|1")] &&
        w.granted.map (fun g => g.request.pair) == [("bob|x", "1")] &&
        reserveNonce .ok w.ledger 15 w.clock w.clock ("bob", "x|1") == none) = true) := ⟨by decide +kernel⟩

/-- **Copies run twice, and pairs collide.**  A copy that is not yet too old at
    the gate is too old for the ledger one second later, when the sweep has taken
    the reservation; and `bob|x` with the id `1` shuts out `bob` with the id `x|1`. -/
theorem handled_twice :
    (∃ w, Reach (World.step sampleIso) (fun _ _ => True) (World.empty : World checksumHost) w ∧
      w.handled = [("bob", "r1"), ("bob", "r1")]) ∧
    ∃ w, Reach (World.step sampleIso) (fun _ _ => True) (World.empty : World checksumHost) w ∧
      (0, ping "bob" "x|1") ∈ w.waiting ∧ (∀ g ∈ w.granted, g.request.pair ≠ ("bob", "x|1")) ∧
        reserveNonce .ok w.ledger 15 w.clock w.clock ("bob", "x|1") = none := by
  have htwice := twiceRun.down
  have hshut := shutOutRun.down
  obtain ⟨w, hw, hcheck⟩ := (Option.any_eq_true _ _).1 htwice
  obtain ⟨w', hw', hcheck'⟩ := (Option.any_eq_true _ _).1 hshut
  simp only [Bool.and_eq_true, beq_iff_eq] at hcheck hcheck'
  refine ⟨⟨w, reach_of_run .start hw fun _ _ _ => trivial, hcheck⟩,
    ⟨w', reach_of_run .start hw' fun _ _ _ => trivial, ?_, ?_, hcheck'.2⟩⟩
  · rw [hcheck'.1.1]
    exact List.mem_singleton_self _
  · intro g hg hp
    have := List.mem_map_of_mem (f := fun g : Grant => g.request.pair) hg
    rw [hcheck'.1.2, hp] at this
    simp at this

end NthDao.Routing
