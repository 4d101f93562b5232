/-
  Replication of trades (`_validate_import_locked` and `import_verified_events`
  of `nth_dao/commerce/trade.py`).

  A replica merges the chain of another one only if that chain extends its own.

  * `validateImport`, `importVerifiedEvents`: the checks and the write;
  * `Replica.step`: local transitions and imports of arbitrary lists at any
    number of replicas;
  * `replicas_monotone`: chains only grow, and two replicas whose chains part
    never merge again.

  Events compare by `==`, which does not see the order of the items of a `dict`.
  A `float` compares by its text; no event with one is ever stored.
-/
import NthDao.Chains
import NthDao.Commerce.TradeTransitions
import NthDao.Py.Equal
import NthDao.Reach

namespace NthDao

open Py Chains Runs

variable (H : Host)

/-! ## The import -/

/-- The longest chain a replica takes. -/
def maxImportEvents : ℕ := 1000

/-- The elements of a list. -/
def listOf : Json → Option (List Json)
  | .arr es => some es
  | _ => none

/-- `path.exists()`. -/
def TradeFile.present : TradeFile → Bool
  | .absent => false
  | _ => true

/-- `candidate[:len(existing)] == existing`. -/
def extendsChain (candidate existing : List Json) : Bool :=
  eqvList (candidate.take existing.length) existing

/-- The chain of a file, empty where `get_events` returns none. -/
def TradeFile.chain (f : TradeFile) : List Json := f.events.getD []

/-- `_validate_import_locked`. -/
def TradeStore.validateImport (s : TradeStore) (tradeId : String) (events : Json) (now : ℤ) :
    Except Exc (List Json) := do
  let candidate ← expect (listOf events) (.tradeRejected rejectChainBroken)
  require (!candidate.isEmpty) (.tradeRejected rejectChainBroken)
  require (candidate.length ≤ maxImportEvents) (.tradeRejected rejectChainBroken)
  let file := s.read H tradeId
  require (!(file.present && file.chain.isEmpty)) .tradeConflict
  require (file.chain.isEmpty || extendsChain candidate file.chain) .tradeConflict
  require (file.events.isNone || file.chain.length ≤ candidate.length) .tradeConflict
  verifyTrade H now tradeId (some candidate)
  return candidate

/-- `import_verified_events`. -/
def TradeStore.importVerifiedEvents (s : TradeStore) (tradeId : String) (events : Json) (now : ℤ) :
    Except Exc (List Json × TradeStore) := do
  let candidate ← s.validateImport H tradeId events now
  return (candidate, s.write H tradeId
    (.obj [("trade_id", .str tradeId), ("events", .arr candidate)]))

/-- The chain a store holds for a trade. -/
def TradeStore.chain (s : TradeStore) (tradeId : String) : List Json := (s.read H tradeId).chain

/-! ## Replicas -/

/-- What a replica does: a transition function or an import. -/
inductive StoreMove (K : Type) where
  | call (c : Call K) (nowMsOverride now : ℤ)
  | receive (tradeId : String) (events : Json) (now : ℤ)

/-- The store after a move; a call that raises writes nothing. -/
def StoreMove.run (s : TradeStore) : StoreMove H.SecretKey → TradeStore
  | .call c nowMsOverride now =>
    match c.run H s nowMsOverride now with
    | .ok (_, s') => s'
    | .error _ => s
  | .receive tradeId events now =>
    match s.importVerifiedEvents H tradeId events now with
    | .ok (_, s') => s'
    | .error _ => s

/-- One move of replica `i`. -/
def Replica.step {ι : Type} [DecidableEq ι] (w : ι → TradeStore) (a : ι × StoreMove H.SecretKey) :
    Option (ι → TradeStore) :=
  some fun j => if j = a.1 then a.2.run H (w j) else w j

/-! ## Values of a Python program -/

/-- The arguments of a call are Python values: no `dict` has a key twice. -/
def Call.Wf {K : Type} : Call K → Prop
  | .openTrade .. => True
  | .submitDelivery _ _ delivery => delivery.wf = true
  | .recordVerification _ _ _ result => result.wf = true
  | .recordSettlement _ _ settlement => settlement.wf = true
  | .openDispute _ _ reason evidence => reason.wf = true ∧ evidence.wf = true
  | .resolveDispute _ _ _ settlement rationale => settlement.wf = true ∧ rationale.wf = true

/-- So are those of a move. -/
def StoreMove.Wf {K : Type} : StoreMove K → Prop
  | .call c _ _ => c.Wf
  | .receive _ events _ => events.wf = true

/-- The events in a file are Python values. -/
def TradeFile.Wf (f : TradeFile) : Prop := ∀ e ∈ f.chain, e.wf = true

/-- The two chains part at index `n`: `==` before it, `!=` at it. -/
def PartAt (n : ℕ) (xs ys : List Json) : Prop :=
  eqvList (xs.take n) (ys.take n) = true ∧
    ∃ x y, xs[n]? = some x ∧ ys[n]? = some y ∧ eqv x y = false

/-! ## What a move does to a file -/

variable {H}

theorem chain_of_storedEvents {f : TradeFile} {es : List Json} (h : storedEvents f = .ok es) :
    f.chain = es := by
  by_cases hne : es = []
  · subst hne
    cases f with
    | absent => rfl
    | unreadable => cases h
    | doc j =>
      cases j with
      | obj kvs =>
        unfold storedEvents Json.getD at h
        unfold TradeFile.chain TradeFile.events Json.get
        cases hl : Json.lookup kvs "events" with
        | none => simp [hl]
        | some v => cases v <;> simp_all
      | _ => cases h
  · rw [TradeFile.chain, events_of_storedEvents hne h, Option.getD_some]

theorem chain_doc (tid : String) (es : List Json) :
    (TradeFile.doc (.obj [("trade_id", .str tid), ("events", .arr es)])).chain = es := by
  simp [TradeFile.chain, TradeFile.events, Json.get, Json.lookup_cons]

/-- The payload that `open_trade` signs is a Python value. -/
theorem wf_openPayload {claimRecord : Fields} {vd sd rd : String} {terms : Option Fields}
    {id : String} {payload : Fields}
    (h : openPayload H claimRecord vd sd rd terms = .ok (id, payload)) :
    (Json.obj payload).wf = true := by
  simp only [openPayload, bind_eq_ok, pure_eq_ok, Prod.mk.injEq] at h
  obtain ⟨-, -, signed, hs, -, rfl⟩ := h
  cases terms with
  | none =>
    cases hs
    simp [Json.wf, Json.wfFields]
  | some t =>
    simp only [openTerms, expect_bind_eq_ok, require_bind_eq_ok, pure_eq_ok] at hs
    obtain ⟨amount, -, -, rfl⟩ := hs
    simp [Json.wf, Json.wfFields]

/-- An event that `_append_event` signs is a Python value if its payload is. -/
theorem wf_signed {tid : String} {actor : H.SecretKey} {type : EventType} {new : TradeState}
    {payload : Fields} {seq : ℕ} {prev : String} {at' : ℤ} {ev : TradeEvent}
    (hp : (Json.obj payload).wf = true)
    (h : signTradeEvent H actor (draft H tid actor type new payload seq prev at') = .ok ev) :
    ev.toDict.wf = true := by
  simp only [signTradeEvent, expect_bind_eq_ok, pure_eq_ok] at h
  obtain ⟨b, -, rfl⟩ := h
  have hp' : ((draft H tid actor type new payload seq prev at').payload).wf = true := hp
  simp [TradeEvent.toDict, Json.wf_obj, draft] at hp' ⊢
  simpa [Json.wf] using hp'

/-- Every transition function appends one event. -/
theorem Call.run_append {c : Call H.SecretKey} {s s' : TradeStore} {ov now : ℤ} {ev : TradeEvent}
    (h : c.run H s ov now = .ok (ev, s')) : ∃ tid actor type new payload expectOpen allowed,
      appendEvent H s tid actor type new payload expectOpen allowed ov now = .ok (ev, s') ∧
        (c.Wf → (Json.obj payload).wf = true) := by
  cases c with
  | openTrade authority claimRecord vd sd rd terms =>
    simp only [Call.run, NthDao.openTrade, bind_eq_ok] at h
    obtain ⟨⟨id, payload⟩, hp, h⟩ := h
    exact ⟨_, _, _, _, _, _, _, h, fun _ => wf_openPayload hp⟩
  | submitDelivery tid claimant delivery =>
    simp only [Call.run, NthDao.submitDelivery, bind_eq_ok] at h
    obtain ⟨_, -, h⟩ := h
    refine ⟨_, _, _, _, _, _, _, h, fun hw => Json.wf_obj.2 ⟨by simp, ?_⟩⟩
    simp only [List.forall_mem_singleton]; exact hw
  | recordVerification tid verifier verdict result =>
    simp only [Call.run, NthDao.recordVerification, bind_eq_ok, expect_eq_ok] at h
    obtain ⟨_, -, _, -, h⟩ := h
    refine ⟨_, _, _, _, _, _, _, h, fun hw => Json.wf_obj.2 ⟨by simp, ?_⟩⟩
    simp only [List.forall_mem_cons]; exact ⟨rfl, hw, by simp⟩
  | recordSettlement tid settler settlement =>
    simp only [Call.run, NthDao.recordSettlement, bind_eq_ok] at h
    obtain ⟨_, -, h⟩ := h
    refine ⟨_, _, _, _, _, _, _, h, fun hw => Json.wf_obj.2 ⟨by simp, ?_⟩⟩
    simp only [List.forall_mem_singleton]; exact hw
  | openDispute tid disputant reason evidence =>
    simp only [Call.run, NthDao.openDispute, bind_eq_ok] at h
    obtain ⟨_, -, h⟩ := h
    refine ⟨_, _, _, _, _, _, _, h, fun hw => Json.wf_obj.2 ⟨by simp, ?_⟩⟩
    have he : (if truthy evidence = true then evidence else .obj []).wf = true := by
      split_ifs
      · exact hw.2
      · rfl
    simp only [List.forall_mem_cons]; exact ⟨hw.1, rfl, he, by simp⟩
  | resolveDispute tid resolver resolution settlement rationale =>
    simp only [Call.run, NthDao.resolveDispute, bind_eq_ok, expect_eq_ok] at h
    obtain ⟨_, -, _, -, h⟩ := h
    refine ⟨_, _, _, _, _, _, _, h, fun hw => Json.wf_obj.2 ⟨by simp, ?_⟩⟩
    have hs : (if truthy settlement = true then settlement else .obj []).wf = true := by
      split_ifs
      · exact hw.1
      · rfl
    simp only [List.forall_mem_cons]; exact ⟨rfl, hs, hw.2, by simp⟩

/-- A call leaves a file as it is or adds one event to its chain. -/
theorem Call.run_chain {c : Call H.SecretKey} {s s' : TradeStore} {ov now : ℤ} {ev : TradeEvent}
    (h : c.run H s ov now = .ok (ev, s')) (name : String) :
    s' name = s name ∨ (s' name).chain = (s name).chain ++ [ev.toDict] := by
  obtain ⟨tid, actor, type, new, payload, expectOpen, allowed, h, -⟩ := Call.run_append h
  obtain ⟨events, prev, -, hev, -, -, -, -, rfl⟩ := appendEvent_ok H h
  by_cases hn : name = safeId H tid
  · right
    subst hn
    rw [TradeStore.write, if_pos rfl, chain_doc, ← chain_of_storedEvents hev]; rfl
  · exact Or.inl (if_neg hn)

theorem Call.run_wf {c : Call H.SecretKey} {s s' : TradeStore} {ov now : ℤ} {ev : TradeEvent}
    (h : c.run H s ov now = .ok (ev, s')) (hc : c.Wf) : ev.toDict.wf = true := by
  obtain ⟨tid, actor, type, new, payload, expectOpen, allowed, h, hp⟩ := Call.run_append h
  obtain ⟨events, prev, -, -, -, -, hs, -, -⟩ := appendEvent_ok H h
  exact wf_signed (hp hc) hs

/-- What an import checks before it writes the candidate. -/
theorem validateImport_ok {s : TradeStore} {tid : String} {events : Json} {now : ℤ}
    {candidate : List Json} (h : s.validateImport H tid events now = .ok candidate) :
    events = .arr candidate ∧
      ((s.chain H tid) = [] ∨ extendsChain candidate (s.chain H tid) = true) ∧
      ((s.read H tid).events = none ∨ (s.chain H tid).length ≤ candidate.length) := by
  simp only [TradeStore.validateImport, expect_bind_eq_ok, unit_bind_eq_ok, require_eq_ok,
    pure_eq_ok, Bool.or_eq_true, List.isEmpty_iff, Option.isNone_iff_eq_none,
    decide_eq_true_eq] at h
  obtain ⟨cs, hl, -, -, -, hext, hlen, -, rfl⟩ := h
  refine ⟨?_, hext, hlen⟩
  cases events with
  | arr es => rw [listOf, Option.some_inj] at hl; rw [hl]
  | _ => cases hl

/-- An import leaves a file as it is or replaces its chain by an extension. -/
theorem import_chain {s s' : TradeStore} {tid : String} {events : Json} {now : ℤ}
    {candidate : List Json} (h : s.importVerifiedEvents H tid events now = .ok (candidate, s'))
    (name : String) : s' name = s name ∨
      events = .arr candidate ∧ (s' name).chain = candidate ∧
        extendsChain candidate (s name).chain = true := by
  simp only [TradeStore.importVerifiedEvents, bind_eq_ok, pure_eq_ok, Prod.mk.injEq] at h
  obtain ⟨cs, hv, rfl, rfl⟩ := h
  obtain ⟨he, hext, -⟩ := validateImport_ok hv
  by_cases hn : name = safeId H tid
  · right
    subst hn
    refine ⟨he, by rw [TradeStore.write, if_pos rfl, chain_doc], ?_⟩
    rcases hext with hnil | hext
    · have : (s (safeId H tid)).chain = [] := hnil
      rw [this, extendsChain]; rfl
    · exact hext
  · exact Or.inl (if_neg hn)

/-! ## Chains grow -/

theorem extendsChain_iff {xs ys : List Json} (hx : ∀ x ∈ xs, x.wf = true)
    (hy : ∀ y ∈ ys, y.wf = true) :
    extendsChain ys xs = true ↔ xs.map Json.ident <+: ys.map Json.ident := by
  have ht : ∀ y ∈ ys.take xs.length, y.wf = true := fun y h => hy y (List.mem_of_mem_take h)
  rw [extendsChain, eqvList_iff ht hx, List.prefix_iff_eq_take, List.map_take, List.length_map]
  exact eq_comm

/-- A move keeps the events of a file Python values, and its chain grows. -/
theorem StoreMove.run_file {m : StoreMove H.SecretKey} (hm : m.Wf) {s : TradeStore} {name : String}
    (hw : (s name).Wf) : (m.run H s name).Wf ∧
      (s name).chain.map Json.ident <+: (m.run H s name).chain.map Json.ident := by
  have same : ∀ {f : TradeFile}, f = s name →
      f.Wf ∧ (s name).chain.map Json.ident <+: f.chain.map Json.ident := by
    rintro f rfl
    exact ⟨hw, List.prefix_refl _⟩
  cases m with
  | call c ov now =>
    rw [StoreMove.run]
    cases hr : c.run H s ov now with
    | error e => exact same rfl
    | ok r =>
      obtain ⟨ev, s'⟩ := r
      rcases Call.run_chain hr name with h | h
      · exact same h
      · refine ⟨?_, by simp only [h, List.map_append]; exact List.prefix_append _ _⟩
        intro e he
        rw [h, List.mem_append, List.mem_singleton] at he
        rcases he with he | rfl
        · exact hw e he
        · exact Call.run_wf hr hm
  | receive tid events now =>
    rw [StoreMove.run]
    cases hr : s.importVerifiedEvents H tid events now with
    | error e => exact same rfl
    | ok r =>
      obtain ⟨candidate, s'⟩ := r
      rcases import_chain hr name with h | ⟨rfl, h, hext⟩
      · exact same h
      · have hc : ∀ e ∈ candidate, e.wf = true := Json.wf_arr.1 hm
        refine ⟨?_, by rwa [h, ← extendsChain_iff hw hc]⟩
        intro e he
        rw [h] at he
        exact hc e he

section Replicas

variable {ι : Type} [DecidableEq ι] {w₀ w w' : ι → TradeStore}

/-- The runs of the replicas. -/
def Replica.Reach (H : Host) {ι : Type} [DecidableEq ι] : (ι → TradeStore) → (ι → TradeStore) → Prop :=
  Runs.Reach (Replica.step H) fun _ a => a.2.Wf

/-- The chains of a run only grow. -/
theorem Replica.Reach.grows (h : Replica.Reach H w w') (hw : ∀ i name, (w i name).Wf) :
    ∀ i name, (w' i name).Wf ∧
      (w i name).chain.map Json.ident <+: (w' i name).chain.map Json.ident := by
  refine Runs.Reach.invariant h (P := fun v => ∀ i name, (v i name).Wf ∧
    (w i name).chain.map Json.ident <+: (v i name).chain.map Json.ident)
    (fun i name => ⟨hw i name, List.prefix_refl _⟩) ?_
  rintro v a v' hv ha hs i name
  cases hs
  obtain ⟨hwf, hp⟩ := hv i name
  by_cases hi : i = a.1
  · simp only [hi, if_true]
    rw [hi] at hwf hp
    obtain ⟨hwf', hp'⟩ := StoreMove.run_file ha hwf
    exact ⟨hwf', hp.trans hp'⟩
  · simp only [hi, if_false]
    exact ⟨hwf, hp⟩

theorem partAt_iff {n : ℕ} {xs ys : List Json} (hx : ∀ x ∈ xs, x.wf = true)
    (hy : ∀ y ∈ ys, y.wf = true) :
    PartAt n xs ys ↔ Diverge n (xs.map Json.ident) (ys.map Json.ident) := by
  rw [PartAt, Diverge, eqvList_iff (fun x h => hx x (List.mem_of_mem_take h))
    (fun y h => hy y (List.mem_of_mem_take h)), List.map_take, List.map_take]
  refine and_congr_right fun _ => ?_
  constructor
  · rintro ⟨x, y, h, h', hne⟩
    refine ⟨x.ident, y.ident, by simp [h], by simp [h'], fun he => ?_⟩
    rw [(eqv_iff x (hx x (List.mem_of_getElem? h)) y (hy y (List.mem_of_getElem? h'))).2 he] at hne
    cases hne
  · rintro ⟨x, y, h, h', hne⟩
    rw [List.getElem?_map, Option.map_eq_some_iff] at h h'
    obtain ⟨x, h, rfl⟩ := h
    obtain ⟨y, h', rfl⟩ := h'
    refine ⟨x, y, h, h', Bool.eq_false_iff.2 fun he => hne ?_⟩
    exact (eqv_iff x (hx x (List.mem_of_getElem? h)) y (hy y (List.mem_of_getElem? h'))).1 he

/-- A chain that has parted from the local one is not imported. -/
theorem import_of_partAt {s : TradeStore} {tid : String} {n : ℕ} {ys : List Json}
    (hs : (s.read H tid).Wf) (hy : ∀ y ∈ ys, y.wf = true) (h : PartAt n (s.chain H tid) ys)
    (now : ℤ) : ∃ e, s.importVerifiedEvents H tid (.arr ys) now = .error e := by
  cases hr : s.importVerifiedEvents H tid (.arr ys) now with
  | error e => exact ⟨e, rfl⟩
  | ok r =>
    simp only [TradeStore.importVerifiedEvents, bind_eq_ok, pure_eq_ok] at hr
    obtain ⟨cs, hv, -⟩ := hr
    obtain ⟨he, hext, -⟩ := validateImport_ok hv
    obtain rfl := Json.arr.inj he
    have hd := (partAt_iff hs hy).1 h
    rcases hext with hnil | hext
    · refine absurd ?_ hd.not_prefix
      rw [show (s.read H tid).chain = [] from hnil]; exact List.nil_prefix
    · exact absurd ((extendsChain_iff hs hy).1 hext) hd.not_prefix

/-- **Chains of replicas only grow.**  In every run of transitions and imports,
    at any number of replicas: each chain extends the chains held before; what
    raises changes nothing; a chain equal to the local one, once imported, leaves
    it equal; and the chains of two replicas extend one another or part at an
    index at which they part from then on, and where they part neither can be
    imported at the other. -/
theorem replicas_monotone (tid : String) (h₀ : ∀ i name, (w₀ i name).Wf)
    (h : Replica.Reach H w₀ w) :
    (∀ w', Replica.Reach H w w' → ∀ i,
      extendsChain ((w' i).chain H tid) ((w i).chain H tid) = true) ∧
    (∀ i events now e, (w i).importVerifiedEvents H tid events now = .error e →
      Replica.step H w (i, .receive tid events now) = some w) ∧
    (∀ i es now w', (∀ e ∈ es, e.wf = true) → eqvList es ((w i).chain H tid) = true →
      Replica.step H w (i, .receive tid (.arr es) now) = some w' →
        eqvList ((w' i).chain H tid) ((w i).chain H tid) = true) ∧
    ∀ i j, extendsChain ((w i).chain H tid) ((w j).chain H tid) = true ∨
      extendsChain ((w j).chain H tid) ((w i).chain H tid) = true ∨
      ∃ n, ∀ w', Replica.Reach H w w' → PartAt n ((w' i).chain H tid) ((w' j).chain H tid) ∧
        ∀ now, ∃ e e', (w' i).importVerifiedEvents H tid (.arr ((w' j).chain H tid)) now = .error e ∧
          (w' j).importVerifiedEvents H tid (.arr ((w' i).chain H tid)) now = .error e' := by
  have hw := fun i name => (h.grows h₀ i name).1
  refine ⟨?_, ?_, ?_, ?_⟩
  · intro w' h' i
    obtain ⟨hwf, hp⟩ := h'.grows hw i (safeId H tid)
    exact (extendsChain_iff (hw i _) hwf).2 hp
  · intro i events now e he
    refine congrArg some (funext fun j => ?_)
    by_cases hj : j = i
    · subst hj; simp [StoreMove.run, he]
    · simp [hj]
  · intro i es now w' hes heq hstep
    cases hstep
    simp only [if_true, StoreMove.run]
    have hrefl := (eqvList_iff (hw i _) (hw i (safeId H tid))).2 rfl
    cases hr : (w i).importVerifiedEvents H tid (.arr es) now with
    | error e => exact hrefl
    | ok r =>
      obtain ⟨candidate, s'⟩ := r
      rcases import_chain hr (safeId H tid) with hs | ⟨he, hs, -⟩
      · simp only [TradeStore.chain, TradeStore.read, hs]; exact hrefl
      · obtain rfl := Json.arr.inj he
        simp only [TradeStore.chain, TradeStore.read, hs]; exact heq
  · intro i j
    have hi := hw i (safeId H tid)
    have hj := hw j (safeId H tid)
    rcases prefix_or_diverge (((w i).chain H tid).map Json.ident)
      (((w j).chain H tid).map Json.ident) with hp | hp | ⟨n, hd⟩
    · exact Or.inr (Or.inl ((extendsChain_iff hi hj).2 hp))
    · exact Or.inl ((extendsChain_iff hj hi).2 hp)
    · refine Or.inr (Or.inr ⟨n, fun w' h' => ?_⟩)
      obtain ⟨hi', hpi⟩ := h'.grows hw i (safeId H tid)
      obtain ⟨hj', hpj⟩ := h'.grows hw j (safeId H tid)
      have hd' := hd.mono hpi hpj
      have hpart := (partAt_iff hi' hj').2 hd'
      refine ⟨hpart, fun now => ?_⟩
      obtain ⟨e, he⟩ := import_of_partAt hi' hj' hpart now
      obtain ⟨e', he'⟩ := import_of_partAt hj' hi' ((partAt_iff hj' hi').2 hd'.symm) now
      exact ⟨e, e', he, he'⟩

/-- One replica opens a trade, the other imports its chain. -/
theorem replicas_monotone_open : ∃ w : Bool → TradeStore,
    Replica.Reach checksumHost (fun _ _ => .absent) w ∧ ((w true).chain checksumHost "t").length = 1 ∧
      ∀ w', Replica.Reach checksumHost w w' → ∀ i,
        extendsChain ((w' i).chain checksumHost "t") ((w i).chain checksumHost "t") = true := by
  have h₀ : ∀ (_ : Bool) (_ : String), TradeFile.absent.Wf := fun _ _ e he => nomatch he
  obtain ⟨w₁, h₁, hlen⟩ : ∃ w₁, Replica.Reach checksumHost (fun (_ : Bool) _ => .absent) w₁ ∧
      ((w₁ true).chain checksumHost "t").length = 1 :=
    ⟨_, (Runs.Reach.start).step (a := (true, .call sampleCall 0 10)) trivial rfl,
      by decide +kernel⟩
  have hw := Json.wf_arr.2 (h₁.grows h₀ true (safeId checksumHost "t")).1
  have h₂ : Replica.Reach checksumHost _ _ :=
    h₁.step (a := (false, .receive "t" (.arr ((w₁ true).chain checksumHost "t")) 20)) hw rfl
  exact ⟨_, h₂, hlen, (replicas_monotone "t" h₀ h₂).1⟩

end Replicas

end NthDao
