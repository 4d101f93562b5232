/-
  Semantic uniqueness of the events of one type.

  The owners of the values of some fields are the stored events of the type and
  the payloads planned so far; `rowOf` is the payload of an owner.

  * `Keyed`: every owner has a value under each field, and no two share one;
  * `Plan.Ok`: the plan of a batch is keyed, and its index is that of its rows;
  * `Plan.Resolved`: every payload of a batch that was planned equals the row of
    its owner;
  * `append_unique`: what `append_unique_many` guarantees in every run.
-/
import NthDao.CanonicalText
import NthDao.Py.Norm
import NthDao.Spine.Growth

namespace NthDao

open Py Runs

variable {H : Host} {path : String}

/-! ## Rows -/

/-- The payload of an owner, among the events of a type and the planned payloads. -/
def rowOf (eventType : String) (events : List SpineEvent) (planned : List Fields) :
    Owner → Option Fields
  | .existing i => (events[i]?.filter fun e => e.type == eventType).map SpineEvent.payload
  | .planned i => planned[i]?

/-- The rows have the fields, and no two share a value. -/
structure Keyed (fields : List String) (row : Owner → Option Fields) : Prop where
  wf : ∀ o p, row o = some p → (Json.obj p).wf = true
  values : ∀ o p, row o = some p → ∀ f ∈ fields, (uniqueValue p f).isSome
  unique : ∀ o o' p p', row o = some p → row o' = some p' → ∀ f ∈ fields,
    uniqueValue p f = uniqueValue p' f → o = o'

section Rows

variable {eventType : String} {fields : List String} {events : List SpineEvent}
  {planned : List Fields}

theorem rowOf_existing {i : ℕ} {p : Fields} :
    rowOf eventType events planned (.existing i) = some p ↔
      ∃ e, events[i]? = some e ∧ e.type = eventType ∧ e.payload = p := by
  simp [rowOf, Option.filter_eq_some_iff, and_assoc]

theorem rowOf_concat {p q : Fields} {o : Owner} :
    rowOf eventType events (planned ++ [p]) o = some q ↔
      rowOf eventType events planned o = some q ∨ (o = .planned planned.length ∧ q = p) := by
  cases o with
  | existing i => simp [rowOf_existing]
  | planned i =>
    simp only [rowOf, Owner.planned.injEq]
    rcases Nat.lt_trichotomy i planned.length with hi | rfl | hi
    · rw [List.getElem?_append_left hi]
      constructor
      · exact .inl
      · rintro (h | ⟨rfl, -⟩)
        · exact h
        · exact absurd hi (Nat.lt_irrefl _)
    · simp [eq_comm]
    · rw [List.getElem?_eq_none hi.le,
        List.getElem?_eq_none (by rw [List.length_append, List.length_singleton]; omega)]
      simp [hi.ne']

theorem Keyed.mono {row row' : Owner → Option Fields} (h : Keyed fields row')
    (hsub : ∀ o p, row o = some p → row' o = some p) : Keyed fields row :=
  ⟨fun o p hp => h.wf o p (hsub o p hp), fun o p hp => h.values o p (hsub o p hp),
    fun o o' p p' hp hp' => h.unique o o' p p' (hsub o p hp) (hsub o' p' hp')⟩

/-- Payloads with one canonical form have the same values. -/
theorem uniqueValue_congr {p q : Fields} (h : (Json.obj p).norm = (Json.obj q).norm)
    (hp : (Json.obj p).wf = true) (hq : (Json.obj q).wf = true) (f : String) :
    uniqueValue p f = uniqueValue q f := by
  have hget : (Json.get p f).norm = (Json.get q f).norm := by
    rw [← Json.get_norm (Json.wf_obj.1 hp).1, h, Json.get_norm (Json.wf_obj.1 hq).1]
  rw [uniqueValue, uniqueValue, ← Json.asStr_norm, hget, Json.asStr_norm]

end Rows

/-! ## Plans -/

/-- The plan is keyed, and its index is that of its rows. -/
structure Plan.Ok (eventType : String) (fields : List String) (events : List SpineEvent)
    (plan : Plan) : Prop where
  keyed : Keyed fields (rowOf eventType events plan.planned)
  owners : ∀ f ∈ fields, ∀ v o, o ∈ plan.owners.members (f, v) ↔
    ∃ p, rowOf eventType events plan.planned o = some p ∧ uniqueValue p f = some v

namespace Plan

variable {eventType : String} {fields : List String} {events : List SpineEvent} {plan plan' : Plan}
  {payload : Fields} {validate : SpineEvent → Except String Unit}

theorem ok_start (hnum : Numbered events) (h : Keyed fields (rowOf eventType events [])) :
    Plan.Ok eventType fields events { owners := indexEvents eventType fields [] events } := by
  refine ⟨h, fun f hf v o => ?_⟩
  rw [members_indexEvents eventType hf v hnum, List.mem_map]
  constructor
  · rintro ⟨e, he, rfl⟩
    obtain ⟨hmem, hq⟩ := List.mem_filter.1 he
    rw [Bool.and_eq_true, beq_iff_eq, beq_iff_eq] at hq
    obtain ⟨i, hi⟩ := List.mem_iff_getElem?.1 hmem
    refine ⟨e.payload, rowOf_existing.2 ⟨e, ?_, hq.1, rfl⟩, hq.2⟩
    rw [hnum i e hi, hi]
  · rintro ⟨p, hrow, hv⟩
    cases o with
    | planned i => cases hrow
    | existing i =>
      obtain ⟨e, hi, htype, rfl⟩ := rowOf_existing.1 hrow
      refine ⟨e, List.mem_filter.2 ⟨List.mem_of_getElem? hi, ?_⟩, by rw [hnum i e hi]⟩
      rw [htype, hv, beq_self_eq_true, beq_self_eq_true, Bool.and_self]

/-- The owners that a payload shares a value with. -/
theorem Ok.mem_matched (h : Plan.Ok eventType fields events plan)
    (hval : ∀ f ∈ fields, (uniqueValue payload f).isSome) {o : Owner} :
    o ∈ plan.matched fields payload ↔ ∃ p, rowOf eventType events plan.planned o = some p ∧
      ∃ f ∈ fields, uniqueValue p f = uniqueValue payload f := by
  rw [matched, List.mem_dedup, List.mem_flatMap]
  have hsome : ∀ f ∈ fields, uniqueValue payload f = some ((uniqueValue payload f).getD "") := by
    intro f hf
    obtain ⟨v, hv⟩ := Option.isSome_iff_exists.1 (hval f hf)
    rw [hv, Option.getD_some]
  constructor
  · rintro ⟨f, hf, hmem⟩
    obtain ⟨p, hrow, hv⟩ := (h.owners f hf _ o).1 hmem
    exact ⟨p, hrow, f, hf, hv.trans (hsome f hf).symm⟩
  · rintro ⟨p, hrow, f, hf, hv⟩
    exact ⟨f, hf, (h.owners f hf _ o).2 ⟨p, hrow, hv.trans (hsome f hf)⟩⟩

/-- A payload that shares no value becomes a row. -/
theorem Ok.add (h : Plan.Ok eventType fields events plan) (hwf : (Json.obj payload).wf = true)
    (hval : ∀ f ∈ fields, (uniqueValue payload f).isSome)
    (hm : plan.matched fields payload = []) :
    Plan.Ok eventType fields events (plan.add fields payload) := by
  have hfresh : ∀ o p, rowOf eventType events plan.planned o = some p → ∀ f ∈ fields,
      uniqueValue p f ≠ uniqueValue payload f := by
    intro o p hrow f hf hv
    have hmem := (h.mem_matched hval).2 ⟨p, hrow, f, hf, hv⟩
    rw [hm] at hmem
    cases hmem
  refine ⟨⟨fun o p hp => ?_, fun o p hp f hf => ?_, fun o o' p p' hp hp' f hf hv => ?_⟩,
    fun f hf v o => ?_⟩
  · obtain hp | ⟨-, rfl⟩ := rowOf_concat.1 hp
    · exact h.keyed.wf o p hp
    · exact hwf
  · obtain hp | ⟨-, rfl⟩ := rowOf_concat.1 hp
    · exact h.keyed.values o p hp f hf
    · exact hval f hf
  · obtain hq | ⟨ho, hq⟩ := rowOf_concat.1 hp
    · obtain hq' | ⟨ho', hq'⟩ := rowOf_concat.1 hp'
      · exact h.keyed.unique o o' p p' hq hq' f hf hv
      · exact absurd (hq' ▸ hv) (hfresh o p hq f hf)
    · obtain hq' | ⟨ho', hq'⟩ := rowOf_concat.1 hp'
      · exact absurd (hq ▸ hv.symm) (hfresh o' p' hq' f hf)
      · rw [ho, ho']
  · have hmem : o ∈ (plan.add fields payload).owners.members (f, v) ↔
        o ∈ plan.owners.members (f, v) ∨
          (o = .planned plan.planned.length ∧ uniqueValue payload f = some v) := by
      obtain ⟨w, hw⟩ := Option.isSome_iff_exists.1 (hval f hf)
      refine (mem_members_foldl_addTo (fun f => some ((uniqueValue payload f).getD "")) _ _ hf
        v).trans ?_
      rw [hw, Option.getD_some]
    rw [hmem, h.owners f hf v o]
    constructor
    · rintro (⟨p, hrow, hv⟩ | ⟨rfl, hv⟩)
      · exact ⟨p, rowOf_concat.2 (.inl hrow), hv⟩
      · exact ⟨payload, rowOf_concat.2 (.inr ⟨rfl, rfl⟩), hv⟩
    · rintro ⟨p, hrow, hv⟩
      obtain hrow | ⟨rfl, rfl⟩ := rowOf_concat.1 hrow
      · exact .inl ⟨p, hrow, hv⟩
      · exact .inr ⟨rfl, hv⟩

/-- A payload of the batch and the owner found for it. -/
def Resolves (eventType : String) (events : List SpineEvent)
    (validate : SpineEvent → Except String Unit) (planned : List Fields) (s : Fields)
    (r : Owner × Bool) : Prop :=
  ∃ p, rowOf eventType events planned r.1 = some p ∧
    canonicalJson (.obj p) = canonicalJson (.obj s) ∧
    ∀ i e, r.1 = .existing i → events[i]? = some e → validate (snapshotEvent e) = .ok ()

theorem Resolves.mono {planned planned' : List Fields} {s : Fields} {r : Owner × Bool}
    (h : Resolves eventType events validate planned s r)
    (hp : ∀ o p, rowOf eventType events planned o = some p →
      rowOf eventType events planned' o = some p) :
    Resolves eventType events validate planned' s r := by
  obtain ⟨p, hrow, hrest⟩ := h
  exact ⟨p, hp _ p hrow, hrest⟩

/-- A payload that can be stored under the fields. -/
structure Fits (fields : List String) (payload : Fields) : Prop where
  wf : (Json.obj payload).wf = true
  values : ∀ f ∈ fields, (uniqueValue payload f).isSome
  canonical : (canonicalJson (.obj payload)).isSome

/-- A payload with the same canonical form has the same values. -/
theorem Fits.uniqueValue_eq (h : Fits fields payload) {p : Fields} (hp : (Json.obj p).wf = true)
    (hc : canonicalJson (.obj p) = canonicalJson (.obj payload)) (f : String) :
    uniqueValue p f = uniqueValue payload f := by
  obtain ⟨b, hb⟩ := Option.isSome_iff_exists.1 h.canonical
  exact uniqueValue_congr (canonicalJson_injective hp h.wf (hc.trans hb) hb) hp h.wf f

/-- One payload of the batch. -/
theorem Ok.next (h : Plan.Ok eventType fields events plan) (hfits : Fits fields payload)
    (hn : plan.next events fields validate payload = .ok plan') :
    Plan.Ok eventType fields events plan' ∧
      (∀ o p, rowOf eventType events plan.planned o = some p →
        rowOf eventType events plan'.planned o = some p) ∧
      ∃ r, plan'.resolutions = plan.resolutions ++ [r] ∧
        Resolves eventType events validate plan'.planned payload r := by
  obtain ⟨hm, rfl⟩ | ⟨owner, stored, hm, hpay, heq, rfl⟩ := Plan.next_eq_ok hn
  · refine ⟨h.add hfits.wf hfits.values hm, fun o p hp => rowOf_concat.2 (.inl hp), _, rfl, payload,
      rowOf_concat.2 (.inr ⟨rfl, rfl⟩), rfl, fun i e hi => ?_⟩
    cases hi
  · refine ⟨⟨h.keyed, h.owners⟩, fun o p hp => hp, _, rfl, stored, ?_, heq, fun i e hi hget => ?_⟩
    · obtain ⟨p, hrow, -⟩ := (h.mem_matched hfits.values).1 (hm ▸ List.mem_singleton.2 rfl)
      cases owner with
      | existing i =>
        simp only [ownerPayload, bind_eq_ok, expect_eq_ok, pure_eq_ok] at hpay
        obtain ⟨e, he, _, -, rfl⟩ := hpay
        obtain ⟨e', he', htype, -⟩ := rowOf_existing.1 hrow
        obtain rfl := Option.some_inj.1 (he.symm.trans he')
        exact rowOf_existing.2 ⟨e, he, htype, rfl⟩
      | planned i => exact expect_eq_ok.1 hpay
    · obtain rfl : owner = .existing i := hi
      simp only [ownerPayload, hget, expect, ok_bind, bind_eq_ok] at hpay
      obtain ⟨_, hv, -⟩ := hpay
      exact hv

/-- All payloads of the batch. -/
theorem Ok.foldlM {snapshots : List Fields} (h : Plan.Ok eventType fields events plan)
    (hfits : ∀ s ∈ snapshots, Fits fields s)
    (hn : snapshots.foldlM (Plan.next events fields validate) plan = .ok plan') :
    Plan.Ok eventType fields events plan' ∧
      (∀ o p, rowOf eventType events plan.planned o = some p →
        rowOf eventType events plan'.planned o = some p) ∧
      ∃ rs, plan'.resolutions = plan.resolutions ++ rs ∧
        List.Forall₂ (Resolves eventType events validate plan'.planned) snapshots rs := by
  induction snapshots generalizing plan with
  | nil =>
    cases hn
    exact ⟨h, fun _ _ hp => hp, [], by simp, .nil⟩
  | cons s ss ih =>
    rw [List.foldlM_cons, bind_eq_ok] at hn
    obtain ⟨next, hnext, hn⟩ := hn
    rw [List.forall_mem_cons] at hfits
    obtain ⟨hok, hmono, r, hr, hres⟩ := h.next hfits.1 hnext
    obtain ⟨hok', hmono', rs, hrs, hall⟩ := ih hok hfits.2 hn
    refine ⟨hok', fun o p hp => hmono' o p (hmono o p hp), r :: rs, ?_, ?_⟩
    · rw [hrs, hr, List.append_assoc, List.singleton_append]
    · exact .cons (hres.mono hmono') hall

/-! ### Conflicts -/

/-- Two payloads that share a value and have the same row are the same. -/
theorem Ok.no_conflict (h : Plan.Ok eventType fields events plan) {o o' : Owner} {p p' : Fields}
    (hrow : rowOf eventType events plan.planned o = some p)
    (hrow' : rowOf eventType events plan.planned o' = some p') {f : String} (hf : f ∈ fields)
    (hv : uniqueValue p f = uniqueValue p' f) : p = p' := by
  obtain rfl := h.keyed.unique o o' p p' hrow hrow' f hf hv
  exact Option.some_inj.1 (hrow.symm.trans hrow')

/-! ### Repeated batches -/

theorem eq_singleton_of_nodup {α : Type} {l : List α} {a : α} (hn : l.Nodup) (ha : a ∈ l)
    (hall : ∀ b ∈ l, b = a) : l = [a] := by
  obtain ⟨b, rest, rfl⟩ := List.exists_cons_of_ne_nil (List.ne_nil_of_mem ha)
  obtain rfl := hall b (by simp)
  rw [List.nodup_cons] at hn
  cases rest with
  | nil => rfl
  | cons c rest => exact absurd (by rw [hall c (by simp)]; simp) hn.1

/-- A payload that is stored is found. -/
theorem Ok.next_stored (h : Plan.Ok eventType fields events plan) (hfields : fields ≠ [])
    (hfits : Fits fields payload) {i : ℕ} {e : SpineEvent} (he : events[i]? = some e)
    (htype : e.type = eventType) (hwf : (Json.obj e.payload).wf = true)
    (hcanon : canonicalJson (.obj e.payload) = canonicalJson (.obj payload))
    (hv : validate (snapshotEvent e) = .ok ()) :
    plan.next events fields validate payload =
      .ok { plan with resolutions := plan.resolutions ++ [(.existing i, false)] } := by
  have hrow : rowOf eventType events plan.planned (.existing i) = some e.payload :=
    rowOf_existing.2 ⟨e, he, htype, rfl⟩
  have hsame := hfits.uniqueValue_eq hwf hcanon
  have hmatched : plan.matched fields payload = [.existing i] := by
    refine eq_singleton_of_nodup (List.nodup_dedup _) ?_ fun o ho => ?_
    · obtain ⟨f, hf⟩ := List.exists_mem_of_ne_nil fields hfields
      exact (h.mem_matched hfits.values).2 ⟨e.payload, hrow, f, hf, hsame f⟩
    · obtain ⟨p, hp, f, hf, hpf⟩ := (h.mem_matched hfits.values).1 ho
      exact h.keyed.unique o _ p _ hp hrow f hf (hpf.trans (hsame f).symm)
  have hstored : plan.ownerPayload events validate (.existing i) = .ok e.payload := by
    simp only [ownerPayload, he, expect, ok_bind, hv]
    rfl
  simp only [Plan.next, hmatched, hstored, ok_bind, hcanon, beq_self_eq_true, require, if_true]
  rfl

/-- A batch whose payloads are all stored plans nothing. -/
theorem Ok.foldlM_stored (h : Plan.Ok eventType fields events plan) (hfields : fields ≠ [])
    {snapshots : List Fields} {is : List ℕ} (hfits : ∀ s ∈ snapshots, Fits fields s)
    (hall : List.Forall₂ (fun s i => ∃ e, events[i]? = some e ∧ e.type = eventType ∧
      (Json.obj e.payload).wf = true ∧ canonicalJson (.obj e.payload) = canonicalJson (.obj s) ∧
      validate (snapshotEvent e) = .ok ()) snapshots is) :
    snapshots.foldlM (Plan.next events fields validate) plan =
      .ok { plan with resolutions := plan.resolutions ++ is.map fun i => (.existing i, false) } := by
  induction hall generalizing plan with
  | nil => simp [pure, Except.pure]
  | @cons s i ss is hs _ ih =>
    obtain ⟨e, he, htype, hwf, hcanon, hv⟩ := hs
    rw [List.forall_mem_cons] at hfits
    rw [List.foldlM_cons, h.next_stored hfields hfits.1 he htype hwf hcanon hv, ok_bind]
    have hok : Plan.Ok eventType fields events
        { plan with resolutions := plan.resolutions ++ [(.existing i, false)] } :=
      ⟨h.keyed, h.owners⟩
    rw [ih hok hfits.2]
    simp

end Plan

/-! ## Prepared events -/

section Prepared

variable {identity : H.SecretKey} {eventType : String} {fields : List String}
  {events : List SpineEvent} {validate : SpineEvent → Except String Unit}

theorem prepareAppend_fields {payload : Fields} {ts : ℤ} {last : Option SpineEvent} {baseSize : ℕ}
    {e : SpineEvent} {line : Bytes}
    (h : prepareAppend H identity eventType payload ts last baseSize = .ok (e, line)) :
    e.type = eventType ∧ e.payload = payload := by
  simp only [prepareAppend, signEvent, bind_eq_ok, require_eq_ok, expect_eq_ok, pure_eq_ok,
    SpineEvent.fromDict_toDict, Prod.mk.injEq] at h
  obtain ⟨_, ⟨_, -, _, -, _, -, _, -, _, -, rfl, -⟩, _, -, _, -, rfl, -⟩ := h
  exact ⟨rfl, rfl⟩

/-- The new events of a batch, one for each planned payload, within the budget. -/
theorem preparePlanned_eq_ok {items : List (Fields × ℤ)} {used total : ℕ}
    {last : Option SpineEvent} {baseSize : ℕ} {prepared : List (SpineEvent × Bytes)}
    (h : preparePlanned H identity eventType validate used last baseSize items =
      .ok (prepared, total)) :
    (prepared.map fun p => p.1.payload) = items.map Prod.fst ∧
      (∀ p ∈ prepared, p.1.type = eventType ∧ validate (snapshotEvent p.1) = .ok ()) ∧
      used ≤ total ∧ (used ≤ maxSpineAppendBatchBytes → total ≤ maxSpineAppendBatchBytes) := by
  induction items generalizing used last baseSize prepared with
  | nil =>
    cases h
    simp
  | cons item items ih =>
    obtain ⟨payload, ts⟩ := item
    simp only [preparePlanned, chargeBatchBytes, bind_eq_ok, require_eq_ok, decide_eq_true_eq,
      pure_eq_ok, Prod.exists, Prod.mk.injEq] at h
    obtain ⟨e, line, hp, used', ⟨_, hle, rfl⟩, _, hv, rest, total', hr, rfl, rfl⟩ := h
    obtain ⟨hpay, hall, hge, htot⟩ := ih hr
    obtain ⟨htype, hpayload⟩ := prepareAppend_fields hp
    refine ⟨by rw [List.map_cons, List.map_cons, hpay, hpayload], ?_, by omega, fun _ => htot hle⟩
    rw [List.forall_mem_cons]
    exact ⟨⟨htype, hv⟩, hall⟩

/-- The views of a batch, within the budget. -/
theorem resultViews_eq_ok {prepared : List (SpineEvent × Bytes)} {used : ℕ}
    {rs : List (Owner × Bool)} {views : List (SpineEvent × Bool)}
    (hu : used ≤ maxSpineAppendBatchBytes) :
    resultViews events prepared used rs = .ok views ↔ ∃ es : List SpineEvent,
      List.Forall₂ (fun r e => ownerEvent events prepared r.1 = some e) rs es ∧
      used + (es.map fun e => (encodeEvent e).length).sum ≤ maxSpineAppendBatchBytes ∧
      views = List.zipWith (fun r e => (snapshotEvent e, r.2)) rs es := by
  induction rs generalizing used views with
  | nil =>
    simp only [resultViews, Except.ok.injEq]
    constructor
    · rintro rfl
      exact ⟨[], .nil, by simpa using hu, rfl⟩
    · rintro ⟨es, hes, -, rfl⟩
      cases hes
      rfl
  | cons r rs ih =>
    obtain ⟨owner, created⟩ := r
    simp only [resultViews, chargeBatchBytes, bind_eq_ok, expect_eq_ok, require_eq_ok,
      decide_eq_true_eq, pure_eq_ok]
    constructor
    · rintro ⟨e, he, used', ⟨_, hle, rfl⟩, vs, hvs, rfl⟩
      obtain ⟨es, hes, hsum, rfl⟩ := (ih hle).1 hvs
      refine ⟨e :: es, .cons he hes, ?_, rfl⟩
      rw [List.map_cons, List.sum_cons]
      omega
    · rintro ⟨es, hes, hsum, rfl⟩
      cases hes with
      | cons he hes =>
        rw [List.map_cons, List.sum_cons] at hsum
        refine ⟨_, he, _, ⟨(), by omega, rfl⟩, _, (ih (by omega)).2 ⟨_, hes, by omega, rfl⟩, rfl⟩

theorem snapshotBatch_eq_ok {payloads : List Dict} {used total : ℕ} {snapshots : List Fields}
    (h : snapshotBatch used payloads = .ok (snapshots, total)) :
    List.Forall₂ (fun p s => snapshotPayload p.1 = .ok s) payloads snapshots ∧
      (used ≤ maxSpineAppendBatchBytes → total ≤ maxSpineAppendBatchBytes) := by
  induction payloads generalizing used snapshots with
  | nil =>
    cases h
    exact ⟨.nil, id⟩
  | cons payload rest ih =>
    simp only [snapshotBatch, chargeBatchBytes, bind_eq_ok, require_eq_ok, decide_eq_true_eq,
      pure_eq_ok, Prod.exists, Prod.mk.injEq] at h
    obtain ⟨_, -, used', ⟨_, hle, rfl⟩, s, hs, ss, total', hss, rfl, rfl⟩ := h
    obtain ⟨hall, htot⟩ := ih hss
    exact ⟨.cons hs hall, fun _ => htot hle⟩

/-- A snapshot is the payload with sorted keys. -/
theorem canonicalJson_snapshot {payload : Dict} {s : Fields}
    (h : snapshotPayload payload.1 = .ok s) :
    (Json.obj s).norm = (Json.obj payload.1).norm ∧ (canonicalJson (.obj s)).isSome := by
  have hs := (snapshotPayload_eq_ok h).1
  have hnorm : (Json.obj s).norm = (Json.obj payload.1).norm := by rw [hs, Json.norm_norm]
  refine ⟨hnorm, ?_⟩
  rw [canonicalJson_congr rfl rfl hnorm]
  simp only [snapshotPayload, encodePayload, bind_eq_ok, expect_eq_ok] at h
  obtain ⟨_, ⟨b, hb, -⟩, -⟩ := h
  rw [hb]
  rfl

/-- What is checked before the lock. -/
theorem snapshots_eq_ok {payloads : List Dict} {tsMs : ℕ → ℤ} {snapshots : List Fields} {used : ℕ}
    (h : (SpineCall.appendUniqueMany eventType payloads fields tsMs validate).snapshots =
      .ok (snapshots, used)) :
    fields ≠ [] ∧ List.Forall₂ (fun p s => snapshotPayload p.1 = .ok s) payloads snapshots ∧
      (∀ s ∈ snapshots, Plan.Fits fields s) ∧ used ≤ maxSpineAppendBatchBytes := by
  simp only [SpineCall.snapshots, bind_eq_ok, require_eq_ok, pure_eq_ok, Prod.exists,
    Prod.mk.injEq, List.all_eq_true] at h
  obtain ⟨_, hfields, _, -, ss, total, hss, _, hvals, rfl, rfl⟩ := h
  obtain ⟨hall, htot⟩ := snapshotBatch_eq_ok hss
  refine ⟨?_, hall, fun s hs => ⟨?_, hvals s hs, ?_⟩, htot (Nat.zero_le _)⟩
  · rintro rfl
    simp [fieldsOk] at hfields
  · obtain ⟨payload, hp⟩ := snapshot_of_snapshotBatch hss s hs
    exact (snapshotPayload_eq_ok hp).2
  · obtain ⟨payload, hp⟩ := snapshot_of_snapshotBatch hss s hs
    exact (canonicalJson_snapshot hp).2

end Prepared

/-! ## Appended rows -/

section Append

variable {identity : H.SecretKey} {eventType : String} {fields : List String}
  {events : List SpineEvent}

/-- The place of an owner after the planned payloads are appended to `n` events. -/
def Owner.place (n : ℕ) : Owner → ℕ
  | .existing i => i
  | .planned i => n + i

theorem getElem?_place {prepared : List (SpineEvent × Bytes)} {o : Owner} {e : SpineEvent}
    (h : ownerEvent events prepared o = some e) :
    (events ++ prepared.map Prod.fst)[o.place events.length]? = some e := by
  cases o with
  | existing i =>
    have hi : events[i]? = some e := h
    rw [Owner.place, List.getElem?_append_left (List.getElem?_eq_some_iff.1 hi).1, hi]
  | planned i => simpa [Owner.place, List.getElem?_append_right, ownerEvent] using h

/-- The rows of the longer log are those of the plan. -/
theorem keyed_append {planned : List Fields} (h : Keyed fields (rowOf eventType events planned))
    {es : List SpineEvent} (hes : es.map SpineEvent.payload = planned) :
    Keyed fields (rowOf eventType (events ++ es) []) := by
  -- the owner in the plan of a place in the longer log
  let back : Owner → Owner
    | .existing i => if i < events.length then .existing i else .planned (i - events.length)
    | o => o
  have hrow : ∀ o p, rowOf eventType (events ++ es) [] o = some p →
      rowOf eventType events planned (back o) = some p := by
    intro o p hp
    cases o with
    | planned i => cases hp
    | existing i =>
      obtain ⟨e, he, htype, rfl⟩ := rowOf_existing.1 hp
      by_cases hi : i < events.length
      · rw [List.getElem?_append_left hi] at he
        simp only [back, if_pos hi]
        exact rowOf_existing.2 ⟨e, he, htype, rfl⟩
      · rw [List.getElem?_append_right (Nat.not_lt.1 hi)] at he
        simp only [back, if_neg hi, rowOf, ← hes, List.getElem?_map, he, Option.map_some]
  refine ⟨fun o p hp => h.wf _ p (hrow o p hp), fun o p hp => h.values _ p (hrow o p hp),
    fun o o' p p' hp hp' f hf hv => ?_⟩
  have hback := h.unique _ _ p p' (hrow o p hp) (hrow o' p' hp') f hf hv
  cases o with
  | planned i => cases hp
  | existing i =>
    cases o' with
    | planned i' => cases hp'
    | existing i' =>
      simp only [back] at hback
      split_ifs at hback <;> simp only [Owner.existing.injEq, Owner.planned.injEq] at hback ⊢ <;>
        omega

/-- Events of other types are no rows. -/
theorem keyed_append_other (h : Keyed fields (rowOf eventType events [])) {es : List SpineEvent}
    (hes : ∀ e ∈ es, e.type ≠ eventType) : Keyed fields (rowOf eventType (events ++ es) []) := by
  refine h.mono fun o p hp => ?_
  cases o with
  | planned i => cases hp
  | existing i =>
    obtain ⟨e, he, htype, rfl⟩ := rowOf_existing.1 hp
    rcases Nat.lt_or_ge i events.length with hi | hi
    · rw [List.getElem?_append_left hi] at he
      exact rowOf_existing.2 ⟨e, he, htype, rfl⟩
    · rw [List.getElem?_append_right hi] at he
      exact absurd htype (hes e (List.mem_of_getElem? he))

/-- So are the events of a shorter log. -/
theorem Keyed.of_starts {es : List SpineEvent} (h : Keyed fields (rowOf eventType es []))
    (hp : events <+: es) : Keyed fields (rowOf eventType events []) := by
  obtain ⟨rest, rfl⟩ := hp
  refine h.mono fun o p hp => ?_
  cases o with
  | planned i => cases hp
  | existing i =>
    obtain ⟨e, he, htype, rfl⟩ := rowOf_existing.1 hp
    refine rowOf_existing.2 ⟨e, ?_, htype, rfl⟩
    rw [List.getElem?_append_left (List.getElem?_eq_some_iff.1 he).1, he]

/-- A payload is stored at a place of the log. -/
def StoredAt (eventType : String) (validate : SpineEvent → Except String Unit)
    (log : List SpineEvent) (s : Fields) (i : ℕ) : Prop :=
  ∃ e, log[i]? = some e ∧ e.type = eventType ∧ (Json.obj e.payload).wf = true ∧
    canonicalJson (.obj e.payload) = canonicalJson (.obj s) ∧ validate (snapshotEvent e) = .ok ()

theorem StoredAt.of_starts {validate : SpineEvent → Except String Unit} {log log' : List SpineEvent}
    {s : Fields} {i : ℕ} (h : StoredAt eventType validate log s i) (hp : log <+: log') :
    StoredAt eventType validate log' s i := by
  obtain ⟨rest, rfl⟩ := hp
  obtain ⟨e, he, hrest⟩ := h
  refine ⟨e, ?_, hrest⟩
  rw [List.getElem?_append_left (List.getElem?_eq_some_iff.1 he).1, he]

/-- The payloads of a batch are stored, and the views show their events. -/
def BatchStored (eventType : String) (fields : List String) (payloads : List Dict)
    (validate : SpineEvent → Except String Unit) (log : List SpineEvent)
    (views : List (SpineEvent × Bool)) : Prop :=
  ∃ (snapshots : List Fields) (used : ℕ) (places : List ℕ) (es : List SpineEvent),
    (∀ tsMs, (SpineCall.appendUniqueMany eventType payloads fields tsMs validate).snapshots =
      .ok (snapshots, used)) ∧
    List.Forall₂ (StoredAt eventType validate log) snapshots places ∧
    List.Forall₂ (fun i e => log[i]? = some e) places es ∧
    used + (es.map fun e => (encodeEvent e).length).sum ≤ maxSpineAppendBatchBytes ∧
    (views.map fun v => (v.1, false)) = es.map fun e => (snapshotEvent e, false)

theorem BatchStored.of_starts {payloads : List Dict} {validate : SpineEvent → Except String Unit}
    {log log' : List SpineEvent} {views : List (SpineEvent × Bool)}
    (h : BatchStored eventType fields payloads validate log views) (hp : log <+: log') :
    BatchStored eventType fields payloads validate log' views := by
  obtain ⟨snapshots, used, places, es, hsnap, hst, hes, hrest⟩ := h
  refine ⟨snapshots, used, places, es, hsnap, hst.imp fun s i hi => hi.of_starts hp,
    hes.imp fun i e he => ?_, hrest⟩
  obtain ⟨rest, rfl⟩ := hp
  rw [List.getElem?_append_left (List.getElem?_eq_some_iff.1 he).1, he]

/-- **What a batch ensures**: the longer log is keyed, and has every payload of the
    batch at the place of its owner, which is what the batch returns. -/
theorem plans_eq_ok {payloads : List Dict} {tsMs : ℕ → ℤ}
    {validate : SpineEvent → Except String Unit} {bytes : Bytes}
    {prepared : List (SpineEvent × Bytes)} {views : List (SpineEvent × Bool)}
    (h : (SpineCall.appendUniqueMany eventType payloads fields tsMs validate).Plans H identity
      bytes events prepared views)
    (hnum : Numbered events) (hk : Keyed fields (rowOf eventType events [])) :
    Keyed fields (rowOf eventType (events ++ prepared.map Prod.fst) []) ∧
      ∃ (snapshots : List Fields) (used : ℕ) (places : List ℕ) (es : List SpineEvent),
        (SpineCall.appendUniqueMany eventType payloads fields tsMs validate).snapshots =
          .ok (snapshots, used) ∧ snapshots ≠ [] ∧
        List.Forall₂ (StoredAt eventType validate (events ++ prepared.map Prod.fst)) snapshots
          places ∧
        List.Forall₂ (fun i e => (events ++ prepared.map Prod.fst)[i]? = some e) places es ∧
        used + (es.map fun e => (encodeEvent e).length).sum ≤ maxSpineAppendBatchBytes ∧
        (views.map fun v => (v.1, false)) = es.map fun e => (snapshotEvent e, false) := by
  obtain ⟨snapshots, used, hne, hsnap, hplan⟩ := h
  obtain ⟨-, -, hfits, hused⟩ := snapshots_eq_ok hsnap
  simp only [SpineCall.plan, SpineCall.ownersAfresh, bind_eq_ok, pure_eq_ok, Prod.exists,
    Prod.mk.injEq] at hplan
  obtain ⟨plan, hfold, prep, total, hprep, vs, hviews, rfl, rfl⟩ := hplan
  obtain ⟨hok, -, rs, hrs, hall⟩ := (Plan.ok_start hnum hk).foldlM hfits hfold
  rw [List.nil_append] at hrs
  obtain ⟨hpay, hvalid, hge, htot⟩ := preparePlanned_eq_ok hprep
  have hpay : (prep.map Prod.fst).map SpineEvent.payload = plan.planned := by
    rw [List.map_map]
    refine hpay.trans (List.ext_getElem? fun i => ?_)
    rw [List.getElem?_map, List.getElem?_mapIdx, Option.map_map]
    exact Option.map_id'
  rw [hrs] at hviews
  obtain ⟨es, hes, hsum, rfl⟩ := (resultViews_eq_ok (htot hused)).1 hviews
  refine ⟨keyed_append hok.keyed hpay, snapshots, used, rs.map fun r => r.1.place events.length,
    es, hsnap, hne, ?_, ?_, by omega, ?_⟩
  · rw [List.forall₂_map_right_iff]
    refine hall.imp fun s r hr => ?_
    obtain ⟨p, hrow, hcanon, hv⟩ := hr
    have hwf := hok.keyed.wf _ p hrow
    obtain ⟨owner, created⟩ := r
    cases owner with
    | existing i =>
      obtain ⟨e, he, htype, rfl⟩ := rowOf_existing.1 hrow
      exact ⟨e, getElem?_place (o := .existing i) he, htype, hwf, hcanon, hv i e rfl he⟩
    | planned i =>
      have hrow : plan.planned[i]? = some p := hrow
      rw [← hpay, List.getElem?_map, List.getElem?_map, Option.map_map,
        Option.map_eq_some_iff] at hrow
      obtain ⟨q, hq, rfl⟩ := hrow
      obtain ⟨htype, hval⟩ := hvalid q (List.mem_of_getElem? hq)
      exact ⟨q.1, getElem?_place (o := .planned i) (by rw [ownerEvent, hq]; rfl), htype, hwf, hcanon,
        hval⟩
  · rw [List.forall₂_map_left_iff]
    exact hes.imp fun r e he => getElem?_place he
  · clear hviews hsum hall hrs hok
    induction hes with
    | nil => rfl
    | cons _ _ ih => rw [List.zipWith_cons_cons, List.map_cons, List.map_cons, ih]

end Append

/-! ## Conflicting and repeated batches -/

/-- A payload of the batch shares the value of a field with a different one, stored
    or earlier in the batch. -/
def Conflicts (eventType : String) (fields : List String) (events : List SpineEvent)
    (payloads : List Dict) : Prop :=
  ∃ (i : ℕ) (p : Dict), payloads[i]? = some p ∧ ∃ f ∈ fields,
    (∃ e ∈ events, e.type = eventType ∧ Json.get e.payload f = Json.get p.1 f ∧
      (Json.obj e.payload).norm ≠ (Json.obj p.1).norm) ∨
    ∃ (j : ℕ) (q : Dict), j < i ∧ payloads[j]? = some q ∧ Json.get q.1 f = Json.get p.1 f ∧
      (Json.obj q.1).norm ≠ (Json.obj p.1).norm

theorem getElem?_of_forall₂ {α β : Type} {R : α → β → Prop} {xs : List α} {ys : List β}
    (h : List.Forall₂ R xs ys) {i : ℕ} {x : α} (hx : xs[i]? = some x) :
    ∃ y, ys[i]? = some y ∧ R x y := by
  induction h generalizing i with
  | nil => cases hx
  | @cons a b xs ys hab _ ih =>
    cases i with
    | zero => exact ⟨b, rfl, Option.some_inj.1 hx ▸ hab⟩
    | succ i => exact ih hx

section Batch

variable {identity : H.SecretKey} {eventType : String} {fields : List String}
  {events : List SpineEvent} {payloads : List Dict} {tsMs : ℕ → ℤ}
  {validate : SpineEvent → Except String Unit} {snapshots : List Fields} {used : ℕ}

/-- A batch with a conflict is refused. -/
theorem plan_of_conflict (hnum : Numbered events) (hk : Keyed fields (rowOf eventType events []))
    (hsnap : (SpineCall.appendUniqueMany eventType payloads fields tsMs validate).snapshots =
      .ok (snapshots, used)) (hc : Conflicts eventType fields events payloads) (size : ℕ) :
    ∃ r, (SpineCall.appendUniqueMany eventType payloads fields tsMs validate).plan H identity events
      (indexEvents eventType fields [] events) size snapshots used = .error r := by
  obtain ⟨-, hpairs, hfits, -⟩ := snapshots_eq_ok hsnap
  cases hfold : snapshots.foldlM (Plan.next events fields validate)
      { owners := indexEvents eventType fields [] events } with
  | error r =>
    refine ⟨r, ?_⟩
    simp only [SpineCall.plan, hfold]
    rfl
  | ok plan =>
    exfalso
    obtain ⟨hok, hmono, rs, -, hall⟩ := (Plan.ok_start hnum hk).foldlM hfits hfold
    -- every payload of the batch is that of a row, up to the order of keys
    have hrow : ∀ (i : ℕ) (p : Dict), payloads[i]? = some p → ∃ o q,
        rowOf eventType events plan.planned o = some q ∧ (Json.obj q).norm = (Json.obj p.1).norm := by
      intro i p hp
      obtain ⟨s, hs, hsp⟩ := getElem?_of_forall₂ hpairs hp
      obtain ⟨r, -, q, hq, hcanon, -⟩ := getElem?_of_forall₂ hall hs
      have hfit := hfits s (List.mem_of_getElem? hs)
      obtain ⟨b, hb⟩ := Option.isSome_iff_exists.1 hfit.canonical
      refine ⟨r.1, q, hq, ?_⟩
      rw [canonicalJson_injective (hok.keyed.wf _ q hq) hfit.wf (hcanon.trans hb) hb,
        (canonicalJson_snapshot hsp).1]
    have hvalue : ∀ {q : Fields} {p : Dict} {o : Owner},
        rowOf eventType events plan.planned o = some q →
        (Json.obj q).norm = (Json.obj p.1).norm → ∀ f, uniqueValue q f = uniqueValue p.1 f := by
      intro q p o hq hn f
      exact uniqueValue_congr hn (hok.keyed.wf _ _ hq) p.2 f
    obtain ⟨i, p, hp, f, hf, ⟨e, he, htype, hget, hne⟩ | ⟨j, p', -, hp', hget, hne⟩⟩ := hc
    · obtain ⟨o, q, hq, hn⟩ := hrow i p hp
      obtain ⟨place, hplace⟩ := List.mem_iff_getElem?.1 he
      have hrowe : rowOf eventType events plan.planned (.existing place) = some e.payload :=
        rowOf_existing.2 ⟨e, hplace, htype, rfl⟩
      have hv : uniqueValue e.payload f = uniqueValue q f := by
        rw [hvalue hq hn f, uniqueValue, uniqueValue, hget]
      exact hne (hok.no_conflict hrowe hq hf hv ▸ hn)
    · obtain ⟨o, q, hq, hn⟩ := hrow i p hp
      obtain ⟨o', q', hq', hn'⟩ := hrow j p' hp'
      have hv : uniqueValue q' f = uniqueValue q f := by
        rw [hvalue hq hn f, hvalue hq' hn' f, uniqueValue, uniqueValue, hget]
      exact hne (hn'.symm.trans (hok.no_conflict hq' hq hf hv ▸ hn))

/-- A batch that is stored plans nothing, and returns what is stored. -/
theorem plan_of_stored (hnum : Numbered events) (hk : Keyed fields (rowOf eventType events []))
    (hsnap : (SpineCall.appendUniqueMany eventType payloads fields tsMs validate).snapshots =
      .ok (snapshots, used)) {places : List ℕ} {es : List SpineEvent}
    (hstored : List.Forall₂ (StoredAt eventType validate events) snapshots places)
    (hes : List.Forall₂ (fun i e => events[i]? = some e) places es)
    (hsum : used + (es.map fun e => (encodeEvent e).length).sum ≤ maxSpineAppendBatchBytes)
    (size : ℕ) :
    (SpineCall.appendUniqueMany eventType payloads fields tsMs validate).plan H identity events
      (indexEvents eventType fields [] events) size snapshots used =
        .ok ([], es.map fun e => (snapshotEvent e, false)) := by
  obtain ⟨hfields, -, hfits, hused⟩ := snapshots_eq_ok hsnap
  have hfold := (Plan.ok_start hnum hk).foldlM_stored hfields hfits hstored
  have hviews : resultViews events [] used (places.map fun i => (Owner.existing i, false)) =
      .ok (es.map fun e => (snapshotEvent e, false)) := by
    refine (resultViews_eq_ok hused).2 ⟨es, ?_, hsum, ?_⟩
    · rw [List.forall₂_map_left_iff]
      exact hes
    · clear hstored hsum hfold
      induction hes with
      | nil => rfl
      | cons _ _ ih => rw [List.map_cons, List.map_cons, List.zipWith_cons_cons, ih]
  simp only [SpineCall.plan, hfold, ok_bind, List.nil_append, List.mapIdx_nil, preparePlanned,
    hviews]
  rfl

end Batch

/-! ## Runs -/

/-- The type of the events that a call appends. -/
def SpineCall.eventType : SpineCall → String
  | .append eventType _ _ => eventType
  | .appendUniqueMany eventType _ _ _ _ => eventType

/-- The file is left to the log, and events of the type are appended under the
    fields only. -/
def SpineAct.Fixed (eventType : String) (fields : List String) : SpineAct H → Prop
  | .call _ (.append t _ _) .. => t ≠ eventType
  | .call _ (.appendUniqueMany t _ fs _ _) .. => t = eventType → fs = fields
  | .replace _ => False
  | _ => True

/-- The instance `i` makes the call, however it goes on. -/
def SpineAct.Calls (i : ℕ) (call : SpineCall) (a : SpineAct H) : Prop :=
  ∃ s s' fate n dies, a = .call i call s s' fate n dies

/-- No log and no instances. -/
def SpineWorld.empty (H : Host) : SpineWorld H := ⟨{}, [none], []⟩

/-- No two events of the type share the value of a field. -/
def UniqueEvents (eventType : String) (fields : List String) (events : List SpineEvent) : Prop :=
  ∀ f ∈ fields, ∀ (i j : ℕ) e e', events[i]? = some e → events[j]? = some e' →
    e.type = eventType → e'.type = eventType → Json.get e.payload f = Json.get e'.payload f → i = j

/-- Nothing is appended: the files are as they were, or as the recovery of an
    earlier append leaves them. -/
def Kept (H : Host) (did : String) (d d' : Disk) : Prop := d' = d ∨ d' = (recoverAfresh H did d).2

/-- Where no append waits for its recovery, the files are as they were. -/
theorem kept_iff {did : String} {d d' : Disk} (h : d.pending = none) : Kept H did d d' ↔ d' = d := by
  have hread : recoverPlan H did d = .ok none := by rw [recoverPlan, h]; rfl
  have hsame : (recoverAfresh H did d).2 = d := by rw [recoverAfresh, hread]
  rw [Kept, hsame, or_self]

section Runs

variable {eventType : String} {fields : List String}

theorem uniqueEvents_of_keyed {events : List SpineEvent}
    (h : Keyed fields (rowOf eventType events [])) : UniqueEvents eventType fields events := by
  intro f hf i j e e' he he' htype htype' hget
  have := h.unique (.existing i) (.existing j) e.payload e'.payload
    (rowOf_existing.2 ⟨e, he, htype, rfl⟩) (rowOf_existing.2 ⟨e', he', htype', rfl⟩) f hf
    (by rw [uniqueValue, uniqueValue, hget])
  exact Owner.existing.inj this

/-- The new events of a call have its type. -/
theorem type_of_plans {identity : H.SecretKey} {call : SpineCall} {bytes : Bytes}
    {events : List SpineEvent} {prepared : List (SpineEvent × Bytes)}
    {views : List (SpineEvent × Bool)} (h : call.Plans H identity bytes events prepared views) :
    ∀ p ∈ prepared, p.1.type = call.eventType := by
  obtain ⟨snapshots, used, -, -, hplan⟩ := h
  cases call with
  | append t payload ts =>
    simp only [SpineCall.plan, bind_eq_ok, expect_eq_ok, pure_eq_ok, Prod.exists,
      Prod.mk.injEq] at hplan
    obtain ⟨s, -, e, line, hp, rfl, -⟩ := hplan
    intro p hmem
    rw [List.mem_singleton.1 hmem]
    exact (prepareAppend_fields hp).1
  | appendUniqueMany t payloads fs ts validate =>
    simp only [SpineCall.plan, bind_eq_ok, pure_eq_ok, Prod.exists, Prod.mk.injEq] at hplan
    obtain ⟨plan, -, prep, total, hprep, _, -, rfl, -⟩ := hplan
    exact fun p hp => ((preparePlanned_eq_ok hprep).2.1 p hp).1

namespace SpineWorld

variable {w w' : SpineWorld H} {bytes : Bytes} {events : List SpineEvent} {a : SpineAct H}

theorem Grown.numbered (h : w.Grown bytes events) : Numbered events :=
  numbered_scanFrom h.holds.verifies (by intro i e he; cases he)

/-- One step keeps the log keyed. -/
theorem Grown.keyed_step (h : w.Grown bytes events)
    (hk : Keyed fields (rowOf eventType events [])) (ha : a.Fixed eventType fields)
    (hs : w.step H path a = some w') : ∃ new, w'.Grown (bytes ++ recordBytes new)
      (events ++ new.map Prod.fst) ∧
      Keyed fields (rowOf eventType (events ++ new.map Prod.fst) []) := by
  obtain ⟨new, hgrown, hnew⟩ := h.step hs (by rintro d rfl; exact ha)
  refine ⟨new, hgrown, ?_⟩
  rcases hnew with rfl | ⟨i, call, s, s', fate, n, dies, rfl, k, prepared, views, hplans, hpre⟩
  · simpa using hk
  · obtain ⟨rest, rfl⟩ := hpre
    have hprefix : events ++ new.map Prod.fst <+: events ++ (new ++ rest).map Prod.fst :=
      ⟨rest.map Prod.fst, by simp⟩
    by_cases htype : call.eventType = eventType
    · cases call with
      | append t payload ts => exact absurd htype ha
      | appendUniqueMany t payloads fs ts validate =>
        obtain rfl : t = eventType := htype
        obtain rfl : fs = fields := ha rfl
        exact (plans_eq_ok hplans h.numbered hk).1.of_starts hprefix
    · refine (keyed_append_other hk fun e he => ?_).of_starts hprefix
      obtain ⟨p, hp, rfl⟩ := List.mem_map.1 he
      rw [type_of_plans hplans p hp]
      exact htype

/-- Every run keeps the log keyed, and what was in it. -/
theorem Grown.keyed_reach (h : w.Grown bytes events)
    (hk : Keyed fields (rowOf eventType events []))
    (hr : Reach (SpineWorld.step H path) (fun _ a => a.Fixed eventType fields) w w') :
    ∃ bytes' events', w'.Grown bytes' events' ∧ Keyed fields (rowOf eventType events' []) ∧
      events <+: events' := by
  refine hr.invariant (P := fun w' => ∃ bytes' events', w'.Grown bytes' events' ∧
    Keyed fields (rowOf eventType events' []) ∧ events <+: events')
    ⟨bytes, events, h, hk, List.prefix_rfl⟩ ?_
  rintro w a w' ⟨bytes', events', hg, hk', hpre⟩ ha hs
  obtain ⟨new, hg', hk''⟩ := hg.keyed_step hk' ha hs
  exact ⟨_, _, hg', hk'', hpre.trans (List.prefix_append _ _)⟩

theorem grown_empty : (SpineWorld.empty H).Grown [] [] := by
  refine ⟨.idle rfl rfl rfl, ?_, List.mem_singleton.2 rfl, ?_⟩
  · intro m hm
    rw [List.mem_singleton.1 hm]
    exact List.prefix_rfl
  · intro node hnode
    cases hnode

theorem keyed_nil : Keyed fields (rowOf eventType [] []) := by
  have hnone : ∀ o p, rowOf eventType [] [] o ≠ some p := by
    intro o p hp
    cases o <;> cases hp
  exact ⟨fun o p hp => absurd hp (hnone o p), fun o p hp => absurd hp (hnone o p),
    fun o o' p p' hp => absurd hp (hnone o p)⟩

/-- The reply to a call is that of a verification from the genesis. -/
theorem Grown.reply_call (h : w.Grown bytes events) {i : ℕ} {call : SpineCall} {stat stat' : Stat}
    {fate : ℕ → Fate} {n : ℕ} {dies : Bool} {node : Node H} (hnode : w.nodes[i]? = some node) :
    w.reply H path (.call i call stat stat' fate n dies) =
      some (.appended (call.afresh H path node.key fate n w.disk).1,
        (call.afresh H path node.key fate n w.disk).2) := by
  obtain ⟨w', hs⟩ : ∃ w', w.step H path (.call i call stat stat' fate n dies) = some w' := by
    simp only [SpineWorld.step, hnode, Option.bind_eq_bind, Option.bind_some]
    exact ⟨_, rfl⟩
  obtain ⟨new, hg, -⟩ := h.step hs (by intro d hd; cases hd)
  rw [(h.cached.step hs (separate_of_starts hg.past)).2 (.inr (by intro i q s hq; cases hq)),
    SpineAct.afresh, List.getElem?_map, hnode]
  rfl

variable {payloads : List Dict} {tsMs : ℕ → ℤ} {validate : SpineEvent → Except String Unit}
  {fate : ℕ → Fate} {n : ℕ}

variable (tsMs validate fate n) in
/-- A call with a conflict raises and appends nothing. -/
theorem Grown.conflict (h : w.Grown bytes events) (hk : Keyed fields (rowOf eventType events []))
    {k : H.SecretKey} {log : List SpineEvent}
    (hread : (readAfresh H path "be appended" (asDid H k) w.disk).1 = .ok log)
    (hc : Conflicts eventType fields log payloads) :
    ∃ r, ((SpineCall.appendUniqueMany eventType payloads fields tsMs validate).afresh H path k fate n
        w.disk).1 = .error r ∧
      Kept H (asDid H k) w.disk
        ((SpineCall.appendUniqueMany eventType payloads fields tsMs validate).afresh H path k fate n
          w.disk).2 := by
  have hr : (recoverAfresh H (asDid H k) w.disk).1 = .ok () := by
    simp only [readAfresh] at hread
    cases hr : (recoverAfresh H (asDid H k) w.disk).1 with
    | error r =>
      rw [hr] at hread
      cases hread
    | ok u => rfl
  obtain ⟨hlog, -, -⟩ := readAfresh_of_ok h.holds hr path "be appended"
  obtain rfl := Except.ok.inj (hlog.symm.trans hread)
  cases hsnap : (SpineCall.appendUniqueMany eventType payloads fields tsMs validate).snapshots with
  | error r =>
    simp only [SpineCall.afresh, hsnap]
    exact ⟨r, rfl, .inl rfl⟩
  | ok p =>
    obtain ⟨snapshots, used⟩ := p
    cases snapshots with
    | nil =>
      obtain ⟨-, hpairs, -⟩ := snapshots_eq_ok hsnap
      obtain ⟨i, p, hp, -⟩ := hc
      cases hpairs
      cases hp
    | cons s ss =>
      obtain ⟨r, hplan⟩ : ∃ r, (SpineCall.appendUniqueMany eventType payloads fields tsMs
          validate).plan H k events ((SpineCall.appendUniqueMany eventType payloads fields tsMs
            validate).ownersAfresh events) bytes.length (s :: ss) used = .error r :=
        plan_of_conflict h.numbered hk hsnap hc bytes.length
      rw [SpineCall.afresh_of_ok h.holds hsnap hr, hplan]
      exact ⟨r, rfl, .inr rfl⟩

/-- After a call that returned, the log has its payloads. -/
theorem Grown.stored (h : w.Grown bytes events) (hk : Keyed fields (rowOf eventType events []))
    {i : ℕ} {stat stat' : Stat} {dies : Bool} {node : Node H} (hnode : w.nodes[i]? = some node)
    (hs : w.step H path (.call i (.appendUniqueMany eventType payloads fields tsMs validate) stat
      stat' fate n dies) = some w')
    {views : List (SpineEvent × Bool)} {d : Disk}
    (hv : w.reply H path (.call i (.appendUniqueMany eventType payloads fields tsMs validate) stat
      stat' fate n dies) = some (.appended (.ok views), d)) :
    ∃ bytes' events', w'.Grown bytes' events' ∧ Keyed fields (rowOf eventType events' []) ∧
      BatchStored eventType fields payloads validate events' views := by
  rw [h.reply_call hnode, Option.some_inj, Prod.mk.injEq, Reply.appended.injEq] at hv
  obtain ⟨-, hdone⟩ := SpineCall.holds_afresh h.holds
    (.appendUniqueMany eventType payloads fields tsMs validate) node.key path fate n
  obtain ⟨hnil, rfl⟩ | ⟨prepared, hplans, hholds⟩ := hdone views hv.1
  · obtain ⟨new, hg, hk'⟩ := h.keyed_step hk
      (a := .call i (.appendUniqueMany eventType payloads fields tsMs validate) stat stat' fate n
        dies) (fun _ => rfl) hs
    refine ⟨_, _, hg, hk', ?_⟩
    cases hsnap : (SpineCall.appendUniqueMany eventType payloads fields tsMs validate).snapshots with
    | error r =>
      rw [hsnap] at hnil
      cases hnil
    | ok p =>
      obtain ⟨snapshots, used⟩ := p
      rw [hsnap] at hnil
      obtain rfl : snapshots = [] := Except.ok.inj hnil
      exact ⟨[], used, [], [], fun _ => hsnap, .nil, .nil, (snapshots_eq_ok hsnap).2.2.2, rfl⟩
  · obtain ⟨hk', snapshots, used, places, es, hsnap, -, hst, hes, hsum, hviews⟩ :=
      plans_eq_ok hplans h.numbered hk
    exact ⟨_, _, h.step_call hnode hs hholds (List.prefix_append _ _), hk', snapshots, used, places,
      es, fun _ => hsnap, hst, hes, hsum, hviews⟩

/-- A batch that is stored is found. -/
theorem Grown.again (h : w.Grown bytes events) (hk : Keyed fields (rowOf eventType events []))
    {views : List (SpineEvent × Bool)}
    (hb : BatchStored eventType fields payloads validate events views) {k : H.SecretKey}
    (hr : (recoverAfresh H (asDid H k) w.disk).1 = .ok ()) :
    ((SpineCall.appendUniqueMany eventType payloads fields tsMs validate).afresh H path k fate n
        w.disk).1 = .ok (views.map fun v => (v.1, false)) ∧
      Kept H (asDid H k) w.disk
        ((SpineCall.appendUniqueMany eventType payloads fields tsMs validate).afresh H path k fate n
          w.disk).2 := by
  obtain ⟨snapshots, used, places, es, hsnap, hst, hes, hsum, hviews⟩ := hb
  cases snapshots with
  | nil =>
    cases hst
    cases hes
    simp only [SpineCall.afresh, hsnap tsMs]
    exact ⟨by rw [hviews]; rfl, .inl rfl⟩
  | cons s ss =>
    have hplan : (SpineCall.appendUniqueMany eventType payloads fields tsMs validate).plan H k
        events ((SpineCall.appendUniqueMany eventType payloads fields tsMs validate).ownersAfresh
          events) bytes.length (s :: ss) used = .ok ([], es.map fun e => (snapshotEvent e, false)) :=
      plan_of_stored h.numbered hk (hsnap tsMs) hst hes hsum bytes.length
    rw [SpineCall.afresh_of_ok h.holds (hsnap tsMs) hr, hplan, hviews]
    exact ⟨rfl, .inr rfl⟩

end SpineWorld

/-- **Semantic uniqueness.**  In every run in which any instances of a log make any
    calls, with every cut of their writes, and events of the type are appended
    under the fields only: no two events of the type share the value of a field;
    a batch with a payload that conflicts with one that is stored or is earlier in
    the batch raises and appends nothing; and after a batch has returned, the same
    payloads return the stored events and append nothing, in every later state
    whose recovery succeeds. -/
theorem append_unique {w : SpineWorld H}
    (h : Reach (SpineWorld.step H path) (fun _ a => a.Fixed eventType fields) (.empty H) w) :
    (∀ events, verifiedEvents H none w.disk.main = .ok events →
      UniqueEvents eventType fields events) ∧
    ∀ i payloads tsMs validate a node,
      a.Calls i (.appendUniqueMany eventType payloads fields tsMs validate) →
      w.nodes[i]? = some node →
      (∀ events, (readAfresh H path "be appended" (asDid H node.key) w.disk).1 = .ok events →
        Conflicts eventType fields events payloads →
        ∃ r d, w.reply H path a = some (.appended (.error r), d) ∧
          Kept H (asDid H node.key) w.disk d) ∧
      ∀ views d w₁ w₂, w.reply H path a = some (.appended (.ok views), d) →
        w.step H path a = some w₁ →
        Reach (SpineWorld.step H path) (fun _ a => a.Fixed eventType fields) w₁ w₂ →
        ∀ i' tsMs' b node',
          b.Calls i' (.appendUniqueMany eventType payloads fields tsMs' validate) →
          w₂.nodes[i']? = some node' →
          (recoverAfresh H (asDid H node'.key) w₂.disk).1 = .ok () →
          ∃ d', w₂.reply H path b = some (.appended (.ok (views.map fun v => (v.1, false))), d') ∧
            Kept H (asDid H node'.key) w₂.disk d' := by
  obtain ⟨bytes, events, hg, hk, -⟩ := SpineWorld.grown_empty.keyed_reach
    (SpineWorld.keyed_nil : Keyed fields (rowOf eventType [] [])) h
  refine ⟨fun es hes => uniqueEvents_of_keyed (hk.of_starts (hg.holds.events_starts hes)), ?_⟩
  rintro i payloads tsMs validate a node ⟨s, s', fate, n, dies, rfl⟩ hnode
  refine ⟨fun log hread hc => ?_, fun views d w₁ w₂ hv hs hr => ?_⟩
  · obtain ⟨r, hres, hkept⟩ := hg.conflict tsMs validate fate n hk hread hc
    exact ⟨r, _, by rw [hg.reply_call hnode, hres], hkept⟩
  · obtain ⟨bytes₁, events₁, hg₁, hk₁, hst⟩ := hg.stored hk hnode hs hv
    obtain ⟨bytes₂, events₂, hg₂, hk₂, hpre⟩ := hg₁.keyed_reach hk₁ hr
    rintro i' tsMs' b node' ⟨t, t', fate', n', dies', rfl⟩ hnode' hrec
    obtain ⟨hres, hkept⟩ := hg₂.again hk₂ (hst.of_starts hpre) hrec
    exact ⟨_, by rw [hg₂.reply_call hnode', hres], hkept⟩

end Runs

/-- A batch of one note. -/
def noteBatch (ts : ℤ) : SpineAct checksumHost :=
  .call 0 (.appendUniqueMany "note" [⟨[("id", .str "x")], by decide⟩] ["id"] (fun _ => ts)
    fun _ => .ok ()) {} {} (fun _ => ⟨7, true⟩) 4 false

/-- One node appends the batch. -/
def noteRun : PLift (((SpineWorld.empty checksumHost).step checksumHost "log"
    (.openLog (1 : UInt8) {})).bind (fun w => (w.step checksumHost "log" (noteBatch 5)).map
      fun w₁ => (w₁.disk.pending.isNone, w.nodes.length, w₁.nodes.length,
        match w.reply checksumHost "log" (noteBatch 5) with
        | some (.appended (.ok views), _) => views.length
        | _ => 0)) = some (true, 1, 1, 1)) := ⟨by decide +kernel⟩

/-- A note is appended, and a second call finds it. -/
theorem append_unique_note : ∃ (w w₁ : SpineWorld checksumHost) (views : List (SpineEvent × Bool))
    (d d' : Disk), w.reply checksumHost "log" (noteBatch 5) = some (.appended (.ok views), d) ∧
      views.length = 1 ∧ w.step checksumHost "log" (noteBatch 5) = some w₁ ∧
      w₁.reply checksumHost "log" (noteBatch 6) =
        some (.appended (.ok (views.map fun v => (v.1, false))), d') := by
  have hrun := noteRun.down
  obtain ⟨w, hw, h⟩ := Option.bind_eq_some_iff.1 hrun
  obtain ⟨w₁, hs, h⟩ := Option.map_eq_some_iff.1 h
  simp only [Prod.mk.injEq, Option.isNone_iff_eq_none] at h
  obtain ⟨hpend, hlen, hlen₁, hviews⟩ := h
  have hreach : Reach (SpineWorld.step checksumHost "log") (fun _ a => a.Fixed "note" ["id"])
      (.empty checksumHost) w := by
    refine Reach.start.step (a := .openLog (1 : UInt8) {}) ?_ hw
    trivial
  obtain ⟨node, hnode⟩ : ∃ node, w.nodes[0]? = some node :=
    ⟨_, List.getElem?_eq_getElem (by omega)⟩
  obtain ⟨node₁, hnode₁⟩ : ∃ node, w₁.nodes[0]? = some node :=
    ⟨_, List.getElem?_eq_getElem (by omega)⟩
  have hrec : (recoverAfresh checksumHost (asDid checksumHost node₁.key) w₁.disk).1 = .ok () := by
    rw [recoverAfresh, recoverPlan, hpend]
    rfl
  split at hviews
  · rename_i views d hreply
    obtain ⟨d', hagain, -⟩ := ((append_unique hreach).2 0 _ _ _ (noteBatch 5) node
      ⟨_, _, _, _, _, rfl⟩ hnode).2 views d w₁ w₁ hreply hs .start 0 _ (noteBatch 6) node₁
      ⟨_, _, _, _, _, rfl⟩ hnode₁ hrec
    exact ⟨w, w₁, views, d, d', hreply, hviews, hs, hagain⟩
  · cases hviews

end NthDao
