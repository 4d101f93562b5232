/-
  Timelines of execution receipts (`nth_dao/execution_receipt.py`).

  A receipt is a list of typed entries; what is hashed and signed is the canonical text of
  each, joined by newlines.

  * `TimelineEntry`: an entry with what its constructor checks;
  * `entryOf`: the entry that a verifier makes of a value, by `int`, `str` and `dict`;
  * `joined`: the bytes that are hashed;
  * `joined_injective`: they determine the entries, up to the order of keys;
  * `norm_eq_toDict_iff`: a value is the entry that is made of it iff it is a plain one.

  `int()` of a text or a `float` is a parameter.
-/
import NthDao.CapToken
import NthDao.CanonicalJson
import NthDao.Identity
import NthDao.Membership.Signed
import NthDao.Py.Ascii
import NthDao.Py.Each
import NthDao.Py.Norm
import NthDao.Py.Str

namespace NthDao

open Py

namespace Receipts

variable (H : Host) (intText : String → Except String (Option ℤ))

/-! ## Entries -/

/-- `TimelineEntry`. -/
structure TimelineEntry where
  timestamp : ℤ
  type : String
  payload : Fields
  timestamp_nonneg : 0 ≤ timestamp
  type_ne_empty : type ≠ ""

namespace TimelineEntry

def toDict (e : TimelineEntry) : Json :=
  .obj [("timestamp", .int e.timestamp), ("type", .str e.type), ("payload", .obj e.payload)]

end TimelineEntry

/-- How a verifier does not accept: it returns `False`, or an exception leaves it. -/
inductive Outcome where
  | rejected
  | raised
  deriving DecidableEq

/-- `TimelineEntry(...)`, with its checks. -/
def mkEntry (timestamp : ℤ) (type : String) (payload : Fields) : Except Outcome TimelineEntry :=
  if ht : 0 ≤ timestamp then
    if hs : type ≠ "" then .ok ⟨timestamp, type, payload, ht, hs⟩ else .error .rejected
  else .error .rejected

/-- `int(v)`; only a `TypeError` and a `ValueError` are caught. -/
def timestampOf (v : Json) : Except Outcome ℤ :=
  match CapToken.intOf intText v with
  | .ok (some n) => .ok n
  | .ok none => .error .rejected
  | .error _ => .error .raised

/-- `dict(v)` is a `dict`; its keys can be any values that have a hash. -/
def hasPairs (v : Json) : Bool :=
  (Membership.listOf v).any fun xs => xs.all fun x =>
    match Membership.listOf x with
    | some [k, _] => !CapToken.unhashable k
    | _ => false

/-- `dict(v)`, `none` where it raises; the members are `none` where a key is no text. -/
def payloadOf (v : Json) : Option (Option Fields) :=
  match Membership.dictValue v with
  | some p => some (some p)
  | none => if hasPairs v then some none else none

/-- The entry that is made of an element of the timeline. It is `none` where a key of the
    payload is no text: there is an entry, which has no canonical text. -/
def entryOf : Json → Except Outcome (Option TimelineEntry)
  | .obj e => do
    let timestamp ← timestampOf intText (← expect (Json.lookup e "timestamp") .rejected)
    let type ← expect (Json.lookup e "type") .rejected
    match ← expect (payloadOf (Json.getD e "payload" (.obj []))) .rejected with
    | some payload => (mkEntry timestamp (toStr H.isprintable type) payload).map some
    | none => (mkEntry timestamp (toStr H.isprintable type) []).map fun _ => none
  -- `e["timestamp"]` of a value that is no `dict` is a `TypeError`
  | _ => .error .rejected

/-- The bytes that are hashed, `none` where they cannot be made. -/
def joined (es : List TimelineEntry) : Option Bytes :=
  if es = [] then none
  else (es.mapM fun e => canonicalJson e.toDict).map ([10] : Bytes).intercalate

/-! ## The bytes determine the entries -/

/-- Canonical text is one line. -/
theorem nl_not_mem_canonicalJson {v : Json} {b : Bytes} (h : canonicalJson v = some b) :
    10 ∉ b := by
  obtain ⟨he, rfl⟩ := canonicalJson_eq_some h
  rw [← Json.encodable_norm] at he
  exact fun hm => absurd (le_of_mem_utf8_of_le (le_of_mem_dumps _ he) hm) (by decide)

/-- Lines that are joined are told apart. -/
theorem intercalate_injective {xs ys : List Bytes} (hx : ∀ l ∈ xs, 10 ∉ l) (hy : ∀ l ∈ ys, 10 ∉ l)
    (hxn : xs ≠ []) (hyn : ys ≠ []) (h : ([10] : Bytes).intercalate xs = [10].intercalate ys) :
    xs = ys := by
  rw [← List.splitOn_intercalate 10 hx hxn, h, List.splitOn_intercalate 10 hy hyn]

theorem nl_not_mem_of_mapM {vs : List Json} {bs : List Bytes}
    (h : vs.mapM canonicalJson = some bs) : (∀ b ∈ bs, 10 ∉ b) ∧ bs.length = vs.length := by
  induction vs generalizing bs with
  | nil => cases h; exact ⟨fun b hb => absurd hb List.not_mem_nil, rfl⟩
  | cons v vs ih =>
    simp only [List.mapM_cons, Option.bind_eq_bind, Option.bind_eq_some_iff, Option.pure_def,
      Option.some.injEq] at h
    obtain ⟨b, hb, bs, hbs, rfl⟩ := h
    obtain ⟨hmem, hlen⟩ := ih hbs
    exact ⟨List.forall_mem_cons.2 ⟨nl_not_mem_canonicalJson hb, hmem⟩, by
      rw [List.length_cons, hlen, List.length_cons]⟩

/-- Canonical texts that are joined are told apart. -/
theorem mapM_canonicalJson_injective {vs ws : List Json} (hv : ∀ v ∈ vs, v.wf = true)
    (hw : ∀ w ∈ ws, w.wf = true) {bs : List Bytes} (h : vs.mapM canonicalJson = some bs)
    (h' : ws.mapM canonicalJson = some bs) : vs.map Json.norm = ws.map Json.norm := by
  induction vs generalizing ws bs with
  | nil =>
    cases ws with
    | nil => rfl
    | cons w ws =>
      have hbs : bs = [] := by simpa using h.symm
      exact absurd (nl_not_mem_of_mapM h').2 (by simp [hbs])
  | cons v vs ih =>
    simp only [List.mapM_cons, Option.bind_eq_bind, Option.bind_eq_some_iff, Option.pure_def,
      Option.some.injEq] at h
    obtain ⟨b, hb, bs, hbs, rfl⟩ := h
    cases ws with
    | nil => cases h'
    | cons w ws =>
      simp only [List.mapM_cons, Option.bind_eq_bind, Option.bind_eq_some_iff, Option.pure_def,
        Option.some.injEq, List.cons.injEq] at h'
      obtain ⟨b', hb', bs', hbs', rfl, rfl⟩ := h'
      rw [List.forall_mem_cons] at hv hw
      rw [List.map_cons, List.map_cons, canonicalJson_injective hv.1 hw.1 hb hb',
        ih hv.2 hw.2 hbs hbs']

theorem joined_eq_some {es : List TimelineEntry} {b : Bytes} :
    joined es = some b ↔ es ≠ [] ∧ ∃ bs,
      (es.map TimelineEntry.toDict).mapM canonicalJson = some bs ∧ [10].intercalate bs = b := by
  rw [joined]
  split_ifs with h
  · simp [h]
  · rw [Option.map_eq_some_iff, List.mapM_map]
    exact ⟨fun hb => ⟨h, hb⟩, fun hb => hb.2⟩

/-- **The bytes that are hashed determine the entries**, up to the order of keys. -/
theorem joined_injective {es es' : List TimelineEntry} (he : ∀ e ∈ es, e.toDict.wf = true)
    (he' : ∀ e ∈ es', e.toDict.wf = true) {b : Bytes} (h : joined es = some b)
    (h' : joined es' = some b) :
    es.map (fun e => e.toDict.norm) = es'.map fun e => e.toDict.norm := by
  obtain ⟨hne, bs, hbs, rfl⟩ := joined_eq_some.1 h
  obtain ⟨hne', bs', hbs', heq⟩ := joined_eq_some.1 h'
  obtain ⟨hnl, hlen⟩ := nl_not_mem_of_mapM hbs
  obtain ⟨hnl', hlen'⟩ := nl_not_mem_of_mapM hbs'
  have hne : bs ≠ [] := by
    rintro rfl
    rw [List.length_map] at hlen
    exact hne (List.length_eq_zero_iff.1 hlen.symm)
  have hne' : bs' ≠ [] := by
    rintro rfl
    rw [List.length_map] at hlen'
    exact hne' (List.length_eq_zero_iff.1 hlen'.symm)
  have hsame : bs' = bs := intercalate_injective hnl' hnl hne' hne heq
  have := mapM_canonicalJson_injective (List.forall_mem_map.2 he) (List.forall_mem_map.2 he') hbs
    (hsame ▸ hbs')
  rwa [List.map_map, List.map_map] at this

/-! ## Plain values -/

/-- A value that is an entry: these three members, of these types, and no other. -/
def Plain (v : Json) : Prop := ∃ n s p, v.norm =
  (Json.obj [("timestamp", .int n), ("type", .str s), ("payload", .obj p)]).norm

variable {H intText} {v : Json} {e : TimelineEntry}

theorem payloadOf_eq_some {w : Json} {p : Fields} :
    payloadOf w = some (some p) ↔ Membership.dictValue w = some p := by
  unfold payloadOf
  cases Membership.dictValue w with
  | some q => simp
  | none => cases hasPairs w <;> simp

theorem mkEntry_eq_ok {n : ℤ} {s : String} {p : Fields} : mkEntry n s p = .ok e ↔
    n = e.timestamp ∧ s = e.type ∧ p = e.payload := by
  constructor
  · intro h
    unfold mkEntry at h
    split_ifs at h
    cases h
    exact ⟨rfl, rfl, rfl⟩
  · rintro ⟨rfl, rfl, rfl⟩
    rw [mkEntry, dif_pos e.timestamp_nonneg, dif_pos e.type_ne_empty]

theorem entryOf_eq_ok {kvs : Fields} : entryOf H intText (.obj kvs) = .ok (some e) ↔
    ∃ t w, Json.lookup kvs "timestamp" = some t ∧ timestampOf intText t = .ok e.timestamp ∧
      Json.lookup kvs "type" = some w ∧ toStr H.isprintable w = e.type ∧
      Membership.dictValue (Json.getD kvs "payload" (.obj [])) = some e.payload := by
  simp only [entryOf, bind_eq_ok, expect_eq_ok]
  constructor
  · rintro ⟨t, ht, n, hn, w, hw, p, hp, h⟩
    cases p with
    | none =>
      obtain ⟨_, -, h⟩ := map_eq_ok.1 h
      cases h
    | some p =>
      obtain ⟨e', h, he⟩ := map_eq_ok.1 h
      cases he
      obtain ⟨rfl, hs, rfl⟩ := mkEntry_eq_ok.1 h
      exact ⟨t, w, ht, hn, hw, hs, payloadOf_eq_some.1 hp⟩
  · rintro ⟨t, w, ht, hn, hw, hs, hp⟩
    refine ⟨t, ht, e.timestamp, hn, w, hw, some e.payload, payloadOf_eq_some.2 hp, ?_⟩
    exact map_eq_ok.2 ⟨e, mkEntry_eq_ok.2 ⟨rfl, hs, rfl⟩, rfl⟩

theorem norm_eq_int {n : ℤ} (h : v.norm = .int n) : v = .int n := by
  cases v <;> simp [Json.norm] at h ⊢
  exact h

theorem norm_eq_str {s : String} (h : v.norm = .str s) : v = .str s := by
  cases v <;> simp [Json.norm] at h ⊢
  exact h

theorem norm_eq_obj {kvs : Fields} (h : v.norm = (Json.obj kvs).norm) : ∃ fields, v = .obj fields := by
  rw [Json.norm_obj] at h
  cases v with
  | obj fields => exact ⟨fields, rfl⟩
  | _ => simp [Json.norm] at h

/-- The members of a plain value. -/
theorem Plain.members {kvs : Fields} (hv : (Json.obj kvs).wf = true) {n : ℤ} {s : String}
    {p : Fields} (h : (Json.obj kvs).norm =
      (Json.obj [("timestamp", .int n), ("type", .str s), ("payload", .obj p)]).norm) :
    Json.lookup kvs "timestamp" = some (.int n) ∧ Json.lookup kvs "type" = some (.str s) ∧
      ∃ q, Json.lookup kvs "payload" = some (.obj q) ∧ (Json.obj q).norm = (Json.obj p).norm := by
  have hnodup := (Json.wf_obj.1 hv).1
  have hread : ∀ k, (Json.lookup kvs k).map Json.norm =
      (Json.lookup [("timestamp", .int n), ("type", .str s), ("payload", .obj p)] k).map
        Json.norm := by
    intro k
    rw [← Json.lookup_norm hnodup, h, Json.lookup_norm (by simp)]
  have hmember : ∀ k w, Json.lookup [("timestamp", .int n), ("type", .str s), ("payload", .obj p)] k =
      some w → ∃ v, Json.lookup kvs k = some v ∧ v.norm = w.norm := by
    intro k w hk
    have := hread k
    rw [hk] at this
    exact Option.map_eq_some_iff.1 this
  obtain ⟨t, ht, htn⟩ := hmember "timestamp" (.int n) (by simp [Json.lookup_cons])
  obtain ⟨w, hw, hwn⟩ := hmember "type" (.str s) (by simp [Json.lookup_cons])
  obtain ⟨x, hx, hxn⟩ := hmember "payload" (.obj p) (by simp [Json.lookup_cons])
  obtain ⟨q, rfl⟩ := norm_eq_obj hxn
  exact ⟨by rw [ht, norm_eq_int htn], by rw [hw, norm_eq_str hwn], q, hx, hxn⟩

/-- **A value is the entry that is made of it** iff it is a plain one. -/
theorem norm_eq_toDict_iff (hv : v.wf = true) (h : entryOf H intText v = .ok (some e)) :
    v.norm = e.toDict.norm ↔ Plain v := by
  constructor
  · exact fun hn => ⟨e.timestamp, e.type, e.payload, hn⟩
  · rintro ⟨n, s, p, hn⟩
    obtain ⟨kvs, rfl⟩ := norm_eq_obj hn
    obtain ⟨t, w, ht, htime, hw, hs, hp⟩ := entryOf_eq_ok.1 h
    obtain ⟨ht', hw', q, hq, hqn⟩ := Plain.members hv hn
    cases ht.symm.trans ht'
    cases hw.symm.trans hw'
    have htime : n = e.timestamp := Except.ok.inj htime
    have hs : s = e.type := hs
    have hp : q = e.payload := by
      rw [Json.getD, hq] at hp
      exact Option.some.inj hp
    subst htime hs hp
    rw [hn, TimelineEntry.toDict, Json.norm_obj, Json.norm_obj]
    simp only [List.map_cons, List.map_nil, hqn]

/-- Entry by entry, the elements of a timeline are what is made of them iff they are plain. -/
theorem map_norm_eq_toDict_iff {xs : List Json} {es : List TimelineEntry}
    (hx : ∀ x ∈ xs, x.wf = true)
    (h : List.Forall₂ (fun x e => entryOf H intText x = .ok (some e)) xs es) :
    xs.map Json.norm = es.map (fun e => e.toDict.norm) ↔ ∀ x ∈ xs, Plain x := by
  induction h with
  | nil => simp
  | @cons x e xs es hxe _ ih =>
    rw [List.forall_mem_cons] at hx
    rw [List.map_cons, List.map_cons, List.cons.injEq, List.forall_mem_cons,
      norm_eq_toDict_iff hx.1 hxe, ih hx.2]

/-- What is made of an entry is the entry. -/
theorem entryOf_toDict (e : TimelineEntry) : entryOf H intText e.toDict = .ok (some e) := by
  rw [TimelineEntry.toDict, entryOf_eq_ok]
  refine ⟨.int e.timestamp, .str e.type, ?_, rfl, ?_, rfl, ?_⟩
  · simp [Json.lookup_cons]
  · simp [Json.lookup_cons]
  · simp [Json.getD, Json.lookup_cons, Membership.dictValue]

theorem wf_toDict (hv : v.wf = true) (h : entryOf H intText v = .ok (some e)) :
    e.toDict.wf = true := by
  cases v with
  | obj kvs =>
    obtain ⟨t, w, -, -, -, -, hp⟩ := entryOf_eq_ok.1 h
    have hpayload := Membership.wf_dictValue (Membership.wf_getD hv "payload" rfl) hp
    rw [TimelineEntry.toDict, Json.wf_obj]
    refine ⟨by simp, ?_⟩
    simp only [List.forall_mem_cons, List.not_mem_nil, IsEmpty.forall_iff, implies_true, and_true]
    exact ⟨rfl, rfl, hpayload⟩
  | _ => cases h

end Receipts

end NthDao
