/-
  What an accepted receipt shows of what was signed.

  * `verifyReceipt_congr`: what a receipt is accepted for;
  * `timeline_kept_iff`: the timeline of an accepted receipt is the one that was signed iff
    its entries are plain;
  * `accepted_as_signed`: this, and that no exception leaves the verifiers of a readable
    value, for all values;
  * `receipt_altered`: a timestamp that is a text, and a member that nobody signed.
-/
import NthDao.Receipts.Readable
import NthDao.Py.Parsed

namespace NthDao

open Py

namespace Receipts

variable {H : Host} {R : Runtime} {e e' : String} {d d' : Fields}

/-! ## What is looked at -/

theorem getD_congr {k : String} (h : Json.lookup d k = Json.lookup d' k) (w : Json) :
    Json.getD d k w = Json.getD d' k w := by
  rw [Json.getD, Json.getD, h]

theorem get_congr {k : String} (h : Json.lookup d k = Json.lookup d' k) :
    Json.get d k = Json.get d' k := by
  rw [Json.get, Json.get, h]

/-- What is looked at in the envelope, beside the timeline. -/
def looked : List String :=
  ["content_hash", "sig", "signer_did", "signer_pubkey_hex", "authorizing_cap_token", "issued_at",
    "goal_id"]

/-- A receipt is accepted for the entries of its timeline, and for no other member than
    those that are looked at. -/
theorem verifyReceipt_congr (ht : timelineOf H R d = timelineOf H R d')
    (h : ∀ k ∈ looked, Json.lookup d k = Json.lookup d' k) :
    verifyReceipt H R e (.obj d) = verifyReceipt H R e (.obj d') := by
  simp only [looked, List.forall_mem_cons, List.not_mem_nil, IsEmpty.forall_iff, implies_true,
    and_true] at h
  obtain ⟨hash, sig, did, key, token, issued, goal⟩ := h
  have hcore : verifyCore H R e d = verifyCore H R e d' := by
    simp only [verifyCore, signerKey, envelopeKey, signedBy, sigOf, ht, getD_congr hash,
      getD_congr sig, getD_congr did, getD_congr key]
  have hchain : verifyCapTokenChain H R d = verifyCapTokenChain H R d' := by
    funext t pk
    simp only [verifyCapTokenChain, issuedMs, textOr, getD_congr issued, getD_congr goal]
  simp only [verifyReceipt, hcore, hchain, get_congr token]

/-! ## Timelines -/

/-- The entries of the timeline are plain. -/
def PlainTimeline (d : Fields) : Prop := ∀ xs, Json.get d "timeline" = .arr xs → ∀ x ∈ xs, Plain x

/-- The bytes that are hashed. -/
def hashed (H : Host) (R : Runtime) (d : Fields) : Option Bytes :=
  ((timelineOf H R d).toOption).bind joined

theorem signed_of_accepted (h : verifyReceipt H R e (.obj d) = .ok ()) :
    ∃ es pk, Signed H R e d es pk := by
  obtain ⟨pk, hpk, -⟩ := bind_eq_ok.1 h
  obtain ⟨es, hes⟩ := verifyCore_eq_ok.1 hpk
  exact ⟨es, pk, hes⟩

theorem Signed.hashed {es : List TimelineEntry} {pk : Bytes} (h : Signed H R e d es pk) :
    ∃ bytes, hashed H R d = some bytes ∧ joined es = some bytes ∧
      Json.getD d "content_hash" (.str "") = .str (H.sha256 bytes) := by
  obtain ⟨bytes, hb, hs⟩ := h.bytes
  rw [signedBy, Bool.and_eq_true, Json.eqStr_iff] at hs
  refine ⟨bytes, ?_, hb, hs.1⟩
  rw [Receipts.hashed, h.timeline]
  exact hb

/-- A receipt with the timeline of the entries that are made. -/
def rebuilt (d : Fields) (es : List TimelineEntry) : Fields :=
  Json.insert d "timeline" (.arr (es.map TimelineEntry.toDict))

theorem lookup_rebuilt (d : Fields) (es : List TimelineEntry) {k : String} (hk : k ≠ "timeline") :
    Json.lookup (rebuilt d es) k = Json.lookup d k := by
  rw [rebuilt, Json.lookup_insert, if_neg (Ne.symm hk)]

theorem get_rebuilt (d : Fields) (es : List TimelineEntry) :
    Json.get (rebuilt d es) "timeline" = .arr (es.map TimelineEntry.toDict) := by
  rw [Json.get, rebuilt, Json.lookup_insert, if_pos rfl]
  rfl

theorem plain_toDict (t : TimelineEntry) : Plain t.toDict := ⟨t.timestamp, t.type, t.payload, rfl⟩

theorem plainTimeline_rebuilt (d : Fields) (es : List TimelineEntry) :
    PlainTimeline (rebuilt d es) := by
  intro xs hxs
  rw [get_rebuilt] at hxs
  obtain rfl := Json.arr.inj hxs
  exact List.forall_mem_map.2 fun t _ => plain_toDict t

section Rebuilt

variable {es : List TimelineEntry} {pk : Bytes} (h : Signed H R e d es pk)
include h

theorem timelineOf_rebuilt : timelineOf H R (rebuilt d es) = timelineOf H R d := by
  rw [h.timeline]
  obtain ⟨bytes, -, hb, -⟩ := h.hashed
  exact entries_of_toDict (joined_eq_some.1 hb).1 (get_rebuilt d es)

theorem verifyReceipt_rebuilt (e' : String) :
    verifyReceipt H R e' (.obj (rebuilt d es)) = verifyReceipt H R e' (.obj d) := by
  refine verifyReceipt_congr (timelineOf_rebuilt h) fun k hk => lookup_rebuilt d es ?_
  rintro rfl
  revert hk
  decide

theorem wf_entries (hd : (Json.obj d).wf = true) : ∀ t ∈ es, t.toDict.wf = true := by
  obtain ⟨xs, hxs, -, hall⟩ := timelineOf_eq_ok.1 h.timeline
  have hwf := Json.wf_get hd "timeline"
  rw [hxs, Json.wf_arr] at hwf
  clear hxs h
  induction hall with
  | nil => simp
  | cons hxe _ ih =>
    rw [List.forall_mem_cons] at hwf ⊢
    exact ⟨wf_toDict hwf.1 hxe, ih hwf.2⟩

theorem wf_rebuilt (hd : (Json.obj d).wf = true) : (Json.obj (rebuilt d es)).wf = true :=
  Json.wf_insert hd "timeline" (Json.wf_arr.2 (List.forall_mem_map.2 (wf_entries h hd)))

end Rebuilt

/-- The timeline is that of the entries that are made of it iff it is plain. -/
theorem plainTimeline_iff (hd : (Json.obj d).wf = true) {es : List TimelineEntry}
    (h : timelineOf H R d = .ok es) : (Json.get d "timeline").norm =
      (Json.arr (es.map TimelineEntry.toDict)).norm ↔ PlainTimeline d := by
  obtain ⟨xs, hxs, -, hall⟩ := timelineOf_eq_ok.1 h
  have hwf := Json.wf_get hd "timeline"
  rw [hxs, Json.wf_arr] at hwf
  rw [hxs, Json.norm_arr, Json.norm_arr, Json.arr.injEq, List.map_map]
  refine (map_norm_eq_toDict_iff hwf hall).trans ?_
  rw [PlainTimeline, hxs]
  exact ⟨fun hp ys hys => Json.arr.inj hys ▸ hp, fun hp => hp xs rfl⟩

/-- Two receipts by one signer with one content hash. -/
structure SameClaim (d d' : Fields) : Prop where
  signer : Json.getD d "signer_did" (.str "") = Json.getD d' "signer_did" (.str "")
  hash : Json.getD d "content_hash" (.str "") = Json.getD d' "content_hash" (.str "")

/-- SHA-256 tells what the two receipts hash apart. -/
def ToldApart (H : Host) (R : Runtime) (d d' : Fields) : Prop :=
  ∀ b b', hashed H R d = some b → hashed H R d' = some b' → H.sha256 b = H.sha256 b' → b = b'

/-- Plain timelines that are accepted under one hash are one. -/
theorem timeline_eq (hd : (Json.obj d).wf = true) (hd' : (Json.obj d').wf = true)
    (h : verifyReceipt H R e (.obj d) = .ok ()) (h' : verifyReceipt H R e' (.obj d') = .ok ())
    (hp : PlainTimeline d) (hp' : PlainTimeline d') (hs : SameClaim d d') (ha : ToldApart H R d d') :
    (Json.get d "timeline").norm = (Json.get d' "timeline").norm := by
  obtain ⟨es, pk, hes⟩ := signed_of_accepted h
  obtain ⟨es', pk', hes'⟩ := signed_of_accepted h'
  obtain ⟨b, hb, hj, hc⟩ := hes.hashed
  obtain ⟨b', hb', hj', hc'⟩ := hes'.hashed
  have hsha : H.sha256 b = H.sha256 b' := by
    have := hs.hash
    rw [hc, hc'] at this
    exact Json.str.inj this
  obtain rfl := ha b b' hb hb' hsha
  rw [(plainTimeline_iff hd hes.timeline).2 hp, (plainTimeline_iff hd' hes'.timeline).2 hp',
    Json.norm_arr, Json.norm_arr, List.map_map, List.map_map]
  exact congrArg Json.arr 
    (joined_injective (wf_entries hes hd) (wf_entries hes' hd') hj hj')

/-- **A receipt keeps the timeline that was signed** iff its entries are plain. -/
theorem timeline_kept_iff (hd : (Json.obj d).wf = true)
    (h : verifyReceipt H R e (.obj d) = .ok ()) :
    (∀ e' d', (Json.obj d').wf = true → verifyReceipt H R e' (.obj d') = .ok () →
      PlainTimeline d' → SameClaim d d' → ToldApart H R d d' →
      (Json.get d "timeline").norm = (Json.get d' "timeline").norm) ↔ PlainTimeline d := by
  constructor
  · intro hall
    obtain ⟨es, pk, hes⟩ := signed_of_accepted h
    have hsame : SameClaim d (rebuilt d es) :=
      ⟨(getD_congr (lookup_rebuilt d es (by decide)) _).symm,
        (getD_congr (lookup_rebuilt d es (by decide)) _).symm⟩
    have happart : ToldApart H R d (rebuilt d es) := by
      intro b b' hb hb' _
      rw [hashed, timelineOf_rebuilt hes] at hb'
      exact Option.some.inj (hb.symm.trans hb')
    have := hall e (rebuilt d es) (wf_rebuilt hes hd) (verifyReceipt_rebuilt hes e ▸ h)
      (plainTimeline_rebuilt d es) hsame happart
    rw [get_rebuilt] at this
    exact (plainTimeline_iff hd hes.timeline).1 this
  · exact fun hp e' d' hd' h' hp' hs ha => timeline_eq hd hd' h h' hp hp' hs ha

/-! ## Verifiers -/

/-- **What the verifiers accept is what was signed**, and they return, for plain entries of
    readable values, and for no others. -/
theorem accepted_as_signed (H : Host) (R : Runtime) :
    (∀ es es' : List TimelineEntry, (∀ t ∈ es, t.toDict.wf = true) →
      (∀ t ∈ es', t.toDict.wf = true) → ∀ b, joined es = some b → joined es' = some b →
      es.map (fun t => t.toDict.norm) = es'.map fun t => t.toDict.norm) ∧
    (∀ e d, (Json.obj d).wf = true → verifyReceipt H R e (.obj d) = .ok () →
      ((∀ e' d', (Json.obj d').wf = true → verifyReceipt H R e' (.obj d') = .ok () →
        PlainTimeline d' → SameClaim d d' → ToldApart H R d d' →
        (Json.get d "timeline").norm = (Json.get d' "timeline").norm) ↔ PlainTimeline d)) ∧
    (∀ e v, verifyReceipt H R e v ≠ .error .raised ↔ ReadableReceipt H R e v) ∧
    ∀ v, verifyReceiptChain H R v ≠ .error .raised ↔ ReadableChain H R v := by
  refine ⟨fun es es' he he' b h h' => joined_injective he he' h h', ?_, ?_, ?_⟩
  · exact fun e d hd h => timeline_kept_iff hd h
  · intro e v
    rw [Ne, verifyReceipt_raised_iff, not_not]
  · intro v
    rw [Ne, verifyReceiptChain_raised_iff, not_not]

/-! ## A receipt that is altered -/

/-- A runtime that reads one number and no dates. -/
def smallRuntime : Runtime where
  intText s := .ok (if s = "5" then some 5 else none)
  lower s := s
  timestampMs _ := .ok none
  now := 1000

def goalStarted : TimelineEntry where
  timestamp := 5
  type := "goal_started"
  payload := []
  timestamp_nonneg := by decide
  type_ne_empty := by decide

def startedReceipt : Fields :=
  envelope checksumHost (1 : UInt8) "r1" "" "" [goalStarted] ((joined [goalStarted]).getD [])

/-- The timestamp is a text, and a member is added. -/
def alteredReceipt : Fields :=
  Json.insert startedReceipt "timeline" (.arr [.obj [("timestamp", .str "5"),
    ("type", .str "goal_started"), ("payload", .obj []), ("approved_by", .str "root")]])

theorem receipt_altered :
    verifyReceipt checksumHost smallRuntime "" (.obj startedReceipt) = .ok () ∧
    verifyReceipt checksumHost smallRuntime "" (.obj alteredReceipt) = .ok () ∧
    SameClaim startedReceipt alteredReceipt ∧
    hashed checksumHost smallRuntime startedReceipt =
      hashed checksumHost smallRuntime alteredReceipt ∧
    (Json.get startedReceipt "timeline").norm ≠ (Json.get alteredReceipt "timeline").norm ∧
    verifyReceipt checksumHost smallRuntime "" (.arr []) = .error .raised ∧
    verifyReceiptChain checksumHost smallRuntime (.str "receipts") = .error .raised := by
  have hok : (verifyReceipt checksumHost smallRuntime "" (.obj startedReceipt)).toOption.isSome =
      true := by decide +kernel
  have hok' : (verifyReceipt checksumHost smallRuntime "" (.obj alteredReceipt)).toOption.isSome =
      true := by decide +kernel
  refine ⟨eq_ok_of_isSome hok, eq_ok_of_isSome hok', ⟨rfl, rfl⟩, ?_, ?_, rfl, rfl⟩
  · decide +kernel
  · decide +kernel

end Receipts

end NthDao
