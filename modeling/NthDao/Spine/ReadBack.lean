/-
  Every accepted append can be read back (`nth_dao/spine/log.py`).

  * `prepareAppend_snapshot`: what `_prepare_append` makes of a payload is, up to the order of
    its keys, what it makes of the snapshot of it;
  * `ReadsBack`: the line is one line of the file, within the limit of the reader, and decodes to
    an equal event; so does the line in its intent;
  * `append_readsBack`: this holds of every accepted append.
-/
import NthDao.CanonicalText
import NthDao.Py.Norm
import NthDao.Spine.Scan

namespace NthDao

open Py

variable {H : Host}

/-! ## The snapshot of a payload -/

/-- The core with sorted keys. -/
theorem SpineEvent.norm_core (e : SpineEvent) : (Json.obj e.core).norm =
    .obj [("author_did", .str e.authorDid), ("payload", (Json.obj e.payload).norm),
      ("prev_hash", .str e.prevHash), ("seq", .int e.seq), ("ts_ms", .int e.tsMs),
      ("type", .str e.type)] := by
  rw [Json.norm_obj]
  simp +decide [SpineEvent.core, List.insertionSort, List.orderedInsert, Json.keyLe, Json.norm]

/-- Of the payload only the sorted form is hashed and written. -/
theorem eventContentHash_congr {e f : SpineEvent} {s : Fields}
    (h : (Json.obj s).norm = (Json.obj e.payload).norm) (hf : f = { e with payload := s }) :
    eventContentHash H f.core = eventContentHash H e.core := by
  rw [eventContentHash, eventContentHash, ← canonicalJson_norm, SpineEvent.norm_core, hf]
  dsimp only
  rw [h, ← SpineEvent.norm_core e, canonicalJson_norm]

theorem encodeEvent_congr {e : SpineEvent} {s : Fields}
    (h : (Json.obj s).norm = (Json.obj e.payload).norm) :
    encodeEvent { e with payload := s } = encodeEvent e := by
  rw [encodeEvent, encodeEvent, SpineEvent.norm_toDict, SpineEvent.norm_toDict, h]

variable {k : H.SecretKey} {type : String} {payload : Dict} {ts : ℤ} {last : Option SpineEvent}
  {baseSize : ℕ} {e : SpineEvent} {line : Bytes}

/-- A payload that is accepted has a snapshot: itself with sorted keys. -/
theorem snapshotPayload_of_check (h : checkPayload payload.1 = .ok ()) :
    ∃ s, snapshotPayload payload.1 = .ok s ∧ .obj s = (Json.obj payload.1).norm := by
  simp only [checkPayload, expect_bind_eq_ok, require_eq_ok] at h
  obtain ⟨b, hb, hle⟩ := h
  obtain ⟨he, rfl⟩ := canonicalJson_eq_some hb
  have hwf := Json.wf_norm _ payload.2
  have hload : (utf8Decode (utf8 (dumps false (Json.obj payload.1).norm))).bind loads =
      some (Json.obj payload.1).norm := by
    rw [utf8Decode_utf8, Option.bind_some, loads_dumps false hwf (by rw [Json.encodable_norm, he])]
  refine ⟨(Json.obj payload.1).norm.fields, ?_, by rw [Json.norm_obj, Json.fields_obj]⟩
  have henc : encodePayload payload.1 = .ok (utf8 (dumps false (Json.obj payload.1).norm)) := by
    simp only [encodePayload, expect_bind_eq_ok, unit_bind_eq_ok, require_eq_ok]
    exact ⟨_, hb, hle, rfl⟩
  rw [snapshotPayload, henc, ok_bind, hload]
  rfl

/-- The snapshot is prepared as the payload is. -/
theorem prepareAppend_snapshot
    (h : prepareAppend H k type payload.1 ts last baseSize = .ok (e, line)) :
    ∃ s, snapshotPayload payload.1 = .ok s ∧ .obj s = (Json.obj payload.1).norm ∧
      prepareAppend H k type s ts last baseSize = .ok ({ e with payload := s }, line) := by
  simp only [prepareAppend, bind_eq_ok, require_eq_ok, pure_eq_ok] at h
  obtain ⟨e', hsign, _, hle, intent, hi, he⟩ := h
  cases he
  simp only [signEvent, bind_eq_ok, require_eq_ok, expect_eq_ok, SpineEvent.fromDict_toDict] at hsign
  obtain ⟨_, hts, _, hprev, _, htype, _, hpay, hash, hhash, rfl, hv⟩ := hsign
  obtain ⟨s, hsnap, hs⟩ := snapshotPayload_of_check hpay
  have hnorm : (Json.obj s).norm = (Json.obj payload.1).norm := by rw [hs, Json.norm_norm]
  have hcheck : checkPayload s = .ok () := by
    rw [checkPayload, ← canonicalJson_norm, hnorm, canonicalJson_norm]
    exact hpay
  refine ⟨s, hsnap, hs, ?_⟩
  have hsigned : signEvent H (expectedSeq last) (expectedPrev last) type s k ts =
      .ok { SpineEvent.mk (expectedSeq last) (expectedPrev last) type payload.1 (asDid H k) ts hash
        (signText H k (fromHex (chars hash))) with payload := s } := by
    simp only [signEvent, bind_eq_ok, require_eq_ok, expect_eq_ok, SpineEvent.fromDict_toDict]
    refine ⟨(), hts, (), hprev, (), htype, (), hcheck, hash, ?_, rfl, ?_⟩
    · rw [← hhash]
      exact eventContentHash_congr (e := SpineEvent.mk _ _ _ payload.1 _ _ "" "") hnorm rfl
    · exact { hv with payload := hcheck }
  generalize hf : SpineEvent.mk (expectedSeq last) (expectedPrev last) type payload.1 (asDid H k) ts
    hash (signText H k (fromHex (chars hash))) = f at hsigned hle hi
  have hpayload : f.payload = payload.1 := by rw [← hf]
  have hline : encodeEvent { f with payload := s } = encodeEvent f :=
    encodeEvent_congr (hpayload ▸ hnorm)
  simp only [prepareAppend, hsigned, ok_bind, hline, bind_eq_ok, require_eq_ok, pure_eq_ok]
  exact ⟨(), hle, intent, hi, trivial⟩

/-! ## Reading back -/

/-- The event `e`, appended as `line` to a log of `baseSize` bytes, can be read back: from its
    line in the file, and from the intent to append it. -/
structure ReadsBack (H : Host) (e : SpineEvent) (line : Bytes) (baseSize : ℕ) : Prop where
  /-- the record is one line, after any whole lines -/
  split : ∀ bytes, Lines.Whole newline bytes → Lines.split newline (bytes ++ (line ++ [newline])) =
    Lines.split newline bytes ++ [line ++ [newline]]
  length : (line ++ [newline]).length ≤ maxSpineLineBytes
  decode : ∀ n, ∃ e', decodeLine (line ++ [newline]) n = .ok e' ∧ e'.eqv e = true
  intent : ∃ intent, encodeAppendIntent H baseSize line = .ok intent ∧
    intent.length ≤ maxSpineAppendIntentBytes ∧
    readAppendIntent H (some intent) = .ok (some (baseSize, line))
  decodeIntent : ∀ n, ∃ e', decodeLine line n = .ok e' ∧ e'.eqv e = true

theorem SpineEvent.eqv_of_norm {e : SpineEvent} {s : Fields}
    (hs : .obj s = (Json.obj e.payload).norm) (hwf : (Json.obj e.payload).wf = true) :
    SpineEvent.eqv { e with payload := s } e = true := by
  have hwfs : (Json.obj s).wf = true := hs ▸ Json.wf_norm _ hwf
  rw [SpineEvent.eqv, Bool.and_eq_true, beq_iff_eq]
  exact ⟨Py.eqv_of_norm hwfs hwf (by rw [hs, Json.norm_norm]), rfl⟩

theorem encodeAppendIntent_length {line intent : Bytes}
    (h : encodeAppendIntent H baseSize line = .ok intent) :
    intent.length ≤ maxSpineAppendIntentBytes := by
  simp only [encodeAppendIntent, bind_eq_ok, require_eq_ok, decide_eq_true_eq, pure_eq_ok] at h
  obtain ⟨_, -, _, -, _, hle, rfl⟩ := h
  exact hle

/-- **Every accepted append can be read back.**  What `_prepare_append` returns for any payload
    is a line that the reader of the log takes whole, within its limit and with its newline, and
    that decodes to an event equal to the signed one; the intent to append it is within its
    limit, and reads back as the same line. -/
theorem append_readsBack (h : prepareAppend H k type payload.1 ts last baseSize = .ok (e, line)) :
    ReadsBack H e line baseSize := by
  obtain ⟨s, hsnap, hs, hprep⟩ := prepareAppend_snapshot h
  have hp := prepared_of_prepareAppend hsnap hprep
  have hpay : e.payload = payload.1 := by
    simp only [prepareAppend, bind_eq_ok, pure_eq_ok] at h
    obtain ⟨e', hsign, _, -, _, -, he⟩ := h
    cases he
    exact (signEvent_eq_ok H hsign).2.2.2.1
  have heqv : SpineEvent.eqv { e with payload := s } e = true :=
    SpineEvent.eqv_of_norm (hpay ▸ hs) (hpay ▸ payload.2)
  have hline := hp.length_lt
  obtain ⟨intent, hi⟩ := hp.fits
  refine ⟨fun bytes hw => ?_, hp.length_record, fun n => ⟨_, ?_, heqv⟩,
    ⟨intent, hi, encodeAppendIntent_length hi, hp.readAppendIntent hi⟩, fun n => ⟨_, ?_, heqv⟩⟩
  · rw [Lines.split_append newline hw, hp.split_record]
  · exact hp.decodeLine ['\n'] (List.all_eq_true.1 (by decide)) hp.length_record n
  · have hdec := hp.decodeLine [] (fun c hc => absurd hc List.not_mem_nil)
      (by rw [show utf8 [] = [] from rfl, List.append_nil]; exact hline.le) n
    rwa [show utf8 [] = [] from rfl, List.append_nil] at hdec

/-- A payload with a character that is escaped. -/
def quotePayload : Dict := ⟨[("text", .str "\"")], by decide⟩

def quotePrepared : PLift ((prepareAppend checksumHost (1 : UInt8) "note" quotePayload.1 1 none
    0).toOption.isSome = true) := ⟨by decide +kernel⟩

/-- The theorem on it. -/
theorem append_readsBack_quote : ∃ e line, prepareAppend checksumHost (1 : UInt8) "note"
    quotePayload.1 1 none 0 = .ok (e, line) ∧ ReadsBack checksumHost e line 0 := by
  have hsome := quotePrepared.down
  cases h : prepareAppend checksumHost (1 : UInt8) "note" quotePayload.1 1 none 0 with
  | error reason =>
    rw [h] at hsome
    cases hsome
  | ok r => exact ⟨r.1, r.2, rfl, append_readsBack h⟩

end NthDao
