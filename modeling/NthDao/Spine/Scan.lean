/-
  The scan of the log reads back what was prepared for it.

  * `Prepared`: what holds of an event and its line after `_prepare_append`;
  * `Prepared.length_lt`: the intent limit keeps the line below the limit of the
    reader, since escapes count twice in an intent;
  * `readAppendIntent_encode`, `Prepared.decodeLine`: intents and lines read back;
  * `scanFrom_append`, `scanFrom_stop`: a scan is cut at the end of a line.
-/
import NthDao.Py.Ascii
import NthDao.Spine.Log

namespace NthDao

open Py

variable {H : Host}

/-! ## Prepared events -/

/-- An event prepared after `last` for a log of `baseSize` bytes, with its line. -/
structure Prepared (H : Host) (k : H.SecretKey) (last : Option SpineEvent) (baseSize : ℕ)
    (e : SpineEvent) (line : Bytes) : Prop where
  valid : e.Valid
  seq : e.seq = expectedSeq last
  prev : e.prevHash = expectedPrev last
  author : e.authorDid = asDid H k
  verifies : verifyEvent H e = .ok ()
  signature : e.sig.length = 86
  core : (Json.obj e.core).encodable = true
  sorted : (Json.obj e.payload).norm = .obj e.payload
  wf : (Json.obj e.payload).wf = true
  line_eq : line = encodeEvent e
  fits : ∃ intent, encodeAppendIntent H baseSize line = .ok intent

/-- The snapshot of a payload has sorted keys. -/
theorem snapshotPayload_eq_ok {payload : Dict} {s : Fields}
    (h : snapshotPayload payload.1 = .ok s) :
    .obj s = (Json.obj payload.1).norm ∧ (Json.obj s).wf = true := by
  simp only [snapshotPayload, encodePayload, bind_eq_ok, expect_eq_ok, require_eq_ok,
    pure_eq_ok] at h
  obtain ⟨_, ⟨b, hb, _, -, rfl⟩, doc, hdoc, rfl⟩ := h
  obtain ⟨he, rfl⟩ := canonicalJson_eq_some hb
  have hwf := Json.wf_norm _ payload.2
  rw [utf8Decode_utf8, Option.bind_some,
    loads_dumps false hwf (by rw [Json.encodable_norm, he]), Option.some_inj] at hdoc
  subst hdoc
  rw [Json.norm_obj] at hwf ⊢
  exact ⟨rfl, hwf⟩

theorem prepared_of_prepareAppend {k : H.SecretKey} {type : String} {payload : Dict} {s : Fields}
    {ts : ℤ} {last : Option SpineEvent} {baseSize : ℕ} {e : SpineEvent} {line : Bytes}
    (hs : snapshotPayload payload.1 = .ok s)
    (h : prepareAppend H k type s ts last baseSize = .ok (e, line)) :
    Prepared H k last baseSize e line := by
  simp only [prepareAppend, bind_eq_ok, require_eq_ok, pure_eq_ok] at h
  obtain ⟨e', hsign, _, -, intent, hi, he⟩ := h
  cases he
  obtain ⟨hv, hseq, hprev, hpay, hdid, hhash, hsig⟩ := signEvent_eq_ok H hsign
  obtain ⟨hsorted, hwf⟩ := snapshotPayload_eq_ok hs
  obtain ⟨b, hb, -⟩ := Option.map_eq_some_iff.1 hhash
  refine ⟨hv, hseq, hprev, hdid, verifyEvent_of_signEvent H hsign, ?_, (canonicalJson_eq_some hb).1,
    ?_, hpay ▸ hwf, rfl, intent, hi⟩
  · rw [hsig, length_signText]
  · rw [hpay, hsorted, Json.norm_norm]

namespace Prepared

variable {k : H.SecretKey} {last : Option SpineEvent} {baseSize : ℕ} {e : SpineEvent} {line : Bytes}

theorem encodable (h : Prepared H k last baseSize e line) : e.toDict.encodable = true := by
  have hc := Json.encodable_obj.1 h.core
  rw [SpineEvent.toDict, Json.encodable_obj]
  intro p hp
  rcases List.mem_append.1 hp with hp | hp
  · exact hc p hp
  · simp only [List.mem_cons, List.not_mem_nil, or_false] at hp
    rcases hp with rfl | rfl <;> rfl

theorem wf_toDict (h : Prepared H k last baseSize e line) : e.toDict.wf = true := by
  rw [SpineEvent.toDict, Json.wf_obj]
  refine ⟨by simp [SpineEvent.core], fun p hp => ?_⟩
  simp only [SpineEvent.core, List.cons_append, List.nil_append, List.mem_cons, List.not_mem_nil,
    or_false] at hp
  rcases hp with rfl | rfl | rfl | rfl | rfl | rfl | rfl | rfl
  iterate 3 rfl
  · exact h.wf
  all_goals rfl

/-- The text of the line. -/
theorem printable (h : Prepared H k last baseSize e line) : Printable (dumps true e.toDict.norm) :=
  printable_dumps _ (by rw [Json.encodable_norm]; exact h.encodable)

theorem text_eq (h : Prepared H k last baseSize e line) :
    line = utf8 (dumps true e.toDict.norm) := h.line_eq

theorem strWeight_fields : ∀ s ∈ spineEventFields, strWeight false s ≤ 14 := by decide

/-- The dict of an event is little longer than its payload. -/
theorem weight_toDict_le (h : Prepared H k last baseSize e line) :
    weight false e.toDict ≤ maxSpinePayloadBytes + 20000 := by
  have hc := Json.encodable_obj.1 h.core
  have hseq := weight_int_le (hc ("seq", .int e.seq) (by simp [SpineEvent.core]))
  have hts := weight_int_le (hc ("ts_ms", .int e.tsMs) (by simp [SpineEvent.core]))
  have hpay : weight false (.obj e.payload) ≤ maxSpinePayloadBytes := by
    have hv := h.valid.payload
    simp only [checkPayload, bind_eq_ok, expect_eq_ok, require_eq_ok, decide_eq_true_eq] at hv
    obtain ⟨b, hb, hle⟩ := hv
    rwa [canonicalJson_length hb] at hle
  have hhash : ∀ {s : String}, isSpineHash s = true → s.length = 64 := by
    intro s hs
    rw [isSpineHash, isHex, Bool.and_eq_true, beq_iff_eq, chars_eq, String.length_toList] at hs
    exact hs.1
  have htype : e.type.length ≤ 128 := by
    have hv := h.valid.type
    unfold isEventType at hv
    rw [chars_eq] at hv
    rw [← String.length_toList]
    split at hv
    · cases hv
    · rename_i c cs hcs
      simp only [Bool.and_eq_true, decide_eq_true_eq] at hv
      rw [hcs, List.length_cons]; omega
  have hdid : e.authorDid.length ≤ 56 := by
    rw [h.author]; exact length_encodeDidKey (H.pubkey_length k)
  have h₁ := strWeight_le e.prevHash
  have h₂ := strWeight_le e.contentHash
  have h₃ := strWeight_le e.type
  have h₄ := strWeight_le e.authorDid
  have h₅ := strWeight_le e.sig
  rw [hhash h.valid.prev] at h₁
  rw [hhash h.valid.hash] at h₂
  rw [h.signature] at h₅
  have hk := strWeight_fields
  simp only [spineEventFields, List.forall_mem_cons] at hk
  rw [maxIntDigits] at hseq hts
  rw [SpineEvent.toDict, weight_obj false (by simp [SpineEvent.core])]
  simp only [SpineEvent.core, List.cons_append, List.nil_append, List.map_cons, List.map_nil,
    List.sum_cons, List.sum_nil, itemWeight, weight_str]
  omega

theorem length_line (h : Prepared H k last baseSize e line) :
    line.length = (dumps true e.toDict.norm).length := by
  rw [h.text_eq, utf8_length_printable h.printable]

/-- The escapes of the line count once more in the intent. -/
theorem text_le_intent (h : Prepared H k last baseSize e line) :
    (dumps true e.toDict.norm).length + quotes (dumps true e.toDict.norm) + 2 ≤
      maxSpineAppendIntentBytes := by
  obtain ⟨intent, hi⟩ := h.fits
  simp only [encodeAppendIntent, bind_eq_ok, expect_eq_ok, require_eq_ok, decide_eq_true_eq,
    pure_eq_ok] at hi
  obtain ⟨text, ht, _, -, _, hle, -⟩ := hi
  rw [h.text_eq, asciiChars_utf8 h.printable, Option.some_inj] at ht
  have hw : strWeight true (String.ofList text) = text.length + quotes text + 2 := by
    rw [strWeight, utf8_length_printable (printable_dumpsStr _), length_dumpsStr (ht ▸ h.printable)]
  have hdoc : (utf8 (dumps true (appendIntent H baseSize text line).norm)).length =
      weight true (appendIntent H baseSize text line) := weight_norm true _
  rw [hdoc, appendIntent, weight_obj true (by simp)] at hle
  simp only [List.map_cons, List.map_nil, List.sum_cons, List.sum_nil, itemWeight, weight_str,
    hw] at hle
  rw [ht]
  omega

/-- **The intent limit bounds the line.**  A line near the limit of the reader
    has so many escapes that its intent is over its own limit. -/
theorem length_lt (h : Prepared H k last baseSize e line) : line.length < maxSpineLineBytes := by
  have hgrow : (dumps true e.toDict.norm).length ≤
      weight false e.toDict.norm + 5 * quotes (dumps true e.toDict.norm) := grows_dumps _
  have hintent := h.text_le_intent
  have hdict := h.weight_toDict_le
  rw [weight_norm] at hgrow
  rw [h.length_line]
  have h₁ : maxSpineLineBytes = 2097152 := rfl
  have h₂ : maxSpineAppendIntentBytes = 2098176 := rfl
  have h₃ : maxSpinePayloadBytes = 1048576 := rfl
  omega

/-- The line reads back, also with its newline. -/
theorem decodeLine (h : Prepared H k last baseSize e line) (tail : List Char)
    (ht : ∀ c ∈ tail, isWs c = true) (hlen : (line ++ utf8 tail).length ≤ maxSpineLineBytes)
    (n : ℕ) : NthDao.decodeLine (line ++ utf8 tail) n = .ok e := by
  have hwf := Json.wf_norm _ h.wf_toDict
  have henc : e.toDict.norm.encodable = true := by rw [Json.encodable_norm]; exact h.encodable
  have hload : (utf8Decode (line ++ utf8 tail)).bind loads = some e.toDict.norm := by
    rw [h.text_eq, ← utf8_append, utf8Decode_utf8, Option.bind_some,
      loads_dumps_append true hwf henc ht]
  simp only [NthDao.decodeLine, require, hlen, decide_true, if_true, ok_bind, hload, expect,
    SpineEvent.fromDict_norm h.valid h.sorted, mapError_ok]

theorem newline_notMem (h : Prepared H k last baseSize e line) : newline ∉ line := by
  intro hm
  rw [h.text_eq] at hm
  have := le_of_mem_utf8 h.printable hm
  exact absurd this (by decide)

theorem not_blank (h : Prepared H k last baseSize e line) : isBlank (line ++ [newline]) = false := by
  have hcons : ∃ cs, dumps true e.toDict.norm = '{' :: cs := by
    rw [SpineEvent.norm_toDict]; exact ⟨_, rfl⟩
  obtain ⟨cs, hcs⟩ := hcons
  rw [h.text_eq, hcs, utf8_cons]
  rfl

/-- The record is one line of the file. -/
theorem split_record (h : Prepared H k last baseSize e line) :
    Lines.split newline (line ++ [newline]) = [line ++ [newline]] :=
  Lines.split_line newline h.newline_notMem

theorem length_record (h : Prepared H k last baseSize e line) :
    (line ++ [newline]).length ≤ maxSpineLineBytes := by
  have := h.length_lt
  rw [List.length_append, List.length_singleton]
  omega

/-- The scan takes the record after the events it was prepared for. -/
theorem scanLine {events : List SpineEvent}
    (h : Prepared H k events.getLast? baseSize e line)
    (hseq : expectedSeq events.getLast? = events.length) (n : ℕ) :
    NthDao.scanLine H n events (line ++ [newline]) = .ok (events ++ [e]) := by
  have hdec : NthDao.decodeLine (line ++ [newline]) n = .ok e :=
    h.decodeLine ['\n'] (List.all_eq_true.1 (by decide)) h.length_record n
  simp only [NthDao.scanLine, require, List.getLast?_concat, beq_self_eq_true, if_true, ok_bind,
    h.not_blank, Bool.false_eq_true, if_false, hdec, h.seq, hseq, h.prev, h.verifies, mapError_ok]
  rfl

end Prepared

/-- The intent with sorted keys. -/
theorem norm_appendIntent (baseSize : ℕ) (text : List Char) (line : Bytes) :
    (appendIntent H baseSize text line).norm =
      .obj [("base_size", .int baseSize), ("line", .str (String.ofList text)),
        ("line_sha256", .str (H.sha256 line)), ("version", .int 1)] := by
  rw [appendIntent, Json.norm_obj]
  simp +decide [List.insertionSort, List.orderedInsert, Json.keyLe, Json.norm]

/-- The intent of a prepared line reads back. -/
theorem Prepared.readAppendIntent {k : H.SecretKey} {last : Option SpineEvent} {baseSize : ℕ}
    {e : SpineEvent} {line intent : Bytes} (h : Prepared H k last baseSize e line)
    (hi : encodeAppendIntent H baseSize line = .ok intent) :
    NthDao.readAppendIntent H (some intent) = .ok (some (baseSize, line)) := by
  simp only [encodeAppendIntent, bind_eq_ok, expect_eq_ok, require_eq_ok, decide_eq_true_eq,
    pure_eq_ok] at hi
  obtain ⟨text, ht, _, henc, _, hle, rfl⟩ := hi
  have htext : line = utf8 text ∧ Printable text := by
    have ht' := ht
    rw [h.text_eq, asciiChars_utf8 h.printable, Option.some_inj] at ht'
    exact ⟨ht' ▸ h.text_eq, ht' ▸ h.printable⟩
  have henc' : (appendIntent H baseSize text line).norm.encodable = true := by
    rw [Json.encodable_norm]; exact henc
  have hwf : (appendIntent H baseSize text line).norm.wf = true := by
    apply Json.wf_norm
    simp [appendIntent, Json.wf, Json.wfFields]
  have hload : (asciiChars (utf8 (dumps true (appendIntent H baseSize text line).norm))).bind loads =
      some (appendIntent H baseSize text line).norm := by
    rw [asciiChars_utf8 (printable_dumps _ henc'), Option.bind_some, loads_dumps true hwf henc']
  have hpos : 1 ≤ (utf8 (dumps true (appendIntent H baseSize text line).norm)).length :=
    one_le_weight true henc'
  have hascii : text.all (fun c => c.toNat < 128) = true := by
    rw [List.all_eq_true]
    intro c hc
    have := htext.2 c hc
    simp only [Py.printable, Bool.and_eq_true, decide_eq_true_iff] at this
    simp only [decide_eq_true_iff]; omega
  have hctl : ∀ c : Char, c.toNat < 32 → text.contains c = false := by
    intro c hc
    rw [Bool.eq_false_iff, ne_eq, List.contains_iff_mem]
    intro hm
    have := htext.2 c hm
    simp only [Py.printable, Bool.and_eq_true, decide_eq_true_iff] at this
    omega
  have hlen : 1 ≤ line.length ∧ line.length ≤ maxSpineLineBytes := by
    have := h.length_lt
    refine ⟨?_, by omega⟩
    rw [h.text_eq]
    exact one_le_weight true (by rw [Json.encodable_norm]; exact h.encodable)
  have hnum : nonNegative (.int (baseSize : ℤ)) = some baseSize := by
    simp [nonNegative, Json.asInt]
  have hdoc := norm_appendIntent (H := H) baseSize text line
  set doc := (appendIntent H baseSize text line).norm with hd
  have hbase : Json.get doc.fields "base_size" = .int baseSize := by rw [hdoc]; rfl
  have hl : Json.get doc.fields "line" = .str (String.ofList text) := by rw [hdoc]; rfl
  have hsha : Json.get doc.fields "line_sha256" = .str (H.sha256 line) := by rw [hdoc]; rfl
  have hver : Json.get doc.fields "version" = .int 1 := by rw [hdoc]; rfl
  have hobj : doc.isObj = true := by rw [hdoc]; rfl
  have hkeys : Json.keysEq doc.fields ["version", "base_size", "line", "line_sha256"] = true := by
    rw [hdoc]; simp [Json.keysEq]
  simp only [NthDao.readAppendIntent, hload, hpos, hle, hbase, hl, hsha, hver, hobj, hkeys, hnum,
    Json.eqInt, Json.asStr, chars_eq, String.toList_ofList, hascii, hctl '\n' (by decide),
    hctl '\r' (by decide), ← htext.1, hlen.1, hlen.2, decide_true, beq_self_eq_true, Bool.and_self,
    Bool.not_false, require, expect, if_true, ok_bind]
  rfl

/-! ## Scans -/

section Scan

variable {n c : ℕ} {events events' : List SpineEvent} {xs ys : List Bytes}

/-- One line of a scan of the whole file. -/
theorem scanFrom_cons_eq_ok {raw : Bytes} :
    scanFrom H none n c events (raw :: xs) = .ok events' ↔ raw.length ≤ maxSpineLineBytes ∧
      ∃ next, scanLine H (n + 1) events raw = .ok next ∧
        scanFrom H none (n + 1) (c + raw.length) next xs = .ok events' := by
  simp [scanFrom, bind_eq_ok]

theorem scanFrom_append (h : scanFrom H none n c events xs = .ok events') :
    scanFrom H none n c events (xs ++ ys) =
      scanFrom H none (n + xs.length) (c + xs.flatten.length) events' ys := by
  induction xs generalizing n c events with
  | nil =>
    simp only [scanFrom, Option.all_none, require, if_true, ok_bind, pure_eq_ok] at h
    rw [h]; rfl
  | cons raw xs ih =>
    obtain ⟨hle, next, hl, h⟩ := scanFrom_cons_eq_ok.1 h
    have hlen : n + 1 + xs.length = n + (raw :: xs).length := by rw [List.length_cons]; omega
    have hflat : c + raw.length + xs.flatten.length = c + (raw :: xs).flatten.length := by
      rw [List.flatten_cons, List.length_append]; omega
    rw [← hlen, ← hflat, ← ih h, List.cons_append]
    conv_lhs => rw [scanFrom]
    simp only [require, hle, decide_true, if_true, ok_bind, Option.all_none, hl]
    rfl

/-- A scan up to the end of a line does not see what follows. -/
theorem scanFrom_stop (ys : List Bytes) (hne : ∀ l ∈ xs, l ≠ []) (hxs : xs ≠ [])
    (h : scanFrom H none n c events xs = .ok events') :
    scanFrom H (some (c + xs.flatten.length)) n c events (xs ++ ys) = .ok events' := by
  induction xs generalizing n c events with
  | nil => exact absurd rfl hxs
  | cons raw xs ih =>
    rw [List.forall_mem_cons] at hne
    obtain ⟨hle, next, hl, h⟩ := scanFrom_cons_eq_ok.1 h
    have hflat : c + (raw :: xs).flatten.length = c + raw.length + xs.flatten.length := by
      rw [List.flatten_cons, List.length_append]; omega
    rw [List.cons_append, scanFrom, hflat]
    simp only [require, hle, decide_true, if_true, ok_bind, Option.all_some, hl,
      Nat.le_add_right]
    cases xs with
    | nil =>
      simp only [scanFrom, Option.all_none, require, if_true, ok_bind, pure_eq_ok] at h
      rw [List.flatten_nil, List.length_nil, Nat.add_zero, if_pos rfl, h]; rfl
    | cons raw' xs =>
      have hpos : 0 < raw'.length := List.length_pos_iff.2 (hne.2 raw' (by simp))
      rw [if_neg, ih hne.2 (by simp) h]
      rw [Option.some_inj, List.flatten_cons, List.length_append]
      omega

theorem scanLine_eq_ok {raw : Bytes} (h : scanLine H n events raw = .ok events') :
    raw.getLast? = some newline ∧ (events' = events ∨
      ∃ e, events' = events ++ [e] ∧ e.seq = events.length) := by
  simp only [scanLine, bind_eq_ok, require_eq_ok, beq_iff_eq] at h
  obtain ⟨_, hnl, h⟩ := h
  refine ⟨hnl, ?_⟩
  split_ifs at h
  · exact Or.inl (pure_eq_ok.1 h).symm
  · simp only [bind_eq_ok, require_eq_ok, beq_iff_eq, pure_eq_ok] at h
    obtain ⟨e, -, _, hseq, _, -, _, -, rfl⟩ := h
    exact Or.inr ⟨e, rfl, hseq⟩

/-- What a scan ensures: whole lines, and events that are numbered from zero. -/
theorem scanFrom_eq_ok (h : scanFrom H none n c events xs = .ok events')
    (hseq : expectedSeq events.getLast? = events.length) :
    (∀ l ∈ xs, l.getLast? = some newline) ∧ expectedSeq events'.getLast? = events'.length := by
  induction xs generalizing n c events with
  | nil =>
    simp only [scanFrom, Option.all_none, require, if_true, ok_bind, pure_eq_ok] at h
    exact ⟨by simp, h ▸ hseq⟩
  | cons raw xs ih =>
    obtain ⟨-, next, hl, h⟩ := scanFrom_cons_eq_ok.1 h
    obtain ⟨hnl, hnext⟩ := scanLine_eq_ok hl
    have hnextSeq : expectedSeq next.getLast? = next.length := by
      rcases hnext with rfl | ⟨e, rfl, he⟩
      · exact hseq
      · rw [List.getLast?_concat, expectedSeq, he, List.length_append, List.length_singleton]
    obtain ⟨h₁, h₂⟩ := ih h hnextSeq
    exact ⟨List.forall_mem_cons.2 ⟨hnl, h₁⟩, h₂⟩

end Scan

/-! ## Verified files -/

/-- The bytes verify, with these events. -/
def Verifies (H : Host) (bytes : Bytes) (events : List SpineEvent) : Prop :=
  scanFrom H none 0 0 [] (Lines.split newline bytes) = .ok events

theorem verifiedEvents_none {main : Option Bytes} {events : List SpineEvent} :
    verifiedEvents H none main = .ok events ↔ Verifies H (main.getD []) events := by
  cases main with
  | none => rfl
  | some bytes => rfl

namespace Verifies

variable {bytes : Bytes} {events : List SpineEvent}

theorem whole (h : Verifies H bytes events) : Lines.Whole newline bytes :=
  (scanFrom_eq_ok h rfl).1

theorem seq (h : Verifies H bytes events) : expectedSeq events.getLast? = events.length :=
  (scanFrom_eq_ok h rfl).2

/-- A prepared record extends the verified file. -/
theorem append (h : Verifies H bytes events) {k : H.SecretKey} {e : SpineEvent} {line : Bytes}
    {baseSize : ℕ} (hp : Prepared H k events.getLast? baseSize e line) :
    Verifies H (bytes ++ (line ++ [newline])) (events ++ [e]) := by
  rw [Verifies, Lines.split_append newline h.whole, scanFrom_append h, hp.split_record,
    scanFrom_cons_eq_ok]
  exact ⟨hp.length_record, _, hp.scanLine h.seq _, rfl⟩

/-- The verification up to the end of the file ignores what follows. -/
theorem verifiedEvents_stop (h : Verifies H bytes events) {rest : Bytes} {main : Option Bytes}
    (hm : main.getD [] = bytes ++ rest) :
    verifiedEvents H (some bytes.length) main = .ok events := by
  by_cases hb : bytes = []
  · subst hb
    cases h
    cases main with
    | none => rfl
    | some m => rfl
  · have hxs : Lines.split newline bytes ≠ [] := by
      intro hs
      exact hb (by rw [← Lines.flatten_split newline bytes, hs]; rfl)
    cases main with
    | none => simp at hm; exact absurd hm.1 hb
    | some m =>
      rw [Option.getD_some] at hm
      rw [verifiedEvents, if_neg (by simpa using hb), hm, Lines.split_append newline h.whole]
      have := scanFrom_stop (Lines.split newline rest)
        (fun l hl => Lines.ne_nil_of_mem_split newline hl) hxs h
      rwa [Lines.flatten_split, Nat.zero_add] at this

end Verifies

end NthDao
