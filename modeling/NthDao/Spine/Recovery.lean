/-
  Crash atomicity of the log.

  * `Crashed`: what the files can look like when the append of a batch is cut:
    some of its records, and possibly a part of the next one with its intent;
  * `keeps_appendSteps`: they look like that after every durable step;
  * `recover_busy`: the recovery completes the record of the intent;
  * `append_crash_atomic`: after any crash the recovery leaves the old events and
    the first events of the batch.
-/
import NthDao.Spine.Scan

namespace NthDao

open Py

variable {H : Host} {k : H.SecretKey}

/-! ## Batches -/

/-- The bytes of prepared records. -/
def recordBytes (batch : List (SpineEvent × Bytes)) : Bytes :=
  batch.flatMap fun p => p.2 ++ [newline]

/-- A batch prepared after `last` for a log of `baseSize` bytes. -/
inductive PreparedMany (H : Host) (k : H.SecretKey) :
    Option SpineEvent → ℕ → List (SpineEvent × Bytes) → Prop
  | nil (last : Option SpineEvent) (baseSize : ℕ) : PreparedMany H k last baseSize []
  | cons {last : Option SpineEvent} {baseSize : ℕ} {e : SpineEvent} {line : Bytes}
      {rest : List (SpineEvent × Bytes)} : Prepared H k last baseSize e line →
      PreparedMany H k (some e) (baseSize + line.length + 1) rest →
      PreparedMany H k last baseSize ((e, line) :: rest)

theorem preparedMany_of_prepareMany {type : String} {items : List (Dict × ℤ)}
    {last : Option SpineEvent} {baseSize : ℕ} {batch : List (SpineEvent × Bytes)}
    (h : prepareMany H k type last baseSize items = .ok batch) :
    PreparedMany H k last baseSize batch := by
  induction items generalizing last baseSize batch with
  | nil => cases h; exact .nil _ _
  | cons item items ih =>
    obtain ⟨payload, ts⟩ := item
    simp only [prepareMany, bind_eq_ok, pure_eq_ok] at h
    obtain ⟨s, hs, ⟨e, line⟩, hp, rest, hr, rfl⟩ := h
    exact .cons (prepared_of_prepareAppend hs hp) (ih hr)

theorem recordBytes_append (xs ys : List (SpineEvent × Bytes)) :
    recordBytes (xs ++ ys) = recordBytes xs ++ recordBytes ys := List.flatMap_append

theorem recordBytes_singleton (e : SpineEvent) (line : Bytes) :
    recordBytes [(e, line)] = line ++ [newline] := by simp [recordBytes]

/-- The records of a batch extend the verified file, and the next one is
    prepared for what they leave. -/
theorem PreparedMany.verifies {bytes : Bytes} {old : List SpineEvent}
    {done todo : List (SpineEvent × Bytes)} (hv : Verifies H bytes old)
    (h : PreparedMany H k old.getLast? bytes.length (done ++ todo)) :
    Verifies H (bytes ++ recordBytes done) (old ++ done.map Prod.fst) ∧
      PreparedMany H k (old ++ done.map Prod.fst).getLast? (bytes ++ recordBytes done).length
        todo := by
  induction done generalizing bytes old with
  | nil => simpa [recordBytes] using ⟨hv, h⟩
  | cons p done ih =>
    obtain ⟨e, line⟩ := p
    rw [List.cons_append] at h
    cases h with
    | cons hp hrest =>
      have hlen : bytes.length + line.length + 1 = (bytes ++ (line ++ [newline])).length := by
        simp only [List.length_append, List.length_singleton]; omega
      have hlast : some e = (old ++ [e]).getLast? := by rw [List.getLast?_concat]
      rw [hlen, hlast] at hrest
      have := ih (hv.append hp) hrest
      simpa [recordBytes] using this

/-! ## Crash points -/

/-- The files at a point of the append of `batch` to a log with the bytes `base`. -/
inductive Crashed (H : Host) (base : Bytes) (batch : List (SpineEvent × Bytes)) (d : Disk) : Prop
  | idle (done todo : List (SpineEvent × Bytes)) : batch = done ++ todo →
      d.bytes = base ++ recordBytes done → d.pending = none → Crashed H base batch d
  | busy (done todo : List (SpineEvent × Bytes)) (e : SpineEvent) (line intent : Bytes) (cut : ℕ) :
      batch = done ++ (e, line) :: todo →
      d.bytes = base ++ recordBytes done ++ (line ++ [newline]).take cut →
      encodeAppendIntent H (base ++ recordBytes done).length line = .ok intent →
      d.pending = some intent → Crashed H base batch d

/-- Every durable step of a batch leads to such files. -/
theorem keeps_appendSteps {base : Bytes} {old : List SpineEvent} {batch : List (SpineEvent × Bytes)}
    (fate : ℕ → Fate) (hv : Verifies H base old)
    (hp : PreparedMany H k old.getLast? base.length batch) :
    ∀ (todo done : List (SpineEvent × Bytes)) (d : Disk), batch = done ++ todo →
      d.bytes = base ++ recordBytes done → Crashed H base batch d →
      Durable.Keeps (Crashed H base batch) (appendSteps H fate todo) d := by
  intro todo
  induction todo with
  | nil => intro done d _ _ hc; exact hc
  | cons p todo ih =>
    obtain ⟨e, line⟩ := p
    intro done d hb hd hc
    have hnext : ∃ intent, encodeAppendIntent H (base ++ recordBytes done).length line = .ok intent := by
      rw [hb] at hp
      cases (hp.verifies hv).2 with
      | cons h _ => exact h.fits
    obtain ⟨intent, hi⟩ := hnext
    -- the intent, the two parts of the record, and the deletion
    refine ⟨hc, fun d₁ h₁ => ?_⟩
    have hd₁ : d₁ = { d with pending := some intent } := by
      rw [writeAppendIntent, hd, hi] at h₁
      exact (Except.ok.inj h₁).symm
    subst hd₁
    refine ⟨.busy done todo e line intent 0 hb (by simpa [Disk.bytes] using hd) hi rfl,
      fun d₂ h₂ => ?_⟩
    cases h₂
    refine ⟨.busy done todo e line intent (fate todo.length).cut hb ?_ hi rfl, fun d₃ h₃ => ?_⟩
    · rw [Disk.bytes, Option.getD_some]
      exact congrArg (· ++ _) hd
    cases h₃
    have hfull : (line ++ [newline]).take (line ++ [newline]).length = line ++ [newline] :=
      List.take_length
    have hbytes : d.bytes ++ (line ++ [newline]).take (fate todo.length).cut ++
        (line ++ [newline]).drop (fate todo.length).cut =
          base ++ recordBytes done ++ (line ++ [newline]) := by
      rw [List.append_assoc, List.take_append_drop, hd]
    refine ⟨.busy done todo e line intent _ hb (by rw [hfull]; exact hbytes) hi rfl,
      fun d₄ h₄ => ?_⟩
    have hd₄ : d₄.bytes = base ++ recordBytes (done ++ [(e, line)]) := by
      rw [recordBytes_append, recordBytes_singleton, ← List.append_assoc]
      cases h₄
      split_ifs <;> exact hbytes
    refine ih (done ++ [(e, line)]) d₄ (by rw [hb, List.append_assoc]; rfl) hd₄ ?_
    cases hcl : (fate todo.length).cleared with
    | true =>
      rw [hcl] at h₄
      cases h₄
      exact .idle (done ++ [(e, line)]) todo (by rw [hb, List.append_assoc]; rfl) hd₄ rfl
    | false =>
      rw [hcl] at h₄
      cases h₄
      exact .busy done todo e line intent _ hb (by rw [hfull]; exact hbytes) hi rfl

/-! ## Recovery -/

theorem SpineEvent.eqv_refl {e : SpineEvent} (h : (Json.obj e.payload).wf = true) :
    e.eqv e = true := by
  rw [SpineEvent.eqv, Py.eqv_refl _ h, beq_self_eq_true]; rfl

/-- The last byte of a verified file. -/
theorem Verifies.aligned {base : Bytes} {events : List SpineEvent} (h : Verifies H base events)
    (rest : Bytes) :
    (base.length == 0 || (base ++ rest)[base.length - 1]? == some newline) = true := by
  by_cases hb : base = []
  · simp [hb]
  · have hlast := h.whole.getLast? newline hb
    have hpos : 0 < base.length := List.length_pos_iff.2 hb
    rw [List.getLast?_eq_getElem?] at hlast
    rw [List.getElem?_append_left (by omega), hlast]
    simp

/-- The rewrite leaves the whole record. -/
theorem bytes_completeRecord {base : Bytes} (record : Bytes) {cut : ℕ} {d : Disk}
    (hd : d.bytes = base ++ record.take cut) :
    (completeRecord base.length record d).bytes = base ++ record := by
  unfold completeRecord
  split_ifs with hlt
  · rw [Disk.bytes, Option.getD_some, hd, List.take_left]
  · rw [hd, List.length_append, List.length_take] at hlt
    rw [hd, List.take_of_length_le (by omega)]

/-- **The recovery completes the record of the intent.** -/
theorem recover_busy {base line intent : Bytes} {events : List SpineEvent} {e : SpineEvent}
    {cut : ℕ} {d : Disk} (hv : Verifies H base events)
    (hp : Prepared H k events.getLast? base.length e line)
    (hi : encodeAppendIntent H base.length line = .ok intent) (hpend : d.pending = some intent)
    (hd : d.bytes = base ++ (line ++ [newline]).take cut) :
    ∃ r, recover H (asDid H k) d = .ok r ∧ r.pending = none ∧
      r.bytes = base ++ (line ++ [newline]) := by
  set record := line ++ [newline] with hrec
  have hread : readAppendIntent H d.pending = .ok (some (base.length, line)) := by
    rw [hpend]; exact hp.readAppendIntent hi
  have hle : base.length ≤ d.bytes.length := by rw [hd, List.length_append]; omega
  have haligned := hv.aligned (record.take cut)
  rw [← hd] at haligned
  have hbefore : verifiedEvents H (some base.length) d.main = .ok events :=
    hv.verifiedEvents_stop hd
  have hdec : ∀ n, decodeLine line n = .ok e := by
    intro n
    have hnil := hp.decodeLine [] (by simp) (by simpa [utf8] using hp.length_lt.le) n
    simpa [utf8] using hnil
  have hsuffix : (d.bytes.drop base.length).take record.length = record.take cut := by
    rw [hd, List.drop_left, List.take_take]
    rcases Nat.le_total record.length cut with h | h
    · rw [Nat.min_eq_left h, List.take_length, List.take_of_length_le h]
    · rw [Nat.min_eq_right h]
  have hprefix : record.take cut = record.take (record.take cut).length := by
    rw [List.length_take]
    rcases Nat.le_total cut record.length with h | h
    · rw [Nat.min_eq_left h]
    · rw [Nat.min_eq_right h, List.take_length, List.take_of_length_le h]
  have hbytes := bytes_completeRecord record hd
  have hafter : verifiedEvents H none (completeRecord base.length record d).main =
      .ok (events ++ [e]) := by
    rw [verifiedEvents_none, ← Disk.bytes, hbytes]; exact hv.append hp
  have hfound : ((events ++ [e])[e.seq]?.map (SpineEvent.eqv e)).getD false = true := by
    rw [hp.seq, hv.seq]
    simp [SpineEvent.eqv_refl hp.wf]
  refine ⟨{ completeRecord base.length record d with pending := none }, ?_, rfl, hbytes⟩
  simp only [recover, hread, ok_bind, require, hle, decide_true, if_true, haligned, hbefore,
    Except.mapError, hdec, ← hp.line_eq, beq_self_eq_true, hp.seq, hp.prev, hp.author, hp.verifies,
    Except.isOk, Except.toBool, Bool.and_self, ← hrec, hsuffix, ← hprefix, hafter]
  rw [← hp.seq, hfound]
  rfl

/-- A file that starts with the first `j` records of a batch is as long as them. -/
theorem le_of_records {batch done todo : List (SpineEvent × Bytes)} {base bytes : Bytes} {j : ℕ}
    (hb : batch = done ++ todo) (hj : j ≤ batch.length)
    (hpre : base ++ recordBytes (batch.take j) <+: bytes)
    (hlen : bytes.length ≤ (base ++ recordBytes done).length) : j ≤ done.length := by
  by_contra hlt
  have htake : batch.take j = done ++ todo.take (j - done.length) := by
    rw [hb, List.take_append, List.take_of_length_le (by omega)]
  obtain ⟨p, rest, hrest⟩ : ∃ p rest, todo.take (j - done.length) = p :: rest := by
    refine List.exists_cons_of_ne_nil fun h => ?_
    have := congrArg List.length h
    rw [hb, List.length_append] at hj
    rw [List.length_take, List.length_nil] at this
    omega
  have hle := hpre.length_le
  rw [htake, hrest, recordBytes_append] at hle
  simp only [recordBytes, List.flatMap_cons, List.length_append, List.length_singleton] at hle hlen
  omega

/-- **Crash atomicity of the log.**  The append of a prepared batch to a verified
    log is cut after any durable step, with records cut anywhere and intents that
    could not be deleted.  The next recovery succeeds and leaves no intent, and
    the log verifies with the old events and the first `m` of the batch, among
    them all whose record was complete. -/
theorem append_crash_atomic {d : Disk} {old : List SpineEvent} {type : String}
    {items : List (Dict × ℤ)} {batch : List (SpineEvent × Bytes)}
    (hv : verifiedEvents H none d.main = .ok old) (hnone : d.pending = none)
    (hp : prepareMany H k type old.getLast? d.bytes.length items = .ok batch) (fate : ℕ → Fate)
    (n : ℕ) :
    ∃ r, recover H (asDid H k) (Durable.run (appendSteps H fate batch) n d).1 = .ok r ∧
      r.pending = none ∧
      ∃ m ≤ batch.length,
        verifiedEvents H none r.main = .ok (old ++ (batch.take m).map Prod.fst) ∧
        ∀ j ≤ batch.length, d.bytes ++ recordBytes (batch.take j) <+:
          (Durable.run (appendSteps H fate batch) n d).1.bytes → j ≤ m := by
  rw [verifiedEvents_none, ← Disk.bytes] at hv
  have hmany := preparedMany_of_prepareMany hp
  have hstart : Crashed H d.bytes batch d :=
    .idle [] batch rfl (by rw [recordBytes, List.flatMap_nil, List.append_nil]) hnone
  have hcrash := Durable.run_keeps (keeps_appendSteps fate hv hmany batch [] d rfl
    (by rw [recordBytes, List.flatMap_nil, List.append_nil]) hstart) n
  set d' := (Durable.run (appendSteps H fate batch) n d).1 with hd'
  cases hcrash with
  | idle done todo hb hbytes hpend =>
    have hdone := (PreparedMany.verifies hv (hb ▸ hmany)).1
    refine ⟨d', ?_, hpend, done.length, by rw [hb, List.length_append]; omega, ?_, ?_⟩
    · rw [recover, hpend]; rfl
    · rw [verifiedEvents_none, ← Disk.bytes, hbytes, hb, List.take_left]; exact hdone
    · intro j hj hpre
      exact le_of_records hb hj hpre (by rw [hbytes])
  | busy done todo e line intent cut hb hbytes hi hpend =>
    obtain ⟨hdone, hrest⟩ := PreparedMany.verifies hv (hb ▸ hmany)
    cases hrest with
    | cons hprep _ =>
      obtain ⟨r, hr, hrpend, hrbytes⟩ := recover_busy hdone hprep hi hpend hbytes
      have hb' : batch = (done ++ [(e, line)]) ++ todo := by rw [hb, List.append_assoc]; rfl
      refine ⟨r, hr, hrpend, (done ++ [(e, line)]).length, ?_, ?_, ?_⟩
      · rw [hb']; simp only [List.length_append]; omega
      · have hafter := hdone.append hprep
        rw [List.append_assoc old] at hafter
        rw [verifiedEvents_none, ← Disk.bytes, hrbytes, hb', List.take_left, List.map_append]
        exact hafter
      · intro j hj hpre
        refine le_of_records hb' hj hpre ?_
        rw [hbytes, recordBytes_append, recordBytes_singleton, ← List.append_assoc]
        simp only [List.length_append, List.length_take]
        omega

/-- One note. -/
def oneNote : List (Dict × ℤ) := [(⟨[("b", .int 1), ("a", .str "x")], by decide⟩, 5)]

/-- Its batch has one record. -/
def oneNotePrepared : PLift ((prepareMany checksumHost (1 : UInt8) "note" none 0 oneNote).toOption.map
    List.length = some 1) := ⟨by decide +kernel⟩

/-- The crash of an append to an empty log in the middle of its record. -/
theorem append_crash_atomic_sample :
    ∃ batch r, batch.length = 1 ∧ recover checksumHost (asDid checksumHost (1 : UInt8))
      (Durable.run (appendSteps checksumHost (fun _ => ⟨7, false⟩) batch) 2 {}).1 = .ok r ∧
      r.pending = none := by
  have hprep := oneNotePrepared.down
  cases h : prepareMany checksumHost (1 : UInt8) "note" none 0 oneNote with
  | error e => rw [h] at hprep; cases hprep
  | ok batch =>
    rw [h] at hprep
    obtain ⟨r, hr, hnone, -⟩ :=
      append_crash_atomic (H := checksumHost) (d := {}) rfl rfl h (fun _ => ⟨7, false⟩) 2
    exact ⟨batch, r, Option.some.inj hprep, hr, hnone⟩

end NthDao
