/-
  What the calls of the fetch journal do to its table.

  * `Valid`: what the decoder asks of a row, and `record_eq_ok`: that it asks no more;
  * `valid_newRow`: the row of a new request;
  * `Rewritten`: a table in which one valid row was replaced by another;
  * `reserve_spec`, `markAudited_spec`, `claim_spec`, `release_spec`, `complete_spec`,
    `purge_spec`: the calls.
-/
import NthDao.TradeRules.FetchJournal

namespace NthDao.TradeRules.Fetch

open Py

variable {H : Host} {toNs : ℚ → ℤ}

/-! ## Valid rows -/

variable (H) in
/-- What the decoder asks of a row. -/
structure Valid (row : Row) : Prop where
  did : isDidKey row.requesterDid = true
  nonce : isNonce row.nonce = true
  request : ∃ document, canonicalDocument row.requestBytes = .ok document ∧
    Json.get document.fields "request_id" = .str row.requestId ∧
    Json.get document.fields "requester_did" = .str row.requesterDid ∧
    Json.get document.fields "nonce" = .str row.nonce ∧
    timestampNs (Json.get document.fields "not_after") "retained request.not_after" = .ok row.notAfterNs
  response : ∃ document, responseDocument row.responseBytes = .ok document ∧
    checkResponseBinding row document = .ok ()
  requestDigest : checkRetainedDigest H row.requestDigest "request" row.requestBytes = .ok ()
  audit : row.auditEventId.elim (.ok ()) (fun id => checkToken id "retained audit_event_id") = .ok ()
  lease : checkLease row.processingOwner row.leaseUntilNs = .ok ()
  responseDigest : checkResponseDigest H row.responseDigest row.responseBytes = .ok ()
  retry : 1 ≤ row.nextRetryAtNs ∧ row.nextRetryAtNs ≤ maxTransportTimestampNs
  observed : 1 ≤ row.observedAtNs ∧ row.observedAtNs ≤ maxTransportTimestampNs
  updated : 1 ≤ row.updatedAtNs ∧ row.updatedAtNs ≤ maxTransportTimestampNs
  notAfter : 1 ≤ row.notAfterNs ∧ row.notAfterNs ≤ maxTransportTimestampNs
  chronology : row.observedAtNs ≤ row.updatedAtNs
  attempts : 0 ≤ row.attemptCount
  attempted : row.processingOwner.isSome = true → row.attemptCount ≠ 0
  idle : row.responseBytes.isSome = true → row.processingOwner = none
  answered : row.auditEventId.isSome = true → row.responseBytes.isSome = true
  bytes : row.totalBytes = row.bytes
  size : row.totalBytes ≤ maxJournalRecordBytes

theorem checkTimestamp_eq_ok {value : ℤ} {label : String} {u : Unit} :
    checkTimestamp value label = .ok u ↔ 1 ≤ value ∧ value ≤ maxTransportTimestampNs := by
  rw [checkTimestamp, require_eq_ok, Bool.and_eq_true, decide_eq_true_eq, decide_eq_true_eq]

theorem checkToken_eq_ok {value label : String} {u : Unit} :
    checkToken value label = .ok u ↔ isHex 64 (chars value) = true := by
  rw [checkToken, require_eq_ok]

/-- **The decoder** returns the row, exactly if it is valid. -/
theorem record_eq_ok {row r : Row} : record H row = .ok r ↔ r = row ∧ Valid H row := by
  simp only [record, bind_eq_ok, pure_eq_ok, mapError_eq_ok]
  constructor
  · rintro ⟨_, hdid, _, hnonce, document, hdoc, response, hresp, _, hdigest, _, haudit, _, hlease, _,
      hrdigest, _, hindex, _, hbinding, _, hretry, _, hobs, _, hupd, _, hna, expected, hexp, _, hbind, _,
      hchron, _, hstate, _, hbytes, rfl⟩
    simp only [checkTimestamp_eq_ok] at hretry hobs hupd hna
    simp only [require_eq_ok, Bool.and_eq_true, Json.eqStr_iff, beq_iff_eq, decide_eq_true_eq,
      Bool.not_eq_true', Bool.and_eq_false_iff] at hdid hnonce hindex hbind hchron hstate hbytes
    obtain ⟨⟨⟨hatt, howner⟩, hresponse⟩, haud⟩ := hstate
    refine ⟨rfl, hdid, hnonce, ⟨document, hdoc, hindex.1.1, hindex.1.2, hindex.2, ?_⟩,
      ⟨response, hresp, hbinding⟩, hdigest, haudit, hlease, hrdigest, hretry, hobs, hupd, hna, hchron,
      hatt, ?_, ?_, ?_, hbytes.1, hbytes.2⟩
    · rw [hbind]
      exact hexp
    · intro ho
      rcases howner with hn | hn
      · rw [ho] at hn
        cases hn
      · simpa using hn
    · intro hr
      rcases hresponse with hn | hn
      · rw [hr] at hn
        cases hn
      · simpa using hn
    · intro ha
      rcases haud with hn | hn
      · rw [ha] at hn
        cases hn
      · cases hb : row.responseBytes with
        | none => rw [hb] at hn; cases hn
        | some b => rfl
  · rintro ⟨rfl, h⟩
    obtain ⟨document, hdoc, hid, hdid, hnonce, hexp⟩ := h.request
    obtain ⟨response, hresp, hbinding⟩ := h.response
    refine ⟨(), ?_, (), ?_, document, hdoc, response, hresp, (), h.requestDigest, (), h.audit, (), h.lease,
      (), h.responseDigest, (), ?_, (), hbinding, (), checkTimestamp_eq_ok.2 h.retry, (),
      checkTimestamp_eq_ok.2 h.observed, (), checkTimestamp_eq_ok.2 h.updated, (),
      checkTimestamp_eq_ok.2 h.notAfter, _, hexp, (), ?_, (), ?_, (), ?_, (), ?_, rfl⟩
    · exact require_eq_ok.2 h.did
    · exact require_eq_ok.2 h.nonce
    · rw [require_eq_ok, hid, hdid, hnonce]
      simp
    · simp
    · simpa using h.chronology
    · rw [require_eq_ok]
      have h₁ := h.attempts
      have h₂ := h.attempted
      have h₃ := h.idle
      have h₄ := h.answered
      cases hp : r.processingOwner <;> cases hr : r.responseBytes <;> cases ha : r.auditEventId <;>
        simp_all
    · rw [require_eq_ok, h.bytes]
      have := h.size
      rw [h.bytes] at this
      simpa using this

/-! ## The request behind a row -/

/-- What a timestamp is does not depend on its label. -/
theorem timestampNs_label {value : Json} {label label' : String} {ns : ℤ}
    (h : timestampNs value label = .ok ns) : timestampNs value label' = .ok ns := by
  simp only [timestampNs, bind_eq_ok, expect_eq_ok, require_eq_ok, pure_eq_ok] at h ⊢
  exact h

theorem timestampNs_le {value : Json} {label : String} {ns : ℤ}
    (h : timestampNs value label = .ok ns) : ns ≤ maxTransportTimestampNs := by
  simp only [timestampNs, bind_eq_ok, pure_eq_ok] at h
  obtain ⟨_, -, _, -, _, -, _, -, _, hr, rfl⟩ := h
  rw [require_eq_ok, Bool.and_eq_true, decide_eq_true_eq, decide_eq_true_eq] at hr
  exact hr.2

/-- Signed bytes are canonical. -/
theorem canonicalDocument_signed {F : Format} (d : SignedDocument H F) :
    canonicalDocument d.canonicalBytes = .ok d.document := by
  simp only [canonicalDocument, bind_eq_ok, expect_eq_ok, mapError_eq_ok, pure_eq_ok]
  exact ⟨_, d.parses, _, d.encodes, (), by rw [require_eq_ok]; exact beq_self_eq_true _, rfl⟩

theorem checkRetainedDigest_sha256 (what : String) (raw : Bytes) :
    checkRetainedDigest H ("sha256:" ++ H.sha256 raw) what raw = .ok () := by
  rw [checkRetainedDigest, isDigest_sha256]
  simp [require, bind, Except.bind]

/-- The row of a request whose time ends after 1970 is valid. -/
theorem valid_newRow {request : FetchRequest H} {observed expiry : ℤ}
    (ho : 1 ≤ observed ∧ observed ≤ maxTransportTimestampNs)
    (he : timestampNs (request.field "not_after") "request.not_after" = .ok expiry)
    (hpos : 1 ≤ expiry) : Valid H (newRow request observed expiry) := by
  obtain ⟨id, nonce, did, _, hid, ⟨hnonce, hnonceOk⟩, ⟨hdid, hdidOk⟩, -, hlen⟩ := request_fields request
  have text : ∀ {name s}, request.field name = .str s → request.text name = s := by
    intro name s h
    rw [FetchRequest.text, h]
    rfl
  refine
    { did := ?_, nonce := ?_, request := ?_, response := ⟨none, rfl, rfl⟩, requestDigest := ?_
      audit := rfl, lease := rfl, responseDigest := rfl, retry := ho, observed := ho, updated := ho
      notAfter := ⟨hpos, timestampNs_le he⟩, chronology := le_refl _, attempts := le_refl _
      attempted := nofun, idle := nofun, answered := nofun, bytes := ?_, size := ?_ }
  · rw [newRow, text hdid]
    exact hdidOk
  · rw [newRow, text hnonce]
    exact hnonceOk
  · refine ⟨_, canonicalDocument_signed request.signed, ?_, ?_, ?_, timestampNs_label he⟩
    · change request.field "request_id" = .str (request.text "request_id")
      rw [text hid, hid]
    · change request.field "requester_did" = .str (request.text "requester_did")
      rw [text hdid, hdid]
    · change request.field "nonce" = .str (request.text "nonce")
      rw [text hnonce, hnonce]
  · exact checkRetainedDigest_sha256 "request" request.canonicalBytes
  · simp [newRow, Row.bytes]
  · have : request.canonicalBytes.length ≤ maxJournalRecordBytes := hlen.trans (by decide)
    exact Int.ofNat_le.2 this

/-! ## Transactions -/

/-- What a rewritten row keeps. -/
structure Kept (row row' : Row) : Prop where
  key : row'.key = row.key
  requestBytes : row'.requestBytes = row.requestBytes
  notAfter : row'.notAfterNs = row.notAfterNs
  response : ∀ raw, row.responseBytes = some raw → row'.responseBytes = some raw
  audit : ∀ id, row.auditEventId = some id → row'.auditEventId = some id

theorem Kept.refl (row : Row) : Kept row row := ⟨rfl, rfl, rfl, fun _ h => h, fun _ h => h⟩

theorem Kept.trans {r s t : Row} (h : Kept r s) (h' : Kept s t) : Kept r t :=
  ⟨h'.key.trans h.key, h'.requestBytes.trans h.requestBytes, h'.notAfter.trans h.notAfter,
    fun raw hr => h'.response raw (h.response raw hr), fun id hi => h'.audit id (h.audit id hi)⟩

variable (H) in
/-- The row of `key` becomes `row'`. -/
structure Rewritten (key : String × String) (table table' : Table) (row row' : Row) : Prop where
  found : table.find key = some row
  valid : Valid H row
  valid' : Valid H row'
  kept : Kept row row'
  table : table' = table.update key fun _ => row'

theorem commit_eq {α : Type} {table table' : Table} {body : Except JournalError (Table × Row × α)}
    {r : Except JournalError (Row × α)} (h : commit H table body = (table', r)) :
    (table' = table ∧ ∃ e, r = .error e) ∨
      ∃ row a, body = .ok (table', row, a) ∧ r = (record H row).map fun r => (r, a) := by
  cases body with
  | error e =>
    obtain ⟨rfl, rfl⟩ := Prod.mk.inj h
    exact .inl ⟨rfl, e, rfl⟩
  | ok b =>
    obtain ⟨t, row, a⟩ := b
    obtain ⟨rfl, rfl⟩ := Prod.mk.inj h
    exact .inr ⟨row, a, rfl, rfl⟩

theorem map_record {α : Type} {row : Row} (h : Valid H row) (a : α) :
    ((record H row).map fun r => (r, a)) = .ok (row, a) := by
  rw [record_eq_ok.2 ⟨rfl, h⟩]
  rfl

theorem find_key {table : Table} {key : String × String} {row : Row} (h : table.find key = some row) :
    row ∈ table ∧ row.key = key :=
  ⟨List.mem_of_find?_eq_some h, by simpa using List.find?_some h⟩

theorem reserved_eq_ok {table : Table} {request : FetchRequest H} {text : String} {row : Row} :
    reserved table request text = .ok row ↔ table.find (requestKey request) = some row ∧ Valid H row ∧
      row.requestBytes = request.canonicalBytes := by
  simp only [reserved, bind_eq_ok, record_eq_ok, pure_eq_ok]
  simp only [require_eq_ok, expect_eq_ok, beq_iff_eq]
  constructor
  · rintro ⟨r, hf, _, ⟨rfl, hv⟩, _, hb, rfl⟩
    exact ⟨hf, hv, hb⟩
  · rintro ⟨hf, hv, hb⟩
    exact ⟨row, hf, row, ⟨rfl, hv⟩, (), hb, rfl⟩

/-- **Reserving** inserts the row of a request whose nonce was not used. -/
theorem reserve_spec (journal : Journal) (request : FetchRequest H) (atNs : ℤ) (table : Table) :
    (reserve journal request atNs table).1 = table ∨
      table.find (requestKey request) = none ∧ ∃ expiry,
        timestampNs (request.field "not_after") "request.not_after" = .ok expiry ∧
        (1 ≤ atNs ∧ atNs ≤ maxTransportTimestampNs) ∧
        (reserve journal request atNs table).1 = table ++ [newRow request atNs expiry] := by
  rcases commit_eq (h := (Prod.mk.eta (p := reserve journal request atNs table)).symm) with
    ⟨ht, -⟩ | ⟨row, flag, hb, -⟩
  · exact .inl ht
  · simp only [bind_eq_ok, mapError_eq_ok] at hb
    obtain ⟨_, hat, expiry, hexp, _, -, hb⟩ := hb
    cases hf : table.find (requestKey request) with
    | some row =>
      simp only [hf, bind_eq_ok, pure_eq_ok, Prod.mk.injEq] at hb
      obtain ⟨_, -, _, -, ht, -⟩ := hb
      exact .inl ht.symm
    | none =>
      simp only [hf, bind_eq_ok, pure_eq_ok, Prod.mk.injEq] at hb
      obtain ⟨_, -, _, -, ht, -⟩ := hb
      exact .inr ⟨rfl, expiry, hexp, checkTimestamp_eq_ok.1 hat, ht.symm⟩

/-- **An audit** is bound to the exchange once. -/
theorem markAudited_spec (request : FetchRequest H) (response : FetchResponse H) (event : Audit)
    (atNs : ℤ) (table : Table) :
    (markAudited request response event atNs table).1 = table ∨ ∃ row audited,
      Rewritten H (requestKey request) table (markAudited request response event atNs table).1 row audited ∧
        audited.processingOwner = row.processingOwner ∧ audited.leaseUntilNs = row.leaseUntilNs := by
  rcases commit_eq (h := (Prod.mk.eta (p := markAudited request response event atNs table)).symm) with
    ⟨ht, -⟩ | ⟨audited, u, hb, -⟩
  · exact .inl ht
  · simp only [bind_eq_ok, mapError_eq_ok, record_eq_ok] at hb
    obtain ⟨_, -, _, -, _, -, _, hid, _, hat, _, hf, row, ⟨rfl, hv⟩, _, hbind, hb⟩ := hb
    rw [require_eq_ok, Bool.and_eq_true, beq_iff_eq, beq_iff_eq] at hbind
    rw [expect_eq_ok] at hf
    split at hb
    · simp only [bind_eq_ok, pure_eq_ok, Prod.mk.injEq] at hb
      obtain ⟨_, -, ht, -⟩ := hb
      exact .inl ht.symm
    · rename_i ha
      simp only [pure_eq_ok, Prod.mk.injEq] at hb
      obtain ⟨ht, rfl, -⟩ := hb
      have hat := checkTimestamp_eq_ok.1 hat
      have hv' : Valid H { row with
          auditEventId := some event.eventId, updatedAtNs := max atNs row.updatedAtNs } := by
        refine { hv with audit := ?_, updated := ?_, chronology := ?_, answered := ?_ }
        · exact checkToken_eq_ok.2 (checkToken_eq_ok.1 hid)
        · exact ⟨le_max_of_le_left hat.1, max_le hat.2 hv.updated.2⟩
        · exact le_max_of_le_right hv.chronology
        · intro _
          rw [hbind.2]
          rfl
      refine .inr ⟨row, _, ⟨hf, hv, hv', ⟨rfl, rfl, rfl, fun _ h => h, fun id h => ?_⟩, ?_⟩, rfl, rfl⟩
      · rw [ha] at h
        cases h
      · rw [← ht, (find_key hf).2]

variable (toNs) in
/-- **A claim** is answered by the lease that is there, or writes a new one where none is
    unexpired. -/
theorem claim_spec (request : FetchRequest H) (owner : String) (atNs : ℤ) (leaseSeconds : ℚ)
    (table : Table) :
    ((claimProcessing toNs request owner atNs leaseSeconds table).1 = table ∧
      ∀ row, (claimProcessing toNs request owner atNs leaseSeconds table).2 = .ok (row, true) →
        table.find (requestKey request) = some row ∧ row.processingOwner = some owner ∧
          ∃ leaseUntil, row.leaseUntilNs = some leaseUntil) ∨
    ∃ row claimed leaseUntil,
      Rewritten H (requestKey request) table
        (claimProcessing toNs request owner atNs leaseSeconds table).1 row claimed ∧
      (claimProcessing toNs request owner atNs leaseSeconds table).2 = .ok (claimed, true) ∧
      (∀ expiring, row.processingOwner.isSome = true → row.leaseUntilNs = some expiring → expiring ≤ atNs) ∧
      claimed.processingOwner = some owner ∧ claimed.leaseUntilNs = some leaseUntil := by
  rcases commit_eq (h := (Prod.mk.eta
    (p := claimProcessing toNs request owner atNs leaseSeconds table)).symm) with
    ⟨ht, e, hr⟩ | ⟨claimed, flag, hb, hr⟩
  · exact .inl ⟨ht, fun row h => by rw [hr] at h; cases h⟩
  · simp only [bind_eq_ok, reserved_eq_ok] at hb
    obtain ⟨_, howner, _, hat, _, -, _, -, _, hlease, row, ⟨hf, hv, hbytes⟩, hb⟩ := hb
    have hat := checkTimestamp_eq_ok.1 hat
    have hlease := checkTimestamp_eq_ok.1 hlease
    split_ifs at hb with hdone hbusy hretry
    · simp only [pure_eq_ok, Prod.mk.injEq] at hb
      obtain ⟨ht, rfl, rfl⟩ := hb
      refine .inl ⟨ht.symm, fun row' h => ?_⟩
      rw [hr, map_record hv] at h
      cases h
    · simp only [pure_eq_ok, Prod.mk.injEq] at hb
      obtain ⟨ht, rfl, rfl⟩ := hb
      refine .inl ⟨ht.symm, fun row' h => ?_⟩
      rw [hr, map_record hv] at h
      obtain ⟨rfl, hown⟩ := Prod.mk.inj (Except.ok.inj h)
      rw [Bool.and_eq_true, Option.any_eq_true] at hbusy
      obtain ⟨-, expiring, hexp, -⟩ := hbusy
      exact ⟨hf, by simpa using hown, expiring, hexp⟩
    · simp only [pure_eq_ok, Prod.mk.injEq] at hb
      obtain ⟨ht, rfl, rfl⟩ := hb
      refine .inl ⟨ht.symm, fun row' h => ?_⟩
      rw [hr, map_record hv] at h
      cases h
    · simp only [pure_eq_ok, Prod.mk.injEq] at hb
      obtain ⟨ht, rfl, rfl⟩ := hb
      have hv' : Valid H { row with
          processingOwner := some owner, leaseUntilNs := some (atNs + toNs leaseSeconds)
          attemptCount := row.attemptCount + 1, updatedAtNs := max atNs row.updatedAtNs } := by
        have hnone : row.responseBytes = none := by simpa using hdone
        refine { hv with lease := ?_, updated := ?_, chronology := ?_, attempts := ?_, attempted := ?_
                         idle := ?_ }
        · simp only [checkLease, bind_eq_ok, expect_eq_ok]
          exact ⟨(), checkToken_eq_ok.2 (checkToken_eq_ok.1 howner), _, rfl, checkTimestamp_eq_ok.2 hlease⟩
        · exact ⟨le_max_of_le_left hat.1, max_le hat.2 hv.updated.2⟩
        · exact le_max_of_le_right hv.chronology
        · have := hv.attempts
          change 0 ≤ row.attemptCount + 1
          omega
        · intro _
          have := hv.attempts
          change row.attemptCount + 1 ≠ 0
          omega
        · intro h
          rw [hnone] at h
          cases h
      refine .inr ⟨row, _, _, ⟨hf, hv, hv', ⟨rfl, rfl, rfl, fun _ h => h, fun _ h => h⟩, ?_⟩,
        by rw [hr, map_record hv'], ?_, rfl, rfl⟩
      · rw [← ht, (find_key hf).2]
      · intro expiring ho hexp
        rw [Bool.and_eq_true, ho, hexp] at hbusy
        simpa using hbusy

variable (toNs) in
/-- **A release** gives back the lease of its worker. -/
theorem release_spec (request : FetchRequest H) (owner : String) (atNs : ℤ) (retryAfterSeconds : ℚ)
    (table : Table) :
    ((releaseProcessing toNs request owner atNs retryAfterSeconds table).1 = table ∧
      ∀ row, (releaseProcessing toNs request owner atNs retryAfterSeconds table).2 ≠ .ok (row, true)) ∨
    ∃ row released,
      Rewritten H (requestKey request) table
        (releaseProcessing toNs request owner atNs retryAfterSeconds table).1 row released ∧
      (releaseProcessing toNs request owner atNs retryAfterSeconds table).2 = .ok (released, true) ∧
      row.processingOwner = some owner := by
  rcases commit_eq (h := (Prod.mk.eta
    (p := releaseProcessing toNs request owner atNs retryAfterSeconds table)).symm) with
    ⟨ht, e, hr⟩ | ⟨released, flag, hb, hr⟩
  · exact .inl ⟨ht, fun row h => by rw [hr] at h; cases h⟩
  · simp only [bind_eq_ok, reserved_eq_ok] at hb
    obtain ⟨_, -, _, hat, _, -, _, hretry, row, ⟨hf, hv, hbytes⟩, hb⟩ := hb
    have hat := checkTimestamp_eq_ok.1 hat
    split_ifs at hb with hdone
    · simp only [pure_eq_ok, Prod.mk.injEq] at hb
      obtain ⟨ht, rfl, rfl⟩ := hb
      refine .inl ⟨ht.symm, fun row' h => ?_⟩
      rw [hr, map_record hv] at h
      cases h
    · simp only [bind_eq_ok, pure_eq_ok, Prod.mk.injEq] at hb
      obtain ⟨_, howner, ht, rfl, rfl⟩ := hb
      rw [require_eq_ok, beq_iff_eq] at howner
      have hv' : Valid H { row with
          processingOwner := none, leaseUntilNs := none, nextRetryAtNs := atNs + toNs retryAfterSeconds
          updatedAtNs := max atNs row.updatedAtNs } :=
        { hv with
          lease := rfl
          retry := checkTimestamp_eq_ok.1 hretry
          updated := ⟨le_max_of_le_left hat.1, max_le hat.2 hv.updated.2⟩
          chronology := le_max_of_le_right hv.chronology
          attempted := fun h => by cases h
          idle := fun _ => rfl }
      exact .inr ⟨row, _, ⟨hf, hv, hv', ⟨rfl, rfl, rfl, fun _ h => h, fun _ h => h⟩,
        by rw [← ht, (find_key hf).2]⟩, by rw [hr, map_record hv'], howner⟩

theorem checkCompletion_eq_ok {journal : Journal} {table : Table} {row : Row} {owner : String}
    {response : Bytes} {atNs : ℤ} {u : Unit}
    (h : checkCompletion journal table row owner response atNs = .ok u) :
    row.processingOwner = some owner ∧ row.observedAtNs ≤ atNs ∧
      row.requestBytes.length + response.length ≤ maxJournalRecordBytes := by
  simp only [checkCompletion, bind_eq_ok] at h
  simp only [require_eq_ok, beq_iff_eq, decide_eq_true_eq] at h
  obtain ⟨_, howner, _, hobs, _, hlen, -⟩ := h
  exact ⟨howner, hobs, hlen⟩

/-- The bytes of a valid row are those of its request. -/
theorem Valid.fields {row : Row} (hv : Valid H row) {request : FetchRequest H}
    (hb : row.requestBytes = request.canonicalBytes) :
    request.field "request_id" = .str row.requestId ∧
      request.field "requester_did" = .str row.requesterDid ∧ row.requestDigest = request.digest := by
  obtain ⟨document, hdoc, hid, hdid, -⟩ := hv.request
  rw [hb, FetchRequest.canonicalBytes, canonicalDocument_signed] at hdoc
  cases hdoc
  have hd := hv.requestDigest
  simp only [checkRetainedDigest, bind_eq_ok] at hd
  simp only [require_eq_ok, beq_iff_eq] at hd
  obtain ⟨-, -, hd⟩ := hd
  refine ⟨hid, hdid, hd.trans ?_⟩
  rw [hb]
  rfl

/-- **A completion** stores the response of the worker with the lease; any other answers only
    with the response that is there. -/
theorem complete_spec (journal : Journal) (request : FetchRequest H) (response : FetchResponse H)
    (owner : String) (atNs : ℤ) (table : Table) :
    ((complete journal request response owner atNs table).1 = table ∧
      ∀ row flag, (complete journal request response owner atNs table).2 = .ok (row, flag) →
        flag = false ∧ table.find (requestKey request) = some row ∧
          row.responseBytes = some response.canonicalBytes) ∨
    ∃ row completed,
      Rewritten H (requestKey request) table
        (complete journal request response owner atNs table).1 row completed ∧
      (complete journal request response owner atNs table).2 = .ok (completed, true) ∧
      row.processingOwner = some owner := by
  rcases commit_eq (h := (Prod.mk.eta
    (p := complete journal request response owner atNs table)).symm) with
    ⟨ht, e, hr⟩ | ⟨completed, flag, hb, hr⟩
  · exact .inl ⟨ht, fun row flag h => by rw [hr] at h; cases h⟩
  · simp only [bind_eq_ok, reserved_eq_ok] at hb
    obtain ⟨_, -, _, hat, _, hbind, row, ⟨hf, hv, hbytes⟩, hb⟩ := hb
    have hat := checkTimestamp_eq_ok.1 hat
    obtain ⟨hid, hdid, hdigest⟩ := hv.fields hbytes
    split at hb
    · rename_i raw hraw
      simp only [bind_eq_ok, pure_eq_ok, Prod.mk.injEq] at hb
      obtain ⟨_, hsame, ht, rfl, rfl⟩ := hb
      rw [require_eq_ok, beq_iff_eq] at hsame
      refine .inl ⟨ht.symm, fun row' flag h => ?_⟩
      rw [hr, map_record hv] at h
      cases h
      exact ⟨rfl, hf, by rw [hraw, hsame]⟩
    · rename_i hnone
      simp only [bind_eq_ok, pure_eq_ok, Prod.mk.injEq] at hb
      obtain ⟨_, hcheck, ht, rfl, rfl⟩ := hb
      obtain ⟨howner, hobs, hlen⟩ := checkCompletion_eq_ok hcheck
      have hv' : Valid H { row with
          responseDigest := some ("sha256:" ++ H.sha256 response.canonicalBytes)
          responseBytes := some response.canonicalBytes
          processingOwner := none, leaseUntilNs := none, nextRetryAtNs := atNs, updatedAtNs := atNs
          totalBytes := (row.requestBytes.length + response.canonicalBytes.length : ℕ) } := by
        refine { hv with response := ⟨some response.signed.document, ?_, ?_⟩, lease := rfl
                         responseDigest := ?_, retry := hat, updated := hat, chronology := hobs
                         attempted := fun h => by cases h
                         idle := fun _ => rfl, answered := fun _ => rfl
                         bytes := rfl, size := Int.ofNat_le.2 hlen }
        · change (canonicalDocument response.signed.canonicalBytes).map some = _
          rw [canonicalDocument_signed]
          rfl
        · rw [require_eq_ok, Bool.and_eq_true, Bool.and_eq_true, beq_iff_eq, beq_iff_eq] at hbind
          rw [checkResponseBinding, require_eq_ok, Bool.and_eq_true, Bool.and_eq_true, Json.eqStr_iff,
            Json.eqStr_iff, Json.eqStr_iff]
          exact ⟨⟨hbind.1.1.trans hid, (Json.eqStr_iff.1 hbind.1.2).trans (by rw [hdigest])⟩,
            hbind.2.trans hdid⟩
        · exact checkRetainedDigest_sha256 "response" response.canonicalBytes
      refine .inr ⟨row, _, ⟨hf, hv, hv', ⟨rfl, rfl, rfl, fun _ h => ?_, fun _ h => h⟩,
        by rw [← ht, (find_key hf).2]⟩, by rw [hr, map_record hv'], howner⟩
      rw [hnone] at h
      cases h

theorem records_eq_ok {rows rs : List Row} (h : records H rows = .ok rs) :
    rs = rows ∧ ∀ row ∈ rows, Valid H row := by
  induction rows generalizing rs with
  | nil =>
    cases h
    exact ⟨rfl, List.forall_mem_nil _⟩
  | cons row rows ih =>
    simp only [records, bind_eq_ok, record_eq_ok, pure_eq_ok] at h
    obtain ⟨_, ⟨rfl, hv⟩, _, hrs, rfl⟩ := h
    obtain ⟨rfl, hall⟩ := ih hrs
    exact ⟨rfl, List.forall_mem_cons.2 ⟨hv, hall⟩⟩

/-- The time before which a request has to have ended for its row to be deleted. -/
def cutoff (toNs : ℚ → ℤ) (atNs : ℤ) (clockSkewSeconds : ℚ) : ℤ := atNs - toNs clockSkewSeconds

variable (H toNs) in
/-- **A purge** deletes rows that may be deleted, and writes nothing. -/
theorem purge_spec (atNs : ℤ) (clockSkewSeconds : ℚ) (limit : ℕ) {table : Table}
    (hn : (table.map Row.key).Nodup) :
    (purgeIneligibleReplays H toNs atNs clockSkewSeconds limit table).1.Sublist table ∧
      ∀ row ∈ table, row ∉ (purgeIneligibleReplays H toNs atNs clockSkewSeconds limit table).1 →
        row.ineligible (cutoff toNs atNs clockSkewSeconds) atNs = true := by
  rw [purgeIneligibleReplays]
  cases hp : purgeRows H toNs atNs clockSkewSeconds limit table with
  | error e => exact ⟨List.Sublist.refl _, fun row h hout => absurd h hout⟩
  | ok rows =>
    refine ⟨List.filter_sublist, fun row hmem hout => ?_⟩
    simp only [purgeRows, bind_eq_ok] at hp
    obtain ⟨_, -, _, -, _, -, hrows⟩ := hp
    obtain ⟨rfl, -⟩ := records_eq_ok hrows
    simp only [List.mem_filter, hmem, true_and, Bool.not_eq_true', Bool.not_eq_false,
      List.contains_iff_mem, List.mem_map] at hout
    obtain ⟨row', hmem', hkey⟩ := hout
    have hin := List.mem_filter.1 ((List.mem_insertionSort Row.before).1 (List.mem_of_mem_take hmem'))
    have : row' = row := List.inj_on_of_nodup_map hn hin.1 hmem hkey
    exact this ▸ hin.2

end NthDao.TradeRules.Fetch
