/-
  The records of the commerce outbox as files.

  * `CommerceOutbox.get`: the record of a message;
  * `UrlSplits`: what the outbox relies on of `urlsplit`;
  * `OutboxRecord.Sound`: the records that `_decode_record` returns unchanged;
  * `freshBytes`: the bytes of the record of a new message.
-/
import NthDao.Commerce.OutboxLeases
import NthDao.Py.Str
import NthDao.Py.Norm

namespace NthDao

namespace Commerce

open Py

variable (urlsplit : String → Option SplitResult) (H : Host)

/-! ## Reading -/

/-- `get`: the record, in the active or the archived file, and that file rewritten
    if its error is not the one read. -/
def CommerceOutbox.get (s : CommerceOutbox) (messageId : String) :
    Except Fault (Option OutboxRecord × CommerceOutbox) := do
  let path ← pathOf messageId
  match ← loadRecord path (s.active path) with
  | some value =>
    let r ← decodeRecord urlsplit path value
    if eqv (Json.get value "last_error") (.str r.lastError) then return (some r, s)
    else return (some r, s.write path r)
  | none =>
    match ← loadRecord path (s.archive path) with
    | some value =>
      let r ← decodeRecord urlsplit path value
      if eqv (Json.get value "last_error") (.str r.lastError) then return (some r, s)
      else return (some r, { s with
        archive := fun name => if name = path then .doc (.obj r.asdict) else s.archive name })
    | none => return (none, s)

/-- The text of the message id of an envelope. -/
def CommerceEnvelope.id (e : CommerceEnvelope) : String := e.messageId.asStr.getD ""

/-! ## Sizes -/

/-- The bytes of the file of a record. -/
def OutboxRecord.bytes (r : OutboxRecord) : ℕ := fileWeight 0 (.obj r.asdict)

/-- The bytes of the record of a new message. -/
def freshBytes (e : CommerceEnvelope) (url : String) : ℕ :=
  590 + fileWeight 2 e.payload + weight false e.sourceDid + weight false e.targetDid +
    weight false e.createdAtMs + strWeight false url

/-! ## Target URLs -/

/-- What the outbox relies on of `urlsplit`: slashes at the end belong to the path. -/
structure UrlSplits : Prop where
  empty : ∀ p, urlsplit "" = some p → p.netloc = ""
  strip : ∀ s p, urlsplit s = some p → p.netloc ≠ "" → p.query = "" → p.fragment = "" →
    urlsplit (String.ofList (rstripSlash (chars s))) = some p

variable {urlsplit H}

theorem rstripSlash_sublist (cs : List Char) : (rstripSlash cs).Sublist cs := by
  have h := (List.dropWhile_sublist (l := cs.reverse) (· == '/')).reverse
  rwa [List.reverse_reverse] at h

theorem rstripSlash_rstripSlash (cs : List Char) :
    rstripSlash (rstripSlash cs) = rstripSlash cs := by
  rw [rstripSlash, rstripSlash, List.reverse_reverse, List.dropWhile_idempotent]

/-- A text with no blank at all has none to strip. -/
theorem strip_eq_self {cs : List Char} (h : ∀ c ∈ cs, isSpace c = false) : strip cs = cs := by
  have hdrop : ∀ ds : List Char, (∀ c ∈ ds, isSpace c = false) → ds.dropWhile isSpace = ds := by
    intro ds hds
    cases ds with
    | nil => rfl
    | cons d ds =>
      exact List.dropWhile_cons_of_neg (by rw [hds d List.mem_cons_self]; exact Bool.false_ne_true)
  rw [strip, hdrop cs h, hdrop _ fun c hc => h c (List.mem_reverse.1 hc), List.reverse_reverse]

/-- A normalised URL is its own normal form. -/
theorem normalizeTargetUrl_idem (hsplit : UrlSplits urlsplit) {value : Json} {url : String}
    (h : normalizeTargetUrl urlsplit value = .ok url) :
    normalizeTargetUrl urlsplit (.str url) = .ok url := by
  simp only [normalizeTargetUrl, bind_eq_ok, expect_eq_ok, require_eq_ok, pure_eq_ok] at h
  obtain ⟨s, -, _, hchars, p, hp, _, hparts, rfl⟩ := h
  simp only [Bool.and_eq_true, Bool.not_eq_true', List.isEmpty_eq_false_iff, decide_eq_true_eq,
    List.all_eq_true, bne_iff_ne, beq_iff_eq] at hchars hparts
  obtain ⟨⟨⟨-, -⟩, hlen⟩, hall⟩ := hchars
  set cs := rstripSlash (chars s) with hcs
  have hsub : cs.Sublist (chars s) := rstripSlash_sublist _
  have hsplit' := hsplit.strip s p hp hparts.1.1.1.1.1.1.1.2 hparts.1.1.2 hparts.1.2
  have hne : cs ≠ [] := by
    intro hnil
    rw [← hcs, hnil] at hsplit'
    exact hparts.1.1.1.1.1.1.1.2 (hsplit.empty p hsplit')
  have hspace : strip cs = cs := strip_eq_self fun c hc => by
    have := hall c (hsub.subset hc)
    simpa using this.1.1
  simp only [normalizeTargetUrl, bind_eq_ok, expect_eq_ok, require_eq_ok, pure_eq_ok,
    Json.asStr_eq_some, Json.str.injEq]
  refine ⟨_, rfl, (), ?_, p, hsplit', (), ?_, ?_⟩
  · rw [chars_eq, String.toList_ofList]
    simp only [Bool.and_eq_true, Bool.not_eq_true', List.isEmpty_eq_false_iff, decide_eq_true_eq,
      List.all_eq_true, bne_iff_ne, beq_iff_eq]
    exact ⟨⟨⟨hne, hspace.symm⟩, hsub.length_le.trans hlen⟩, fun c hc => hall c (hsub.subset hc)⟩
  · simp only [Bool.and_eq_true, Bool.not_eq_true', bne_iff_ne, beq_iff_eq]
    exact hparts
  · rw [chars_eq, String.toList_ofList, hcs, rstripSlash_rstripSlash]

/-! ## Records that read back -/

/-- What `_decode_record` asks of a record. -/
structure OutboxRecord.Sound (urlsplit : String → Option SplitResult) (r : OutboxRecord) :
    Prop where
  target : normalizeTargetUrl urlsplit (.str r.targetUrl) = .ok r.targetUrl
  error : r.lastError = "" ∨ r.status ≠ .acknowledged ∧ r.lastError ∈ outboxErrorCodes
  history : ∀ rs, r.routeHistory = some rs →
    rs.length ≤ 20 ∧ ∀ item ∈ rs, routeOk urlsplit (.obj item) = true
  lease : r.status = .inflight → r.leaseId ≠ "" ∧ r.leaseExpiresAtMs ≠ 0
  acknowledged : r.status = .acknowledged → r.acknowledgedAtMs ≠ 0
  blocked : r.status = .blocked → r.blockedAtMs ≠ 0

theorem normalizeOutboxError_mem (error : String) (retryable : Bool) :
    normalizeOutboxError error retryable ∈ outboxErrorCodes := by
  simp only [normalizeOutboxError]
  by_cases h : outboxErrorCodes.contains (String.ofList (strip (chars error))) = true
  · rw [if_pos h]
    exact List.contains_iff_mem.1 h
  · rw [if_neg h]
    cases retryable <;> decide

/-- A code is its own normal form. -/
theorem normalizeOutboxError_of_mem : ∀ error ∈ outboxErrorCodes, ∀ retryable,
    error ≠ "" ∧ normalizeOutboxError error retryable = error := by
  decide

theorem decodeHistory_of_sound {r : OutboxRecord} (h : r.Sound urlsplit) :
    decodeHistory urlsplit (Json.get r.asdict "route_history") = some r.routeHistory := by
  cases hr : r.routeHistory with
  | none => simp [OutboxRecord.asdict, Json.get, Json.lookup_cons, hr, decodeHistory]
  | some rs =>
    obtain ⟨hlen, hall⟩ := h.history rs hr
    have hok : (rs.map Json.obj).length ≤ 20 ∧ (rs.map Json.obj).all (routeOk urlsplit) = true := by
      refine ⟨by simpa using hlen, ?_⟩
      rw [List.all_map, List.all_eq_true]
      exact hall
    simp only [OutboxRecord.asdict, Json.get, Json.lookup_cons, String.reduceEq, if_true, if_false,
      hr, Option.getD_some, decodeHistory]
    rw [if_pos (by simpa using hok), List.map_map, show Json.fields ∘ Json.obj = id from rfl,
      List.map_id]

theorem decodeRecord_of_sound {r : OutboxRecord} (h : r.Sound urlsplit) (path : String) :
    decodeRecord urlsplit path r.asdict = .ok r := by
  have herror : (if r.status = .acknowledged then ""
      else if r.lastError == "" then ""
      else normalizeOutboxError r.lastError (r.status != .blocked)) = r.lastError := by
    rcases h.error with he | ⟨hs, he⟩
    · simp [he]
    · obtain ⟨hne, heq⟩ := normalizeOutboxError_of_mem r.lastError he (r.status != .blocked)
      rw [if_neg hs, if_neg (by simpa using hne), heq]
  have hhist := decodeHistory_of_sound h
  have hlease : (!(decide (r.status = .inflight) && (r.leaseId == "" || r.leaseExpiresAtMs == 0))) =
      true := by
    by_cases hs : r.status = .inflight
    · simp [hs, h.lease hs]
    · simp [hs]
  have hack : (!(decide (r.status = .acknowledged) && r.acknowledgedAtMs == 0)) = true := by
    by_cases hs : r.status = .acknowledged
    · simp [hs, h.acknowledged hs]
    · simp [hs]
  have hblocked : (!(decide (r.status = .blocked) && r.blockedAtMs == 0)) = true := by
    by_cases hs : r.status = .blocked
    · simp [hs, h.blocked hs]
    · simp [hs]
  simp only [decodeRecord, OutboxRecord.asdict, Json.getD, Json.get, Json.lookup_cons] at hhist ⊢
  simp only [String.reduceEq, if_true, if_false, Option.getD_some, natOf_int, Json.asStr,
    Option.bind_some, Status.ofWire_wire, expect, ok_bind, bind_eq_ok, pure_eq_ok, require_eq_ok,
    herror, h.target, mapError_eq_ok] at hhist ⊢
  rw [hhist]
  refine ⟨(), ?_, (), rfl, (), rfl, r.targetUrl, rfl, (), ?_, r.routeHistory, rfl, (), hlease, (),
    hack, (), hblocked, rfl⟩
  · simp [recordFields]
  · simp [Json.eqStr]

theorem sound_of_decode {path : String} {value : Fields} {r : OutboxRecord}
    (h : decodeRecord urlsplit path value = .ok r) : r.Sound urlsplit := by
  simp only [decodeRecord, bind_eq_ok, expect_eq_ok, require_eq_ok, pure_eq_ok, mapError_eq_ok] at h
  obtain ⟨_, -, _, -, status, -, _, -, url, hurl, _, heq, attempts, -, lastError, -, leaseId, -,
    ack, -, blocked, -, last, -, next, -, expires, -, history, hhist, _, hlease, _, hack, _,
    hblocked, rfl⟩ := h
  obtain heq := Json.eqStr_iff.1 heq
  rw [heq] at hurl
  refine ⟨hurl, ?_, ?_, ?_, ?_, ?_⟩
  · -- an error is empty or normalised
    by_cases hs : status = .acknowledged
    · exact Or.inl (if_pos hs)
    · by_cases he : (lastError == "") = true
      · exact Or.inl (by simp only [if_neg hs, if_pos he])
      · refine Or.inr ⟨hs, ?_⟩
        simp only [if_neg hs, if_neg he]
        exact normalizeOutboxError_mem _ _
  · rintro rs rfl
    cases hv : Json.getD value "route_history" .null with
    | arr items =>
      rw [hv, decodeHistory] at hhist
      split at hhist
      swap
      · cases hhist
      rename_i hok
      obtain rfl := Option.some.inj (Option.some.inj hhist)
      rw [Bool.and_eq_true, decide_eq_true_eq] at hok
      obtain ⟨hlen, hall⟩ := hok
      refine ⟨by simpa using hlen, fun item hitem => ?_⟩
      obtain ⟨v, hv, rfl⟩ := List.mem_map.1 hitem
      have hitemOk := List.all_eq_true.1 hall v hv
      have hobj : v.isObj = true := by
        simp only [routeOk, Bool.and_eq_true] at hitemOk
        exact hitemOk.1.1.1.1.1
      rwa [← Json.eq_obj_of_isObj hobj]
    | _ => rw [hv] at hhist; simp [decodeHistory] at hhist
  · rintro rfl
    simpa using hlease
  · rintro rfl
    simpa using hack
  · rintro rfl
    simpa using hblocked

theorem OutboxRecord.Sound.fresh {env : Fields} {value : Json} {url : String}
    (hsplit : UrlSplits urlsplit) (h : normalizeTargetUrl urlsplit value = .ok url) :
    OutboxRecord.Sound urlsplit { envelope := env, targetUrl := url } where
  target := normalizeTargetUrl_idem hsplit h
  error := Or.inl rfl
  history := by rintro rs ⟨⟩
  lease := by rintro ⟨⟩
  acknowledged := by rintro ⟨⟩
  blocked := by rintro ⟨⟩

theorem OutboxRecord.Sound.leased {r : OutboxRecord} (h : r.Sound urlsplit)
    {leaseId : String} (hid : leaseId ≠ "") {expires : ℕ} (he : expires ≠ 0) :
    OutboxRecord.Sound urlsplit { r with
      status := .inflight, blockedAtMs := 0, leaseId := leaseId, leaseExpiresAtMs := expires } where
  target := h.target
  error := h.error.imp_right fun he => ⟨by simp, he.2⟩
  history := h.history
  lease := fun _ => ⟨hid, he⟩
  acknowledged := by rintro ⟨⟩
  blocked := by rintro ⟨⟩

theorem OutboxRecord.Sound.reported {r : OutboxRecord} (h : r.Sound urlsplit) (a : Report) {t : ℕ}
    (ht : 0 < t) : (r.report a t).Sound urlsplit := by
  unfold OutboxRecord.report
  split_ifs with hack hretry
  · exact ⟨h.target, Or.inl rfl, h.history, by rintro ⟨⟩, fun _ => hack, by rintro ⟨⟩⟩
  · exact ⟨h.target, Or.inr ⟨by simp, normalizeOutboxError_mem _ _⟩, h.history, by rintro ⟨⟩,
      by rintro ⟨⟩, fun _ => ht.ne'⟩
  · exact ⟨h.target, Or.inr ⟨by simp, normalizeOutboxError_mem _ _⟩, h.history, by rintro ⟨⟩,
      by rintro ⟨⟩, by rintro ⟨⟩⟩

theorem OutboxRecord.Sound.retargeted {r : OutboxRecord} (h : r.Sound urlsplit) {did : Json}
    (hdid : isDid did = true) {url : String}
    (hurl : normalizeTargetUrl urlsplit (.str url) = .ok url) {t : ℕ} (ht : 0 < t) :
    (r.retarget did url t).Sound urlsplit := by
  refine ⟨hurl, Or.inl rfl, ?_, by rintro ⟨⟩, by rintro ⟨⟩, by rintro ⟨⟩⟩
  rintro rs ⟨⟩
  refine ⟨by rw [List.length_drop]; omega, fun item hitem => ?_⟩
  rcases List.mem_append.1 (List.mem_of_mem_drop hitem) with hitem | hitem
  · cases hr : r.routeHistory with
    | none => rw [hr] at hitem; cases hitem
    | some rs => rw [hr] at hitem; exact (h.history rs hr).2 item hitem
  · obtain rfl := List.mem_singleton.1 hitem
    simp [routeOk, Json.get, Json.lookup_cons, Json.isObj, Json.fields, Json.keysEq, Json.eqStr,
      Json.asInt, h.target, hurl, hdid, ht, Except.toOption]

/-! ## Envelopes -/

theorem fromDict_toDict (e : CommerceEnvelope) :
    CommerceEnvelope.fromDict (.obj e.toDict) = .ok e := by
  simp [CommerceEnvelope.fromDict, CommerceEnvelope.toDict, require, Json.isObj, Json.fields,
    Json.keysEq, Json.get, Json.lookup_cons, pure, Except.pure, ok_bind]

theorem fromDict_targetDid {d : Fields} {e : CommerceEnvelope}
    (h : CommerceEnvelope.fromDict (.obj d) = .ok e) : e.targetDid = Json.get d "target_did" := by
  simp only [CommerceEnvelope.fromDict, bind_eq_ok, require_eq_ok, pure_eq_ok] at h
  obtain ⟨_, -, rfl⟩ := h
  rfl

/-- What a verified envelope is. -/
theorem verify_facts {e : CommerceEnvelope} (h : e.verify H = .ok ()) :
    e.kind = .str envelopeKind ∧ isDid e.targetDid = true ∧
      (∃ source target createdAtMs, e.sourceDid = .str source ∧ e.targetDid = .str target ∧
        e.createdAtMs = .int createdAtMs) ∧ (∃ b, e.messageId = .str ("sha256:" ++ H.sha256 b)) ∧
      ∃ sig : Bytes, sig.length = 64 ∧ e.signature = .str (b64uEncode sig) := by
  simp only [CommerceEnvelope.verify, bind_eq_ok, require_eq_ok, expect_eq_ok, Bool.and_eq_true,
    Json.eqStr_iff, Json.asStr_eq_some] at h
  obtain ⟨_, hkind, _, ⟨hsource, hdid⟩, _, -, _, htime, b, -, _, -, mid, hmid, _, hid, sig, hsig,
    did, -, body, -, hverify⟩ := h
  obtain ⟨pk, s, -, hlen, rfl, -⟩ := verifySig_eq_true H hverify
  obtain ⟨b, -, rfl⟩ := Option.map_eq_some_iff.1 hmid
  have htarget := hdid
  simp only [isDid, Option.any_eq_true, Json.asStr_eq_some, Json.asInt_eq_some]
    at hsource htime htarget
  obtain ⟨source, hsource, -⟩ := hsource
  obtain ⟨createdAtMs, htime, -⟩ := htime
  obtain ⟨target, htarget, -⟩ := htarget
  exact ⟨hkind, hdid, ⟨source, target, createdAtMs, hsource, htarget, htime⟩, ⟨b, hid⟩, s, hlen,
    hsig⟩

theorem bytes_fresh {e : CommerceEnvelope} (h : e.verify H = .ok ()) (url : String) :
    OutboxRecord.bytes { envelope := e.toDict, targetUrl := url } = freshBytes e url := by
  obtain ⟨hkind, -, ⟨source, target, createdAtMs, hsource, htarget, htime⟩, ⟨b, hid⟩, sig, hsig,
    hsignature⟩ := verify_facts h
  have hmid : strWeight false ("sha256:" ++ H.sha256 b) = 73 :=
    strWeight_hex (String.toList_append ..) (List.all_eq_true.1 (by decide))
      (H.sha256_isHex b)
  have hsigned : strWeight false (b64uEncode sig) = 88 := by
    rw [← weight_str, weight_signature hsig]
  have henvelope : fileWeight 1 (.obj e.toDict) = 320 + fileWeight 2 e.payload +
      weight false e.sourceDid + weight false e.targetDid + weight false e.createdAtMs := by
    have hne : e.toDict ≠ [] := List.cons_ne_nil _ _
    rw [fileWeight_obj 1 hne]
    simp only [CommerceEnvelope.toDict, List.map_cons, List.map_nil, List.sum_cons, List.sum_nil,
      hkind, hsource, htarget, htime, hid, hsignature, fileWeight_str, fileWeight_int, hmid, hsigned,
      weight_str]
    have hk : strWeight false "message_id" = 12 ∧ strWeight false "source_did" = 12 ∧
      strWeight false "target_did" = 12 ∧ strWeight false "payload" = 9 ∧
      strWeight false "created_at_ms" = 15 ∧ strWeight false "kind" = 6 ∧
      strWeight false "signature" = 11 ∧ strWeight false envelopeKind = 22 := by decide
    simp only [hk, Nat.reduceAdd]
    omega
  have hne : (OutboxRecord.asdict { envelope := e.toDict, targetUrl := url }) ≠ [] :=
    List.cons_ne_nil _ _
  have hzero : weight false (.int 0) = 1 := by decide
  have hnull : fileWeight 1 .null = 4 := by decide
  have hk : strWeight false "envelope" = 10 ∧ strWeight false "target_url" = 12 ∧
    strWeight false "status" = 8 ∧ strWeight false "attempts" = 10 ∧
    strWeight false "last_error" = 12 ∧ strWeight false "acknowledged_at_ms" = 20 ∧
    strWeight false "blocked_at_ms" = 15 ∧ strWeight false "last_attempt_at_ms" = 20 ∧
    strWeight false "next_attempt_at_ms" = 20 ∧ strWeight false "lease_id" = 10 ∧
    strWeight false "lease_expires_at_ms" = 21 ∧ strWeight false "route_history" = 15 ∧
    strWeight false "pending" = 9 ∧ strWeight false "" = 2 := by decide
  rw [OutboxRecord.bytes, fileWeight_obj 0 hne, freshBytes]
  simp only [OutboxRecord.asdict, List.map_cons, List.map_nil, List.sum_cons, List.sum_nil,
    Status.wire, fileWeight_str, fileWeight_int, henvelope, Nat.cast_zero, Nat.reduceAdd, hk, hzero,
    hnull]
  omega

theorem loadRecord_doc {path : String} {r : OutboxRecord} :
    loadRecord path (.doc (.obj r.asdict)) =
      if r.bytes ≤ maxOutboxRecordBytes then .ok (some r.asdict)
      else .error (.rejected ("outbox record at " ++ path ++ " is too large")) := by
  by_cases h : r.bytes ≤ maxOutboxRecordBytes
  · have h' : fileWeight 0 (.obj r.asdict) ≤ maxOutboxRecordBytes := h
    simp [loadRecord, require, h, h', Json.isObj, pure, Except.pure, ok_bind]
  · have h' : ¬ fileWeight 0 (.obj r.asdict) ≤ maxOutboxRecordBytes := h
    simp [loadRecord, require, h, h', error_bind]

theorem loadRecord_stored {s : CommerceOutbox} {path : String} {r : OutboxRecord}
    (hs : s.active path = .doc (.obj r.asdict)) (hle : r.bytes ≤ maxOutboxRecordBytes) :
    loadRecord path (s.active path) = .ok (some r.asdict) := by
  rw [hs, loadRecord_doc, if_pos hle]

theorem fileOf_of_ok {messageId path : String} (h : pathOf messageId = .ok path) :
    fileOf messageId = path := by
  simp [fileOf, h, Except.toOption]

theorem hexPairs_of_hex : ∀ (n : ℕ) (cs : List Char), cs.length = 2 * n →
    (∀ c ∈ cs, isHexChar c = true) → hexPairs cs = true
  | 0, cs, hlen, _ => by rw [List.length_eq_zero_iff.1 hlen]; rfl
  | n + 1, cs, hlen, hall => by
    obtain ⟨c, d, ds, rfl⟩ : ∃ c d ds, cs = c :: d :: ds := by
      match cs, hlen with
      | c :: d :: ds, _ => exact ⟨c, d, ds, rfl⟩
    have hdigit : ∀ c : Char, isHexChar c = true →
        ((9 ≤ c.toNat && c.toNat ≤ 13) || c == ' ') = false ∧ (hexVal c).isSome = true := by
      intro c hc
      simp only [isHexChar, Bool.or_eq_true, Bool.and_eq_true, decide_eq_true_eq] at hc
      refine ⟨?_, ?_⟩
      · have hge : 48 ≤ c.toNat := by
          rcases hc with hc | hc
          · exact hc.1
          · exact le_trans (by decide) (show 97 ≤ c.toNat from hc.1)
        have hne : c ≠ ' ' := by rintro rfl; revert hge; decide
        simp [hne]
        omega
      · unfold hexVal
        split_ifs with h₁ h₂ h₃ <;> first | rfl | (exact absurd hc (by tauto))
    obtain ⟨hc, hc'⟩ := hdigit c (hall c (by simp))
    obtain ⟨-, hd'⟩ := hdigit d (hall d (by simp))
    have ih := hexPairs_of_hex n ds (by simpa [Nat.mul_succ] using hlen)
      fun x hx => hall x (by simp [hx])
    rw [hexPairs, if_neg (by rw [hc]; exact Bool.false_ne_true)]
    simp [hc', hd', ih]

/-- The id of a verified envelope names a file. -/
theorem pathOf_of_verify {e : CommerceEnvelope} (h : e.verify H = .ok ()) :
    ∃ path, pathOf e.id = .ok path := by
  obtain ⟨-, -, -, ⟨b, hid⟩, -⟩ := verify_facts h
  have hhex := H.sha256_isHex b
  rw [isHex, Bool.and_eq_true, beq_iff_eq, List.all_eq_true] at hhex
  have hchars : chars e.id = chars "sha256:" ++ (H.sha256 b).toList := by
    rw [CommerceEnvelope.id, hid]
    simp [Json.asStr]
  have hstart : startsWith "sha256:" e.id = true := by
    rw [startsWith, hchars, List.isPrefixOf_iff_prefix]
    exact List.prefix_append _ _
  have hlen : len e.id = 71 := by
    rw [len, hchars, List.length_append, hhex.1]
    rfl
  have hpairs : hexPairs ((chars e.id).drop 7) = true := by
    have hseven : (chars "sha256:").length = 7 := rfl
    rw [hchars, ← hseven, List.drop_left]
    exact hexPairs_of_hex 32 _ hhex.1 hhex.2
  simp only [pathOf, bind_eq_ok, require_eq_ok, pure_eq_ok]
  exact ⟨_, (), by rw [hstart, hlen, hpairs]; rfl, rfl⟩

/-- A payload within the limit is signed and verified. -/
theorem exists_signed (k : H.SecretKey) {did : String} (hdid : isDidKey did = true)
    {payload : Fields} (hp : (Json.obj payload).encodable = true)
    (hle : weight false (.obj payload) ≤ maxPayloadBytes)
    {t : ℤ} (ht : 0 < t) (ht' : (Json.int t).encodable = true) :
    ∃ e, signEnvelope H k did payload t = some e ∧ e.payload = .obj payload ∧
      e.sourceDid = .str (asDid H k) ∧ e.targetDid = .str did ∧ e.createdAtMs = .int t ∧
      e.verify H = .ok () := by
  obtain ⟨b, hb⟩ := canonicalJson_of_encodable hp
  obtain ⟨c, hc⟩ : ∃ c, canonicalJson (.obj [("source_did", .str (asDid H k)),
      ("target_did", .str did), ("payload", .obj payload)]) = some c := by
    refine canonicalJson_isSome.2 ?_
    simp only [List.forall_mem_cons, List.not_mem_nil, false_implies, implies_true, and_true]
    exact ⟨rfl, rfl, hp⟩
  have hmid : messageIdOf H (.str (asDid H k)) (.str did) (.obj payload) =
      some ("sha256:" ++ H.sha256 c) := by rw [messageIdOf, hc]; rfl
  obtain ⟨body, hbody⟩ : ∃ body, canonicalJson (CommerceEnvelope.signingBody
      { messageId := .str ("sha256:" ++ H.sha256 c), sourceDid := .str (asDid H k),
        targetDid := .str did, payload := .obj payload, createdAtMs := .int t }) = some body := by
    refine canonicalJson_isSome.2 fun q hq => ?_
    replace hq := List.mem_of_mem_filter hq
    simp only [CommerceEnvelope.toDict, List.mem_cons, List.not_mem_nil, or_false] at hq
    rcases hq with rfl | rfl | rfl | rfl | rfl | rfl | rfl
    · rfl
    · rfl
    · rfl
    · exact hp
    · exact ht'
    · rfl
    · rfl
  refine ⟨_, by simp only [signEnvelope, hmid, hbody, Option.bind_eq_bind, Option.bind_some]; rfl,
    rfl, rfl, rfl, rfl, ?_⟩
  simp only [CommerceEnvelope.verify, bind_eq_ok, require_eq_ok, expect_eq_ok, Json.asStr_eq_some]
  refine ⟨(), rfl, (), ?_, (), rfl, (), ?_, b, hb, (), ?_, _, hmid, (), ?_, _, rfl, _, rfl, body,
    hbody, verifySig_signText H k body⟩
  · simp [isDid, Json.asStr, isDidKey_asDid, hdid]
  · simpa [Json.asInt] using ht
  · rw [canonicalJson_length hb]
    exact decide_eq_true hle
  · simp [Json.eqStr]

end Commerce

end NthDao
