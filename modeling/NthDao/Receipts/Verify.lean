/-
  Verifying execution receipts (`nth_dao/execution_receipt.py`).

  * `signReceipt`: the envelope of a signed timeline;
  * `verifyCore`: the checks on the timeline, its hash, the signature and the key, and
    `Signed`, what they leave;
  * `verifyCapTokenChain`: the checks on the token of a delegated receipt, at the time that
    the envelope gives;
  * `verifyReceipt` and `verifyReceiptChain`, on any JSON value;
  * `verifyReceipt_signReceipt`: what is signed verifies.

  `str.lower`, the time of an ISO text, `int()` of a text or a `float` and the clock are
  parameters.
-/
import NthDao.Receipts.Timeline
import NthDao.Trust.Endorsement

namespace NthDao

open Py

namespace Receipts

/-- What the verifier takes from the interpreter. -/
structure Runtime where
  /-- `int(v)` of a text or a `float`; an error is neither a `TypeError` nor a `ValueError` -/
  intText : String → Except String (Option ℤ)
  /-- `s.lower()` -/
  lower : String → String
  /-- `int(datetime.fromisoformat(s).timestamp() * 1000)`, errors as for `intText` -/
  timestampMs : String → Except String (Option ℤ)
  /-- `now_ms()` -/
  now : ℤ

variable (H : Host) (R : Runtime)

/-- `TYPE_NTH_CHAIN_LINK`. -/
def typeChainLink : String := "nth.chain_link"

/-! ## Signing -/

/-- `NTH_RECEIPT_KIND`, `NTH_RECEIPT_SPEC` and `MOTEBIT_COMPATIBLE`. -/
def nthReceiptKind : String := "nth-execution-receipt-v1"
def nthReceiptSpec : String := "nth-dao/execution-receipt@1.0"
def motebitCompatible : String := "motebit/execution-ledger@1.0"

/-- The timeline, after the link to the receipt before if there is one. -/
def linkedTimeline (timeline : List TimelineEntry) (prevContentHash : String) (now : ℤ) :
    Except String (List TimelineEntry) :=
  if prevContentHash = "" then .ok timeline
  else do
    require (isHex 64 prevContentHash.toList) "prev_content_hash must be 64-char lowercase hex"
    let link ← (mkEntry ((timeline.head?.map TimelineEntry.timestamp).getD now) typeChainLink
      [("prev_content_hash", .str prevContentHash)]).mapError fun _ => "timestamp must be non-negative"
    return link :: timeline

/-- The envelope around a timeline that is signed. -/
def envelope (k : H.SecretKey) (receiptId goalId issuedAt : String) (timeline : List TimelineEntry)
    (bytes : Bytes) : Fields :=
  [("kind", .str nthReceiptKind), ("spec", .str nthReceiptSpec),
    ("compatible_with", .str motebitCompatible), ("receipt_id", .str receiptId),
    ("goal_id", .str goalId), ("signer_did", .str (asDid H k)),
    ("signer_pubkey_hex", .str (Trust.hex (H.pubkey k))), ("issued_at", .str issuedAt),
    ("timeline", .arr (timeline.map TimelineEntry.toDict)), ("content_hash", .str (H.sha256 bytes)),
    ("sig", .str (signText H k (fromHex (H.sha256 bytes).toList)))]

/-- `sign_receipt`; the clock and the minted id are arguments. -/
def signReceipt (k : H.SecretKey) (timeline : List TimelineEntry) (goalId receiptId minted : String)
    (prevContentHash : String) (token : Option Fields) (now : ℤ) (issuedAt : String) :
    Except String Fields := do
  let timeline ← linkedTimeline timeline prevContentHash now
  let bytes ← expect (joined timeline) "cannot hash"
  let fields := envelope H k (if receiptId = "" then minted else receiptId) goalId issuedAt
    timeline bytes
  match token with
  | some t => return fields ++ [("authorizing_cap_token", .obj t)]
  | none => return fields

/-! ## The signed core -/

/-- The entries that are made of the timeline. -/
def timelineOf (d : Fields) : Except Outcome (List TimelineEntry) :=
  match Json.get d "timeline" with
  | .arr xs =>
    if xs = [] then .error .rejected
    else do
      let entries ← xs.mapM (entryOf H R.intText)
      -- an entry without canonical text is met when the hash is computed
      expect (entries.mapM id) .rejected
  | _ => .error .rejected

variable {H R} in
theorem timelineOf_eq_ok {d : Fields} {es : List TimelineEntry} : timelineOf H R d = .ok es ↔
    ∃ xs, Json.get d "timeline" = .arr xs ∧ xs ≠ [] ∧
      List.Forall₂ (fun x e => entryOf H R.intText x = .ok (some e)) xs es := by
  unfold timelineOf
  constructor
  · intro h
    split at h
    next xs hxs =>
      split_ifs at h with hne
      simp only [bind_eq_ok, expect_eq_ok] at h
      obtain ⟨os, hos, h⟩ := h
      obtain rfl := mapM_id_eq_some.1 h
      have hall := mapM_eq_ok.1 hos
      rw [List.forall₂_map_right_iff] at hall
      exact ⟨xs, hxs, hne, hall⟩
    next => cases h
  · rintro ⟨xs, hxs, hne, h⟩
    rw [hxs]
    show (if xs = [] then _ else _) = _
    have hall : xs.mapM (entryOf H R.intText) = .ok (es.map some) := by
      rw [mapM_eq_ok, List.forall₂_map_right_iff]
      exact h
    rw [if_neg hne, hall, ok_bind]
    exact expect_eq_ok.2 (mapM_id_eq_some.2 rfl)

def sigOf (d : Fields) : Option Bytes :=
  (Json.getD d "sig" (.str "")).asStr.bind fun s => if s = "" then none else b64uDecode s

def signerKey (d : Fields) : Option Bytes :=
  (Json.getD d "signer_did" (.str "")).asStr.bind decodeDidKey

/-- `str(receipt.get("signer_pubkey_hex", "")).lower()`. -/
def envelopeKey (d : Fields) : String :=
  R.lower (toStr H.isprintable (Json.getD d "signer_pubkey_hex" (.str "")))

/-- The hash and the signature are those of the entries. -/
def signedBy (d : Fields) (bytes pk : Bytes) : Bool :=
  (Json.getD d "content_hash" (.str "")).eqStr (H.sha256 bytes) &&
    (sigOf d).any fun sig => sig.length == 64 && H.verify pk (fromHex (H.sha256 bytes).toList) sig

/-- `verify_receipt` up to the token: the key of the signer. -/
def verifyCore (expectedPubkeyHex : String) (d : Fields) : Except Outcome Bytes := do
  let entries ← timelineOf H R d
  let bytes ← expect (joined entries) .rejected
  let pk ← expect (signerKey d) .rejected
  require (expectedPubkeyHex == "" || R.lower (Trust.hex pk) == R.lower expectedPubkeyHex) .rejected
  require (envelopeKey H R d == "" || envelopeKey H R d == R.lower (Trust.hex pk)) .rejected
  require (signedBy H d bytes pk) .rejected
  return pk

/-- The entries of the timeline are signed by the key that the envelope names. -/
structure Signed (expectedPubkeyHex : String) (d : Fields) (entries : List TimelineEntry)
    (pk : Bytes) : Prop where
  timeline : timelineOf H R d = .ok entries
  bytes : ∃ bytes, joined entries = some bytes ∧ signedBy H d bytes pk = true
  signer : signerKey d = some pk
  expected : (expectedPubkeyHex == "" || R.lower (Trust.hex pk) == R.lower expectedPubkeyHex) = true
  envelope : (envelopeKey H R d == "" || envelopeKey H R d == R.lower (Trust.hex pk)) = true

variable {H R} in
theorem verifyCore_eq_ok {expectedPubkeyHex : String} {d : Fields} {pk : Bytes} :
    verifyCore H R expectedPubkeyHex d = .ok pk ↔ ∃ es, Signed H R expectedPubkeyHex d es pk := by
  simp only [verifyCore, bind_eq_ok, expect_eq_ok, require_eq_ok, pure_eq_ok]
  constructor
  · rintro ⟨es, hes, bytes, hb, k, hk, _, hx, _, he, _, hs, rfl⟩
    exact ⟨es, hes, ⟨bytes, hb, hs⟩, hk, hx, he⟩
  · rintro ⟨es, hes, ⟨bytes, hb, hs⟩, hk, hx, he⟩
    exact ⟨es, hes, bytes, hb, pk, hk, (), hx, (), he, (), hs, rfl⟩

/-! ## Delegated receipts -/

/-- `CAP_NTH_RECEIPT_SIGN`. -/
def capReceiptSign : String := "nth:receipt_sign"

/-- `str(d.get(k, "") or "")`. -/
def textOr (d : Fields) (k : String) : String :=
  if truthy (Json.getD d k (.str "")) then toStr H.isprintable (Json.getD d k (.str "")) else ""

/-- The time that the envelope gives. -/
def issuedMs (d : Fields) : Except Outcome ℤ :=
  match Json.getD d "issued_at" (.str "") with
  | .str s =>
    if s = "" then .error .rejected
    else
      match R.timestampMs s with
      | .ok (some ms) => .ok ms
      | .ok none => .error .rejected
      | .error _ => .error .raised
  -- `fromisoformat` of no text is a `TypeError`
  | _ => .error .rejected

/-- What `verify_cap_token` returns or raises. -/
def outcomeOf : CapToken.Failure → Outcome
  | .reject _ => .rejected
  | .raises _ => .raised

/-- `_verify_cap_token_chain_for_receipt`. -/
def verifyCapTokenChain (d token : Fields) (pk : Bytes) : Except Outcome Unit := do
  let ms ← issuedMs R d
  -- a time of zero counts as none: `now_ms_override or now_ms()`
  (CapToken.verifyCapToken H R.intText token (if ms = 0 then R.now else ms) []
    (some [capReceiptSign]) "" "").mapError outcomeOf
  let subject ← expect (decodeDidKey (textOr H token "subject_did")) .rejected
  require (subject == pk) .rejected
  let notAfter ← timestampOf R.intText (Json.getD token "not_after" (.int 0))
  require (notAfter == 0 || ms ≤ notAfter) .rejected
  require (textOr H token "scope_task_id" == "" ||
    textOr H token "scope_task_id" == textOr H d "goal_id") .rejected

/-- `verify_receipt`. -/
def verifyReceipt (expectedPubkeyHex : String) : Json → Except Outcome Unit
  | .obj d => do
    let pk ← verifyCore H R expectedPubkeyHex d
    match Json.get d "authorizing_cap_token" with
    | .null => .ok ()
    | .obj token => verifyCapTokenChain H R d token pk
    | _ => .error .rejected
  | _ => .error .raised

/-! ## What is signed verifies -/

section Sign

variable {H R} {k : H.SecretKey} {entries : List TimelineEntry} {bytes : Bytes} {d : Fields}

theorem entries_of_toDict (hne : entries ≠ []) (ht : Json.get d "timeline" =
    .arr (entries.map TimelineEntry.toDict)) : timelineOf H R d = .ok entries := by
  refine timelineOf_eq_ok.2 ⟨_, ht, by simpa using hne, ?_⟩
  rw [List.forall₂_map_left_iff]
  exact List.forall₂_same.2 fun e _ => entryOf_toDict e

/-- **What is signed verifies**, under the key that signed it. -/
theorem verifyReceipt_signReceipt {goalId receiptId minted prev issuedAt : String} {now : ℤ}
    (h : signReceipt H k entries goalId receiptId minted prev none now issuedAt = .ok d) :
    verifyReceipt H R "" (.obj d) = .ok () := by
  simp only [signReceipt, bind_eq_ok, expect_eq_ok, pure_eq_ok] at h
  obtain ⟨es, -, bytes, hb, rfl⟩ := h
  have hcore : verifyCore H R "" (envelope H k (if receiptId = "" then minted else receiptId)
      goalId issuedAt es bytes) = .ok (H.pubkey k) := by
    refine verifyCore_eq_ok.2 ⟨es, ?_, ⟨bytes, hb, ?_⟩, ?_, rfl, ?_⟩
    · exact entries_of_toDict (joined_eq_some.1 hb).1 (by simp [envelope, Json.get, Json.lookup_cons])
    · rw [signedBy, Bool.and_eq_true]
      constructor
      · simp [envelope, Json.getD, Json.lookup_cons, Json.eqStr]
      · have hsig : sigOf (envelope H k (if receiptId = "" then minted else receiptId) goalId
            issuedAt es bytes) = some (H.sign k (fromHex (H.sha256 bytes).toList)) := by
          have hne : signText H k (fromHex (H.sha256 bytes).toList) ≠ "" := by
            intro he
            have := length_signText H k (fromHex (H.sha256 bytes).toList)
            rw [he] at this
            cases this
          simp [sigOf, envelope, Json.getD, Json.lookup_cons, Json.asStr, hne]
          rw [signText, b64uDecode_b64uEncode]
        rw [hsig, Option.any_some, H.sign_length, H.verify_sign]
        rfl
    · simp [signerKey, envelope, Json.getD, Json.lookup_cons, Json.asStr, decodeDidKey_asDid]
    · simp [envelopeKey, envelope, Json.getD, Json.lookup_cons, toStr]
  rw [verifyReceipt, hcore]
  simp [envelope, Json.get, Json.lookup_cons, Json.lookup_nil, ok_bind]

end Sign

/-! ## Chains -/

/-- What iterating a value gives, `none` where it raises. -/
def itemsOf : Json → Option (List Json) := Membership.listOf

/-- `extract_prev_content_hash` of a receipt that is accepted, `none` where it raises. -/
def prevContentHash (r : Json) : Option String :=
  match (Json.get r.fields "timeline") with
  | .arr (.obj first :: _) =>
    if (Json.get first "type").eqStr typeChainLink then
      if truthy (Json.get first "payload") then
        match Json.get first "payload" with
        | .obj payload => some (textOr H payload "prev_content_hash")
        | _ => none
      else some ""
    else some ""
  | _ => some ""

/-- `r.get("receipt_id", "?")[:8]` returns. -/
def sliceable (r : Json) : Bool :=
  match Json.getD r.fields "receipt_id" (.str "?") with
  | .str _ => true
  | .arr _ => true
  | _ => false

/-- The receipts are verified in turn; the text of a debug message needs the id of one that
    is not accepted. -/
def verifyAll : List Json → Except Outcome Unit
  | [] => .ok ()
  | r :: rs =>
    match verifyReceipt H R "" r with
    | .ok _ => verifyAll rs
    | .error .raised => .error .raised
    | .error .rejected => if sliceable r then .error .rejected else .error .raised

/-- The links of receipts that are accepted: one genesis, no fork, no orphan. -/
def linked (hashes : List Json) (prevs : List String) : Bool :=
  decide hashes.Nodup && (prevs.filter (· == "")).length == 1 &&
    decide (prevs.filter (· != "")).Nodup &&
    (prevs.filter (· != "")).all fun p => hashes.any fun h => h.eqStr p

/-- `verify_receipt_chain`. -/
def verifyReceiptChain (receipts : Json) : Except Outcome Unit :=
  if truthy receipts then do
    let rs ← expect (itemsOf receipts) .raised
    require (rs.all Json.isObj) .raised
    let signers := rs.map fun r => Json.getD r.fields "signer_did" (.str "")
    require (signers.all fun s => !CapToken.unhashable s) .raised
    require ((signers.all fun s => signers.all (eqv s)) && !signers.any (·.eqStr "")) .rejected
    verifyAll H R rs
    let hashes := rs.map fun r => Json.get r.fields "content_hash"
    require (decide hashes.Nodup) .rejected
    let prevs ← expect (rs.mapM (prevContentHash H)) .raised
    require (linked hashes prevs) .rejected
  else .error .rejected

end Receipts

end NthDao
