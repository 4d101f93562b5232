/-
  The values at which an exception leaves the verifiers of receipts.

  * `Readable`: `int()` returns, or raises what is caught;
  * `verifyCapToken_raises_iff`, `verifyReceipt_raised_iff`, `verifyReceiptChain_raised_iff`:
    one for each verifier, with the conditions in the order of the checks.
-/
import NthDao.Receipts.Verify

namespace NthDao

open Py

namespace Receipts

variable {H : Host} {R : Runtime} {intText : String → Except String (Option ℤ)}

/-! ## Entries -/

/-- `int(v)` returns, or raises a `TypeError` or a `ValueError`. -/
def Readable (intText : String → Except String (Option ℤ)) (v : Json) : Prop :=
  ∃ o, CapToken.intOf intText v = .ok o

/-- The timestamp of the element, if there is one, is readable. -/
def ReadableEntry (intText : String → Except String (Option ℤ)) (x : Json) : Prop :=
  ∀ t, Json.lookup x.fields "timestamp" = some t → Readable intText t

theorem timestampOf_raised_iff {v : Json} :
    timestampOf intText v = .error .raised ↔ ¬ Readable intText v := by
  unfold timestampOf Readable
  cases CapToken.intOf intText v with
  | ok o => cases o <;> simp
  | error t => simp

theorem mkEntry_ne_raised (n : ℤ) (s : String) (p : Fields) : mkEntry n s p ≠ .error .raised := by
  unfold mkEntry
  split_ifs <;> simp

theorem entryOf_raised_iff {x : Json} :
    entryOf H intText x = .error .raised ↔ ¬ ReadableEntry intText x := by
  cases x with
  | obj kvs =>
    simp only [entryOf, bind_eq_error, expect_eq_error, expect_eq_ok, timestampOf_raised_iff,
      reduceCtorEq, and_false, false_or]
    constructor
    · rintro ⟨t, ht, hn | ⟨n, -, w, -, p, -, h⟩⟩
      · exact fun hall => hn (hall t ht)
      · cases p with
        | none => exact absurd (map_eq_error.1 h) (mkEntry_ne_raised _ _ _)
        | some p => exact absurd (map_eq_error.1 h) (mkEntry_ne_raised _ _ _)
    · intro h
      simp only [ReadableEntry, not_forall] at h
      obtain ⟨t, ht, hn⟩ := h
      exact ⟨t, ht, .inl hn⟩
  | _ =>
    refine iff_of_false (by simp [entryOf]) ?_
    simp [ReadableEntry, Json.fields, Json.lookup_nil]

/-- The entries that are reached are readable. -/
def ReadableTimeline (H : Host) (R : Runtime) (d : Fields) : Prop :=
  ∀ pre x post, Json.get d "timeline" = .arr (pre ++ x :: post) →
    (∀ y ∈ pre, ∃ t, entryOf H R.intText y = .ok t) → ReadableEntry R.intText x

theorem timelineOf_raised_iff {d : Fields} :
    timelineOf H R d = .error .raised ↔ ¬ ReadableTimeline H R d := by
  simp only [ReadableTimeline, not_forall]
  unfold timelineOf
  constructor
  · intro h
    split at h
    next xs hxs =>
      split_ifs at h
      · cases h
      · simp only [bind_eq_error, expect_eq_error, reduceCtorEq, and_false, exists_false,
          or_false, mapM_eq_error, entryOf_raised_iff] at h
        obtain ⟨pre, x, post, rfl, hpre, hx⟩ := h
        exact ⟨pre, x, post, hxs, hpre, hx⟩
    next => cases h
  · rintro ⟨pre, x, post, hxs, hpre, hx⟩
    rw [hxs]
    show (if pre ++ x :: post = [] then _ else _) = _
    rw [if_neg (by simp)]
    exact bind_eq_error.2 (.inl (mapM_eq_error.2 ⟨pre, x, post, rfl, hpre, entryOf_raised_iff.2 hx⟩))

theorem verifyCore_raised_iff {e : String} {d : Fields} :
    verifyCore H R e d = .error .raised ↔ ¬ ReadableTimeline H R d := by
  rw [← timelineOf_raised_iff]
  simp only [verifyCore, bind_eq_error, expect_eq_error, require_eq_error, reduceCtorEq, and_false,
    exists_false, or_false, pure, Except.pure]

/-! ## Tokens -/

/-- The members of the token that are reached are readable at a time. -/
def ReadableToken (intText : String → Except String (Option ℤ)) (token : Fields) (now : ℤ) : Prop :=
  (∀ f ∈ CapToken.requiredFields, (Json.lookup token f).isSome = true) →
  Json.get token "kind" = .str CapToken.kindText →
  Readable intText (Json.get token "not_before") ∧
  ∀ nbf, CapToken.intOf intText (Json.get token "not_before") = .ok (some nbf) →
  Readable intText (Json.get token "not_after") ∧
  ∀ exp, CapToken.intOf intText (Json.get token "not_after") = .ok (some exp) →
  nbf ≤ now → now ≤ exp → ∃ caps, CapToken.setOf (Json.get token "capabilities") = .ok caps

theorem timeOf_eq_ok {token : Fields} {f : String} {n : ℤ} :
    CapToken.timeOf intText token f = .ok n ↔
      CapToken.intOf intText (Json.get token f) = .ok (some n) := by
  unfold CapToken.timeOf
  cases CapToken.intOf intText (Json.get token f) with
  | ok o => cases o <;> simp
  | error t => simp

theorem timeOf_raises {token : Fields} {f : String} :
    (∃ t, CapToken.timeOf intText token f = .error (.raises t)) ↔
      ¬ Readable intText (Json.get token f) := by
  unfold CapToken.timeOf Readable
  cases CapToken.intOf intText (Json.get token f) with
  | ok o => cases o <;> simp
  | error t => simp

theorem setOf_raises {v : Json} :
    (∃ t, CapToken.setOf v = .error (.raises t)) ↔ ¬ ∃ caps, CapToken.setOf v = .ok caps := by
  unfold CapToken.setOf
  split
  · split_ifs <;> simp
  all_goals simp

/-- **An exception leaves `verify_cap_token`** where a member that is reached cannot be read. -/
theorem verifyCapToken_raises_iff {token : Fields} {now : ℤ} {caps : Option (List String)} :
    (∃ t, CapToken.verifyCapToken H intText token now [] caps "" "" = .error (.raises t)) ↔
      ¬ ReadableToken intText token now := by
  have hread : ∀ {t}, CapToken.verifyCapToken H intText token now [] caps "" "" =
      .error (.raises t) ↔ (∀ f ∈ CapToken.requiredFields, (Json.lookup token f).isSome = true) ∧
        Json.get token "kind" = .str CapToken.kindText ∧
        (CapToken.timeOf intText token "not_before" = .error (.raises t) ∨
        ∃ nbf, CapToken.timeOf intText token "not_before" = .ok nbf ∧
        (CapToken.timeOf intText token "not_after" = .error (.raises t) ∨
        ∃ exp, CapToken.timeOf intText token "not_after" = .ok exp ∧ nbf ≤ now ∧ now ≤ exp ∧
          CapToken.setOf (Json.get token "capabilities") = .error (.raises t))) := by
    intro t
    simp only [CapToken.verifyCapToken, bind_eq_error, require_eq_error, require_eq_ok,
      expect_eq_error, reduceCtorEq, and_false, exists_false, or_false, false_or, List.all_eq_true,
      Json.eqStr_iff, List.isEmpty_nil, Bool.true_or, Bool.true_eq_false, false_and, List.any_nil,
      Bool.not_false, decide_eq_true_eq, exists_const, true_and]
  constructor
  · rintro ⟨t, ht⟩ hr
    obtain ⟨hreq, hkind, h⟩ := hread.1 ht
    obtain ⟨hnb, hr⟩ := hr hreq hkind
    rcases h with h | ⟨nbf, hnbf, h⟩
    · exact timeOf_raises.1 ⟨t, h⟩ hnb
    · obtain ⟨hna, hr⟩ := hr nbf (timeOf_eq_ok.1 hnbf)
      rcases h with h | ⟨exp, hexp, hle, hle', h⟩
      · exact timeOf_raises.1 ⟨t, h⟩ hna
      · exact setOf_raises.1 ⟨t, h⟩ (hr exp (timeOf_eq_ok.1 hexp) hle hle')
  · intro h
    simp only [ReadableToken, Classical.not_imp] at h
    obtain ⟨hreq, hkind, h⟩ := h
    by_cases hnb : Readable intText (Json.get token "not_before")
    · simp only [hnb, true_and, not_forall] at h
      obtain ⟨nbf, hnbf, h⟩ := h
      by_cases hna : Readable intText (Json.get token "not_after")
      · simp only [hna, true_and, not_forall] at h
        obtain ⟨exp, hexp, hle, hle', h⟩ := h
        obtain ⟨t, ht⟩ := setOf_raises.2 h
        exact ⟨t, hread.2 ⟨hreq, hkind, .inr ⟨nbf, timeOf_eq_ok.2 hnbf, .inr
          ⟨exp, timeOf_eq_ok.2 hexp, hle, hle', ht⟩⟩⟩⟩
      · obtain ⟨t, ht⟩ := timeOf_raises.2 hna
        exact ⟨t, hread.2 ⟨hreq, hkind, .inr ⟨nbf, timeOf_eq_ok.2 hnbf, .inl ht⟩⟩⟩
    · obtain ⟨t, ht⟩ := timeOf_raises.2 hnb
      exact ⟨t, hread.2 ⟨hreq, hkind, .inl ht⟩⟩

/-! ## Receipts -/

/-- The time that the envelope gives is readable. -/
def ReadableIssued (R : Runtime) (d : Fields) : Prop :=
  ∀ s, Json.getD d "issued_at" (.str "") = .str s → s ≠ "" → ∃ o, R.timestampMs s = .ok o

theorem issuedMs_raised_iff {d : Fields} :
    issuedMs R d = .error .raised ↔ ¬ ReadableIssued R d := by
  unfold issuedMs ReadableIssued
  split
  next s hs =>
    simp only [hs, Json.str.injEq, forall_eq']
    split_ifs with he
    · simp [he]
    · cases R.timestampMs s with
      | ok o => cases o <;> simp
      | error t => simp [he]
  next h =>
    refine iff_of_false (by simp) ?_
    simp only [not_not]
    exact fun s hs => absurd hs (h s)

/-- The members of the token, and the time, that are reached are readable. -/
def ReadableDelegation (R : Runtime) (d token : Fields) : Prop :=
  ReadableIssued R d ∧ ∀ ms, issuedMs R d = .ok ms →
    ReadableToken R.intText token (if ms = 0 then R.now else ms)

theorem outcomeOf_eq_raised {x : Except CapToken.Failure Unit} :
    x.mapError outcomeOf = .error .raised ↔ ∃ t, x = .error (.raises t) := by
  cases x with
  | ok u => simp [Except.mapError]
  | error f => cases f <;> simp [Except.mapError, outcomeOf]

/-- The times of a token that has passed are readable. -/
theorem notAfter_of_verifyCapToken {token : Fields} {now : ℤ} {caps : Option (List String)}
    (h : CapToken.verifyCapToken H intText token now [] caps "" "" = .ok ()) :
    ∃ n, timestampOf intText (Json.getD token "not_after" (.int 0)) = .ok n := by
  simp only [CapToken.verifyCapToken, bind_eq_ok, require_eq_ok] at h
  obtain ⟨_, hreq, _, -, nbf, -, exp, hexp, -⟩ := h
  have hsome := List.all_eq_true.1 hreq "not_after" (by decide)
  obtain ⟨v, hv⟩ := Option.isSome_iff_exists.1 hsome
  have hget := timeOf_eq_ok.1 hexp
  rw [Json.get, hv, Option.getD_some] at hget
  rw [Json.getD, hv, Option.getD_some, timestampOf, hget]
  exact ⟨exp, rfl⟩

theorem verifyCapTokenChain_raised_iff {d token : Fields} {pk : Bytes} :
    verifyCapTokenChain H R d token pk = .error .raised ↔ ¬ ReadableDelegation R d token := by
  simp only [verifyCapTokenChain, bind_eq_error, expect_eq_error, require_eq_error, reduceCtorEq,
    and_false, exists_false, false_or, or_false, issuedMs_raised_iff, outcomeOf_eq_raised,
    verifyCapToken_raises_iff, mapError_eq_ok]
  constructor
  · rintro (hi | ⟨ms, hms, ht | ⟨_, hok, _, -, _, -, h⟩⟩) ⟨hr, hall⟩
    · exact hi hr
    · exact ht (hall ms hms)
    · obtain ⟨n, hn⟩ := notAfter_of_verifyCapToken hok
      rw [hn] at h
      cases h
  · intro h
    by_cases hi : ReadableIssued R d
    · simp only [ReadableDelegation, hi, true_and, not_forall] at h
      obtain ⟨ms, hms, ht⟩ := h
      exact .inr ⟨ms, hms, .inl ht⟩
    · exact .inl hi

/-- What is reached of a value that is verified as a receipt is readable. -/
def ReadableReceipt (H : Host) (R : Runtime) (expectedPubkeyHex : String) : Json → Prop
  | .obj d => ReadableTimeline H R d ∧ ∀ es pk token, Signed H R expectedPubkeyHex d es pk →
      Json.get d "authorizing_cap_token" = .obj token → ReadableDelegation R d token
  | _ => False

/-- **An exception leaves `verify_receipt`** iff what is reached of the value is not readable. -/
theorem verifyReceipt_raised_iff {e : String} {v : Json} :
    verifyReceipt H R e v = .error .raised ↔ ¬ ReadableReceipt H R e v := by
  cases v with
  | obj d =>
    rw [verifyReceipt, bind_eq_error, verifyCore_raised_iff]
    constructor
    · rintro (ht | ⟨pk, hpk, h⟩) ⟨hr, hall⟩
      · exact ht hr
      · obtain ⟨es, hes⟩ := verifyCore_eq_ok.1 hpk
        split at h
        next => cases h
        next token htok =>
          exact verifyCapTokenChain_raised_iff.1 h (hall es pk token hes htok)
        next => cases h
    · intro h
      by_cases ht : ReadableTimeline H R d
      · simp only [ReadableReceipt, ht, true_and, not_forall] at h
        obtain ⟨es, pk, token, hes, htok, h⟩ := h
        refine .inr ⟨pk, verifyCore_eq_ok.2 ⟨es, hes⟩, ?_⟩
        rw [htok]
        exact verifyCapTokenChain_raised_iff.2 h
      · exact .inl ht
  | _ => simp [verifyReceipt, ReadableReceipt]

/-! ## Chains -/

/-- The payload of a first entry that is a chain link is read. -/
def ReadableLink (r : Json) : Prop :=
  ∀ first rest, Json.get r.fields "timeline" = .arr (.obj first :: rest) →
    Json.get first "type" = .str typeChainLink → truthy (Json.get first "payload") = true →
    (Json.get first "payload").isObj = true

theorem prevContentHash_eq_none {r : Json} : prevContentHash H r = none ↔ ¬ ReadableLink r := by
  unfold prevContentHash ReadableLink
  split
  next first rest htl =>
    split_ifs with htype hpay
    · rw [Json.eqStr_iff] at htype
      split
      next payload hp =>
        refine iff_of_false (by simp) ?_
        rw [not_not]
        rintro first' rest' heq - -
        rw [htl] at heq
        cases heq
        rw [hp]
        rfl
      next hp =>
        refine iff_of_true rfl fun h => ?_
        have := h first rest htl htype hpay
        exact hp _ (Json.eq_obj_of_isObj this)
    · refine iff_of_false (by simp) ?_
      rw [not_not]
      rintro first' rest' heq - h
      rw [htl] at heq
      cases heq
      exact absurd h hpay
    · refine iff_of_false (by simp) ?_
      rw [not_not]
      rintro first' rest' heq h -
      rw [htl] at heq
      cases heq
      exact absurd (Json.eqStr_iff.2 h) htype
  next hno =>
    refine iff_of_false (by simp) ?_
    rw [not_not]
    exact fun first rest h => absurd h (hno first rest)

/-- One signer, with a name. -/
def OneSigner (rs : List Json) : Prop :=
  (∀ r ∈ rs, ∀ r' ∈ rs, eqv (Json.getD r.fields "signer_did" (.str ""))
    (Json.getD r'.fields "signer_did" (.str "")) = true) ∧
  ∀ r ∈ rs, Json.getD r.fields "signer_did" (.str "") ≠ .str ""

/-- The receipts that are reached are readable, and so is the id of one that is not accepted. -/
def ReadableAll (H : Host) (R : Runtime) (rs : List Json) : Prop :=
  ∀ pre r post, rs = pre ++ r :: post → (∀ x ∈ pre, verifyReceipt H R "" x = .ok ()) →
    ReadableReceipt H R "" r ∧ (verifyReceipt H R "" r ≠ .ok () → sliceable r = true)

/-- What is reached of a value that is verified as a chain is readable. -/
def ReadableChain (H : Host) (R : Runtime) (v : Json) : Prop :=
  truthy v = true → ∃ rs, itemsOf v = some rs ∧ (∀ r ∈ rs, r.isObj = true) ∧
    (∀ r ∈ rs, CapToken.unhashable (Json.getD r.fields "signer_did" (.str "")) = false) ∧
    (OneSigner rs → ReadableAll H R rs ∧
      ((∀ r ∈ rs, verifyReceipt H R "" r = .ok ()) →
        (rs.map fun r => Json.get r.fields "content_hash").Nodup → ∀ r ∈ rs, ReadableLink r))

theorem verifyAll_eq_ok {rs : List Json} :
    verifyAll H R rs = .ok () ↔ ∀ r ∈ rs, verifyReceipt H R "" r = .ok () := by
  induction rs with
  | nil => simp [verifyAll]
  | cons r rs ih =>
    rw [verifyAll, List.forall_mem_cons, ← ih]
    rcases hr : verifyReceipt H R "" r with o | u
    · cases o <;> simp
      split_ifs <;> simp
    · simp

theorem readableAll_cons {r : Json} {rs : List Json} : ReadableAll H R (r :: rs) ↔
    (ReadableReceipt H R "" r ∧ (verifyReceipt H R "" r ≠ .ok () → sliceable r = true)) ∧
      (verifyReceipt H R "" r = .ok () → ReadableAll H R rs) := by
  constructor
  · intro h
    refine ⟨h [] r rs rfl (by simp), fun hr pre x post heq hpre => ?_⟩
    exact h (r :: pre) x post (by rw [heq, List.cons_append]) (List.forall_mem_cons.2 ⟨hr, hpre⟩)
  · rintro ⟨hr, hall⟩ pre x post heq hpre
    cases pre with
    | nil =>
      rw [List.nil_append, List.cons.injEq] at heq
      exact heq.1 ▸ hr
    | cons y pre =>
      rw [List.cons_append, List.cons.injEq] at heq
      obtain ⟨rfl, heq⟩ := heq
      rw [List.forall_mem_cons] at hpre
      exact hall hpre.1 pre x post heq hpre.2

theorem verifyAll_raised_iff {rs : List Json} :
    verifyAll H R rs = .error .raised ↔ ¬ ReadableAll H R rs := by
  induction rs with
  | nil => simp [verifyAll, ReadableAll]
  | cons r rs ih =>
    rw [verifyAll, readableAll_cons]
    have hread := verifyReceipt_raised_iff (H := H) (R := R) (e := "") (v := r)
    rcases hr : verifyReceipt H R "" r with (_ | _) | u
    · have hok : ReadableReceipt H R "" r := by
        by_contra hn
        rw [← hread, hr] at hn
        cases hn
      cases hs : sliceable r <;> simp [hok]
    · simp [hread.1 hr]
    · have hok : ReadableReceipt H R "" r := by
        by_contra hn
        rw [← hread, hr] at hn
        cases hn
      simp [hok, ih]

theorem oneSigner_iff {rs : List Json} : OneSigner rs ↔
    ((rs.map fun r => Json.getD r.fields "signer_did" (.str "")).all (fun s =>
      (rs.map fun r => Json.getD r.fields "signer_did" (.str "")).all (eqv s)) &&
      !(rs.map fun r => Json.getD r.fields "signer_did" (.str "")).any (·.eqStr "")) = true := by
  simp [OneSigner, List.all_eq_true]

/-- **An exception leaves `verify_receipt_chain`** iff what is reached of the value is not
    readable. -/
theorem verifyReceiptChain_raised_iff {v : Json} :
    verifyReceiptChain H R v = .error .raised ↔ ¬ ReadableChain H R v := by
  unfold verifyReceiptChain ReadableChain
  by_cases ht : truthy v = true
  · rw [if_pos ht]
    simp only [ht, forall_const, bind_eq_error, expect_eq_error, expect_eq_ok, require_eq_error,
      require_eq_ok, reduceCtorEq, and_true, and_false, or_false, false_or, exists_false]
    rcases hi : itemsOf v with _ | rs
    · simp
    have hobj : rs.all Json.isObj = true ↔ ∀ r ∈ rs, r.isObj = true := List.all_eq_true
    have hhash : (rs.map fun r => Json.getD r.fields "signer_did" (.str "")).all
        (fun s => !CapToken.unhashable s) = true ↔
        ∀ r ∈ rs, CapToken.unhashable (Json.getD r.fields "signer_did" (.str "")) = false := by
      simp [List.all_eq_true]
    have hlink : (∃ r ∈ rs, prevContentHash H r = none) ↔ ¬ ∀ r ∈ rs, ReadableLink r := by
      simp [prevContentHash_eq_none]
    have hall : ∀ p, (∃ u, verifyAll H R rs = .ok u ∧ p) ↔
        (∀ r ∈ rs, verifyReceipt H R "" r = .ok ()) ∧ p := by
      intro p
      rw [← verifyAll_eq_ok]
      exact ⟨fun h => h.elim fun _ h => h, fun h => ⟨(), h⟩⟩
    simp only [Option.some.injEq, exists_eq_left', reduceCtorEq, false_or, exists_const,
      ← Bool.not_eq_true, hobj, hhash, ← oneSigner_iff, verifyAll_raised_iff, hall,
      decide_eq_true_eq, mapM_eq_none, hlink]
    tauto
  · rw [if_neg ht]
    simp [ht]

end Receipts

end NthDao
