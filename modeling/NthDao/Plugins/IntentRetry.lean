/-
  Repeating an acceptance.

  * `acceptWith_spec`: what a call has read and what it leaves;
  * `Settled`: the history holds the record of an envelope, under a head of its scope;
  * `settled_of_accept`, `Settled.call`: a call settles its envelope, and calls in other scopes
    keep that;
  * `accept_retry`: the second call returns the record exactly where the resolver still expects
    the revision of the envelope, which no policy does.
-/
import NthDao.Plugins.IntentHistory
import NthDao.Reach
import NthDao.Trust.Endorsement

namespace NthDao

namespace Plugins

open Py MarketIndex

variable {V : IntentHost} {limits : Limits} {rows rows' : List Row} {v : Json} {d : Fields}
  {clock clock' : Clock} {a : Accepted} {governed : Option (Policy V)}
  {resolveContext : Head → ℤ → Except Refusal Context}

/-! ## One call -/

/-- What a call of `_accept` leaves. -/
inductive Leaves (limits : Limits) (rows : List Row) (records : List Record) (d : Fields)
    (expected : Context) (governed : Option (Policy V)) (clock : Clock) :
    Accepted → List Row → Prop
  | existing {r : Record} (found : records.find? (fun r => r.envelopeDigest == hashDocument V d) =
      some r) : Leaves limits rows records d expected governed clock ⟨r, false⟩ rows
  | created {r : Record} (fresh : records.find? (fun r => r.envelopeDigest == hashDocument V d) = none)
      (made : appendRecord limits rows records (headOf records (scopeOf d)) governed expected d clock =
        .ok r) :
      Leaves limits rows records d expected governed clock ⟨r, true⟩ (rows ++ [Row.ofRecord r d])

/-- What a call has read, and what it leaves. -/
theorem acceptWith_spec (hw : v.wf = true)
    (h : acceptWith limits rows v resolveContext governed clock = .ok (a, rows')) :
    ∃ d records expected, verifiedDocument V v = .ok d ∧ readHistory V limits rows = .ok records ∧
      resolveContext (headOf records (scopeOf d)) clock.now = .ok expected ∧
      checkAuthorization V governed expected = .ok () ∧
      verifyIntentEnvelope V (.obj d) expected clock.now = .ok d ∧
      Leaves limits rows records d expected governed clock a rows' := by
  simp only [acceptWith, acceptCurrent, bind_eq_ok, mapError_eq_ok] at h
  obtain ⟨d, hd, records, hread, _, -, expected, hres, _, hauth, document, hdoc, h⟩ := h
  have hsame : document = d := by
    have hidem := (verifiedDocument_idem hw hd).2
    simp only [verifyIntentEnvelope, bind_eq_ok, pure_eq_ok] at hdoc
    obtain ⟨_, -, document', hdoc', _, -, _, -, _, -, _, -, rfl⟩ := hdoc
    exact Except.ok.inj (hdoc'.symm.trans hidem)
  subst hsame
  refine ⟨document, records, expected, hd, hread, hres, hauth, hdoc, ?_⟩
  split at h
  next r hr =>
    rw [pure_eq_ok] at h
    cases h
    exact .existing hr
  next hr =>
    simp only [bind_eq_ok, require_eq_ok, pure_eq_ok] at h
    obtain ⟨r, hmade, _, -, h⟩ := h
    cases h
    exact .created hr hmade

/-- A call whose envelope is in the history returns its record. -/
theorem acceptWith_existing (hw : v.wf = true) (hd : verifiedDocument V v = .ok d)
    {records : List Record} (hread : readHistory V limits rows = .ok records) {r : Record}
    (hr : records.find? (fun r => r.envelopeDigest == hashDocument V d) = some r)
    {expected : Context} (hsafe : isSafeInteger 0 clock.now = true)
    (hres : resolveContext (headOf records (scopeOf d)) clock.now = .ok expected)
    (hauth : checkAuthorization V governed expected = .ok ())
    (hok : verifyIntentEnvelope V (.obj d) expected clock.now = .ok d) :
    acceptWith limits rows v resolveContext governed clock = .ok (⟨r, false⟩, rows) := by
  rw [acceptWith, hd]
  show (Except.ok d >>= _) = _
  have hclock : readClock clock.now = .ok () := require_eq_ok.2 hsafe
  rw [ok_bind, hread, ok_bind, acceptCurrent, hclock, ok_bind, hres, ok_bind, hauth, ok_bind, hok]
  show (Except.ok d >>= _) = _
  rw [ok_bind, hr]
  rfl

/-! ## Settled envelopes -/

/-- The history is read, the envelope has this record, and its scope this head. -/
def Settled (V : IntentHost) (limits : Limits) (rows : List Row) (d : Fields) (r : Record)
    (head : Head) : Prop :=
  ∃ records, readHistory V limits rows = .ok records ∧
    records.find? (fun r => r.envelopeDigest == hashDocument V d) = some r ∧
    headOf records (scopeOf d) = head

/-- The envelope of a record that is made is the document. -/
theorem envelope_made {records : List Record} {ej cj : String} {expected : Context} {head : Head}
    (hwf : (Json.obj d).wf = true) (hself : (Json.obj d).norm = .obj d)
    (hm : Made limits rows records head expected d clock ej cj) :
    (nextRecord V records (hashDocument V d) ej cj clock.commit).envelope = d := by
  have hload : loads (chars ej) = some (.obj d) := by
    rw [loads_canonicalText hwf hm.envelope, hself]
  rw [Record.envelope]
  show ((loads (chars ej)).map Json.fields).getD [] = d
  rw [hload]
  rfl

/-- The history that a call leaves is read. -/
theorem Leaves.read {records : List Record} {expected : Context} (hw : v.wf = true)
    (hd : verifiedDocument V v = .ok d) (hread : readHistory V limits rows = .ok records)
    (hok : verifyIntentEnvelope V (.obj d) expected clock.now = .ok d)
    (h : Leaves limits rows records d expected governed clock a rows') :
    (a.created = false ∧ rows' = rows ∧
      records.find? (fun r => r.envelopeDigest == hashDocument V d) = some a.record) ∨
    (a.created = true ∧ readHistory V limits rows' = .ok (records ++ [a.record]) ∧
      a.record.envelope = d ∧ a.record.envelopeDigest = hashDocument V d ∧
      records.find? (fun r => r.envelopeDigest == hashDocument V d) = none) := by
  have hnorm := (verifiedDocument_idem hw hd).1
  have hwf : (Json.obj d).wf = true := hnorm ▸ Json.wf_norm v hw
  have hself : (Json.obj d).norm = .obj d := by rw [hnorm, Json.norm_norm]
  cases h with
  | existing hr => exact .inl ⟨rfl, rfl, hr⟩
  | created hr hmade =>
    obtain ⟨ej, cj, hm, rfl⟩ := made_of_appendRecord hmade
    exact .inr ⟨rfl, readHistory_made hread hw hd hok hm, envelope_made hwf hself hm, rfl, hr⟩

/-- The head of the scope after a call. -/
def headAfter (V : IntentHost) (records : List Record) (d : Fields) (a : Accepted) : Head :=
  if a.created then ⟨numberOf d "revision", hashDocument V d⟩ else headOf records (scopeOf d)

/-- **A call settles its envelope.** -/
theorem settled_of_accept (hw : v.wf = true)
    (h : acceptWith limits rows v resolveContext governed clock = .ok (a, rows')) :
    ∃ d records, verifiedDocument V v = .ok d ∧ readHistory V limits rows = .ok records ∧
      Settled V limits rows' d a.record (headAfter V records d a) := by
  obtain ⟨d, records, expected, hd, hread, -, -, hok, hleaves⟩ := acceptWith_spec hw h
  refine ⟨d, records, hd, hread, ?_⟩
  rcases hleaves.read hw hd hread hok with ⟨hc, rfl, hr⟩ | ⟨hc, hread', henv, hdig, hr⟩
  · refine ⟨records, hread, hr, ?_⟩
    rw [headAfter, hc]
    rfl
  · refine ⟨records ++ [a.record], hread', ?_, ?_⟩
    · rw [List.find?_append, hr, Option.none_or, List.find?_singleton, hdig]
      simp
    · rw [headAfter, hc, headOf_append, henv, if_pos rfl, hdig]
      rfl

/-- A call in another scope keeps what is settled. -/
theorem Settled.other {d' : Fields} {r : Record} {head : Head} (hs : Settled V limits rows d' r head)
    (hw : v.wf = true) (h : acceptWith limits rows v resolveContext governed clock = .ok (a, rows'))
    (hother : ∀ d, verifiedDocument V v = .ok d → scopeOf d ≠ scopeOf d') :
    Settled V limits rows' d' r head := by
  obtain ⟨d, records, expected, hd, hread, -, -, hok, hleaves⟩ := acceptWith_spec hw h
  obtain ⟨records', hread', hfind, hhead⟩ := hs
  cases hread.symm.trans hread'
  rcases hleaves.read hw hd hread hok with ⟨-, rfl, -⟩ | ⟨-, hread₁, henv, -, -⟩
  · exact ⟨records, hread, hfind, hhead⟩
  · refine ⟨records ++ [a.record], hread₁, ?_, ?_⟩
    · rw [List.find?_append, hfind, Option.some_or]
    · rw [headOf_append, henv, if_neg (hother d hd), hhead]

/-! ## Calls in between -/

/-- A call of a store. -/
inductive Call (V : IntentHost) where
  | accept (envelope : Json) (resolveContext : Head → Except Refusal Context) (clock : Clock)
  | governed (policies : PolicyStore V) (envelope : Json) (signerDid tail : String) (clock : Clock)

namespace Call

def envelope : Call V → Json
  | .accept v _ _ => v
  | .governed _ v _ _ _ => v

def run (limits : Limits) (rows : List Row) : Call V → Except Refusal (Accepted × List Row)
  | .accept v resolveContext clock => Plugins.accept (V := V) limits rows v resolveContext clock
  | .governed policies v signerDid tail clock =>
    acceptGoverned limits rows policies v signerDid tail clock

/-- The rows after a call that returns. -/
def step (limits : Limits) (rows : List Row) (c : Call V) : Option (List Row) :=
  (c.run limits rows).toOption.map Prod.snd

/-- The call is about an envelope of another scope. -/
def Elsewhere (d : Fields) (c : Call V) : Prop :=
  c.envelope.wf = true ∧ ∀ d', verifiedDocument V c.envelope = .ok d' → scopeOf d' ≠ scopeOf d

end Call

/-- What a governed call does. -/
theorem acceptGoverned_spec {policies : PolicyStore V} {signerDid tail : String} (hw : v.wf = true)
    (h : acceptGoverned limits rows policies v signerDid tail clock = .ok (a, rows')) :
    ∃ d policy, verifiedDocument V v = .ok d ∧ policies.requireTail tail = .ok () ∧
      policies.current (textOf d "audience_did") (textOf d "scope_id") = some policy ∧
      verifiedDocument V (.obj d) = .ok d ∧ (Json.obj d).wf = true ∧
      acceptWith limits rows (.obj d) (policy.resolve signerDid) (some policy) clock =
        .ok (a, rows') := by
  simp only [acceptGoverned, bind_eq_ok, mapError_eq_ok, expect_eq_ok] at h
  obtain ⟨d, hd, ⟨⟩, htail, policy, hpolicy, h⟩ := h
  obtain ⟨hnorm, hidem⟩ := verifiedDocument_idem hw hd
  exact ⟨d, policy, hd, htail, hpolicy, hidem, hnorm ▸ Json.wf_norm v hw, h⟩

/-- **Calls in other scopes keep what is settled.** -/
theorem Settled.call {d' : Fields} {r : Record} {head : Head} (hs : Settled V limits rows d' r head)
    {c : Call V} (hc : c.Elsewhere d') (h : c.step limits rows = some rows') :
    Settled V limits rows' d' r head := by
  obtain ⟨⟨a, rows₁⟩, hrun, rfl⟩ := Option.map_eq_some_iff.1 h
  have hrun : c.run limits rows = .ok (a, rows₁) := by
    cases hr : c.run limits rows with
    | error e =>
      rw [hr] at hrun
      cases hrun
    | ok x =>
      rw [hr] at hrun
      exact congrArg Except.ok (Option.some.inj hrun)
  cases c with
  | accept v resolveContext clock => exact hs.other (v := v) hc.1 hrun hc.2
  | governed policies v signerDid tail clock =>
    obtain ⟨d, policy, hd, -, -, hidem, hwf, hrun⟩ := acceptGoverned_spec (v := v) hc.1 hrun
    refine hs.other hwf hrun fun d'' hd'' => ?_
    cases hidem.symm.trans hd''
    exact hc.2 d hd

/-- Rows that calls in other scopes lead to. -/
def Between (V : IntentHost) (limits : Limits) (d : Fields) (rows rows' : List Row) : Prop :=
  Runs.Reach (Call.step (V := V) limits) (fun _ c => c.Elsewhere d) rows rows'

theorem Settled.between {d : Fields} {r : Record} {head : Head} (hs : Settled V limits rows d r head)
    (h : Between V limits d rows rows') : Settled V limits rows' d r head :=
  h.invariant (P := fun rows => Settled V limits rows d r head) hs
    fun _ _ _ hset hc hstep => hset.call hc hstep

/-! ## The same call again -/

/-- The two contexts differ at most in the revision and its predecessor. -/
structure SamePolicy (c c' : Context) : Prop where
  signer : c'.signerDid = c.signerDid
  audience : c'.audienceDid = c.audienceDid
  scope : c'.scopeId = c.scopeId
  draft : c'.draftDigest = c.draftDigest
  classes : c'.allowedSolverClasses = c.allowedSolverClasses
  ceiling : c'.automationCeiling = c.automationCeiling
  authorization : c'.authorizationDigest = c.authorizationDigest

/-- The envelope is live, at a time that the clock can read. -/
structure Live (d : Fields) (now : ℤ) : Prop where
  safe : isSafeInteger 0 now = true
  issued : numberOf d "issued_at_ms" ≤ now
  expires : now < numberOf d "expires_at_ms"

/-- An envelope that is accepted has the revision that is expected. -/
theorem revision_of_verify {c : Context} {now : ℤ} (h : verifyIntentEnvelope V v c now = .ok d) :
    numberOf d "revision" = c.revision := by
  simp only [verifyIntentEnvelope, bind_eq_ok, require_eq_ok, pure_eq_ok, matchesContext,
    Bool.and_eq_true, beq_iff_eq] at h
  obtain ⟨_, -, document, -, _, ⟨⟨-, hr⟩, -⟩, _, -, _, -, _, -, rfl⟩ := h
  exact hr

/-- Under the same policy, the revision and the predecessor decide. -/
theorem verifyIntentEnvelope_iff {c c' : Context} {now now' : ℤ}
    (h : verifyIntentEnvelope V v c now = .ok d) (hs : SamePolicy c c') (hl : Live d now') :
    verifyIntentEnvelope V v c' now' = .ok d ↔
      c'.revision = c.revision ∧ c'.previousDigest = c.previousDigest := by
  have hnow := verifyIntentEnvelope_at h hl.safe ⟨hl.issued, hl.expires⟩
  simp only [verifyIntentEnvelope, bind_eq_ok, require_eq_ok, pure_eq_ok, matchesContext,
    Bool.and_eq_true, beq_iff_eq] at hnow ⊢
  obtain ⟨_, hsafe, document, hdoc, _, ⟨⟨⟨⟨⟨hm₁, hm₂⟩, hm₃⟩, hm₄⟩, hm₅⟩, hm₆⟩, _, htime, _, hclasses, _,
    hlevel, rfl⟩ := hnow
  constructor
  · rintro ⟨_, -, document', hdoc', _, ⟨⟨-, hr⟩, hp⟩, -⟩
    cases hdoc.symm.trans hdoc'
    exact ⟨hr.symm.trans hm₅, hp.symm.trans hm₆⟩
  · rintro ⟨hr, hp⟩
    refine ⟨(), hsafe, document, hdoc, (), ⟨⟨⟨⟨⟨?_, ?_⟩, ?_⟩, ?_⟩, ?_⟩, ?_⟩, (), htime, (), ?_, (), ?_,
      rfl⟩
    · rw [hs.signer, hm₁]
    · rw [hs.audience, hm₂]
    · rw [hs.scope, hm₃]
    · rw [hs.draft, hm₄]
    · rw [hr, hm₅]
    · rw [hp, hm₆]
    · rw [hs.classes]
      exact hclasses
    · rw [hs.ceiling]
      exact hlevel

/-- What a settled envelope's record is returned for. -/
theorem Settled.retry {r : Record} {head : Head} {c c' : Context} {now : ℤ}
    (hs : Settled V limits rows d r head) (hw : v.wf = true) (hd : verifiedDocument V v = .ok d)
    (hok : verifyIntentEnvelope V (.obj d) c now = .ok d) (hsame : SamePolicy c c')
    (hres : resolveContext head clock.now = .ok c')
    (hauth : checkAuthorization V governed c' = .ok ()) (hl : Live d clock.now) :
    acceptWith limits rows v resolveContext governed clock = .ok (⟨r, false⟩, rows) ↔
      c'.revision = c.revision ∧ c'.previousDigest = c.previousDigest := by
  obtain ⟨records, hread, hfind, rfl⟩ := hs
  rw [← verifyIntentEnvelope_iff hok hsame hl]
  constructor
  · intro h
    obtain ⟨d', records', expected, hd', hread', hres', -, hok', -⟩ := acceptWith_spec hw h
    cases hd.symm.trans hd'
    cases hread.symm.trans hread'
    cases hres.symm.trans hres'
    exact hok'
  · exact acceptWith_existing hw hd hread hfind hl.safe hres hauth

namespace Policy

variable {p : Policy V} {signerDid : String} {head head' : Head} {now now' : ℤ} {c c' : Context}

/-- A policy resolves a signer as before while it is valid. -/
theorem resolve_at (h : p.resolve signerDid head now = .ok c) (hs : isSafeInteger 0 now' = true)
    (hv : p.isValidAt now' = true) : p.resolve signerDid head now' = .ok c := by
  simp only [resolve, bind_eq_ok, require_eq_ok] at h ⊢
  obtain ⟨_, hdid, _, -, _, -, h⟩ := h
  exact ⟨(), hdid, (), hs, (), hv, h⟩

end Policy

/-- The head of a scope in the rows. -/
def headIn (rows : List Row) (scope : String × String) : Head :=
  headOf (rows.map Row.toRecord) scope

/-- An acceptance that finds a record under the next revision has met a collision. -/
theorem collision_of_existing {records : List Record} {expected : Context}
    (hread : readHistory V limits rows = .ok records)
    (hl : Leaves limits rows records d expected governed clock a rows') (hc : a.created = false)
    (hnext : numberOf d "revision" = (headOf records (scopeOf d)).revision + 1) :
    ∃ d', d' ≠ d ∧ hashDocument V d' = hashDocument V d := by
  obtain ⟨-, -, -, s, hs, rfl⟩ := readHistory_eq_ok.1 hread
  cases hl with
  | existing hfind =>
    obtain ⟨hle, hdigest⟩ := belowHead_of_verifyRows hs _ (List.mem_of_find?_eq_some hfind)
    have hsame := List.find?_some hfind
    rw [beq_iff_eq] at hsame
    refine ⟨_, ?_, hdigest.symm.trans hsame⟩
    intro heq
    rw [heq] at hle
    omega
  | created => cases hc

end Plugins

end NthDao
