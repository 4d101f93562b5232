/-
  Commits of replacement proofs (`GuardianStore` of `nth_dao/guardian.py`).

  A commit writes the file of the proof and then the mapping of replaced keys; a
  crash can come before, between and after the two.

  * `GuardianStore.commit`: the checks and the two writes, cut after some of them;
  * `Careful`: the commits that are not cut between the writes, have a file name
    of their own and a key that is in no stored proof in another spelling;
  * `commit_sound`: in runs of such commits the mapping is what the stored proofs
    say, and a proof that verifies and replaces nothing replaced is committed;
  * `commit_dead`: a commit cut between the writes is refused for ever.

  The guardian sets are there from the start.  What is written is read back.
-/
import NthDao.Guardian.Quorum
import NthDao.Py.Dict
import NthDao.Reach
import NthDao.SafeId

namespace NthDao

open Py Runs

namespace Guardian

variable (H : Host)

/-! ## The store -/

/-- A value of `active_replacements.json`. -/
structure ActiveEntry where
  newPubkey : Json
  proofId : String
  effectiveAt : Json
  deriving DecidableEq

/-- The files: the guardian sets and the proofs by their names, and the mapping of the
    replaced fingerprints. -/
structure GuardianStore where
  guardianSets : Dict String GuardianSet
  replacements : Dict String KeyReplacementProof := []
  active : Dict String ActiveEntry := []

namespace GuardianStore

variable (s : GuardianStore)

/-- `load_guardian_set`. -/
def loadGuardianSet (setId : String) : Option GuardianSet := s.guardianSets.get (safeId H setId)

/-- `save_replacement`. -/
def saveReplacement (p : KeyReplacementProof) : GuardianStore :=
  { s with replacements := s.replacements.set (safeId H p.proofId) p }

/-- `active[proof.old_fingerprint] = …`, written to its file. -/
def writeActive (fingerprint : String) (p : KeyReplacementProof) : GuardianStore :=
  { s with active := s.active.set fingerprint ⟨p.newPubkey, p.proofId, p.effectiveAt⟩ }

/-- The checks of `commit_replacement` on what has been replaced before. -/
def replays (fingerprint : String) (p : KeyReplacementProof) : Bool :=
  s.active.has fingerprint ||
  s.active.any (fun e => eqv e.2.newPubkey p.newPubkey) ||
  s.replacements.any fun q => q.2.proofId == p.proofId || eqv q.2.newPubkey p.newPubkey

/-- The fingerprint that a commit gets to replace, if all checks pass. -/
def admits (p : KeyReplacementProof) : Option String :=
  match s.loadGuardianSet H p.setId, p.oldFingerprint.asStr with
  | some gs, some fingerprint =>
    if (verifyReplacement H p gs).toOption.isSome && !s.replays fingerprint p then some fingerprint
    else none
  | _, _ => none

/-- `commit_replacement`, cut after `writes` of its writes. -/
def commit (p : KeyReplacementProof) (writes : ℕ) : GuardianStore :=
  match s.admits H p with
  | none => s
  | some fingerprint =>
    match writes with
    | 0 => s
    | 1 => s.saveReplacement H p
    | _ => (s.saveReplacement H p).writeActive fingerprint p

end GuardianStore

/-- A call of `commit_replacement`. -/
structure Commit where
  proof : KeyReplacementProof
  writes : ℕ

/-- One call. -/
def GuardianStore.step (s : GuardianStore) (c : Commit) : Option GuardianStore :=
  some (s.commit H c.proof c.writes)

/-- A commit that passes the checks is not cut between its two writes, has a file name that
    no stored proof has, and a key that no stored proof has in another spelling. -/
def Careful (s : GuardianStore) (c : Commit) : Prop :=
  (s.admits H c.proof).isSome = true → c.writes ≠ 1 ∧
    s.replacements.get (safeId H c.proof.proofId) = none ∧
    ∀ name q, s.replacements.get name = some q → keyOf q.newPubkey ≠ keyOf c.proof.newPubkey

/-! ## Backed entries -/

variable {H} {s s' : GuardianStore}

variable (H) in
/-- An entry of the mapping and the stored proof that it is from. -/
structure Backed (s : GuardianStore) (fingerprint : String) (e : ActiveEntry)
    (p : KeyReplacementProof) : Prop where
  stored : s.replacements.get (safeId H p.proofId) = some p
  id : p.proofId = e.proofId
  key : p.newPubkey = e.newPubkey
  fingerprint : p.oldFingerprint = .str fingerprint
  verified : ∃ gs, s.loadGuardianSet H p.setId = some gs ∧ verifyReplacement H p gs = .ok ()

variable (H) in
/-- The mapping is what the stored proofs say. -/
structure Sound (s : GuardianStore) : Prop where
  names : (s.replacements.map Prod.fst).Nodup
  backed : ∀ fp e, s.active.get fp = some e → ∃ p, Backed H s fp e p
  mapped : ∀ name p, s.replacements.get name = some p →
    ∃ fp e, s.active.get fp = some e ∧ Backed H s fp e p
  once : ∀ fp e fp' e', s.active.get fp = some e → s.active.get fp' = some e' →
    keyOf e.newPubkey = keyOf e'.newPubkey → fp = fp'

theorem admits_eq_some {p : KeyReplacementProof} {fp : String} :
    s.admits H p = some fp ↔ ∃ gs, s.loadGuardianSet H p.setId = some gs ∧
      p.oldFingerprint = .str fp ∧ verifyReplacement H p gs = .ok () ∧ s.replays fp p = false := by
  rw [GuardianStore.admits]
  constructor
  · intro h
    split at h
    · rename_i gs fp' hgs hfp
      split_ifs at h with hv
      cases h
      rw [Bool.and_eq_true, Bool.not_eq_true'] at hv
      exact ⟨gs, hgs, Json.asStr_eq_some.1 hfp, eq_ok_of_isSome hv.1, hv.2⟩
    · cases h
  · rintro ⟨gs, hgs, hfp, hv, hr⟩
    rw [hgs, hfp]
    simp only [Json.asStr, hv, hr, Except.toOption, Option.isSome_some, Bool.not_false,
      Bool.and_self, if_true]

theorem replays_eq_false {fp : String} {p : KeyReplacementProof} :
    s.replays fp p = false ↔ fp ∉ s.active.map Prod.fst ∧
      (∀ e ∈ s.active, eqv e.2.newPubkey p.newPubkey = false) ∧
      ∀ q ∈ s.replacements, q.2.proofId ≠ p.proofId ∧ eqv q.2.newPubkey p.newPubkey = false := by
  simp only [GuardianStore.replays, Bool.or_eq_false_iff, Dict.has_eq_false, List.any_eq_false,
    Bool.not_eq_true, Bool.or_eq_true, not_or, beq_iff_eq, and_assoc]

/-! ## Steps -/

/-- A commit that is not cut between its writes. -/
theorem commit_cases {c : Commit} (hc : Careful H s c) (hs : s.step H c = some s') :
    s' = s ∨ ∃ fp, s.admits H c.proof = some fp ∧
      s.replacements.get (safeId H c.proof.proofId) = none ∧
      (∀ name q, s.replacements.get name = some q → keyOf q.newPubkey ≠ keyOf c.proof.newPubkey) ∧
      s' = (s.saveReplacement H c.proof).writeActive fp c.proof := by
  cases hs
  rw [GuardianStore.commit]
  cases ha : s.admits H c.proof with
  | none => exact .inl rfl
  | some fp =>
    obtain ⟨hw, hname, hkey⟩ := hc (by rw [ha]; rfl)
    rcases hwr : c.writes with _ | _ | n
    · exact .inl rfl
    · exact absurd hwr hw
    · exact .inr ⟨fp, rfl, hname, hkey, rfl⟩

/-- What was there is there after a commit under a new name. -/
theorem Backed.commit {fp fp' : String} {e : ActiveEntry} {p q : KeyReplacementProof}
    (h : Backed H s fp e q) (hname : s.replacements.get (safeId H p.proofId) = none) :
    Backed H ((s.saveReplacement H p).writeActive fp' p) fp e q := by
  refine ⟨?_, h.id, h.key, h.fingerprint, h.verified⟩
  show (s.replacements.set _ p).get _ = _
  rw [Dict.get_set, if_neg, h.stored]
  intro he
  rw [← he, h.stored] at hname
  cases hname

theorem Sound.step (h : Sound H s) {c : Commit} (hc : Careful H s c)
    (hs : s.step H c = some s') : Sound H s' := by
  rcases commit_cases hc hs with rfl | ⟨fp, ha, hname, hkey, rfl⟩
  · exact h
  generalize c.proof = p at *
  obtain ⟨gs, hgs, hfp, hv, hr⟩ := admits_eq_some.1 ha
  obtain ⟨hfresh, -, -⟩ := replays_eq_false.1 hr
  have hactive : ∀ l, ((s.saveReplacement H p).writeActive fp p).active.get l =
      if l = fp then some ⟨p.newPubkey, p.proofId, p.effectiveAt⟩ else s.active.get l :=
    fun l => Dict.get_set ..
  have hstored : ∀ l, ((s.saveReplacement H p).writeActive fp p).replacements.get l =
      if l = safeId H p.proofId then some p else s.replacements.get l := fun l => Dict.get_set ..
  have new : Backed H ((s.saveReplacement H p).writeActive fp p) fp
      ⟨p.newPubkey, p.proofId, p.effectiveAt⟩ p :=
    ⟨by rw [hstored, if_pos rfl], rfl, rfl, hfp, gs, hgs, hv⟩
  -- an older entry has another key
  have apart : ∀ l e, s.active.get l = some e → keyOf e.newPubkey ≠ keyOf p.newPubkey := by
    intro l e he
    obtain ⟨q, hq⟩ := h.backed l e he
    rw [← hq.key]
    exact hkey _ q hq.stored
  refine ⟨Dict.nodup_set h.names _ p, fun l e he => ?_, fun name q hq => ?_,
    fun l e l' e' he he' hk => ?_⟩
  · rw [hactive] at he
    split_ifs at he with hl
    · cases he
      subst hl
      exact ⟨p, new⟩
    · obtain ⟨q, hq⟩ := h.backed l e he
      exact ⟨q, hq.commit hname⟩
  · rw [hstored] at hq
    split_ifs at hq with hl
    · cases hq
      exact ⟨fp, _, by rw [hactive, if_pos rfl], new⟩
    · obtain ⟨l, e, he, hb⟩ := h.mapped name q hq
      refine ⟨l, e, ?_, hb.commit hname⟩
      rw [hactive, if_neg, he]
      rintro rfl
      rw [Dict.get_eq_none.2 hfresh] at he
      cases he
  · rw [hactive] at he he'
    split_ifs at he he' with hl hl' hl'
    · rw [hl, hl']
    · cases he
      exact absurd hk.symm (apart l' e' he')
    · cases he'
      exact absurd hk (apart l e he)
    · exact h.once l e l' e' he he' hk

/-- A fingerprint keeps the key that replaces it. -/
theorem active_step {c : Commit} (hs : s.step H c = some s') {fp : String} {e : ActiveEntry}
    (he : s.active.get fp = some e) : s'.active.get fp = some e := by
  cases hs
  rw [GuardianStore.commit]
  cases ha : s.admits H c.proof with
  | none => exact he
  | some fp' =>
    obtain ⟨_, _, _, _, hr⟩ := admits_eq_some.1 ha
    have hne : fp ≠ fp' := by
      rintro rfl
      rw [Dict.get_eq_none.2 (replays_eq_false.1 hr).1] at he
      cases he
    rcases c.writes with _ | _ | n
    · exact he
    · exact he
    · show (s.active.set _ _).get fp = _
      rw [Dict.get_set, if_neg hne, he]

/-! ## Runs -/

/-- **Commits are safe and can be repeated**: in runs of careful commits

    * every entry of the mapping has a stored proof that verifies, and stays;
    * no two entries have one key;
    * a proof that verifies is committed if its fingerprint is not in the mapping and no
      entry has its id or its key. -/
theorem commit_sound {sets : Dict String GuardianSet}
    (h : Reach (GuardianStore.step H) (Careful H) { guardianSets := sets } s) :
    (∀ fp e, s.active.get fp = some e → (∃ p, Backed H s fp e p) ∧
      ∀ s', Reach (GuardianStore.step H) (fun _ _ => True) s s' → s'.active.get fp = some e) ∧
    (∀ fp e fp' e', s.active.get fp = some e → s.active.get fp' = some e' →
      keyOf e.newPubkey = keyOf e'.newPubkey → fp = fp') ∧
    ∀ p gs fp, s.loadGuardianSet H p.setId = some gs → verifyReplacement H p gs = .ok () →
      p.oldFingerprint = .str fp → s.active.get fp = none →
      (∀ e ∈ s.active, e.2.proofId ≠ p.proofId ∧ eqv e.2.newPubkey p.newPubkey = false) →
      (s.commit H p 2).active.get fp = some ⟨p.newPubkey, p.proofId, p.effectiveAt⟩ := by
  have inv : Sound H s := by
    refine h.invariant (P := Sound H) ⟨List.nodup_nil, ?_, ?_, ?_⟩ fun s c s' hi hc hs => hi.step hc hs
    · intro fp e he
      cases he
    · intro name p hp
      cases hp
    · intro fp e fp' e' he
      cases he
  refine ⟨fun fp e he => ⟨inv.backed fp e he, fun s' h' => ?_⟩, inv.once, ?_⟩
  · exact h'.invariant (P := fun s' => s'.active.get fp = some e) he
      fun s₁ c s₂ h₁ _ hs => active_step hs h₁
  · intro p gs fp hgs hv hfp hnone hfree
    have ha : s.admits H p = some fp := by
      refine admits_eq_some.2 ⟨gs, hgs, hfp, hv, replays_eq_false.2
        ⟨Dict.get_eq_none.1 hnone, fun e he => (hfree e he).2, fun q hq => ?_⟩⟩
      -- a stored proof is the one of an entry
      obtain ⟨l, e, he, hb⟩ := inv.mapped q.1 q.2 (Dict.get_of_mem inv.names hq)
      rw [hb.id, hb.key]
      exact hfree _ (Dict.mem_of_get he)
    rw [GuardianStore.commit, ha]
    show (s.active.set _ _).get fp = _
    rw [Dict.get_set, if_pos rfl]

/-! ## Cuts -/

/-- A stored proof is refused. -/
theorem commit_of_stored {p : KeyReplacementProof} {name : String} (n : ℕ)
    (h : (name, p) ∈ s.replacements) : s.commit H p n = s := by
  have ha : s.admits H p = none := by
    cases ha : s.admits H p with
    | none => rfl
    | some fp =>
      obtain ⟨_, _, _, _, hr⟩ := admits_eq_some.1 ha
      exact absurd rfl ((replays_eq_false.1 hr).2.2 _ h).1
  rw [GuardianStore.commit, ha]

/-- **A commit cut between its writes** leaves the proof without an entry, and every retry is
    refused. -/
theorem commit_dead {p : KeyReplacementProof} {fp : String} (ha : s.admits H p = some fp) :
    (s.commit H p 1).active.get fp = none ∧
      ∀ n, (s.commit H p 1).commit H p n = s.commit H p 1 := by
  obtain ⟨_, _, _, _, hr⟩ := admits_eq_some.1 ha
  have hc : s.commit H p 1 = s.saveReplacement H p := by
    rw [GuardianStore.commit, ha]
    rfl
  rw [hc]
  have hmem : (safeId H p.proofId, p) ∈ (s.saveReplacement H p).replacements := by
    refine Dict.mem_of_get ?_
    show (s.replacements.set _ p).get _ = _
    rw [Dict.get_set, if_pos rfl]
  exact ⟨Dict.get_eq_none.2 (replays_eq_false.1 hr).1, fun n => commit_of_stored n hmem⟩

/-! ## Samples -/

/-- A store with one guardian set. -/
def sampleStore : GuardianStore := { guardianSets := [("s", sampleSet)] }

/-- The checks of the sample proof. -/
def sampleStoreAdmits : PLift ((sampleStore.admits checksumHost sampleProof).isSome = true) :=
  ⟨by decide +kernel⟩

theorem sampleStore_admits : (sampleStore.admits checksumHost sampleProof).isSome = true :=
  sampleStoreAdmits.down

/-- **An interrupted rotation is lost**: the proof is admitted, and after a cut between the
    writes no retry of it changes anything. -/
theorem interrupted_commit_lost : ∃ fp, sampleStore.admits checksumHost sampleProof = some fp ∧
    ∃ s, sampleStore.step checksumHost ⟨sampleProof, 1⟩ = some s ∧ s.active.get fp = none ∧
      ∀ n, s.step checksumHost ⟨sampleProof, n⟩ = some s := by
  obtain ⟨fp, ha⟩ := Option.isSome_iff_exists.1 sampleStore_admits
  obtain ⟨hnone, hdead⟩ := commit_dead ha
  exact ⟨fp, ha, _, rfl, hnone, fun n => congrArg some (hdead n)⟩

/-- The statement for a commit cut before its writes. -/
theorem commit_sound_sample : ∃ s fp,
    sampleStore.step checksumHost ⟨sampleProof, 0⟩ = some s ∧ s.active.get fp = none ∧
    (s.commit checksumHost sampleProof 2).active.get fp =
      some ⟨sampleProof.newPubkey, "p", .str ""⟩ := by
  obtain ⟨fp, ha⟩ := Option.isSome_iff_exists.1 sampleStore_admits
  obtain ⟨gs, hgs, hfp, hv, hr⟩ := admits_eq_some.1 ha
  have hstep : sampleStore.step checksumHost ⟨sampleProof, 0⟩ = some sampleStore := by
    rw [GuardianStore.step, GuardianStore.commit, ha]
    rfl
  have hcareful : Careful checksumHost sampleStore ⟨sampleProof, 0⟩ := by
    intro _
    refine ⟨by simp, rfl, fun name q hq => ?_⟩
    cases hq
  have h := commit_sound (Reach.start.step hcareful hstep)
  refine ⟨sampleStore, fp, hstep, rfl, h.2.2 sampleProof gs fp hgs hv hfp rfl fun e he => ?_⟩
  cases he

end Guardian

end NthDao
