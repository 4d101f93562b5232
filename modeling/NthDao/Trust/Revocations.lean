/-
  When a submitted revocation takes effect, and stays.

  `import_revocation` drops a revocation that repeats a loaded one; it compares
  the endorser, the key and the time, not the name.

  * `InForce g r`: no endorsement that `r` cancels is loaded, in `g` or later;
  * `loadRevocations_reach`: a loaded revocation stays loaded;
  * `in_force_iff`: submitting a signed revocation of a stored endorsement puts
    it in force iff it is recorded, or was before;
  * `revocation_dropped`: a revocation of the same key under another name is not.
-/
import NthDao.Trust.Paths

namespace NthDao

namespace Trust

open Py TrustGraph

variable {H : Host} {iso : String → Option Stamp}

namespace Revocation

/-- Both cancel the same endorsements. -/
def sameTarget (x r : Revocation) : Bool :=
  x.endorserPubkey == r.endorserPubkey && x.subjectPubkey == r.subjectPubkey &&
    x.subjectAgentId == r.subjectAgentId && x.endorsementIssuedAt == r.endorsementIssuedAt

/-- The comparison of `import_revocation` with a loaded revocation. -/
def repeats (x r : Revocation) : Bool :=
  x.endorserPubkey == r.endorserPubkey && x.subjectPubkey == r.subjectPubkey &&
    x.endorsementIssuedAt == r.endorsementIssuedAt

theorem cancels_of_sameTarget {x r : Revocation} (h : x.sameTarget r = true) {e : Endorsement}
    (hr : r.cancels e = true) : x.cancels e = true := by
  simp only [sameTarget, cancels, Bool.and_eq_true, beq_iff_eq] at h hr ⊢
  obtain ⟨⟨⟨h₁, h₂⟩, h₃⟩, h₄⟩ := h
  rw [h₁, h₂, h₃, h₄]
  exact hr

theorem sameTarget_of_cancels {x r : Revocation} {e : Endorsement} (hx : x.cancels e = true)
    (hr : r.cancels e = true) : x.sameTarget r = true := by
  simp only [sameTarget, cancels, Bool.and_eq_true, beq_iff_eq] at hx hr ⊢
  obtain ⟨⟨⟨h₁, h₂⟩, h₃⟩, h₄⟩ := hr
  rw [h₁, h₂, h₃, h₄]
  exact hx

theorem repeats_of_sameTarget {x r : Revocation} (h : x.sameTarget r = true) :
    x.repeats r = true := by
  simp only [sameTarget, repeats, Bool.and_eq_true] at h ⊢
  exact ⟨h.1.1, h.2⟩

end Revocation

/-! ## What is loaded -/

variable {g g' : TrustGraph H iso}

theorem mem_loadAll {e : Endorsement} : e ∈ g.loadAll ↔
    e ∈ g.endorsements ∧ ∀ x ∈ g.loadRevocations, x.cancels e = false := by
  rw [loadAll, List.mem_filter, Bool.not_eq_true', List.any_eq_false]
  simp only [Bool.not_eq_true]

theorem mem_loadRevocations {x : Revocation} :
    x ∈ g.loadRevocations ↔ x ∈ g.revocations ∧ x.verifySig H = true := List.mem_filter

/-- Revocations are appended only. -/
theorem revocations_step {op : Op} (h : step g op = some g') {x : Revocation}
    (hx : x ∈ g.revocations) : x ∈ g'.revocations := by
  cases op with
  | addRoot agentId pubkey =>
    obtain rfl := Option.some.inj h
    rw [addRoot]
    split
    · exact hx
    · exact hx
  | removeRoot agentId =>
    obtain rfl := Option.some.inj h
    rw [removeRoot]
    split
    · exact hx
    · exact hx
  | importEndorsement now e =>
    obtain rfl := Option.some.inj h
    unfold importEndorsement
    split
    · exact hx
    · split
      · exact hx
      · exact hx
      · split
        · split
          · exact hx
          · simp only [Except.toOption, Option.map_some, Option.getD_some, append]
            split
            · exact hx
            · exact hx
        · exact hx
  | importRevocation r =>
    obtain rfl := Option.some.inj h
    rw [importRevocation]
    split_ifs
    · exact hx
    · exact hx
    · exact hx
    · exact List.mem_append_left _ hx
    · exact hx

/-- A loaded revocation stays loaded. -/
theorem loadRevocations_reach (h : Runs.Reach (step (H := H)) (fun _ _ => True) g g')
    {x : Revocation} (hx : x ∈ g.loadRevocations) : x ∈ g'.loadRevocations := by
  rw [mem_loadRevocations] at hx ⊢
  refine ⟨?_, hx.2⟩
  exact h.invariant hx.1 fun s op s' hs _ hstep => revocations_step hstep hs

/-! ## Revocations in force -/

variable (g) in
/-- No endorsement that `r` cancels is loaded or walked over, now or later. -/
def InForce (r : Revocation) : Prop :=
  ∀ g', Runs.Reach (step (H := H)) (fun _ _ => True) g g' →
    ∀ e, r.cancels e = true → e ∉ g'.loadAll ∧ ∀ now context, e ∉ active g' now context

variable (g) in
/-- The revocation is loaded already, or nothing that is loaded repeats it and it
    is read back from its line. -/
def Recorded (r : Revocation) : Prop :=
  (∃ x ∈ g.loadRevocations, x.sameTarget r = true) ∨
    (∀ x ∈ g.loadRevocations, x.repeats r = false) ∧ r.oneLine = true

/-- What a loaded revocation cancels is out for good. -/
theorem inForce_of_mem {x r : Revocation} (hx : x ∈ g.loadRevocations)
    (h : x.sameTarget r = true) : InForce g r := by
  intro g' hg' e he
  have hnot : e ∉ g'.loadAll := by
    intro hmem
    have hfalse := (mem_loadAll.1 hmem).2 x (loadRevocations_reach hg' hx)
    rw [Revocation.cancels_of_sameTarget h he] at hfalse
    cases hfalse
  exact ⟨hnot, fun now context hact => hnot (mem_of_mem_active hact).1⟩

/-- What `import_revocation` leaves, for a signed revocation of a stored endorsement. -/
theorem importRevocation_eq {r : Revocation} (hv : r.verifySig H = true)
    (hm : ∃ e ∈ g.endorsements, r.cancels e = true) :
    (g.importRevocation r).1 =
      if (∀ x ∈ g.loadRevocations, x.repeats r = false) ∧ r.oneLine = true then
        { g with revocations := g.revocations ++ [r] }
      else g := by
  have hany : (g.endorsements.any fun e => r.cancels e) = true := List.any_eq_true.2 hm
  have hrep : (g.loadRevocations.any fun x => x.repeats r) = false ↔
      ∀ x ∈ g.loadRevocations, x.repeats r = false := by
    rw [List.any_eq_false]
    simp only [Bool.not_eq_true]
  rw [importRevocation, hv, hany]
  change (if (g.loadRevocations.any fun x => x.repeats r) = true then _ else _ :
    TrustGraph H iso × Bool).1 = _
  by_cases h : (g.loadRevocations.any fun x => x.repeats r) = true
  · rw [if_pos h, if_neg]
    rintro ⟨hno, -⟩
    rw [hrep.2 hno] at h
    cases h
  · rw [if_neg h]
    have hno := hrep.1 (Bool.eq_false_iff.2 h)
    by_cases hl : r.oneLine = true
    · rw [if_pos hl, if_pos ⟨hno, hl⟩]
    · rw [if_neg hl, if_neg fun h => hl h.2]

/-- **A submitted revocation takes effect for good** iff it is recorded: a signed
    revocation of a stored endorsement is in force after the call exactly if a
    loaded one has its target, or none repeats it and it is read back. -/
theorem in_force_iff {r : Revocation} (hv : r.verifySig H = true)
    (hm : ∃ e ∈ g.endorsements, r.cancels e = true) :
    InForce (g.importRevocation r).1 r ↔ Recorded g r := by
  rw [importRevocation_eq hv hm]
  constructor
  · intro h
    by_contra hnot
    rw [Recorded, not_or] at hnot
    rw [if_neg hnot.2] at h
    obtain ⟨e, he, hc⟩ := hm
    refine (h g .start e hc).1 (mem_loadAll.2 ⟨he, fun x hx => ?_⟩)
    -- a loaded revocation of `e` would have the target of `r`
    rw [Bool.eq_false_iff]
    exact fun hxe => hnot.1 ⟨x, hx, Revocation.sameTarget_of_cancels hxe hc⟩
  · rintro (⟨x, hx, hs⟩ | hnew)
    · have hrep : ¬ ((∀ x ∈ g.loadRevocations, x.repeats r = false) ∧ r.oneLine = true) := by
        rintro ⟨hno, -⟩
        have := hno x hx
        rw [Revocation.repeats_of_sameTarget hs] at this
        cases this
      rw [if_neg hrep]
      exact inForce_of_mem hx hs
    · rw [if_pos hnew]
      refine inForce_of_mem (mem_loadRevocations.2 ⟨List.mem_append_right _ (by simp), hv⟩) ?_
      simp [Revocation.sameTarget]

/-! ## Samples -/

/-- One's own endorsement can be revoked. -/
theorem issueRevocation_ok (k : H.SecretKey) {e : Endorsement}
    (he : e.endorserPubkey = hex (H.pubkey k)) (reason t : String) :
    ∃ s, issueRevocation H k e reason t = .ok
      ⟨hex (H.pubkey k), e.subjectPubkey, e.subjectAgentId, e.issuedAt, reason, t, hex s⟩ := by
  have hstr : ∀ s, (Json.str s).encodable = true := fun _ => rfl
  have henc : (Revocation.signableDict ⟨hex (H.pubkey k), e.subjectPubkey, e.subjectAgentId,
      e.issuedAt, reason, t, ""⟩).encodable = true := by
    rw [Revocation.signableDict, Json.encodable_obj]
    simp [hstr]
  obtain ⟨m, hm⟩ := canonicalJson_of_encodable henc
  refine ⟨H.sign k m, ?_⟩
  simp only [issueRevocation, require_bind_eq_ok, expect_bind_eq_ok, pure_eq_ok, beq_iff_eq]
  exact ⟨he, m, hm, rfl⟩

/-- The vouch of the root key for key 2 under a name, at one time. -/
def sampleVouch (name : String) (s : Bytes) : Endorsement :=
  ⟨sampleKey 1, sampleKey 2, name, 1, "general", "1", "9", hex s⟩

/-- Its revocation. -/
def sampleRevocation (name : String) (s : Bytes) : Revocation :=
  ⟨sampleKey 1, sampleKey 2, name, "1", "", "2", hex s⟩

/-- The root key vouches for key 2 as `name`. -/
theorem exists_sampleVouch (name : String) (hl : Trust.oneLine name = true) :
    ∃ s, (sampleVouch name s).Admitted checksumHost sampleIso ∧
      (sampleVouch name s).isExpired sampleIso 0 = .ok false ∧ (sampleVouch name s).oneLine = true := by
  obtain ⟨s, hs⟩ := issueEndorsement_ok checksumHost (1 : UInt8) name "general" "1" "9"
    (sampleKey_ne_empty 2) (d := 1) le_rfl (by decide)
  have hexp : (sampleVouch name s).isExpired sampleIso 0 = .ok false := by
    simp [sampleVouch, Endorsement.isExpired, sampleIso]
  refine ⟨s, ⟨sampleKey_ne_empty 1, sampleKey_ne_empty 2, comparable_of_isExpired hexp,
    (verifySig_issueEndorsement checksumHost hs).1⟩, hexp, ?_⟩
  have htext : (["general", "1", "9"].all Trust.oneLine) = true := rfl
  simp only [List.all_cons, List.all_nil, Bool.and_true, Bool.and_eq_true] at htext
  simp [sampleVouch, Endorsement.oneLine, sampleKey, oneLine_hex, hl, htext]

/-- And revokes it. -/
theorem exists_sampleRevocation (name : String) (s : Bytes) (hl : Trust.oneLine name = true) :
    ∃ u, (sampleRevocation name u).verifySig checksumHost = true ∧
      (sampleRevocation name u).cancels (sampleVouch name s) = true ∧
      (sampleRevocation name u).oneLine = true := by
  obtain ⟨u, hu⟩ := issueRevocation_ok (H := checksumHost) (1 : UInt8) (e := sampleVouch name s) rfl "" "2"
  obtain ⟨hv, hc⟩ := verifySig_issueRevocation checksumHost hu
  refine ⟨u, hv, hc, ?_⟩
  have htext : (["", "1", "2"].all Trust.oneLine) = true := rfl
  simp only [List.all_cons, List.all_nil, Bool.and_true, Bool.and_eq_true] at htext
  simp [sampleRevocation, Revocation.oneLine, sampleKey, oneLine_hex, hl, htext]

/-- A stored endorsement of the samples is revoked. -/
theorem reached_revoked {g : TrustGraph checksumHost sampleIso}
    (h : Reached checksumHost sampleIso g) {r : Revocation}
    (hv : r.verifySig checksumHost = true) (hm : ∃ e ∈ g.endorsements, r.cancels e = true)
    (hr : g.revocations = []) (hl : r.oneLine = true) : ∃ g', Reached checksumHost sampleIso g' ∧
      g'.endorsements = g.endorsements ∧ g'.revocations = [r] := by
  refine ⟨_, h.step (a := .importRevocation r) trivial rfl, ?_⟩
  have hnew : (∀ x ∈ g.loadRevocations, x.repeats r = false) ∧ r.oneLine = true := by
    refine ⟨fun x hx => ?_, hl⟩
    rw [mem_loadRevocations, hr] at hx
    cases hx.1
  rw [importRevocation_eq hv hm, if_pos hnew]
  exact ⟨rfl, by rw [hr]; rfl⟩

/-- The root key vouches for key 2 as `a` and revokes that, then vouches for it as
    `b` with the same time; the revocation of the second vouch is dropped. -/
theorem revocation_dropped : ∃ g : TrustGraph checksumHost sampleIso,
    Reached checksumHost sampleIso g ∧ ∃ r : Revocation, r.verifySig checksumHost = true ∧
      (∃ e ∈ g.endorsements, r.cancels e = true) ∧ ¬ InForce (g.importRevocation r).1 r := by
  have ha : Trust.oneLine "a" = true := rfl
  have hb : Trust.oneLine "b" = true := rfl
  obtain ⟨g₀, h₀, -, hv₀, he₀⟩ := exists_sample_root
  obtain ⟨s, hadm, hexp, hline⟩ := exists_sampleVouch "a" ha
  obtain ⟨g₁, h₁, -, he₁, hv₁⟩ := h₀.importEndorsement hadm hexp
    (by simp [alreadyKnown, loadAll, he₀]) hline
  obtain ⟨u, hsig, hc, huline⟩ := exists_sampleRevocation "a" s ha
  obtain ⟨g₂, h₂, he₂, hv₂⟩ := reached_revoked h₁ hsig ⟨_, by rw [he₁]; simp, hc⟩ (by rw [hv₁, hv₀]) huline
  have hloaded : g₂.loadRevocations = [sampleRevocation "a" u] := by
    rw [loadRevocations, hv₂, List.filter_cons_of_pos (by exact hsig), List.filter_nil]
  have hnone : g₂.loadAll = [] := by
    rw [loadAll, hloaded, he₂, he₁, he₀]
    simp [hc]
  obtain ⟨s', hadm', hexp', hline'⟩ := exists_sampleVouch "b" hb
  obtain ⟨g, h, -, he, hv⟩ := h₂.importEndorsement hadm' hexp' (by simp [alreadyKnown, hnone]) hline'
  obtain ⟨u', hsig', hc', -⟩ := exists_sampleRevocation "b" s' hb
  have hm : ∃ e ∈ g.endorsements, (sampleRevocation "b" u').cancels e = true :=
    ⟨_, by rw [he]; simp, hc'⟩
  refine ⟨g, h, _, hsig', hm, ?_⟩
  have hlast : g.loadRevocations = [sampleRevocation "a" u] := by
    rw [← hloaded, loadRevocations, loadRevocations, hv]
  rw [in_force_iff hsig' hm, Recorded, hlast]
  simp [sampleRevocation, Revocation.sameTarget, Revocation.repeats]

/-- A first revocation is in force. -/
theorem in_force_first : ∃ g : TrustGraph checksumHost sampleIso, ∃ r : Revocation,
    Reached checksumHost sampleIso g ∧ InForce (g.importRevocation r).1 r := by
  have ha : Trust.oneLine "a" = true := rfl
  obtain ⟨g₀, h₀, -, hv₀, he₀⟩ := exists_sample_root
  obtain ⟨s, hadm, hexp, hline⟩ := exists_sampleVouch "a" ha
  obtain ⟨g₁, h₁, -, he₁, hv₁⟩ := h₀.importEndorsement hadm hexp
    (by simp [alreadyKnown, loadAll, he₀]) hline
  obtain ⟨u, hsig, hc, huline⟩ := exists_sampleRevocation "a" s ha
  refine ⟨g₁, _, h₁, (in_force_iff hsig ⟨_, by rw [he₁]; simp, hc⟩).2 (.inr ⟨?_, huline⟩)⟩
  simp [loadRevocations, hv₁, hv₀]

end Trust

end NthDao
