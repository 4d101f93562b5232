/-
  How long a quorum of recognitions lasts.

  * `votes`: the number of issuers whose chains count at a time;
  * `Overtaken`: a statement dated behind the evaluation has come into force in a chain
    that counted;
  * `constantOff_votes`: the votes change only where a statement is dated or expires;
  * `quorum_lasts_iff`: a quorum lasts until its `quorum_valid_until` just when there are
    enough votes at every date and expiry of a statement from the first such statement on.
-/
import Mathlib.Data.List.Find
import NthDao.Timeline
import NthDao.TradeRules.RecognitionItems

namespace NthDao.TradeRules

open Py Timeline

variable {H : Host} {copies : Json → Bool} {package : RulePackage H} {policy : TrustPolicy}
  {strict : Bool}

/-! ## Votes -/

/-- A chain counts at a time: its effective statement is a current recognition. -/
def counts (policy : TrustPolicy) (moment : ℕ) (ordered : List (RuleRecognition H)) : Bool :=
  (effectiveAt ordered moment).any fun s =>
    statusOf policy.maxStatementTtlSeconds moment s == "current" &&
      s.field "decision" == .str "recognized"

variable (copies package policy) in
/-- The chain of an issuer among the items. -/
def chainFor (items : List (RecognitionItem H)) (issuer : String) : Option (List (RuleRecognition H)) :=
  (recognitionChain ((kept copies package policy items).filter fun s => s.issuerDid = issuer)).toOption

variable (copies package policy) in
/-- The number of issuers whose chains count. -/
def votes (items : List (RecognitionItem H)) (moment : ℕ) : ℕ :=
  policy.trustedIssuers.countP fun issuer =>
    (chainFor copies package policy items issuer).any (counts policy moment)

variable (copies package policy) in
/-- A statement of a chain that counted at `t`, dated behind it, has come into force. -/
def Overtaken (items : List (RecognitionItem H)) (t moment : ℕ) : Prop :=
  ∃ issuer ∈ policy.trustedIssuers, ∃ ordered,
    chainFor copies package policy items issuer = some ordered ∧ counts policy t ordered = true ∧
      ∃ s ∈ ordered, t < s.issuedAt ∧ s.issuedAt ≤ moment

variable (copies package policy) in
/-- The dates and the expiries of the statements. -/
def instants (items : List (RecognitionItem H)) : List ℕ :=
  (kept copies package policy items).flatMap fun s => [s.issuedAt, s.notAfter]

/-! ## Chains -/

theorem statusOf_eq_current {maxTtl moment : ℕ} {s : RuleRecognition H} :
    statusOf maxTtl moment s = "current" ↔
      ¬maxTtl * 1000000 < s.notAfter - s.issuedAt ∧ moment < s.notAfter := by
  rw [statusOf]
  split_ifs with httl hexp
  · simp [httl]
  · simp [hexp]
  · exact ⟨fun _ => ⟨httl, not_le.1 hexp⟩, fun _ => rfl⟩

theorem mem_followChain {candidates : ℤ → List (RuleRecognition H)} {sequences : List ℤ} :
    ∀ {expected : ℤ} {previous : Option (RuleRecognition H)} {ordered : List (RuleRecognition H)},
      followChain candidates expected previous sequences = .ok ordered →
        ∀ s ∈ ordered, ∃ q, s ∈ candidates q := by
  induction sequences with
  | nil =>
    intro expected previous ordered h
    cases h
    exact fun s hs => absurd hs List.not_mem_nil
  | cons q sequences ih =>
    intro expected previous ordered h
    rw [followChain, require_bind_eq_ok] at h
    obtain ⟨-, h⟩ := h
    split at h
    · rename_i current hcurrent
      simp only [bind_eq_ok, pure_eq_ok] at h
      obtain ⟨_, -, rest, hrest, rfl⟩ := h
      rw [List.forall_mem_cons]
      refine ⟨⟨q, ?_⟩, ih hrest⟩
      rw [hcurrent]
      exact List.mem_singleton_self _
    · cases h

/-- A chain is made of the statements. -/
theorem mem_recognitionChain {statements ordered : List (RuleRecognition H)}
    (h : recognitionChain statements = .ok ordered) : ∀ s ∈ ordered, s ∈ statements := by
  intro s hs
  change (if !(bySequence statements).has 1 then _ else _) = _ at h
  split_ifs at h
  obtain ⟨q, hq⟩ := mem_followChain h s hs
  rw [bySequence, Dict.members_group, List.mem_append] at hq
  rcases hq with hq | hq
  · exact absurd hq List.not_mem_nil
  · obtain ⟨p, hp, rfl⟩ := List.mem_map.1 (List.mem_of_mem_filter hq)
    exact ((Dict.keyed_spec _ statements).2.1 p hp).2

theorem instants_of_chain {items : List (RecognitionItem H)} {issuer : String}
    {ordered : List (RuleRecognition H)}
    (h : chainFor copies package policy items issuer = some ordered) :
    ∀ s ∈ ordered, s.issuedAt ∈ instants copies package policy items ∧
      s.notAfter ∈ instants copies package policy items := by
  intro s hs
  rw [chainFor] at h
  cases hc : recognitionChain
      ((kept copies package policy items).filter fun s => s.issuerDid = issuer) with
  | error e =>
    rw [hc] at h
    cases h
  | ok chain =>
    rw [hc] at h
    cases h
    have hmem := List.mem_of_mem_filter (mem_recognitionChain hc s hs)
    exact ⟨List.mem_flatMap.2 ⟨s, hmem, by simp⟩, List.mem_flatMap.2 ⟨s, hmem, by simp⟩⟩

/-- The effective statement stays while none is dated. -/
theorem effectiveAt_eq {ordered : List (RuleRecognition H)} {a b : ℕ} (hab : a ≤ b)
    (h : ∀ s ∈ ordered, a < s.issuedAt → b < s.issuedAt) :
    effectiveAt ordered b = effectiveAt ordered a := by
  rw [effectiveAt, effectiveAt]
  refine List.find?_congr fun s hs => ?_
  rw [decide_eq_decide]
  constructor
  · intro hsb
    by_contra hsa
    exact absurd (h s (List.mem_reverse.1 hs) (not_le.1 hsa)) (not_lt.2 hsb)
  · exact fun hsa => hsa.trans hab

/-- **The votes change only where a statement is dated or expires.** -/
theorem constantOff_votes (items : List (RecognitionItem H)) :
    ConstantOff (instants copies package policy items)
      fun moment => policy.threshold ≤ votes copies package policy items moment := by
  intro a b hab hoff
  have hvotes : votes copies package policy items a = votes copies package policy items b := by
    refine List.countP_congr fun issuer _ => ?_
    cases hc : chainFor copies package policy items issuer with
    | none => rw [Option.any_none, Option.any_none]
    | some ordered =>
      have hin := instants_of_chain hc
      have heff : effectiveAt ordered b = effectiveAt ordered a :=
        effectiveAt_eq hab fun s hs => hoff _ (hin s hs).1
      rw [Option.any_some, Option.any_some, counts, counts, heff]
      cases hs : effectiveAt ordered a with
      | none => rw [Option.any_none, Option.any_none]
      | some s =>
        have hmem := List.mem_reverse.1 (List.mem_of_find?_eq_some hs)
        have hexp : s.notAfter ≤ a ↔ s.notAfter ≤ b := by
          constructor
          · exact fun h => h.trans hab
          · intro h
            by_contra hgt
            exact absurd (hoff _ (hin s hmem).2 (not_le.1 hgt)) (not_lt.2 h)
        have hstatus : statusOf policy.maxStatementTtlSeconds a s =
            statusOf policy.maxStatementTtlSeconds b s := by
          rw [statusOf, statusOf]
          congr 1
          by_cases ha : s.notAfter ≤ a
          · rw [if_pos ha, if_pos (hexp.1 ha)]
          · rw [if_neg ha, if_neg (mt hexp.2 ha)]
        rw [Option.any_some, Option.any_some, hstatus]
  simp only [hvotes]

/-! ## Snapshots -/

section

variable {items : List (RecognitionItem H)} {g : Gathered H} {moment : ℕ}

/-- What is grouped under an issuer has its chain. -/
theorem recognitionChain_members (hg : gather copies package policy strict 0 {} items = .ok g)
    (issuer : String) : (recognitionChain (g.grouped.members issuer)).toOption =
      chainFor copies package policy items issuer := by
  rw [members_gather hg]
  rfl

theorem recognitionChain_of_chainFor (hg : gather copies package policy strict 0 {} items = .ok g)
    {issuer : String} {ordered : List (RuleRecognition H)}
    (h : chainFor copies package policy items issuer = some ordered) :
    recognitionChain (g.grouped.members issuer) = .ok ordered := by
  rw [← recognitionChain_members hg] at h
  cases hc : recognitionChain (g.grouped.members issuer) with
  | error e =>
    rw [hc] at h
    cases h
  | ok chain =>
    rw [hc] at h
    cases h
    rfl

theorem stateAt_of_members {grouped : Py.Dict String (List (RuleRecognition H))} {issuer : String}
    (h : grouped.members issuer ≠ []) : stateAt package policy grouped moment issuer =
      issuerState issuer (grouped.members issuer) moment policy.maxStatementTtlSeconds := by
  rw [stateAt]
  cases hm : grouped.members issuer with
  | nil => exact absurd hm h
  | cons s statements => rfl

/-- The state that a chain with an effective statement gives. -/
theorem stateAt_of_chain {grouped : Py.Dict String (List (RuleRecognition H))} {issuer : String}
    {ordered : List (RuleRecognition H)} {s : RuleRecognition H}
    (hc : recognitionChain (grouped.members issuer) = .ok ordered)
    (hs : effectiveAt ordered moment = some s) :
    stateAt package policy grouped moment issuer =
      stateOf issuer (statusOf policy.maxStatementTtlSeconds moment s) s := by
  rw [stateAt_of_members]
  · simp only [issuerState, hc, hs]
  · intro hnil
    rw [hnil, recognitionChain_nil] at hc
    cases hc

/-- A state is a current recognition just when the chain counts. -/
theorem currently_stateAt (grouped : Py.Dict String (List (RuleRecognition H))) (issuer : String) :
    (stateAt package policy grouped moment issuer).currently "recognized" =
      (recognitionChain (grouped.members issuer)).toOption.any (counts policy moment) := by
  by_cases hm : grouped.members issuer = []
  · rw [stateAt, hm, recognitionChain_nil]
    dsimp only
    split_ifs <;> rfl
  · cases hc : recognitionChain (grouped.members issuer) with
    | error status =>
      rw [stateAt_of_members hm]
      simp only [issuerState, hc]
      exact Bool.and_false _
    | ok ordered =>
      show _ = counts policy moment ordered
      cases hs : effectiveAt ordered moment with
      | some s =>
        rw [stateAt_of_chain hc hs, counts, hs, Option.any_some]
        simp only [IssuerState.currently, stateOf, Option.some_beq_some]
      | none =>
        rw [stateAt_of_members hm, counts, hs, Option.any_none]
        simp only [issuerState, hc, hs]
        cases ordered.getLast? <;> simp [IssuerState.currently, stateOf]

/-- The quorum is met where there are enough votes. -/
theorem observedQuorumMet_eq (hg : gather copies package policy strict 0 {} items = .ok g) :
    (snapshotOf package policy g moment).observedQuorumMet =
      decide (policy.threshold ≤ votes copies package policy items moment) := by
  have hlen : (issuersDeciding (policy.trustedIssuers.map
      (stateAt package policy g.grouped moment)) "recognized").length =
        votes copies package policy items moment := by
    rw [issuersDeciding, List.length_map, ← List.countP_eq_length_filter, List.countP_map, votes]
    refine List.countP_congr fun issuer _ => ?_
    rw [Function.comp_apply, currently_stateAt, recognitionChain_members hg]
  rw [snapshotOf]
  simp only [hlen]

end

/-! ## The end of a quorum -/

/-- Enough elements of a sorted list lie above what its `k`-th one lies above. -/
theorem lt_countP_of_sorted {xs : List ℕ} (h : xs.Pairwise (· ≥ ·)) {k u s : ℕ}
    (hu : xs[k]? = some u) (hs : s < u) : k < xs.countP (s < ·) := by
  induction xs generalizing k with
  | nil => cases hu
  | cons x xs ih =>
    rw [List.pairwise_cons] at h
    cases k with
    | zero =>
      cases hu
      rw [List.countP_cons_of_pos (by simpa using hs)]
      exact Nat.succ_pos _
    | succ k =>
      rw [List.getElem?_cons_succ] at hu
      have hx : s < x := hs.trans_le (h.1 u (List.mem_of_getElem? hu))
      rw [List.countP_cons_of_pos (by simpa using hx)]
      exact Nat.succ_lt_succ (ih h.2 hu)

/-- **Up to the first later statement of a chain that counted, a quorum lasts.** -/
theorem votes_before {items : List (RecognitionItem H)} {g : Gathered H} {t u s : ℕ}
    (hg : gather copies package policy strict 0 {} items = .ok g)
    (hu : (snapshotOf package policy g t).quorumValidUntil = some u) (hts : t ≤ s) (hsu : s < u)
    (hnot : ¬Overtaken copies package policy items t s) :
    policy.threshold ≤ votes copies package policy items s := by
  rw [snapshotOf] at hu
  simp only [Option.ite_none_right_eq_some] at hu
  have hcount := lt_countP_of_sorted (List.pairwise_insertionSort (· ≥ ·) _) hu.2 hsu
  have hpos := policy.threshold_pos
  rw [(List.perm_insertionSort _ _).countP_eq, List.countP_filterMap, List.countP_filter,
    List.countP_map] at hcount
  refine (Nat.le_of_pred_lt hcount).trans (List.countP_mono_left fun issuer hi hboth => ?_)
  rw [Function.comp_apply, Bool.and_eq_true, currently_stateAt, recognitionChain_members hg] at hboth
  obtain ⟨hexp, hcounted⟩ := hboth
  rw [Option.any_eq_true] at hcounted ⊢
  obtain ⟨ordered, hchain, hcounts⟩ := hcounted
  refine ⟨ordered, hchain, ?_⟩
  have heff : effectiveAt ordered s = effectiveAt ordered t := by
    refine effectiveAt_eq hts fun x hx hlt => ?_
    by_contra hle
    exact hnot ⟨issuer, hi, ordered, hchain, hcounts, x, hx, hlt, not_lt.1 hle⟩
  rw [counts, Option.any_eq_true] at hcounts ⊢
  obtain ⟨head, hhead, hstatus⟩ := hcounts
  refine ⟨head, by rw [heff, hhead], ?_⟩
  rw [stateAt_of_chain (recognitionChain_of_chainFor hg hchain) hhead] at hexp
  have hlast : s < head.notAfter := by simpa [stateOf] using hexp
  rw [Bool.and_eq_true, beq_iff_eq, statusOf_eq_current] at hstatus ⊢
  exact ⟨⟨hstatus.1.1, hlast⟩, hstatus.2⟩

/-- **A quorum lasts until its `quorum_valid_until` just when there are enough votes at every date
    and expiry of a statement from the first later one of a chain that counted on.** -/
theorem quorum_lasts_iff {items : List (RecognitionItem H)} {snapshot : RecognitionSnapshot} {t u : ℕ}
    (h : evaluate copies package policy strict t items = .ok snapshot)
    (hu : snapshot.quorumValidUntil = some u) :
    (∀ t', t ≤ t' → t' < u → ∃ snapshot',
      evaluate copies package policy strict t' items = .ok snapshot' ∧
        snapshot'.observedQuorumMet = true) ↔
      ∀ e ∈ instants copies package policy items, t < e → e < u →
        Overtaken copies package policy items t e →
          policy.threshold ≤ votes copies package policy items e := by
  rw [evaluate, bind_eq_ok] at h
  obtain ⟨g, hg, hsnapshot⟩ := h
  cases hsnapshot
  have hmet : ∀ t', (∃ snapshot',
      evaluate copies package policy strict t' items = .ok snapshot' ∧
        snapshot'.observedQuorumMet = true) ↔
      policy.threshold ≤ votes copies package policy items t' := by
    intro t'
    rw [evaluate, hg]
    constructor
    · rintro ⟨snapshot', hs, hm⟩
      cases hs
      rw [observedQuorumMet_eq hg, decide_eq_true_eq] at hm
      exact hm
    · intro hm
      refine ⟨_, rfl, ?_⟩
      rw [observedQuorumMet_eq hg]
      exact decide_eq_true hm
  simp only [hmet]
  refine forall_iff_instants (constantOff_votes items) ?_ fun s hts hsu => votes_before hg hu hts hsu
  rintro s - ⟨issuer, hi, ordered, hchain, hcounts, x, hx, hlt, hle⟩
  refine ⟨x.issuedAt, (instants_of_chain hchain x hx).1, hlt, hle, fun s' hs' => ?_⟩
  exact ⟨issuer, hi, ordered, hchain, hcounts, x, hx, hlt, hs'⟩

/-! ## A quorum that is overtaken -/

/-- The second statement of the samples joins the first. -/
theorem recognitionChain_pair {first second : RuleRecognition H} (hd : second.digest ≠ first.digest)
    (h₁ : first.sequence = 1) (h₂ : second.sequence = 2)
    (hp₁ : first.field "previous_statement_digest" = .null)
    (hp₂ : second.field "previous_statement_digest" = .str first.digest)
    (hle : first.issuedAt ≤ second.issuedAt) :
    recognitionChain [first, second] = .ok [first, second] := by
  have hu : uniqueStatements [first, second] = [(first.digest, first), (second.digest, second)] := by
    simp [uniqueStatements, Dict.keyed, Dict.set, Dict.has, Ne.symm hd]
  have hb : bySequence [first, second] = [(1, [first]), (2, [second])] := by
    simp [bySequence, hu, Dict.group, Dict.set, Dict.has, Dict.members, Dict.get, h₁, h₂]
  have hsort : [(1 : ℤ), 2].insertionSort (· ≤ ·) = [1, 2] := by decide
  have hj₁ : joins none first = true := beq_iff_eq.2 hp₁
  have hj₂ : joins (some first) second = true := by
    rw [joins, Bool.and_eq_true, Json.eqStr_iff, decide_eq_true_iff]
    exact ⟨hp₂, hle⟩
  rw [recognitionChain, hb]
  simp [Dict.has, hsort, followChain, Dict.members, Dict.get, require, hj₁, hj₂]
  rfl

/-- The chain of the samples is what is grouped. -/
theorem exists_teaChain : ∃ (package : RulePackage checksumHost)
    (items : List (RecognitionItem checksumHost)) (g : Gathered checksumHost)
    (first second : RuleRecognition checksumHost),
    gather (fun _ => true) package teaPolicy false 0 {} items = .ok g ∧
      chainFor (fun _ => true) package teaPolicy items teaIssuer = some [first, second] ∧
        (first.issuedAt = 63921139200000000 ∧ first.notAfter = 63922780800000000 ∧
          first.field "decision" = .str "recognized") ∧
        second.issuedAt = 63921225600000000 ∧ second.field "decision" = .str "revoked" := by
  obtain ⟨package, hpackage, hrule⟩ := exists_teaPackage
  obtain ⟨first, second, hf, hs, hfd, hsd⟩ := exists_teaStatements
  have hfi : first.issuerDid = teaIssuer := by
    rw [RuleRecognition.issuerDid, hf _ (by decide)]
    rfl
  have hsi : second.issuerDid = teaIssuer := by
    rw [RuleRecognition.issuerDid, hs _ (by decide)]
    rfl
  have htrusted : teaIssuer ∈ teaPolicy.trustedIssuers := List.mem_singleton_self _
  have hallows : teaPolicy.allows teaIssuer package.manifest.ruleId = true := by
    rw [hrule]
    decide +kernel
  have hfirst : examine (fun _ => true) package teaPolicy false (.statement first) =
      .ok (.kept first) := by
    refine examine_statement (hfi ▸ htrusted) ?_ ?_ (hfi ▸ hallows)
    · rw [hf _ (by decide), hpackage]
      rfl
    · rw [hf _ (by decide), hrule]
      rfl
  have hsecond : examine (fun _ => true) package teaPolicy false (.statement second) =
      .ok (.kept second) := by
    refine examine_statement (hsi ▸ htrusted) ?_ ?_ (hsi ▸ hallows)
    · rw [hs _ (by decide), hpackage]
      rfl
    · rw [hs _ (by decide), hrule]
      rfl
  have hfirstIssued : first.issuedAt = 63921139200000000 := by
    rw [RuleRecognition.issuedAt, hf _ (by decide)]
    decide +kernel
  have hsecondIssued : second.issuedAt = 63921225600000000 := by
    rw [RuleRecognition.issuedAt, hs _ (by decide)]
    decide +kernel
  have hgather : gather (fun _ => true) package teaPolicy false 0 {}
      [.statement first, .statement second] =
        .ok ((Gathered.add {} 0 (.kept first)).add 1 (.kept second)) := by
    rw [gather_cons (by decide) hfirst, gather_cons (by decide) hsecond, gather]
  refine ⟨package, [.statement first, .statement second], _, first, second, hgather, ?_,
    ⟨hfirstIssued, ?_, ?_⟩, hsecondIssued, ?_⟩
  · have hkept : kept (fun _ => true) package teaPolicy
        [RecognitionItem.statement first, .statement second] = [first, second] := by
      simp only [kept, List.filterMap_cons, List.filterMap_nil, keptOf, hfirst, hsecond]
    rw [chainFor, hkept, List.filter_cons_of_pos (by simp [hfi]),
      List.filter_cons_of_pos (by simp [hsi]), List.filter_nil, recognitionChain_pair]
    · rfl
    · rw [hfd]
      exact hsd
    · rw [RuleRecognition.sequence, hf _ (by decide)]
      rfl
    · rw [RuleRecognition.sequence, hs _ (by decide)]
      rfl
    · rw [hf _ (by decide)]
      rfl
    · rw [hs _ (by decide), hfd]
      rfl
    · rw [hfirstIssued, hsecondIssued]
      decide
  · rw [RuleRecognition.notAfter, hf _ (by decide)]
    decide +kernel
  · rw [hf _ (by decide)]
    rfl
  · rw [hs _ (by decide)]
    rfl

/-- The votes of a policy with one issuer. -/
theorem votes_tea {package : RulePackage checksumHost} {items : List (RecognitionItem checksumHost)}
    {ordered : List (RuleRecognition checksumHost)}
    (hc : chainFor (fun _ => true) package teaPolicy items teaIssuer = some ordered) (moment : ℕ) :
    votes (fun _ => true) package teaPolicy items moment =
      if counts teaPolicy moment ordered then 1 else 0 := by
  have htrusted : teaPolicy.trustedIssuers = [teaIssuer] := rfl
  rw [votes, htrusted, List.countP_singleton, hc, Option.any_some]

/-- The quorum of the samples is met on the first day, until the expiry of its statement. -/
theorem exists_teaQuorum : ∃ (package : RulePackage checksumHost)
    (items : List (RecognitionItem checksumHost)) (snapshot snapshot' : RecognitionSnapshot),
    evaluate (fun _ => true) package teaPolicy false 63921139200000000 items = .ok snapshot ∧
      snapshot.observedQuorumMet = true ∧ snapshot.quorumValidUntil = some 63922780800000000 ∧
        evaluate (fun _ => true) package teaPolicy false 63921225600000000 items = .ok snapshot' ∧
          snapshot'.observedQuorumMet = false := by
  obtain ⟨package, items, g, first, second, hg, hc, ⟨hissued, hexpires, hdecision⟩, hissued',
    hdecision'⟩ := exists_teaChain
  have hfirst : effectiveAt [first, second] 63921139200000000 = some first := by
    simp [effectiveAt, hissued, hissued']
  have hsecond : effectiveAt [first, second] 63921225600000000 = some second := by
    simp [effectiveAt, hissued']
  have hstatus : statusOf teaPolicy.maxStatementTtlSeconds 63921139200000000 first = "current" := by
    rw [statusOf_eq_current, hissued, hexpires]
    decide
  have hcounts : counts teaPolicy 63921139200000000 [first, second] = true := by
    rw [counts, hfirst, Option.any_some, hstatus, hdecision]
    decide
  have hcounts' : counts teaPolicy 63921225600000000 [first, second] = false := by
    have hne : (second.field "decision" == .str "recognized") = false := by
      rw [hdecision']
      decide
    rw [counts, hsecond, Option.any_some, hne, Bool.and_false]
  have hmet : (snapshotOf package teaPolicy g 63921139200000000).observedQuorumMet = true := by
    rw [observedQuorumMet_eq hg, votes_tea hc, hcounts]
    decide
  refine ⟨package, items, snapshotOf package teaPolicy g 63921139200000000,
    snapshotOf package teaPolicy g 63921225600000000, ?_, hmet, ?_, ?_, ?_⟩
  · rw [evaluate, hg]
    rfl
  · have hstate : stateAt package teaPolicy g.grouped 63921139200000000 teaIssuer = _ :=
      stateAt_of_chain (recognitionChain_of_chainFor hg hc) hfirst
    rw [hstatus] at hstate
    have hcurrent : (stateOf teaIssuer "current" first).currently "recognized" = true := by
      rw [IssuerState.currently, stateOf, hdecision]
      rfl
    have hstates : teaPolicy.trustedIssuers.map
        (stateAt package teaPolicy g.grouped 63921139200000000) =
          [stateOf teaIssuer "current" first] := by
      rw [← hstate]
      rfl
    have hexpiries : recognizedExpiries [stateOf teaIssuer "current" first] = [first.notAfter] := by
      rw [recognizedExpiries, List.filter_cons_of_pos hcurrent]
      rfl
    simp only [snapshotOf, hstates, hexpiries] at hmet ⊢
    rw [if_pos hmet, hexpires]
    rfl
  · rw [evaluate, hg]
    rfl
  · rw [observedQuorumMet_eq hg, votes_tea hc, hcounts']
    decide

/-- The revocation of the second day comes before the promised end. -/
theorem quorum_overtaken : ∃ (package : RulePackage checksumHost)
    (items : List (RecognitionItem checksumHost)) (snapshot snapshot' : RecognitionSnapshot)
    (t t' u : ℕ), evaluate (fun _ => true) package teaPolicy false t items = .ok snapshot ∧
      snapshot.observedQuorumMet = true ∧ snapshot.quorumValidUntil = some u ∧ t ≤ t' ∧ t' < u ∧
        evaluate (fun _ => true) package teaPolicy false t' items = .ok snapshot' ∧
          snapshot'.observedQuorumMet = false := by
  obtain ⟨package, items, snapshot, snapshot', h, hmet, hu, h', hmet'⟩ := exists_teaQuorum
  exact ⟨package, items, snapshot, snapshot', _, _, _, h, hmet, hu, by decide, by decide, h', hmet'⟩

theorem quorum_lasts_iff_tea : ∃ (package : RulePackage checksumHost)
    (items : List (RecognitionItem checksumHost)),
    ¬∀ e ∈ instants (fun _ => true) package teaPolicy items, 63921139200000000 < e →
      e < 63922780800000000 → Overtaken (fun _ => true) package teaPolicy items 63921139200000000 e →
        teaPolicy.threshold ≤ votes (fun _ => true) package teaPolicy items e := by
  obtain ⟨package, items, snapshot, snapshot', h, -, hu, h', hmet'⟩ := exists_teaQuorum
  refine ⟨package, items, fun hall => ?_⟩
  obtain ⟨later, hl, hmet⟩ := (quorum_lasts_iff h hu).2 hall 63921225600000000 (by decide) (by decide)
  rw [h'] at hl
  cases hl
  rw [hmet'] at hmet
  cases hmet

end NthDao.TradeRules
