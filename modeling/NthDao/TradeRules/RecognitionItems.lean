/-
  What an evaluation of recognitions depends on.

  * `keptOf` and `kept`: the statements that an evaluation keeps, in the order of the items;
  * `Readable`: an item on which the loop returns;
  * `recognitionChain_congr`: the chain of an issuer is known by its statements;
  * `snapshots_agree_iff`: two lists of items that hold the same statements have one snapshot,
    but for the indexes in quarantine, just when every item of both is readable.
-/
import NthDao.TradeRules.Recognition

namespace NthDao.TradeRules

open Py

variable {H : Host} {copies : Json → Bool} {package : RulePackage H} {policy : TrustPolicy}
  {strict : Bool}

/-! ## Items -/

variable (copies package policy) in
/-- The statement that an item is kept as. -/
def keptOf (raw : RecognitionItem H) : Option (RuleRecognition H) :=
  match examine copies package policy false raw with
  | .ok (.kept s) => some s
  | _ => none

variable (copies package policy) in
/-- The statements that are kept. -/
def kept (items : List (RecognitionItem H)) : List (RuleRecognition H) :=
  items.filterMap (keptOf copies package policy)

variable (copies package policy) in
/-- The issuer of an item can be looked up, and an item that gets as far as the verification is
    no deeper than `copy.deepcopy` goes. -/
def Readable : RecognitionItem H → Prop
  | .statement _ => True
  | .value v => ∀ kvs, v = .obj kvs →
    (∀ xs, Json.get kvs "issuer_did" ≠ .arr xs) ∧ (∀ fs, Json.get kvs "issuer_did" ≠ .obj fs) ∧
      (concerns package policy kvs = .ok true → copies v = true)

theorem memberOf_eq_ok {v : Json} {names : List String} : (∃ b, memberOf v names = .ok b) ↔
    (∀ xs, v ≠ .arr xs) ∧ ∀ fs, v ≠ .obj fs := by
  cases v <;> simp [memberOf]

/-- What is examined strictly is examined. -/
theorem examine_of_strict {raw : RecognitionItem H} {verdict : Verdict H}
    (h : examine copies package policy strict raw = .ok verdict) :
    examine copies package policy false raw = .ok verdict := by
  cases strict with
  | false => exact h
  | true =>
    unfold examine at h ⊢
    split at h
    · cases h
    · rename_i inspected hi
      rw [bind_eq_ok] at h ⊢
      obtain ⟨b, hb, h⟩ := h
      refine ⟨b, hb, ?_⟩
      cases b with
      | false => exact h
      | true =>
        rw [if_pos rfl] at h ⊢
        split at h
        · exact h
        · cases h
        · cases h

theorem exists_concerns {kvs : Fields} : (∃ b, concerns package policy kvs = .ok b) ↔
    (∀ xs, Json.get kvs "issuer_did" ≠ .arr xs) ∧ ∀ fs, Json.get kvs "issuer_did" ≠ .obj fs := by
  rw [← @memberOf_eq_ok _ policy.trustedIssuers]
  constructor
  · rintro ⟨b, hb⟩
    simp only [concerns, bind_eq_ok, mapError_eq_ok] at hb
    obtain ⟨trusted, ht, -⟩ := hb
    exact ⟨trusted, ht⟩
  · rintro ⟨trusted, ht⟩
    rw [concerns, ht]
    exact ⟨_, rfl⟩

/-- The verification of an item fails with a rejection, or where it is too deep. -/
theorem verified_error {raw : RecognitionItem H} {e : RecognitionError}
    (h : raw.verified copies package = .error e) :
    (∃ text, e = .rejected text) ∨ ∃ v, raw = .value v ∧ copies v = false := by
  have hmap : ∀ {x : Except String (RuleRecognition H)},
      x.mapError RecognitionError.rejected = .error e → ∃ text, e = .rejected text := by
    intro x hx
    cases x with
    | error text =>
      cases hx
      exact ⟨text, rfl⟩
    | ok s => cases hx
  cases raw with
  | statement s => exact .inl (hmap h)
  | value v =>
    cases hc : copies v with
    | false => exact .inr ⟨v, rfl, hc⟩
    | true =>
      rw [RecognitionItem.verified, hc] at h
      exact .inl (hmap h)

theorem examine_of_concerns {raw : RecognitionItem H} {kvs : Fields} (hi : raw.inspected = some kvs)
    {b : Bool} (hb : concerns package policy kvs = .ok b)
    (hcopies : b = true → ∀ v, raw = .value v → copies v = true) :
    ∃ verdict, examine copies package policy false raw = .ok verdict := by
  rw [examine, hi]
  simp only [hb, ok_bind]
  cases b with
  | false => exact ⟨.ignored, rfl⟩
  | true =>
    rw [if_pos rfl]
    split
    · rename_i s _
      exact ⟨.kept s, rfl⟩
    · exact ⟨.quarantined, rfl⟩
    · rename_i e hne he
      rcases verified_error he with ⟨text, rfl⟩ | ⟨v, hv, hc⟩
      · exact absurd rfl (hne text)
      · rw [hcopies rfl v hv] at hc
        cases hc

/-- **On which items the loop returns.** -/
theorem examine_iff_readable {raw : RecognitionItem H} :
    (∃ verdict, examine copies package policy false raw = .ok verdict) ↔
      Readable copies package policy raw := by
  cases raw with
  | statement s =>
    refine ⟨fun _ => trivial, fun _ => ?_⟩
    have hissuer := s.valid_fields.1
    obtain ⟨b, hb⟩ : ∃ b, concerns package policy s.document.fields = .ok b :=
      exists_concerns.2 (by
        change Json.get s.document.fields "issuer_did" = _ at hissuer
        rw [hissuer]
        simp)
    exact examine_of_concerns rfl hb fun _ v hv => by cases hv
  | value v =>
    cases v with
    | obj kvs =>
      constructor
      · rintro ⟨verdict, hv⟩ fields hfields
        cases hfields
        simp only [examine, RecognitionItem.inspected, bind_eq_ok] at hv
        obtain ⟨b, hb, hv⟩ := hv
        obtain ⟨harr, hobj⟩ := exists_concerns.1 ⟨b, hb⟩
        refine ⟨harr, hobj, fun hc => ?_⟩
        rw [hc] at hb
        cases hb
        cases hcopies : copies (.obj kvs) with
        | true => rfl
        | false =>
          rw [if_pos rfl, RecognitionItem.verified, hcopies] at hv
          cases hv
      · intro h
        obtain ⟨harr, hobj, hcopies⟩ := h kvs rfl
        obtain ⟨b, hb⟩ : ∃ b, concerns package policy kvs = .ok b := exists_concerns.2 ⟨harr, hobj⟩
        refine examine_of_concerns rfl hb fun hbt v hv => ?_
        cases hv
        exact hcopies (hbt ▸ hb)
    | _ =>
      refine ⟨fun _ kvs hkvs => ?_, fun _ => ⟨.quarantined, rfl⟩⟩
      cases hkvs

/-- A statement by a trusted issuer in scope, for this package, is kept. -/
theorem examine_statement {s : RuleRecognition H} (hi : s.issuerDid ∈ policy.trustedIssuers)
    (hp : s.field "package_digest" = .str package.digest)
    (hr : s.field "rule_id" = .str package.manifest.ruleId)
    (ha : policy.allows s.issuerDid package.manifest.ruleId = true) :
    examine copies package policy strict (.statement s) = .ok (.kept s) := by
  have hissuer : Json.get s.document.fields "issuer_did" = .str s.issuerDid := s.valid_fields.1
  have hconcerns : concerns package policy s.document.fields = .ok true := by
    have hmember : memberOf (.str s.issuerDid) policy.trustedIssuers = .ok true := by
      rw [memberOf, List.any_eq_true.2 ⟨_, hi, Json.eqStr_iff.2 rfl⟩]
      · exact fun _ h => by cases h
      · exact fun _ h => by cases h
    change Json.get s.document.fields "package_digest" = _ at hp
    rw [concerns, hissuer, hmember, hp]
    simp only [mapError_ok, ok_bind, Json.eqStr_iff.2, Bool.true_and, Json.asStr, Option.getD_some,
      ha]
    rfl
  have hverified : RecognitionItem.verified copies package (.statement s) = .ok s := by
    rw [RecognitionItem.verified, s.fromJson_canonical, mapError_eq_ok]
    simp only [ok_bind, assertRecognitionBinding, hp, hr, Json.eqStr_iff.2, require, if_true]
    rfl
  rw [examine]
  simp only [RecognitionItem.inspected, hconcerns, ok_bind, if_true, hverified]
  rfl

/-! ## The loop -/

theorem gather_cons {raw : RecognitionItem H} {items : List (RecognitionItem H)} {index : ℕ}
    {g : Gathered H} {verdict : Verdict H} (hlt : index < maxRecognitionStatements)
    (hv : examine copies package policy strict raw = .ok verdict) :
    gather copies package policy strict index g (raw :: items) =
      gather copies package policy strict (index + 1) (g.add index verdict) items := by
  rw [gather, decide_eq_true hlt, hv]
  rfl

/-- The loop returns where every item is readable, within the limit. -/
theorem exists_gather {items : List (RecognitionItem H)} {index : ℕ} {g : Gathered H}
    (hlen : index + items.length ≤ maxRecognitionStatements) :
    (∃ g', gather copies package policy false index g items = .ok g') ↔
      ∀ raw ∈ items, Readable copies package policy raw := by
  induction items generalizing index g with
  | nil => exact ⟨fun _ raw h => absurd h List.not_mem_nil, fun _ => ⟨g, rfl⟩⟩
  | cons raw items ih =>
    rw [List.length_cons] at hlen
    rw [List.forall_mem_cons, ← examine_iff_readable]
    constructor
    · rintro ⟨g', h⟩
      rw [gather] at h
      simp only [bind_eq_ok] at h
      obtain ⟨_, -, verdict, hv, h⟩ := h
      exact ⟨⟨verdict, hv⟩, (ih (by omega)).1 ⟨g', h⟩⟩
    · rintro ⟨⟨verdict, hv⟩, hall⟩
      obtain ⟨g', h⟩ : ∃ g', gather copies package policy false (index + 1) (g.add index verdict)
          items = .ok g' := (ih (by omega)).2 hall
      exact ⟨g', by rw [gather_cons (by omega) hv]; exact h⟩

/-- What is grouped under an issuer. -/
theorem members_gather {items : List (RecognitionItem H)} {index : ℕ} {g g' : Gathered H}
    (h : gather copies package policy strict index g items = .ok g') (issuer : String) :
    g'.grouped.members issuer = g.grouped.members issuer ++
      (kept copies package policy items).filter fun s => s.issuerDid = issuer := by
  induction items generalizing index g with
  | nil =>
    cases h
    rw [kept, List.filterMap_nil, List.filter_nil, List.append_nil]
  | cons raw items ih =>
    rw [gather] at h
    simp only [bind_eq_ok] at h
    obtain ⟨_, -, verdict, hv, h⟩ := h
    cases verdict with
    | kept s =>
      have hkept : keptOf copies package policy raw = some s := by
        rw [keptOf, examine_of_strict hv]
      rw [ih h, kept, kept, List.filterMap_cons, hkept, Gathered.add]
      show Dict.members (Dict.set _ _ _) issuer ++ _ = _
      rw [Dict.members_set, List.filter_cons]
      by_cases hs : issuer = s.issuerDid
      · rw [if_pos hs, if_pos (decide_eq_true hs.symm), hs, List.append_assoc]
        rfl
      · rw [if_neg hs, if_neg (by simpa using fun he => hs he.symm)]
    | _ =>
      have hkept : keptOf copies package policy raw = none := by
        rw [keptOf, examine_of_strict hv]
      rw [ih h, kept, kept, List.filterMap_cons, hkept]
      rfl

/-! ## Chains -/

theorem followChain_congr {candidates candidates' : ℤ → List (RuleRecognition H)}
    (h : ∀ q, (candidates q).Perm (candidates' q)) (sequences : List ℤ) :
    ∀ (expected : ℤ) (previous : Option (RuleRecognition H)),
      followChain candidates expected previous sequences =
        followChain candidates' expected previous sequences := by
  induction sequences with
  | nil => exact fun _ _ => rfl
  | cons q sequences ih =>
    intro expected previous
    have hq := h q
    rw [followChain, followChain]
    congr 1
    funext _
    by_cases hone : ∃ s, candidates q = [s]
    · obtain ⟨s, hs⟩ := hone
      rw [hs, List.singleton_perm] at hq
      rw [hs, hq]
      simp only [ih]
    · have hone' : ¬∃ s, candidates' q = [s] := by
        rintro ⟨s, hs⟩
        rw [hs, List.perm_singleton] at hq
        exact hone ⟨s, hq⟩
      split
      · rename_i s hs
        exact absurd ⟨s, hs⟩ hone
      · split
        · rename_i s hs
          exact absurd ⟨s, hs⟩ hone'
        · rfl

/-- **The chain of an issuer is known by its statements**, where their digests tell them apart. -/
theorem recognitionChain_congr {xs ys : List (RuleRecognition H)}
    (hinj : ∀ a ∈ xs, ∀ b ∈ xs, a.digest = b.digest → a = b) (h : ∀ a, a ∈ xs ↔ a ∈ ys) :
    recognitionChain xs = recognitionChain ys := by
  have hperm : ((uniqueStatements xs).map Prod.snd).Perm ((uniqueStatements ys).map Prod.snd) :=
    Dict.perm_keyed hinj h
  have hkeys : ∀ q, q ∈ (bySequence xs).map Prod.fst ↔ q ∈ (bySequence ys).map Prod.fst := by
    intro q
    rw [bySequence, bySequence, Dict.keys_group, Dict.keys_group]
    simp only [hperm.mem_iff]
  have hnodup : ∀ zs : List (RuleRecognition H), ((bySequence zs).map Prod.fst).Nodup :=
    fun zs => Dict.nodup_group _ _ List.nodup_nil
  have hhas : (bySequence xs).has 1 = (bySequence ys).has 1 := by
    rw [Bool.eq_iff_iff, Dict.has_iff, Dict.has_iff, hkeys]
  have hmembers : ∀ q, ((bySequence xs).members q).Perm ((bySequence ys).members q) := by
    intro q
    rw [bySequence, bySequence, Dict.members_group, Dict.members_group]
    exact (hperm.filter _).append_left _
  rw [recognitionChain, recognitionChain]
  simp only [hhas, insertionSort_congr (hnodup xs) (hnodup ys) hkeys, followChain_congr hmembers]

theorem recognitionChain_nil :
    recognitionChain ([] : List (RuleRecognition H)) = .error "incomplete" := rfl

/-- The state of an issuer is known by its statements. -/
theorem stateAt_congr {grouped grouped' : Py.Dict String (List (RuleRecognition H))} {issuer : String}
    (hinj : ∀ a ∈ grouped.members issuer, ∀ b ∈ grouped.members issuer, a.digest = b.digest → a = b)
    (h : ∀ a, a ∈ grouped.members issuer ↔ a ∈ grouped'.members issuer) (moment : ℕ) :
    stateAt package policy grouped moment issuer = stateAt package policy grouped' moment issuer := by
  have hchain := recognitionChain_congr hinj h
  rw [stateAt, stateAt]
  cases hm : grouped.members issuer with
  | nil =>
    cases hm' : grouped'.members issuer with
    | nil => rfl
    | cons b bs =>
      rw [hm, hm'] at h
      exact absurd ((h b).2 List.mem_cons_self) List.not_mem_nil
  | cons a as =>
    cases hm' : grouped'.members issuer with
    | nil =>
      rw [hm, hm'] at h
      exact absurd ((h a).1 List.mem_cons_self) List.not_mem_nil
    | cons b bs =>
      rw [hm, hm'] at hchain
      simp only [issuerState, hchain]

/-! ## Snapshots -/

/-- A snapshot but for the indexes in quarantine. -/
def RecognitionSnapshot.projection (snapshot : RecognitionSnapshot) : RecognitionSnapshot :=
  { snapshot with quarantinedStatementIndexes := [] }

/-- **Two lists of items that hold the same statements have one snapshot, but for the indexes in
    quarantine, just when every item of both is readable.** -/
theorem snapshots_agree_iff {items items' : List (RecognitionItem H)}
    (hlen : items.length ≤ maxRecognitionStatements) (hlen' : items'.length ≤ maxRecognitionStatements)
    (hsame : ∀ s, s ∈ kept copies package policy items ↔ s ∈ kept copies package policy items')
    (hinj : ∀ a ∈ kept copies package policy items, ∀ b ∈ kept copies package policy items,
      a.digest = b.digest → a = b) (moment : ℕ) :
    (∃ snapshot snapshot', evaluate copies package policy false moment items = .ok snapshot ∧
      evaluate copies package policy false moment items' = .ok snapshot' ∧
        snapshot.projection = snapshot'.projection) ↔
      (∀ raw ∈ items, Readable copies package policy raw) ∧
        ∀ raw ∈ items', Readable copies package policy raw := by
  have hgather : ∀ {xs : List (RecognitionItem H)}, xs.length ≤ maxRecognitionStatements →
      ((∃ g, gather copies package policy false 0 {} xs = .ok g) ↔
        ∀ raw ∈ xs, Readable copies package policy raw) := fun h =>
    exists_gather (by rwa [Nat.zero_add])
  rw [← hgather hlen, ← hgather hlen']
  constructor
  · rintro ⟨snapshot, snapshot', h, h', -⟩
    rw [evaluate, bind_eq_ok] at h h'
    obtain ⟨g, hg, -⟩ := h
    obtain ⟨g', hg', -⟩ := h'
    exact ⟨⟨g, hg⟩, g', hg'⟩
  · rintro ⟨⟨g, hg⟩, g', hg'⟩
    have hm : ∀ issuer, g.grouped.members issuer =
        (kept copies package policy items).filter fun s => s.issuerDid = issuer :=
      fun issuer => members_gather hg issuer
    have hm' : ∀ issuer, g'.grouped.members issuer =
        (kept copies package policy items').filter fun s => s.issuerDid = issuer :=
      fun issuer => members_gather hg' issuer
    have hstates : policy.trustedIssuers.map (stateAt package policy g.grouped moment) =
        policy.trustedIssuers.map (stateAt package policy g'.grouped moment) := by
      refine List.map_congr_left fun issuer _ => stateAt_congr ?_ ?_ moment
      · rw [hm]
        exact fun a ha b hb => hinj a (List.mem_of_mem_filter ha) b (List.mem_of_mem_filter hb)
      · intro a
        rw [hm, hm', List.mem_filter, List.mem_filter, hsame]
    refine ⟨snapshotOf package policy g moment, snapshotOf package policy g' moment, ?_, ?_, ?_⟩
    · rw [evaluate, hg]
      rfl
    · rw [evaluate, hg']
      rfl
    · simp only [snapshotOf, hstates, RecognitionSnapshot.projection]

/-- An object whose issuer is a list. -/
def listIssuer : Json := .obj [("issuer_did", .arr [])]

/-- It makes the evaluation raise. -/
theorem evaluate_listIssuer : ∃ (package : RulePackage checksumHost) (snapshot : RecognitionSnapshot),
    evaluate (fun _ => true) package teaPolicy false 0 [] = .ok snapshot ∧
      evaluate (fun _ => true) package teaPolicy false 0 [.value listIssuer] =
        .error (.type "unhashable type: 'list'") := by
  obtain ⟨package, -⟩ := exists_teaPackage
  exact ⟨package, _, rfl, rfl⟩

/-- A statement twice and a number, against the statement alone. -/
theorem snapshots_agree_iff_tea : ∃ (package : RulePackage checksumHost)
    (first : RuleRecognition checksumHost),
    (∃ snapshot snapshot',
      evaluate (fun _ => true) package teaPolicy false 0 [.statement first] = .ok snapshot ∧
        evaluate (fun _ => true) package teaPolicy false 0
          [.statement first, .value (.int 3), .statement first] = .ok snapshot' ∧
            snapshot.projection = snapshot'.projection) ↔
      (∀ raw ∈ [RecognitionItem.statement first], Readable (fun _ => true) package teaPolicy raw) ∧
        ∀ raw ∈ [RecognitionItem.statement first, .value (.int 3), .statement first],
          Readable (fun _ => true) package teaPolicy raw := by
  obtain ⟨package, -⟩ := exists_teaPackage
  obtain ⟨first, -⟩ := exists_teaStatements
  have hnumber : keptOf (fun _ => true) package teaPolicy (.value (.int 3)) = none := rfl
  refine ⟨package, first, snapshots_agree_iff
    (by simp [maxRecognitionStatements]) (by simp [maxRecognitionStatements]) ?_ ?_ 0⟩
  · intro s
    simp only [kept, List.filterMap_cons, List.filterMap_nil, hnumber]
    cases keptOf (fun _ => true) package teaPolicy (.statement first) <;> simp
  · intro a ha b hb _
    simp only [kept, List.filterMap_cons, List.filterMap_nil] at ha hb
    cases hk : keptOf (fun _ => true) package teaPolicy (.statement first) with
    | none =>
      rw [hk] at ha
      exact absurd ha List.not_mem_nil
    | some s =>
      rw [hk] at ha hb
      exact (List.mem_singleton.1 ha).trans (List.mem_singleton.1 hb).symm

end NthDao.TradeRules
