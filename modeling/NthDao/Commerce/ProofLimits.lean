/-
  The resource limits of a provider proof (`nth_dao/commerce/settlement.py`).

  The x402 adapter checks the proof of a receipt and then puts the idempotency key
  into it; `verify_settlement` checks the proof with the key.

  * `proofNodes`, `proofLocal`: what the walk over the stack counts, and what it
    checks of each value, as functions on the tree;
  * `proofWalk_eq_ok`, `proofEncodedSize_eq_ok`: the walk and the whole check in
    these terms;
  * `x402_verifies_iff`: when the result of a receipt verifies.
-/
import NthDao.Commerce.SettleTrade
import NthDao.Py.Parsed

namespace NthDao

open Py

variable (H : Host)

/-! ## The walk as functions on the tree -/

mutual
/-- The nodes of a value. -/
def proofNodes : Json → ℕ
  | .arr xs => 1 + proofNodesList xs
  | .obj kvs => 1 + proofNodesFields kvs
  | _ => 1
def proofNodesList : List Json → ℕ
  | [] => 0
  | x :: xs => proofNodes x + proofNodesList xs
def proofNodesFields : Fields → ℕ
  | [] => 0
  | (_, x) :: kvs => proofNodes x + proofNodesFields kvs
end

mutual
/-- What is checked of a value and its parts at depth `depth`. -/
def proofLocal : Json → ℕ → Bool
  | .null, _ | .bool _, _ => true
  | .int n, _ => Nat.size n.natAbs ≤ maxProofBytes * 4
  | .str s, _ => len s ≤ maxProofBytes
  | .other _, _ => false
  | .arr xs, depth => (depth < maxProofDepth || xs.isEmpty) && xs.length ≤ maxProofNodes &&
      proofLocalList xs (depth + 1)
  | .obj kvs, depth => (depth < maxProofDepth || kvs.isEmpty) && kvs.length ≤ maxProofNodes &&
      proofLocalFields kvs (depth + 1)
def proofLocalList : List Json → ℕ → Bool
  | [], _ => true
  | x :: xs, depth => proofLocal x depth && proofLocalList xs depth
def proofLocalFields : Fields → ℕ → Bool
  | [], _ => true
  | (k, x) :: kvs, depth => len k ≤ maxProofBytes && proofLocal x depth && proofLocalFields kvs depth
end

theorem proofNodesList_eq (xs : List Json) : proofNodesList xs = (xs.map proofNodes).sum := by
  induction xs with
  | nil => rfl
  | cons x xs ih => rw [proofNodesList, ih, List.map_cons, List.sum_cons]

theorem proofNodesFields_eq (kvs : Fields) :
    proofNodesFields kvs = (kvs.map fun p => proofNodes p.2).sum := by
  induction kvs with
  | nil => rfl
  | cons p kvs ih => rw [proofNodesFields, ih, List.map_cons, List.sum_cons]

theorem proofLocalList_iff {xs : List Json} {d : ℕ} :
    proofLocalList xs d = true ↔ ∀ x ∈ xs, proofLocal x d = true := by
  induction xs with
  | nil => simp [proofLocalList]
  | cons x xs ih => rw [proofLocalList, Bool.and_eq_true, ih, List.forall_mem_cons]

theorem proofLocalFields_iff {kvs : Fields} {d : ℕ} : proofLocalFields kvs d = true ↔
    ∀ p ∈ kvs, len p.1 ≤ maxProofBytes ∧ proofLocal p.2 d = true := by
  induction kvs with
  | nil => simp [proofLocalFields]
  | cons p kvs ih =>
    rw [proofLocalFields, Bool.and_eq_true, Bool.and_eq_true, decide_eq_true_eq, ih,
      List.forall_mem_cons]

theorem one_le_proofNodes (v : Json) : 1 ≤ proofNodes v := by
  cases v with
  | arr xs => rw [proofNodes]; exact Nat.le_add_right _ _
  | obj kvs => rw [proofNodes]; exact Nat.le_add_right _ _
  | _ => exact le_rfl

/-- The nodes that are still to be counted. -/
def stackNodes (stack : List (Json × ℕ)) : ℕ := (stack.map fun p => proofNodes p.1).sum

theorem stackNodes_cons (p : Json × ℕ) (stack : List (Json × ℕ)) :
    stackNodes (p :: stack) = proofNodes p.1 + stackNodes stack := by
  rw [stackNodes, List.map_cons, List.sum_cons, stackNodes]

theorem stackNodes_append (s t : List (Json × ℕ)) :
    stackNodes (s ++ t) = stackNodes s + stackNodes t := by
  rw [stackNodes, List.map_append, List.sum_append, stackNodes, stackNodes]

theorem stackNodes_reverse (s : List (Json × ℕ)) : stackNodes s.reverse = stackNodes s := by
  rw [stackNodes, List.map_reverse, List.sum_reverse, stackNodes]

theorem stackNodes_arr (xs : List Json) (d : ℕ) :
    stackNodes (xs.map (·, d)) = proofNodesList xs := by
  rw [stackNodes, List.map_map, proofNodesList_eq]; rfl

theorem stackNodes_obj (kvs : Fields) (d : ℕ) :
    stackNodes (kvs.map fun p => (p.2, d)) = proofNodesFields kvs := by
  rw [stackNodes, List.map_map, proofNodesFields_eq]; rfl

/-- **The walk** passes if and only if the nodes are within the budget and every
    value is within its limits. -/
theorem proofWalk_eq_ok {budget : ℕ} {stack : List (Json × ℕ)} :
    proofWalk budget stack = .ok () ↔
      stackNodes stack ≤ budget ∧ ∀ p ∈ stack, proofLocal p.1 p.2 = true := by
  induction budget generalizing stack with
  | zero =>
    cases stack with
    | nil => simp [proofWalk, stackNodes]
    | cons p stack =>
      have := one_le_proofNodes p.1
      simp only [proofWalk, stackNodes_cons, reduceCtorEq, false_iff, not_and]
      intro h
      omega
  | succ budget ih =>
    cases stack with
    | nil => simp [proofWalk, stackNodes]
    | cons p stack =>
      obtain ⟨v, d⟩ := p
      rw [stackNodes_cons, List.forall_mem_cons]
      cases v with
      | null | bool =>
        rw [proofWalk, ih]
        simp only [proofNodes, proofLocal, true_and]
        refine and_congr ?_ Iff.rfl
        omega
      | int n =>
        rw [proofWalk]
        simp only [proofNodes, proofLocal, decide_eq_true_eq]
        split_ifs with h
        · simp [h]
        · rw [ih]
          simp only [not_lt.1 h, true_and]
          refine and_congr ?_ Iff.rfl
          omega
      | str s =>
        rw [proofWalk]
        simp only [proofNodes, proofLocal, decide_eq_true_eq]
        split_ifs with h
        · simp only [false_iff]
          exact fun hc => absurd hc.2.1 (not_le.2 h)
        · rw [ih]
          simp only [not_lt.1 h, true_and]
          refine and_congr ?_ Iff.rfl
          omega
      | other => simp [proofWalk, proofLocal]
      | arr xs =>
        rw [proofWalk]
        simp only [proofNodes, proofLocal, Bool.and_eq_true, Bool.or_eq_true, decide_eq_true_eq,
          List.isEmpty_iff, proofLocalList_iff]
        split_ifs with h₁ h₂
        · simp only [false_iff]
          exact fun hc => hc.2.1.1.1.elim (not_lt.2 h₁.1) h₁.2
        · simp only [false_iff]
          exact fun hc => absurd hc.2.1.1.2 (not_le.2 h₂)
        · have hmem : (∀ p ∈ (xs.map (·, d + 1)).reverse ++ stack, proofLocal p.1 p.2 = true) ↔
              (∀ x ∈ xs, proofLocal x (d + 1) = true) ∧ ∀ p ∈ stack, proofLocal p.1 p.2 = true := by
            simp only [List.forall_mem_append, List.mem_reverse, List.forall_mem_map]
          rw [ih, stackNodes_append, stackNodes_reverse, stackNodes_arr, hmem]
          constructor
          · rintro ⟨hn, hx, hs⟩
            exact ⟨by omega, ⟨⟨by by_contra hc; exact h₁ (by simpa using hc), not_lt.1 h₂⟩, hx⟩, hs⟩
          · rintro ⟨hn, ⟨-, hx⟩, hs⟩
            exact ⟨by omega, hx, hs⟩
      | obj kvs =>
        rw [proofWalk]
        simp only [proofNodes, proofLocal, Bool.and_eq_true, Bool.or_eq_true, decide_eq_true_eq,
          List.isEmpty_iff, proofLocalFields_iff]
        split_ifs with h₁ h₂ h₃
        · simp only [false_iff]
          exact fun hc => hc.2.1.1.1.elim (not_lt.2 h₁.1) h₁.2
        · simp only [false_iff]
          exact fun hc => absurd hc.2.1.1.2 (not_le.2 h₂)
        · simp only [false_iff]
          rw [List.any_eq_true] at h₃
          obtain ⟨p, hp, hlong⟩ := h₃
          exact fun hc => absurd (hc.2.1.2 p hp).1 (not_le.2 (of_decide_eq_true hlong))
        · have hkeys : ∀ p ∈ kvs, len p.1 ≤ maxProofBytes := fun p hp =>
            not_lt.1 fun hc => h₃ (List.any_eq_true.2 ⟨p, hp, decide_eq_true hc⟩)
          have hmem : (∀ p ∈ (kvs.map fun p => (p.2, d + 1)).reverse ++ stack,
              proofLocal p.1 p.2 = true) ↔ (∀ p ∈ kvs, proofLocal p.2 (d + 1) = true) ∧
                ∀ p ∈ stack, proofLocal p.1 p.2 = true := by
            simp only [List.forall_mem_append, List.mem_reverse, List.forall_mem_map]
          rw [ih, stackNodes_append, stackNodes_reverse, stackNodes_obj, hmem]
          constructor
          · rintro ⟨hn, hx, hs⟩
            exact ⟨by omega, ⟨⟨by by_contra hc; exact h₁ (by simpa using hc), not_lt.1 h₂⟩,
              fun p hp => ⟨hkeys p hp, hx p hp⟩⟩, hs⟩
          · rintro ⟨hn, ⟨-, hx⟩, hs⟩
            exact ⟨by omega, fun p hp => (hx p hp).2, hs⟩

/-- **The whole check**: the nodes, the values and the encoded bytes. -/
theorem proofEncodedSize_eq_ok {kvs : Fields} : (∃ n, proofEncodedSize (.obj kvs) = .ok n) ↔
    proofNodes (.obj kvs) ≤ maxProofNodes ∧ proofLocal (.obj kvs) 0 = true ∧
      (Json.obj kvs).encodable = true ∧ weight false (.obj [("proof", .obj kvs)]) ≤ maxProofBytes := by
  have hwalk : proofWalk maxProofNodes [(.obj kvs, 0)] = .ok () ↔
      proofNodes (.obj kvs) ≤ maxProofNodes ∧ proofLocal (.obj kvs) 0 = true := by
    rw [proofWalk_eq_ok]
    simp [stackNodes]
  have henc : (Json.obj [("proof", .obj kvs)]).encodable = (Json.obj kvs).encodable := by
    rw [Bool.eq_iff_iff, Json.encodable_obj]
    simp
  rw [← and_assoc, ← hwalk, proofEncodedSize]
  simp only [Json.isObj, Bool.not_true, Bool.false_eq_true, if_false]
  cases hw : proofWalk maxProofNodes [(.obj kvs, 0)] with
  | error e => simp
  | ok u =>
    cases hc : canonicalJson (.obj [("proof", .obj kvs)]) with
    | none =>
      have : (Json.obj kvs).encodable ≠ true := fun he => by
        obtain ⟨b, hb⟩ := canonicalJson_of_encodable (henc.trans he)
        rw [hc] at hb
        cases hb
      simp [this]
    | some b =>
      have he : (Json.obj kvs).encodable = true := henc ▸ (canonicalJson_eq_some hc).1
      rw [← canonicalJson_length hc]
      simp only [he, true_and]
      split_ifs with hlen
      · simp only [exists_false, false_iff]
        exact not_le.2 hlen
      · simp only [Except.ok.injEq, exists_eq', true_iff]
        exact not_lt.1 hlen

/-! ## A proof with the key -/

/-- The entries of a proof besides the key. -/
def evidence (proof : Json) : Fields := proof.fields.filter fun p => p.1 != "idempotency_key"

theorem insert_perm {kvs : Fields} (h : (kvs.map Prod.fst).Nodup) (k : String) (v : Json) :
    (Json.insert kvs k v).Perm ((k, v) :: kvs.filter fun p => p.1 != k) := by
  induction kvs with
  | nil => exact List.Perm.refl _
  | cons p kvs ih =>
    rw [List.map_cons, List.nodup_cons] at h
    rw [Json.insert]
    by_cases hp : p.1 = k
    · have hall : kvs.filter (fun q => q.1 != k) = kvs := by
        rw [List.filter_eq_self]
        intro q hq
        rw [bne_iff_ne]
        exact fun hk => h.1 (List.mem_map.2 ⟨q, hq, hk.trans hp.symm⟩)
      rw [if_pos (by simpa using hp), List.filter_cons, if_neg (by simpa using hp), hall]
    · rw [if_neg (by simpa using hp), List.filter_cons, if_pos (by simpa using hp)]
      exact ((ih h.2).cons p).trans (List.Perm.swap _ _ _)

/-- The bytes of the key's entry. -/
def keyEntryBytes : ℕ := 110

theorem itemWeight_key {i : SettlementIntent} {key : String}
    (h : settlementIdempotencyKey H i = .ok key) :
    itemWeight false ("idempotency_key", .str key) = keyEntryBytes := by
  obtain ⟨-, b, -, rfl⟩ := (settlementIdempotencyKey_eq_ok H).1 h
  have hpre : ∀ c ∈ "nth-settlement:v1:sha256:".toList, plain c = true :=
    List.all_eq_true.1 (by decide)
  have hkey : strWeight false "idempotency_key" = 17 := by decide
  rw [itemWeight, weight_str, strWeight_hex (String.toList_append) hpre (H.sha256_isHex b)]
  change strWeight false "idempotency_key" + (25 + 64 + 2) + 2 = 110
  rw [hkey]

section Insert

variable {kvs : Fields} (hn : (kvs.map Prod.fst).Nodup) (key : String)
include hn

theorem proofNodes_insert : proofNodes (.obj (Json.insert kvs "idempotency_key" (.str key))) =
    proofNodes (.obj (evidence (.obj kvs))) + 1 := by
  rw [proofNodes, proofNodes, proofNodesFields_eq, proofNodesFields_eq,
    ((insert_perm hn "idempotency_key" (.str key)).map _).sum_eq, List.map_cons, List.sum_cons,
    evidence, Json.fields_obj]
  simp only [proofNodes]
  omega

theorem weight_insert (hne : evidence (.obj kvs) ≠ []) :
    weight false (.obj [("proof", .obj (Json.insert kvs "idempotency_key" (.str key)))]) =
      weight false (.obj [("proof", .obj (evidence (.obj kvs)))]) +
        itemWeight false ("idempotency_key", .str key) := by
  have hobj : weight false (.obj (Json.insert kvs "idempotency_key" (.str key))) =
      weight false (.obj (evidence (.obj kvs))) +
        itemWeight false ("idempotency_key", .str key) := by
    rw [weight_obj false (insert_ne_nil _ _ _), weight_obj false hne,
      ((insert_perm hn "idempotency_key" (.str key)).map _).sum_eq, List.map_cons, List.sum_cons,
      evidence, Json.fields_obj]
    omega
  rw [weight_obj false (by simp), weight_obj false (by simp)]
  simp only [List.map_cons, List.map_nil, List.sum_cons, List.sum_nil, itemWeight, hobj]
  omega

end Insert

/-- The values of a proof are not worse with the key. -/
theorem proofLocal_insert {kvs : Fields} {key : String} (hkey : len key ≤ maxProofBytes)
    (h : proofLocal (.obj kvs) 0 = true)
    (hlen : (Json.insert kvs "idempotency_key" (.str key)).length ≤ maxProofNodes) :
    proofLocal (.obj (Json.insert kvs "idempotency_key" (.str key))) 0 = true := by
  rw [proofLocal, Bool.and_eq_true, Bool.and_eq_true, proofLocalFields_iff] at h ⊢
  refine ⟨⟨by simp [maxProofDepth], by simpa using hlen⟩, fun p hp => ?_⟩
  rcases Json.mem_insert hp with rfl | hp
  · have hname : len "idempotency_key" ≤ maxProofBytes := by decide
    exact ⟨hname, by rw [proofLocal, decide_eq_true_eq]; exact hkey⟩
  · exact h.2 p hp

theorem length_le_proofNodes (kvs : Fields) : kvs.length ≤ proofNodes (.obj kvs) := by
  have := List.length_le_sum_of_one_le (kvs.map fun p => proofNodes p.2) (by
    simp only [List.forall_mem_map]
    exact fun p _ => one_le_proofNodes p.2)
  rw [proofNodes, proofNodesFields_eq]
  rw [List.length_map] at this
  omega

/-- **A proof that was accepted is accepted with the key** if and only if its
    evidence leaves room for one more node and the bytes of the key's entry. -/
theorem proofEncodedSize_insert_iff {kvs : Fields} (hn : (kvs.map Prod.fst).Nodup)
    {i : SettlementIntent} {key : String} (hkey : settlementIdempotencyKey H i = .ok key)
    (hne : evidence (.obj kvs) ≠ []) (h : ∃ n, proofEncodedSize (.obj kvs) = .ok n) :
    (∃ n, proofEncodedSize (.obj (Json.insert kvs "idempotency_key" (.str key))) = .ok n) ↔
      proofNodes (.obj (evidence (.obj kvs))) + 1 ≤ maxProofNodes ∧
        weight false (.obj [("proof", .obj (evidence (.obj kvs)))]) + keyEntryBytes ≤
          maxProofBytes := by
  obtain ⟨-, hlocal, henc, -⟩ := proofEncodedSize_eq_ok.1 h
  have henc' : (Json.obj (Json.insert kvs "idempotency_key" (.str key))).encodable = true := by
    rw [Json.encodable_obj] at henc ⊢
    intro p hp
    rcases Json.mem_insert hp with rfl | hp
    · rfl
    · exact henc p hp
  have hshort : len key ≤ maxProofBytes := by
    have := itemWeight_key H hkey
    rw [itemWeight, weight_str, keyEntryBytes] at this
    have hle := (length_le_utf8 (chars key)).trans (utf8_le_strWeight key)
    rw [len]
    unfold maxProofBytes
    omega
  rw [proofEncodedSize_eq_ok, proofNodes_insert hn, weight_insert hn _ hne, itemWeight_key H hkey]
  constructor
  · rintro ⟨h₁, -, -, h₂⟩
    exact ⟨h₁, h₂⟩
  · rintro ⟨h₁, h₂⟩
    refine ⟨h₁, proofLocal_insert hshort hlocal ?_, henc', h₂⟩
    have := length_le_proofNodes (Json.insert kvs "idempotency_key" (.str key))
    rw [proofNodes_insert hn] at this
    omega

/-! ## Producer and verifier -/

/-- The terms of an intent, for `verify_settlement`. -/
def SettlementIntent.expected (i : SettlementIntent) : Expected :=
  { amountMinor := i.amountMinor, currency := i.currency, payeeDid := i.payeeDid,
    payerDid := i.payerDid }

theorem isWireToken_of_network : ∀ n ∈ x402TestNetworks, isWireToken n maxNetworkChars = true := by
  decide

/-- The adapter asks for evidence besides the key. -/
theorem resultFromReceipt_evidence {i : SettlementIntent} {rc : RailReceipt} {network : String}
    {now : ℤ} {r : SettlementResult}
    (h : resultFromReceipt H i (.receipt rc) network now = .ok r) : evidence rc.proof ≠ [] := by
  unfold resultFromReceipt at h
  simp only [bind_eq_ok, require_eq_ok, mapError_eq_ok] at h
  obtain ⟨_, -, _, -, _, -, _, -, _, -, _, -, _, -, _, hany, -⟩ := h
  obtain ⟨p, hp, hk⟩ := List.any_eq_true.1 hany
  exact List.ne_nil_of_mem (List.mem_filter.2 ⟨hp, hk⟩)

/-- The verifier's check of a result is about the proof alone. -/
theorem verify_result_iff {i : SettlementIntent} {rc : RailReceipt} {network : String}
    {now nowv : ℤ} {r : SettlementResult} (hpayer : i.payerDid ≠ "")
    (hnetwork : network ∈ x402TestNetworks) (hwf : rc.proof.wf = true) (hpos : 0 < now)
    (hskew : now ≤ nowv + maxSettlementFutureSkewMs)
    (h : resultFromReceipt H i (.receipt rc) network now = .ok r) :
    verifySettlement nowv (.obj r.toPayload) i.expected = .ok () ↔
      proofNodes (.obj (evidence rc.proof)) + 1 ≤ maxProofNodes ∧
        weight false (.obj [("proof", .obj (evidence rc.proof))]) + keyEntryBytes ≤
          maxProofBytes := by
  have hne := resultFromReceipt_evidence H h
  obtain ⟨key, rc', hkey, ⟨⟩, htx, htoken, hsize, rfl⟩ := resultFromReceipt_eq_ok H h
  have hv := SettlementIntent.valid_of_validate ((settlementIdempotencyKey_eq_ok H).1 hkey).1
  have hfields : evidence rc.proof = evidence (.obj rc.proof.fields) := rfl
  have hn : (rc.proof.fields.map Prod.fst).Nodup := by
    cases hp : rc.proof with
    | obj kvs => rw [hp] at hwf; exact (Json.wf_obj.1 hwf).1
    | _ => exact List.nodup_nil
  rw [hfields] at hne ⊢
  rw [← proofEncodedSize_insert_iff H hn hkey hne hsize,
    verifySettlement_toPayload hv ⟨rfl, rfl, rfl, rfl⟩ ⟨rfl, rfl, rfl⟩
      (by simp [knownAdapters, x402Result]) ⟨hpos, hskew⟩,
    verifyExternal_x402 hpayer htx htoken hnetwork (isWireToken_of_network _ hnetwork)]
  constructor
  · rintro ⟨-, hx, -⟩
    exact hx rfl
  · intro hfit
    exact ⟨fun _ => rfl, fun _ => hfit, fun hx => absurd rfl hx⟩

/-- **When the result of a receipt verifies**: exactly if the evidence of its proof
    leaves room for the key, in nodes and in bytes. -/
theorem x402_verifies_iff {i : SettlementIntent} {ret : RailReturn} {network : String}
    {now nowv : ℤ} {r : SettlementResult} (hpayer : i.payerDid ≠ "")
    (hnetwork : network ∈ x402TestNetworks) (hpos : 0 < now)
    (hskew : now ≤ nowv + maxSettlementFutureSkewMs)
    (hwf : ∀ rc, ret = .receipt rc → rc.proof.wf = true)
    (h : resultFromReceipt H i ret network now = .ok r) :
    verifySettlement nowv (.obj r.toPayload) i.expected = .ok () ↔
      ∃ rc, ret = .receipt rc ∧ proofNodes (.obj (evidence rc.proof)) + 1 ≤ maxProofNodes ∧
        weight false (.obj [("proof", .obj (evidence rc.proof))]) + keyEntryBytes ≤
          maxProofBytes := by
  obtain ⟨_, rc, -, rfl, -⟩ := resultFromReceipt_eq_ok H h
  rw [verify_result_iff H hpayer hnetwork (hwf rc rfl) hpos hskew h]
  constructor
  · intro hfit
    exact ⟨rc, rfl, hfit⟩
  · rintro ⟨_, ⟨⟩, hfit⟩
    exact hfit

/-! ## A long reference -/

/-- The receipt of a payment whose proof is one text of `n` characters. -/
def longReceipt (key : String) (n : ℕ) : RailReceipt where
  txRef := .str "0x1"
  status := .str "confirmed"
  proof := .obj [("tx", .str (String.ofList (List.replicate n 'a')))]
  idempotencyKey := .str key

theorem weight_longReceipt (n : ℕ) :
    weight false (.obj [("proof", .obj [("tx", .str (String.ofList (List.replicate n 'a')))])]) =
      n + 19 := by
  have hplain : ∀ c ∈ (String.ofList (List.replicate n 'a')).toList, plain c = true := by
    intro c hc
    rw [String.toList_ofList] at hc
    rw [List.eq_of_mem_replicate hc]
    decide
  have h₁ : strWeight false "proof" = 7 := by decide
  have h₂ : strWeight false "tx" = 4 := by decide
  rw [weight_obj false (by simp)]
  simp only [List.map_cons, List.map_nil, List.sum_cons, List.sum_nil, itemWeight, h₁]
  rw [weight_obj false (by simp)]
  simp only [List.map_cons, List.map_nil, List.sum_cons, List.sum_nil, itemWeight, h₂, weight_str,
    strWeight_plain false hplain, String.length_ofList, List.length_replicate]
  omega

/-- The adapter accepts the receipt up to the byte limit. -/
theorem longReceipt_result {n : ℕ} (hn : n + 19 ≤ maxProofBytes) : ∃ key r,
    settlementIdempotencyKey checksumHost (sampleIntent "did:p") = .ok key ∧
    resultFromReceipt checksumHost (sampleIntent "did:p") (.receipt (longReceipt key n))
      "eip155:84532" 1000 = .ok r := by
  have hvalid : (sampleIntent "did:p").validate = .ok () := by decide
  obtain ⟨b, hb⟩ := @canonicalJson_of_encodable (sampleIntent "did:p").keyBody.fields (by decide)
  obtain ⟨key, hkey⟩ : ∃ key, settlementIdempotencyKey checksumHost (sampleIntent "did:p") = .ok key :=
    ⟨_, (settlementIdempotencyKey_eq_ok _).2 ⟨hvalid, b, hb, rfl⟩⟩
  obtain ⟨size, hsize⟩ : ∃ size, proofEncodedSize (longReceipt key n).proof = .ok size := by
    refine proofEncodedSize_eq_ok.2 ⟨?_, ?_, rfl, ?_⟩
    · simp [proofNodes, proofNodesFields, maxProofNodes]
    · have hlen : n ≤ maxProofBytes := by omega
      have hname : "tx".length ≤ maxProofBytes := by decide
      simpa [proofLocal, proofLocalFields, maxProofDepth, maxProofNodes] using ⟨hname, hlen⟩
    · rw [weight_longReceipt]; exact hn
  refine ⟨key, x402Result (sampleIntent "did:p") key "0x1" "eip155:84532"
    (longReceipt key n).proof.fields 1000, hkey, ?_⟩
  simp only [resultFromReceipt, bind_eq_ok, require_eq_ok, mapError_eq_ok, pure_eq_ok]
  exact ⟨key, hkey, (), by simp [longReceipt], (), rfl, (), rfl, (), rfl, size, hsize, (), rfl, (), rfl,
    rfl⟩

/-- The theorem on a short reference. -/
theorem x402_verifies_short : ∃ key r,
    resultFromReceipt checksumHost (sampleIntent "did:p") (.receipt (longReceipt key 3))
      "eip155:84532" 1000 = .ok r ∧
    (verifySettlement 1000 (.obj r.toPayload) (sampleIntent "did:p").expected = .ok () ↔
      ∃ rc, RailReturn.receipt (longReceipt key 3) = .receipt rc ∧
        proofNodes (.obj (evidence rc.proof)) + 1 ≤ maxProofNodes ∧
        weight false (.obj [("proof", .obj (evidence rc.proof))]) + keyEntryBytes ≤
          maxProofBytes) := by
  obtain ⟨key, r, -, h⟩ := @longReceipt_result 3 (by decide)
  refine ⟨key, r, h, x402_verifies_iff checksumHost (by decide) (by decide) (by decide) (by decide)
    ?_ h⟩
  rintro _ ⟨⟩
  rfl

/-- A reference that fills the limit is accepted from the rail, and the result is
    refused by the verifier. -/
theorem x402_result_refused : ∃ key r,
    resultFromReceipt checksumHost (sampleIntent "did:p") (.receipt (longReceipt key 65517))
      "eip155:84532" 1000 = .ok r ∧
    verifySettlement 1000 (.obj r.toPayload) (sampleIntent "did:p").expected ≠ .ok () := by
  obtain ⟨key, r, -, h⟩ := @longReceipt_result 65517 (by decide)
  refine ⟨key, r, h, fun hok => ?_⟩
  have := ((verify_result_iff checksumHost (by decide) (by decide) rfl (by decide) (by decide) h).1
    hok).2
  have hev : evidence (longReceipt key 65517).proof =
      [("tx", .str (String.ofList (List.replicate 65517 'a')))] := rfl
  rw [hev, weight_longReceipt] at this
  exact absurd this (by decide)

end NthDao
