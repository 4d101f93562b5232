/-
  The books of the memory index.

  * `Books`: every counter is the sum that it stands for, and a principal has a
    revision as long as it has a record or a receipt;
  * `Purged`: what the passing of time does to a state, and `Books.purge`: it does
    no more, and keeps the books.
-/
import NthDao.Plugins.MemoryIndex
import NthDao.Py.Tally

namespace NthDao

namespace MarketIndex

namespace MemoryMarketIndex

open Py

/-- The measure of a record in bytes. -/
def bytes (e : IndexedEntry) : ℤ := e.byteLength

theorem bytes_nonneg (e : IndexedEntry) : 0 ≤ bytes e := Int.natCast_nonneg _

/-- Every counter is the sum that it stands for. -/
structure Counted (s : MemoryMarketIndex) : Prop where
  records : (s.records.map Prod.fst).Nodup
  receipts : (s.mutationReceipts.map Prod.fst).Nodup
  own : ∀ x ∈ s.records, x.1 = (x.2.principal, x.2.entryId)
  totalBytes : s.totalBytes = s.records.total bytes
  principalBytes : ∀ p, (s.principalBytes.get p).getD 0 = s.records.tally bytes p
  principalCounts : ∀ p, (s.principalCounts.get p).getD 0 = s.records.tally (fun _ => 1) p
  receiptCounts : ∀ p, (s.principalMutationReceiptCounts.get p).getD 0 =
    s.mutationReceipts.tally (fun _ => 1) p
  /-- the counters that a removal takes from are there -/
  keyed : ∀ x ∈ s.records,
    s.principalBytes.has x.1.1 = true ∧ s.principalCounts.has x.1.1 = true

/-- The counters, and the revisions of the principals that hold anything. -/
structure Books (s : MemoryMarketIndex) : Prop extends Counted s where
  alive : ∀ p, s.holds p = true ↔ 0 < s.revision p

theorem holds_iff {s : MemoryMarketIndex} {p : String} : s.holds p = true ↔
    (∃ x ∈ s.records, x.1.1 = p) ∨ ∃ x ∈ s.mutationReceipts, x.1.1 = p := by
  rw [holds, Bool.or_eq_true, List.any_eq_true, List.any_eq_true]
  simp only [beq_iff_eq]

theorem holds_eq_false {s : MemoryMarketIndex} {p : String} (h : s.holds p = false) :
    (∀ x ∈ s.records, x.1.1 ≠ p) ∧ ∀ x ∈ s.mutationReceipts, x.1.1 ≠ p := by
  constructor
  · intro x hx he
    have := holds_iff.2 (.inl ⟨x, hx, he⟩)
    simp [h] at this
  · intro x hx he
    have := holds_iff.2 (.inr ⟨x, hx, he⟩)
    simp [h] at this

theorem books_init : Books init where
  records := List.nodup_nil
  receipts := List.nodup_nil
  own := by simp [init]
  totalBytes := rfl
  principalBytes _ := rfl
  principalCounts _ := rfl
  receiptCounts _ := rfl
  keyed := by simp [init]
  alive p := by simp [holds, revision, init, Dict.get]

/-! ## Cleaning up -/

section Cleanup

variable {s : MemoryMarketIndex} (p : String)

theorem cleanup_records : (s.cleanupPrincipalIfUnused p).records = s.records := by
  rw [cleanupPrincipalIfUnused]
  split_ifs <;> rfl

theorem cleanup_receipts : (s.cleanupPrincipalIfUnused p).mutationReceipts = s.mutationReceipts := by
  rw [cleanupPrincipalIfUnused]
  split_ifs <;> rfl

theorem cleanup_active : (s.cleanupPrincipalIfUnused p).active = s.active := by
  rw [cleanupPrincipalIfUnused]
  split_ifs <;> rfl

theorem cleanup_lastNowMs : (s.cleanupPrincipalIfUnused p).lastNowMs = s.lastNowMs := by
  rw [cleanupPrincipalIfUnused]
  split_ifs <;> rfl

theorem cleanup_holds (q : String) : (s.cleanupPrincipalIfUnused p).holds q = s.holds q := by
  rw [holds, cleanup_records, cleanup_receipts, holds]

theorem cleanup_revision (q : String) : (s.cleanupPrincipalIfUnused p).revision q =
    if q = p ∧ s.holds p = false then 0 else s.revision q := by
  rw [cleanupPrincipalIfUnused]
  cases hp : s.holds p
  · simp only [Bool.false_eq_true, if_false, revision, Dict.get_pop, and_true]
    split_ifs <;> rfl
  · simp

theorem getD_pop (d : Dict String ℤ) (q : String) :
    ((d.pop p).get q).getD 0 = if q = p then 0 else (d.get q).getD 0 := by
  rw [Dict.get_pop]
  split_ifs <;> rfl

theorem getD_set (d : Dict String ℤ) (n : ℤ) (q : String) :
    ((d.set p n).get q).getD 0 = if q = p then n else (d.get q).getD 0 := by
  rw [Dict.get_set]
  split_ifs <;> rfl

theorem has_set (d : Dict String ℤ) (n : ℤ) {q : String} (h : d.has q = true) :
    (d.set p n).has q = true := by
  rw [← Dict.get_isSome] at h ⊢
  rw [Dict.get_set]
  split_ifs
  · rfl
  · exact h

/-- A principal without records and receipts has nothing to count. -/
theorem counted_cleanup (h : Counted s) : Counted (s.cleanupPrincipalIfUnused p) := by
  rw [cleanupPrincipalIfUnused]
  cases hp : s.holds p
  · obtain ⟨hrec, hrcp⟩ := holds_eq_false hp
    have hhas : ∀ (d : Dict String ℤ) {q : String}, q ≠ p → d.has q = true →
        (d.pop p).has q = true := by
      intro d q hq hd
      rw [← Dict.get_isSome] at hd ⊢
      rwa [Dict.get_pop, if_neg hq]
    rw [if_neg Bool.false_ne_true]
    refine { h with principalBytes := ?_, principalCounts := ?_, receiptCounts := ?_, keyed := ?_ }
    · intro q
      refine (getD_pop p _ q).trans ?_
      split_ifs with hq
      · exact (Dict.tally_eq_zero bytes (hq ▸ hrec)).symm
      · exact h.principalBytes q
    · intro q
      refine (getD_pop p _ q).trans ?_
      split_ifs with hq
      · exact (Dict.tally_eq_zero _ (hq ▸ hrec)).symm
      · exact h.principalCounts q
    · intro q
      refine (getD_pop p _ q).trans ?_
      split_ifs with hq
      · exact (Dict.tally_eq_zero _ (hq ▸ hrcp)).symm
      · exact h.receiptCounts q
    · intro x hx
      exact ⟨hhas _ (hrec x hx) (h.keyed x hx).1, hhas _ (hrec x hx) (h.keyed x hx).2⟩
  · exact h

end Cleanup

/-! ## Expired receipts -/

theorem counted_drop {s : MemoryMarketIndex} (h : Counted s) {key : String × String}
    {receipt : MutationReceipt} (hk : s.mutationReceipts.get key = some receipt) :
    Counted (s.dropMutationReceipt key) := by
  have hpop : ∀ q, (s.mutationReceipts.pop key).tally (fun _ => 1) q =
      s.mutationReceipts.tally (fun _ => 1) q - if key.1 = q then 1 else 0 := by
    intro q
    rw [Dict.tally_pop _ h.receipts, hk]
    rfl
  have hle : 0 ≤ (s.mutationReceipts.pop key).tally (fun _ => 1) key.1 :=
    Dict.tally_nonneg (fun _ => Int.one_nonneg) _ _
  have hcount := h.receiptCounts key.1
  have hkey := hpop key.1
  rw [if_pos rfl] at hkey
  refine { h with receipts := Dict.nodup_filter h.receipts _, receiptCounts := ?_ }
  intro q
  rw [dropMutationReceipt]
  dsimp only
  rw [hpop q]
  by_cases hq : key.1 = q
  · subst hq
    rw [if_pos rfl]
    by_cases hpos : 0 < (s.principalMutationReceiptCounts.get key.1).getD 0 - 1
    · rw [if_pos hpos, getD_set, if_pos rfl]
      omega
    · rw [if_neg hpos, getD_pop, if_pos rfl]
      omega
  · have hq' : ¬ q = key.1 := fun he => hq he.symm
    rw [if_neg hq, Int.sub_zero, ← h.receiptCounts q]
    split_ifs
    · rw [getD_set, if_neg hq']
    · rw [getD_pop, if_neg hq']

/-- What the receipts that expire take with them. -/
structure ReceiptsDropped (keep : (String × String) × MutationReceipt → Bool)
    (s s' : MemoryMarketIndex) : Prop where
  active : s'.active = s.active
  lastNowMs : s'.lastNowMs = s.lastNowMs
  records : s'.records = s.records
  receipts : s'.mutationReceipts = s.mutationReceipts.filter keep
  revision : ∀ p, s'.revision p = if s'.holds p then s.revision p else 0

theorem pop_eq_filter {κ ν : Type} [DecidableEq κ] (d : Dict κ ν) (k : κ) :
    d.pop k = d.filter fun x => !decide (x.1 = k) :=
  List.filter_congr fun x _ => by simp [bne, BEq.beq]

theorem drop_receipt {s : MemoryMarketIndex} (h : Books s) {key : String × String}
    {receipt : MutationReceipt} (hk : s.mutationReceipts.get key = some receipt) :
    Books ((s.dropMutationReceipt key).cleanupPrincipalIfUnused key.1) ∧
      ReceiptsDropped (fun x => !decide (x.1 = key)) s
        ((s.dropMutationReceipt key).cleanupPrincipalIfUnused key.1) := by
  have hrev : ∀ p, ((s.dropMutationReceipt key).cleanupPrincipalIfUnused key.1).revision p =
      if (s.dropMutationReceipt key).holds p then s.revision p else 0 := by
    intro p
    rw [cleanup_revision]
    by_cases hp : p = key.1
    · subst hp
      cases hd : (s.dropMutationReceipt key).holds key.1
      · simp
      · simp only [Bool.true_eq_false, and_false, if_false, if_true]
        rfl
    · rw [if_neg (fun hc => hp hc.1)]
      have hholds : (s.dropMutationReceipt key).holds p = s.holds p := by
        rw [Bool.eq_iff_iff, holds_iff, holds_iff]
        refine or_congr_right ⟨?_, ?_⟩
        · rintro ⟨x, hx, rfl⟩
          exact ⟨x, (List.mem_filter.1 hx).1, rfl⟩
        · rintro ⟨x, hx, rfl⟩
          have hne : x.1 ≠ key := fun he => hp (congrArg Prod.fst he)
          exact ⟨x, List.mem_filter.2 ⟨hx, by simpa using hne⟩, rfl⟩
      rw [hholds]
      cases hh : s.holds p
      · have : ¬ 0 < s.revision p := fun hc => by simp [(h.alive p).2 hc] at hh
        rw [if_neg (by simp)]
        exact Nat.eq_zero_of_not_pos this
      · rfl
  refine ⟨⟨counted_cleanup _ (counted_drop h.toCounted hk), fun p => ?_⟩, ?_⟩
  · rw [hrev, cleanup_holds]
    cases hd : (s.dropMutationReceipt key).holds p
    · simp
    · refine ⟨fun _ => (h.alive p).1 ?_, fun _ => rfl⟩
      rw [holds_iff] at hd ⊢
      exact hd.imp_right fun ⟨x, hx, hxp⟩ => ⟨x, (List.mem_filter.1 hx).1, hxp⟩
  · refine ⟨cleanup_active _, cleanup_lastNowMs _, cleanup_records _, ?_, fun p => ?_⟩
    · exact (cleanup_receipts _).trans (pop_eq_filter _ _)
    · rw [hrev, cleanup_holds]

theorem ReceiptsDropped.trans {keep keep' : (String × String) × MutationReceipt → Bool}
    {s t u : MemoryMarketIndex} (h : ReceiptsDropped keep s t) (h' : ReceiptsDropped keep' t u) :
    ReceiptsDropped (fun x => keep x && keep' x) s u where
  active := h'.active.trans h.active
  lastNowMs := h'.lastNowMs.trans h.lastNowMs
  records := h'.records.trans h.records
  receipts := by rw [h'.receipts, h.receipts, List.filter_filter]; simp only [Bool.and_comm]
  revision p := by
    rw [h'.revision]
    cases hu : u.holds p
    · rfl
    · have ht : t.holds p = true := by
        rw [holds_iff] at hu ⊢
        rw [h'.records, h'.receipts] at hu
        exact hu.imp_right fun ⟨x, hx, hxp⟩ => ⟨x, (List.mem_filter.1 hx).1, hxp⟩
      rw [if_pos rfl, if_pos rfl, h.revision, if_pos ht]

theorem drop_receipts (ks : List (String × String)) : ∀ {s : MemoryMarketIndex}, Books s →
    ks.Nodup → (∀ k ∈ ks, k ∈ s.mutationReceipts.map Prod.fst) →
    let s' := ks.foldl (fun s key => (s.dropMutationReceipt key).cleanupPrincipalIfUnused key.1) s
    Books s' ∧ ReceiptsDropped (fun x => !decide (x.1 ∈ ks)) s s' := by
  induction ks with
  | nil =>
    intro s h _ _
    refine ⟨h, rfl, rfl, rfl, by simp, fun p => ?_⟩
    cases hp : s.holds p
    · have hz : ¬ 0 < s.revision p := fun hc => by simp [(h.alive p).2 hc] at hp
      simpa [hp] using hz
    · simp [hp]
  | cons k ks ih =>
    intro s h hn hk
    rw [List.nodup_cons] at hn
    obtain ⟨receipt, hr⟩ : ∃ receipt, s.mutationReceipts.get k = some receipt := by
      rw [← Option.isSome_iff_exists, Dict.get_isSome, Dict.has_iff]
      exact hk k List.mem_cons_self
    obtain ⟨hb, hd⟩ := drop_receipt h hr
    have hks : ∀ l ∈ ks, l ∈ ((s.dropMutationReceipt k).cleanupPrincipalIfUnused
        k.1).mutationReceipts.map Prod.fst := by
      intro l hl
      obtain ⟨x, hx, rfl⟩ := List.mem_map.1 (hk l (List.mem_cons_of_mem _ hl))
      have hne : x.1 ≠ k := fun he => hn.1 (he ▸ hl)
      rw [hd.receipts]
      exact List.mem_map_of_mem (List.mem_filter.2 ⟨hx, by simpa using hne⟩)
    obtain ⟨hb', hd'⟩ := ih hb hn.2 hks
    refine ⟨hb', ?_⟩
    have htrans := hd.trans hd'
    simpa only [List.foldl_cons, List.mem_cons, ← Bool.not_or, ← Bool.decide_or] using htrans

/-- **What `_purge_expired_mutation_receipts` does.** -/
theorem purge_receipts {s : MemoryMarketIndex} (h : Books s) (nowMs : ℕ) :
    Books (s.purgeExpiredMutationReceipts nowMs) ∧
      ReceiptsDropped (fun x => !x.2.isExpired nowMs) s (s.purgeExpiredMutationReceipts nowMs) := by
  have hks : ∀ k ∈ (s.mutationReceipts.filter fun x => x.2.isExpired nowMs).map Prod.fst,
      k ∈ s.mutationReceipts.map Prod.fst := by
    intro k hk
    obtain ⟨x, hx, rfl⟩ := List.mem_map.1 hk
    exact List.mem_map_of_mem (List.mem_filter.1 hx).1
  obtain ⟨hb, hd⟩ := drop_receipts _ h (Dict.nodup_filter h.receipts _) hks
  refine ⟨hb, { hd with receipts := hd.receipts.trans (List.filter_congr fun x hx => ?_) }⟩
  -- the keys are distinct, so no other receipt goes with an expired one
  rw [Bool.eq_iff_iff, Bool.not_eq_true', Bool.not_eq_true', decide_eq_false_iff_not, List.mem_map]
  constructor
  · intro hnot
    rw [← Bool.not_eq_true]
    exact fun he => hnot ⟨x, List.mem_filter.2 ⟨hx, he⟩, rfl⟩
  · rintro hlive ⟨y, hy, hyx⟩
    obtain ⟨hy, he⟩ := List.mem_filter.1 hy
    have h₁ := Dict.get_of_mem h.receipts hx
    have h₂ := Dict.get_of_mem h.receipts hy
    rw [hyx, h₁, Option.some.injEq] at h₂
    rw [← h₂, hlive] at he
    cases he

/-! ## Expired records -/

/-- Whether a record of a principal is past its retention. -/
def hasExpired (s : MemoryMarketIndex) (nowMs : ℕ) (p : String) : Bool :=
  s.records.any fun x => x.1.1 == p && x.2.isExpired nowMs

/-- What the records that expire for some principals take with them. -/
structure RecordsDropped (nowMs : ℕ) (ps : List String) (s s' : MemoryMarketIndex) : Prop where
  active : s'.active = s.active
  lastNowMs : s'.lastNowMs = s.lastNowMs
  receipts : s'.mutationReceipts = s.mutationReceipts
  records : s'.records =
    s.records.filter fun x => !(decide (x.2.principal ∈ ps) && x.2.isExpired nowMs)
  revision : ∀ p, s'.revision p =
    if s'.holds p then (if p ∈ ps then s.revision p + 1 else s.revision p) else 0

section Principal

variable {s : MemoryMarketIndex} (h : Books s) (nowMs : ℕ) (p : String)

include h

/-- The expired records of a principal are its own. -/
theorem tally_expired (f : IndexedEntry → ℤ) (q : String) :
    Dict.tally f (s.records.filter fun x => x.2.principal == p && x.2.isExpired nowMs) q =
      if q = p then
        Dict.total f (s.records.filter fun x => x.2.principal == p && x.2.isExpired nowMs)
      else 0 := by
  have howner : ∀ x ∈ s.records.filter fun x => x.2.principal == p && x.2.isExpired nowMs,
      x.1.1 = p := by
    intro x hx
    obtain ⟨hx, hq⟩ := List.mem_filter.1 hx
    rw [Bool.and_eq_true, beq_iff_eq] at hq
    rw [h.own x hx]
    exact hq.1
  split_ifs with hq
  · subst hq
    rw [Dict.tally, Dict.ofOwner, List.filter_eq_self.2 fun x hx => by simpa using howner x hx]
  · exact Dict.tally_eq_zero f fun x hx he => hq (he.symm.trans (howner x hx))

/-- What is left of a tally without the expired records. -/
theorem tally_kept (f : IndexedEntry → ℤ) (q : String) :
    Dict.tally f (s.dropExpired nowMs p).records q = s.records.tally f q - if q = p then
      Dict.total f (s.records.filter fun x => x.2.principal == p && x.2.isExpired nowMs) else 0 := by
  rw [dropExpired, Dict.tally_filter]
  simp only [Bool.not_not]
  rw [tally_expired h]

theorem counted_dropExpired : Counted (s.dropExpired nowMs p) := by
  have hone : Dict.total (fun _ => 1)
      (s.records.filter fun x => x.2.principal == p && x.2.isExpired nowMs) =
      ((s.records.filter fun x => x.2.principal == p && x.2.isExpired nowMs).length : ℤ) := by
    rw [Dict.total, List.map_const', List.sum_replicate, Int.nsmul_eq_mul, Int.mul_one]
  refine { h.toCounted with
    records := Dict.nodup_filter h.records _
    own := fun x hx => h.own x (List.mem_filter.1 hx).1
    totalBytes := ?_, principalBytes := ?_, principalCounts := ?_, keyed := ?_ }
  · rw [dropExpired, Dict.total_filter, h.totalBytes]
    simp only [Bool.not_not]
    rfl
  · intro q
    rw [tally_kept h, ← h.principalBytes]
    refine (getD_set p _ _ q).trans ?_
    split_ifs with hq
    · rw [hq]
      rfl
    · rw [Int.sub_zero]
  · intro q
    rw [tally_kept h, ← h.principalCounts, hone]
    refine (getD_set p _ _ q).trans ?_
    split_ifs with hq
    · rw [hq]
    · rw [Int.sub_zero]
  · intro x hx
    have hx' := h.keyed x (List.mem_filter.1 hx).1
    exact ⟨has_set _ _ _ hx'.1, has_set _ _ _ hx'.2⟩

omit h in
theorem holds_of_dropExpired {q : String} (hq : (s.dropExpired nowMs p).holds q = true) :
    s.holds q = true := by
  rw [holds_iff] at hq ⊢
  exact hq.imp_left fun ⟨x, hx, hxq⟩ => ⟨x, (List.mem_filter.1 hx).1, hxq⟩

theorem holds_dropExpired_of_ne {q : String} (hq : q ≠ p) :
    (s.dropExpired nowMs p).holds q = s.holds q := by
  refine Bool.eq_iff_iff.2 ⟨holds_of_dropExpired nowMs p, fun hs => ?_⟩
  rw [holds_iff] at hs ⊢
  refine hs.imp_left ?_
  rintro ⟨x, hx, rfl⟩
  refine ⟨x, List.mem_filter.2 ⟨hx, ?_⟩, rfl⟩
  have hne : x.2.principal ≠ p := by
    rw [h.own x hx] at hq
    exact hq
  simp [hne]

theorem revision_eq_zero {q : String} (hq : s.holds q = false) : s.revision q = 0 := by
  refine Nat.eq_zero_of_not_pos fun hpos => ?_
  rw [(h.alive q).2 hpos] at hq
  cases hq

theorem revision_purgePrincipal (q : String) : (purgePrincipal nowMs s p).revision q =
    if (s.dropExpired nowMs p).holds q then (if q = p then s.revision q + 1 else s.revision q)
    else 0 := by
  have hset : (s.dropExpired nowMs p).revision q =
      if q = p then s.revision p + 1 else s.revision q := by
    rw [revision, dropExpired, Dict.get_set]
    split_ifs <;> rfl
  rw [purgePrincipal, cleanup_revision, hset]
  by_cases hq : q = p
  · subst hq
    cases (s.dropExpired nowMs q).holds q <;> simp
  · rw [if_neg (fun hc => hq hc.1), if_neg hq, if_neg hq]
    split_ifs with hh
    · rfl
    · rw [Bool.not_eq_true, holds_dropExpired_of_ne h nowMs p hq] at hh
      exact revision_eq_zero h hh

theorem purge_principal : Books (purgePrincipal nowMs s p) ∧
    RecordsDropped nowMs [p] s (purgePrincipal nowMs s p) := by
  refine ⟨⟨counted_cleanup p (counted_dropExpired h nowMs p), fun q => ?_⟩, cleanup_active p,
    cleanup_lastNowMs p, cleanup_receipts p, (cleanup_records p).trans ?_, fun q => ?_⟩
  · rw [revision_purgePrincipal h, purgePrincipal, cleanup_holds]
    cases hd : (s.dropExpired nowMs p).holds q
    · simp
    · have hpos := (h.alive q).1 (holds_of_dropExpired nowMs p hd)
      rw [if_pos rfl]
      split_ifs
      · simp
      · simpa using hpos
  · refine List.filter_congr fun x _ => ?_
    by_cases hx : x.2.principal = p <;> simp [hx]
  · rw [revision_purgePrincipal h, purgePrincipal, cleanup_holds]
    simp only [List.mem_singleton]

end Principal

theorem RecordsDropped.cons {nowMs : ℕ} {p : String} {ps : List String} {s t u : MemoryMarketIndex}
    (h : RecordsDropped nowMs [p] s t) (h' : RecordsDropped nowMs ps t u) (hp : p ∉ ps) :
    RecordsDropped nowMs (p :: ps) s u where
  active := h'.active.trans h.active
  lastNowMs := h'.lastNowMs.trans h.lastNowMs
  receipts := h'.receipts.trans h.receipts
  records := by
    rw [h'.records, h.records, List.filter_filter]
    refine List.filter_congr fun x _ => ?_
    by_cases hx : x.2.principal = p
    · simp [hx, hp]
    · simp [hx]
  revision q := by
    rw [h'.revision]
    cases hu : u.holds q
    · rfl
    · have ht : t.holds q = true := by
        rw [holds_iff] at hu ⊢
        rw [h'.records, h'.receipts] at hu
        exact hu.imp_left fun ⟨x, hx, hxq⟩ => ⟨x, (List.mem_filter.1 hx).1, hxq⟩
      rw [if_pos rfl, if_pos rfl, h.revision, if_pos ht]
      by_cases hq : q = p
      · subst hq
        simp [hp]
      · simp [hq]

theorem purge_principals (nowMs : ℕ) (ps : List String) : ∀ {s : MemoryMarketIndex}, Books s →
    ps.Nodup → Books (ps.foldl (purgePrincipal nowMs) s) ∧
      RecordsDropped nowMs ps s (ps.foldl (purgePrincipal nowMs) s) := by
  induction ps with
  | nil =>
    intro s h _
    refine ⟨h, rfl, rfl, rfl, by simp, fun p => ?_⟩
    cases hp : s.holds p
    · simpa [hp] using revision_eq_zero h hp
    · simp [hp]
  | cons p ps ih =>
    intro s h hn
    rw [List.nodup_cons] at hn
    obtain ⟨hb, hd⟩ := purge_principal h nowMs p
    obtain ⟨hb', hd'⟩ := ih hb hn.2
    exact ⟨hb', hd.cons hd' hn.1⟩

/-! ## The passing of time -/

/-- What the passing of time takes from a state. -/
structure Purged (nowMs : ℕ) (s s' : MemoryMarketIndex) : Prop where
  active : s'.active = s.active
  lastNowMs : s'.lastNowMs = s.lastNowMs
  records : s'.records = s.records.filter fun x => !x.2.isExpired nowMs
  receipts : s'.mutationReceipts = s.mutationReceipts.filter fun x => !x.2.isExpired nowMs
  revision : ∀ p, s'.revision p =
    if s'.holds p then s.revision p + (s.hasExpired nowMs p).toNat else 0

/-- Both purges, as an invocation starts. -/
def purge (nowMs : ℕ) (s : MemoryMarketIndex) : Except IndexFault MemoryMarketIndex :=
  (s.purgeExpiredMutationReceipts nowMs).purgeExpiredRecords nowMs

theorem purge_records {s s' : MemoryMarketIndex} (h : Books s) {nowMs : ℕ}
    (hs : s.purgeExpiredRecords nowMs = .ok s') : Books s' ∧ s'.active = s.active ∧
      s'.lastNowMs = s.lastNowMs ∧ s'.mutationReceipts = s.mutationReceipts ∧
      s'.records = (s.records.filter fun x => !x.2.isExpired nowMs) ∧
      ∀ p, s'.revision p =
        if s'.holds p then s.revision p + (s.hasExpired nowMs p).toNat else 0 := by
  simp only [purgeExpiredRecords, bind_eq_ok, Except.ok.injEq] at hs
  obtain ⟨-, -, rfl⟩ := hs
  obtain ⟨hb, hd⟩ := purge_principals nowMs
    ((s.records.filter fun x => x.2.isExpired nowMs).map fun x => x.2.principal).dedup h
    (List.nodup_dedup _)
  refine ⟨hb, hd.active, hd.lastNowMs, hd.receipts, hd.records.trans ?_, fun p => ?_⟩
  · refine List.filter_congr fun x hx => ?_
    cases he : x.2.isExpired nowMs
    · simp
    · have hmem : x.2.principal ∈
          ((s.records.filter fun x => x.2.isExpired nowMs).map fun x => x.2.principal).dedup :=
        List.mem_dedup.2 (List.mem_map.2 ⟨x, List.mem_filter.2 ⟨hx, he⟩, rfl⟩)
      simp [hmem]
  · rw [hd.revision]
    refine if_congr Iff.rfl ?_ rfl
    have hmem : p ∈ ((s.records.filter fun x => x.2.isExpired nowMs).map
        fun x => x.2.principal).dedup ↔ s.hasExpired nowMs p = true := by
      rw [List.mem_dedup, List.mem_map, hasExpired, List.any_eq_true]
      constructor
      · rintro ⟨x, hx, rfl⟩
        obtain ⟨hx, he⟩ := List.mem_filter.1 hx
        refine ⟨x, hx, ?_⟩
        rw [h.own x hx]
        simp [he]
      · rintro ⟨x, hx, hq⟩
        rw [Bool.and_eq_true, beq_iff_eq, h.own x hx] at hq
        exact ⟨x, List.mem_filter.2 ⟨hx, hq.2⟩, hq.1⟩
    cases he : s.hasExpired nowMs p
    · rw [if_neg (fun hc => by simp [hmem.1 hc] at he)]
      rfl
    · rw [if_pos (hmem.2 he)]
      rfl

/-- **What an invocation does before its operation.** -/
theorem Books.purge {s s' : MemoryMarketIndex} (h : Books s) {nowMs : ℕ}
    (hs : MemoryMarketIndex.purge nowMs s = .ok s') : Books s' ∧ Purged nowMs s s' := by
  obtain ⟨hb, hd⟩ := purge_receipts h nowMs
  obtain ⟨hb', hact, hlast, hrcp, hrec, hrev⟩ := purge_records hb hs
  refine ⟨hb', hact.trans hd.active, hlast.trans hd.lastNowMs, hrec.trans (by rw [hd.records]),
    hrcp.trans hd.receipts, fun p => ?_⟩
  rw [hrev]
  cases hp : s'.holds p
  · rfl
  · have hold : (s.purgeExpiredMutationReceipts nowMs).holds p = true := by
      rw [holds_iff] at hp ⊢
      rw [hrec, hrcp] at hp
      exact hp.imp_left fun ⟨x, hx, hxp⟩ => ⟨x, (List.mem_filter.1 hx).1, hxp⟩
    rw [if_pos rfl, if_pos rfl, hd.revision, if_pos hold, hasExpired, hasExpired, hd.records]

end MemoryMarketIndex

end MarketIndex

end NthDao
