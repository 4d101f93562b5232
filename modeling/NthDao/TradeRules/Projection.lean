/-
  The lifecycle projection of offers (`OfferStore._project` in
  `nth_dao/trade_rules/store.py`).

  * `deduplicate`, `link`, `project`: the records by digest, the loop that files
    each of them, and the loops that mark forks and what the roots lead to;
  * `offerRules`: offers as revisions, and `offered`, the set of offers of one
    publisher and id;
  * `project_eq`: the projection returns, and what it returns is what `Lineage`
    says of the set (`Projects`);
  * `project_lineage`: it depends on the set alone, it is canonical iff the set is
    one line, a fork is never undone, and a canonical chain only grows.
-/
import Mathlib.Data.List.Sort
import NthDao.Lineage
import NthDao.Py.Dict
import NthDao.TradeRules.Offer
import NthDao.Worklist

namespace NthDao.TradeRules

open Py Lineage Relation

variable {H : Host}

/-! ## Records and views -/

/-- `OfferRecord`: its digest is the one of its offer. -/
structure OfferRecord (H : Host) where
  seq : ℕ
  digest : String
  offer : TradeOffer H
  entryHash : String
  receivedAtMs : ℤ
  sourceKind : String
  sourceId : String
  digest_eq : digest = offerDigest offer

/-- `OfferChainView`. -/
structure OfferChainView where
  publisherDid : String
  offerId : String
  status : String
  allDigests : List String
  rootDigests : List String
  canonicalDigests : List String
  canonicalHeadDigest : Option String
  forkDigests : List String
  orphanDigests : List String
  invalidDigests : List String
  deriving DecidableEq, Repr

/-! ## The projection -/

/-- `_deduplicate`. -/
def deduplicate (records : List (OfferRecord H)) : Py.Dict String (OfferRecord H) :=
  records.foldl (fun byDigest r => if byDigest.has r.digest then byDigest else byDigest.set r.digest r)
    []

/-- Where the loop files a record. -/
inductive Place where
  | root
  | orphan
  | invalid
  | child (previousDigest : String)
  deriving DecidableEq

/-- The body of the loop over the records. -/
def place (byDigest : Py.Dict String (OfferRecord H)) (record : OfferRecord H) : Place :=
  if (record.offer.field "revision").eqInt 1 then .root
  else
    match (record.offer.field "previous_offer_digest").asStr with
    | none => .orphan
    | some previousDigest =>
      match byDigest.get previousDigest with
      | none => .orphan
      | some previous =>
        match verifyOfferSuccessor previous.offer record.offer with
        | .error _ => .invalid
        | .ok () => .child previousDigest

/-- What the loop collects. -/
structure Links where
  roots : List String := []
  children : Py.Dict String (List String) := []
  orphans : List String := []
  invalid : List String := []

/-- One record. -/
def link (byDigest : Py.Dict String (OfferRecord H)) (links : Links) (record : OfferRecord H) : Links :=
  match place byDigest record with
  | .root => { links with roots := links.roots ++ [record.digest] }
  | .orphan => { links with orphans := links.orphans ++ [record.digest] }
  | .invalid => { links with invalid := links.invalid ++ [record.digest] }
  | .child previousDigest =>
    { links with
      children := links.children.set previousDigest
        (links.children.members previousDigest ++ [record.digest]) }

/-- The digests that `forks` starts with. -/
def Links.forkSeeds (links : Links) : List String :=
  (if 1 < links.roots.length then links.roots else []) ++
    links.children.flatMap fun p => if 1 < p.2.length then p.2 else []

/-- A record of the publisher and the offer. -/
def isOf (publisherDid offerId : String) (record : OfferRecord H) : Bool :=
  (record.offer.field "publisher_did").eqStr publisherDid &&
    (record.offer.field "offer_id").eqStr offerId

/-- `_project`; `none` where a loop would run out of fuel (it does not: `project_eq`). -/
def project (records : List (OfferRecord H)) (publisherDid offerId : String) :
    Option OfferChainView :=
  let byDigest := deduplicate (records.filter (isOf publisherDid offerId))
  let ordered := (byDigest.map Prod.snd).insertionSort fun a b => a.seq ≤ b.seq
  let all := ordered.map OfferRecord.digest
  let links := ordered.foldl (link byDigest) {}
  let children := links.children.members
  let n := ordered.length
  if ordered.isEmpty then
    some ⟨publisherDid, offerId, "empty", [], [], [], none, [], [], []⟩
  else do
    let forks ← Worklist.spread children (links.forkSeeds.length + n) links.forkSeeds links.forkSeeds
    let reachable ← Worklist.sweep children (links.roots.length + n * n) [] links.roots.reverse
    let orphans := links.orphans ++
      (byDigest.map Prod.fst).filter fun d => d ∉ reachable && d ∉ links.invalid
    let view (status : String) (chain : List String) : OfferChainView :=
      ⟨publisherDid, offerId, status, all, links.roots, chain, chain.getLast?,
        all.filter (· ∈ forks), all.filter (· ∈ orphans), all.filter (· ∈ links.invalid)⟩
    if !forks.isEmpty then return view "forked" []
    else if !links.invalid.isEmpty then return view "invalid" []
    else
      match orphans, links.roots with
      | [], [root] =>
        let chain ← Worklist.follow children (n + 1) root
        if chain.length != byDigest.length then return view "incomplete" []
        else return view "canonical" chain
      | _, _ => return view "incomplete" []

/-! ## Offers as revisions -/

/-- The revision number. -/
def revisionOf (offer : TradeOffer H) : ℤ := ((offer.field "revision").asInt).getD 1

theorem asInt_revision (offer : TradeOffer H) :
    (offer.field "revision").asInt = some (revisionOf offer) := by
  obtain ⟨n, hn, -⟩ := revision_eq offer
  rw [revisionOf, hn]
  rfl

/-- Offers as revisions of each other. -/
def offerRules (H : Host) : Rules (TradeOffer H) String where
  key := offerDigest
  rank := revisionOf
  previous offer := (offer.field "previous_offer_digest").asStr
  follows a b := verifyOfferSuccessor a b = .ok ()
  rank_pos a := by
    obtain ⟨n, hn, h1⟩ := revision_eq a
    rw [revisionOf, hn]
    exact h1
  rank_of_follows {a b} h := by
    have hr := (verifyOfferSuccessor_eq_ok h).1
    rw [asInt_revision, asInt_revision] at hr
    simpa using hr
  previous_of_follows {a b} h := by
    rw [(verifyOfferSuccessor_eq_ok h).2]
    rfl

/-- The offers of a publisher and an id among some records. -/
def offered (records : List (OfferRecord H)) (publisherDid offerId : String) : Set (TradeOffer H) :=
  {o | ∃ r ∈ records, isOf publisherDid offerId r = true ∧ r.offer = o}

open Classical in
/-- The status of a set of offers. -/
noncomputable def standing (S : Set (TradeOffer H)) : String :=
  if S = ∅ then "empty"
  else if ∃ o, Forked (offerRules H) S o then "forked"
  else if ∃ o, Invalid (offerRules H) S o then "invalid"
  else if ∃ o, Orphan (offerRules H) S o then "incomplete"
  else "canonical"

/-- What a view says of a set of offers. -/
structure Projects (S : Set (TradeOffer H)) (v : OfferChainView) : Prop where
  status : v.status = standing S
  all : ∀ d, d ∈ v.allDigests ↔ ∃ o ∈ S, offerDigest o = d
  roots : ∀ d, d ∈ v.rootDigests ↔ ∃ o, Root (offerRules H) S o ∧ offerDigest o = d
  forks : ∀ d, d ∈ v.forkDigests ↔ ∃ o, Forked (offerRules H) S o ∧ offerDigest o = d
  orphans : ∀ d, d ∈ v.orphanDigests ↔ ∃ o, Orphan (offerRules H) S o ∧ offerDigest o = d
  invalid : ∀ d, d ∈ v.invalidDigests ↔ ∃ o, Invalid (offerRules H) S o ∧ offerDigest o = d
  chain : v.status = "canonical" → ∃ chain, Line (offerRules H) chain ∧ (∀ o, o ∈ chain ↔ o ∈ S) ∧
    v.canonicalDigests = chain.map offerDigest
  no_chain : v.status ≠ "canonical" → v.canonicalDigests = []
  head : v.canonicalHeadDigest = v.canonicalDigests.getLast?

/-! ## The records by digest -/

/-- A dictionary that holds the offers of a set by their digests. -/
structure Index (S : Set (TradeOffer H)) (d : Py.Dict String (OfferRecord H)) : Prop where
  nodup : (d.map Prod.fst).Nodup
  key : ∀ x ∈ d, x.1 = offerDigest x.2.offer
  mem : ∀ o, o ∈ S ↔ ∃ x ∈ d, x.2.offer = o

section

variable {S : Set (TradeOffer H)} {d : Py.Dict String (OfferRecord H)}

theorem Index.get_of_mem (hd : Index S d) {o : TradeOffer H} (ho : o ∈ S) :
    ∃ r, d.get (offerDigest o) = some r ∧ r.offer = o := by
  obtain ⟨x, hx, rfl⟩ := (hd.mem o).1 ho
  refine ⟨x.2, Dict.get_of_mem hd.nodup ?_, rfl⟩
  rw [← hd.key x hx]
  exact hx

theorem Index.of_get (hd : Index S d) {k : String} {r : OfferRecord H} (h : d.get k = some r) :
    r.offer ∈ S ∧ offerDigest r.offer = k :=
  ⟨(hd.mem _).2 ⟨_, Dict.mem_of_get h, rfl⟩, (hd.key _ (Dict.mem_of_get h)).symm⟩

/-- The digests tell the offers apart. -/
theorem Index.injOn (hd : Index S d) : Set.InjOn offerDigest S := by
  intro a ha b hb hab
  obtain ⟨r, hr, rfl⟩ := hd.get_of_mem ha
  obtain ⟨q, hq, rfl⟩ := hd.get_of_mem hb
  rw [hab, hq] at hr
  cases hr
  rfl

/-- The loop of `_deduplicate` from a dictionary on. -/
theorem foldl_deduplicate (rs : List (OfferRecord H)) : ∀ d : Py.Dict String (OfferRecord H),
    (d.map Prod.fst).Nodup → (∀ x ∈ d, x.1 = x.2.digest) →
    let d' := rs.foldl (fun byDigest r =>
      if byDigest.has r.digest then byDigest else byDigest.set r.digest r) d
    (d'.map Prod.fst).Nodup ∧ (∀ x ∈ d', x.1 = x.2.digest) ∧
      (∀ x ∈ d', x ∈ d ∨ x.2 ∈ rs) ∧ (∀ x ∈ d, x ∈ d') ∧ ∀ r ∈ rs, r.digest ∈ d'.map Prod.fst := by
  induction rs with
  | nil => exact fun d hn hk => ⟨hn, hk, fun x hx => .inl hx, fun x hx => hx, by simp⟩
  | cons r rs ih =>
    intro d hn hk
    rw [List.foldl_cons]
    by_cases hr : d.has r.digest = true
    · rw [if_pos hr]
      obtain ⟨h₁, h₂, h₃, h₄, h₅⟩ := ih d hn hk
      refine ⟨h₁, h₂, fun x hx => (h₃ x hx).imp_right (List.mem_cons_of_mem _), h₄, ?_⟩
      rw [List.forall_mem_cons]
      refine ⟨?_, h₅⟩
      obtain ⟨x, hx, hxr⟩ := List.mem_map.1 (Dict.has_iff.1 hr)
      exact List.mem_map.2 ⟨x, h₄ x hx, hxr⟩
    · have hnot : r.digest ∉ d.map Prod.fst := fun h => hr (Dict.has_iff.2 h)
      have hset := Dict.nodup_set hn r.digest r
      rw [Dict.set_of_not_mem hnot] at hset
      rw [if_neg hr, Dict.set_of_not_mem hnot]
      obtain ⟨h₁, h₂, h₃, h₄, h₅⟩ := ih (d ++ [(r.digest, r)]) hset (by
          intro x hx
          rcases List.mem_append.1 hx with hx | hx
          · exact hk x hx
          · rw [List.mem_singleton.1 hx])
      refine ⟨h₁, h₂, fun x hx => ?_, fun x hx => h₄ x (List.mem_append_left _ hx), ?_⟩
      · rcases h₃ x hx with hx | hx
        · rcases List.mem_append.1 hx with hx | hx
          · exact .inl hx
          · rw [List.mem_singleton.1 hx]
            exact .inr List.mem_cons_self
        · exact .inr (List.mem_cons_of_mem _ hx)
      · rw [List.forall_mem_cons]
        exact ⟨List.mem_map.2 ⟨(r.digest, r), h₄ _ (by simp), rfl⟩, h₅⟩

/-- What `_deduplicate` keeps: a record for every digest. -/
theorem deduplicate_spec (rs : List (OfferRecord H)) :
    ((deduplicate rs).map Prod.fst).Nodup ∧
      (∀ x ∈ deduplicate rs, x.1 = x.2.digest ∧ x.2 ∈ rs) ∧
        ∀ r ∈ rs, r.digest ∈ (deduplicate rs).map Prod.fst := by
  obtain ⟨hn, hk, hfrom, -, hall⟩ := foldl_deduplicate rs [] List.nodup_nil (by simp)
  exact ⟨hn, fun x hx => ⟨hk x hx, (hfrom x hx).resolve_left List.not_mem_nil⟩, hall⟩

/-- No record is kept for a digest that none has. -/
theorem get_deduplicate_eq_none {rs : List (OfferRecord H)} {k : String} :
    (deduplicate rs).get k = none ↔ ∀ r ∈ rs, r.digest ≠ k := by
  obtain ⟨-, hfrom, hall⟩ := deduplicate_spec rs
  rw [Dict.get_eq_none]
  constructor
  · rintro h r hr rfl
    exact h (hall r hr)
  · intro h hk
    obtain ⟨x, hx, rfl⟩ := List.mem_map.1 hk
    exact h x.2 (hfrom x hx).2 (hfrom x hx).1.symm

theorem index_deduplicate {records : List (OfferRecord H)} {publisherDid offerId : String}
    (hinj : Set.InjOn offerDigest (offered records publisherDid offerId)) :
    Index (offered records publisherDid offerId)
      (deduplicate (records.filter (isOf publisherDid offerId))) := by
  obtain ⟨hn, hfrom, hall⟩ := deduplicate_spec (records.filter (isOf publisherDid offerId))
  have hkey : ∀ x ∈ deduplicate (records.filter (isOf publisherDid offerId)),
      x.1 = offerDigest x.2.offer := fun x hx => (hfrom x hx).1.trans x.2.digest_eq
  have hsub : ∀ x ∈ deduplicate (records.filter (isOf publisherDid offerId)),
      x.2.offer ∈ offered records publisherDid offerId := by
    intro x hx
    have h := List.mem_filter.1 (hfrom x hx).2
    exact ⟨x.2, h.1, h.2, rfl⟩
  refine ⟨hn, hkey, fun o => ⟨fun ho => ?_, ?_⟩⟩
  · obtain ⟨r, hr, hof, rfl⟩ := id ho
    obtain ⟨x, hx, hxr⟩ := List.mem_map.1 (hall r (List.mem_filter.2 ⟨hr, hof⟩))
    refine ⟨x, hx, hinj (hsub x hx) ho ?_⟩
    rw [← hkey x hx, hxr, r.digest_eq]
  · rintro ⟨x, hx, rfl⟩
    exact hsub x hx

/-! ## Where a record is filed -/

variable {r : OfferRecord H}

theorem eqInt_revision (offer : TradeOffer H) :
    (offer.field "revision").eqInt 1 = true ↔ revisionOf offer = 1 := by
  obtain ⟨n, hn, -⟩ := revision_eq offer
  simp [revisionOf, hn, Json.eqInt, Json.asInt]

theorem place_root : place d r = .root ↔ revisionOf r.offer = 1 := by
  rw [place, ← eqInt_revision]
  split_ifs with h
  · simp [h]
  · simp only [h]
    split
    · simp
    split
    · simp
    split <;> simp

theorem place_child (hd : Index S d) {k : String} : place d r = .child k ↔
    ∃ a ∈ S, offerDigest a = k ∧ (offerRules H).follows a r.offer := by
  constructor
  · intro h
    rw [place] at h
    split_ifs at h
    split at h
    · cases h
    rename_i k' hk
    split at h
    · cases h
    rename_i p hp
    split at h
    · cases h
    rename_i hv
    cases h
    obtain ⟨hmem, hkey⟩ := hd.of_get hp
    exact ⟨p.offer, hmem, hkey, hv⟩
  · rintro ⟨a, ha, rfl, hf⟩
    obtain ⟨p, hp, rfl⟩ := hd.get_of_mem ha
    have hprev := (offerRules H).previous_of_follows hf
    have hrank := (offerRules H).rank_of_follows hf
    have hpos := (offerRules H).rank_pos p.offer
    have hne : ¬ (r.offer.field "revision").eqInt 1 = true := by
      rw [eqInt_revision]
      change revisionOf r.offer = revisionOf p.offer + 1 at hrank
      change 1 ≤ revisionOf p.offer at hpos
      omega
    change (r.offer.field "previous_offer_digest").asStr = some (offerDigest p.offer) at hprev
    change verifyOfferSuccessor p.offer r.offer = .ok () at hf
    rw [place, if_neg hne, hprev]
    simp only [hp, hf]

theorem place_invalid (hd : Index S d) (hr : r.offer ∈ S) :
    place d r = .invalid ↔ Invalid (offerRules H) S r.offer := by
  constructor
  · intro h
    rw [place] at h
    split_ifs at h with hrev
    split at h
    · cases h
    rename_i k hk
    split at h
    · cases h
    rename_i p hp
    split at h
    · rename_i e hv
      obtain ⟨hmem, hkey⟩ := hd.of_get hp
      refine ⟨hr, fun h1 => hrev ((eqInt_revision _).2 h1), p.offer, hmem, ?_, ?_⟩
      · rw [← hkey] at hk
        exact hk
      · intro hf
        change verifyOfferSuccessor p.offer r.offer = .ok () at hf
        rw [hf] at hv
        cases hv
    · cases h
  · rintro ⟨-, hrev, a, ha, hprev, hnot⟩
    obtain ⟨p, hp, rfl⟩ := hd.get_of_mem ha
    have hne : ¬ (r.offer.field "revision").eqInt 1 = true := fun h => hrev ((eqInt_revision _).1 h)
    change (r.offer.field "previous_offer_digest").asStr = some (offerDigest p.offer) at hprev
    change ¬ verifyOfferSuccessor p.offer r.offer = .ok () at hnot
    rw [place, if_neg hne, hprev]
    simp only [hp]
    split
    · rfl
    · rename_i hv
      exact absurd hv hnot

theorem place_orphan (hd : Index S d) (h : place d r = .orphan) :
    revisionOf r.offer ≠ 1 ∧
      ∀ a ∈ S, (offerRules H).previous r.offer ≠ some (offerDigest a) := by
  rw [place] at h
  split_ifs at h with hrev
  refine ⟨fun h1 => hrev ((eqInt_revision _).2 h1), fun a ha hprev => ?_⟩
  obtain ⟨p, hp, rfl⟩ := hd.get_of_mem ha
  change (r.offer.field "previous_offer_digest").asStr = some (offerDigest p.offer) at hprev
  rw [hprev] at h
  simp only [hp] at h
  split at h <;> cases h

/-! ## What the loop collects -/

/-- The digests of the records filed in one place. -/
def filed (d : Py.Dict String (OfferRecord H)) (rs : List (OfferRecord H)) (q : Place) : List String :=
  (rs.filter fun r => place d r = q).map OfferRecord.digest

theorem filed_cons (d : Py.Dict String (OfferRecord H)) (rs : List (OfferRecord H)) (q : Place) :
    filed d (r :: rs) q = (if place d r = q then [r.digest] else []) ++ filed d rs q := by
  rw [filed, filed, List.filter_cons]
  by_cases h : place d r = q
  · simp [h]
  · simp [h]

theorem members_link (links : Links) (k : String) : (link d links r).children.members k =
    links.children.members k ++ if place d r = .child k then [r.digest] else [] := by
  rw [link]
  cases hp : place d r with
  | child k' =>
    simp only [Dict.members, Dict.get_set]
    by_cases hk : k = k'
    · simp [hk]
    · rw [if_neg hk, if_neg (by simpa using Ne.symm hk), List.append_nil]
  | _ => simp

/-- The loop files every record in its place. -/
theorem foldl_link (rs : List (OfferRecord H)) (links : Links) :
    let l := rs.foldl (link d) links
    l.roots = links.roots ++ filed d rs .root ∧ l.orphans = links.orphans ++ filed d rs .orphan ∧
      l.invalid = links.invalid ++ filed d rs .invalid ∧
      (∀ k, l.children.members k = links.children.members k ++ filed d rs (.child k)) := by
  induction rs generalizing links with
  | nil => simp [filed]
  | cons r rs ih =>
    obtain ⟨h₁, h₂, h₃, h₄⟩ := ih (link d links r)
    simp only [List.foldl_cons, h₁, h₂, h₃, h₄, filed_cons, ← List.append_assoc]
    refine ⟨?_, ?_, ?_, fun k => by rw [members_link]⟩
    · rw [link]
      cases place d r <;> simp
    · rw [link]
      cases place d r <;> simp
    · rw [link]
      cases place d r <;> simp

/-- The keys of the children stay distinct. -/
theorem nodup_children (rs : List (OfferRecord H)) (links : Links)
    (hn : (links.children.map Prod.fst).Nodup) :
    ((rs.foldl (link d) links).children.map Prod.fst).Nodup := by
  induction rs generalizing links with
  | nil => exact hn
  | cons r rs ih =>
    refine ih _ ?_
    rw [link]
    split
    · exact hn
    · exact hn
    · exact hn
    · exact Dict.nodup_set hn _ _

/-! ## The graph of the digests -/

/-- Records in some order, with their dictionary. -/
structure Filing (S : Set (TradeOffer H)) (d : Py.Dict String (OfferRecord H))
    (rs : List (OfferRecord H)) : Prop extends Index S d where
  perm : rs.Perm (d.map Prod.snd)

variable {rs : List (OfferRecord H)}

theorem Filing.mem_iff (hf : Filing S d rs) (o : TradeOffer H) : o ∈ S ↔ ∃ r ∈ rs, r.offer = o := by
  rw [hf.mem]
  constructor
  · rintro ⟨x, hx, rfl⟩
    exact ⟨x.2, hf.perm.mem_iff.2 (List.mem_map_of_mem hx), rfl⟩
  · rintro ⟨r, hr, rfl⟩
    obtain ⟨x, hx, rfl⟩ := List.mem_map.1 (hf.perm.mem_iff.1 hr)
    exact ⟨x, hx, rfl⟩

theorem Filing.map_digest (hf : Filing S d rs) :
    (rs.map OfferRecord.digest).Perm (d.map Prod.fst) := by
  refine (hf.perm.map _).trans ?_
  rw [List.map_map]
  have : ∀ x ∈ d, (OfferRecord.digest ∘ Prod.snd) x = x.1 := fun x hx => by
    rw [hf.key x hx]
    exact x.2.digest_eq
  rw [List.map_congr_left this]

theorem Filing.nodup_digests (hf : Filing S d rs) : (rs.map OfferRecord.digest).Nodup :=
  hf.map_digest.nodup_iff.2 hf.nodup

theorem Filing.mem_digests (hf : Filing S d rs) (k : String) :
    k ∈ rs.map OfferRecord.digest ↔ ∃ o ∈ S, offerDigest o = k := by
  rw [List.mem_map]
  constructor
  · rintro ⟨r, hr, rfl⟩
    exact ⟨r.offer, (hf.mem_iff _).2 ⟨r, hr, rfl⟩, r.digest_eq.symm⟩
  · rintro ⟨o, ho, rfl⟩
    obtain ⟨r, hr, rfl⟩ := (hf.mem_iff o).1 ho
    exact ⟨r, hr, r.digest_eq⟩

theorem Filing.nodup_filed (hf : Filing S d rs) (q : Place) : (filed d rs q).Nodup :=
  hf.nodup_digests.sublist (List.filter_sublist.map _)

theorem mem_filed {q : Place} {k : String} :
    k ∈ filed d rs q ↔ ∃ r ∈ rs, place d r = q ∧ offerDigest r.offer = k := by
  simp only [filed, List.mem_map, List.mem_filter, decide_eq_true_eq, OfferRecord.digest_eq,
    and_assoc]

theorem Filing.mem_root (hf : Filing S d rs) (k : String) :
    k ∈ filed d rs .root ↔ ∃ o, Root (offerRules H) S o ∧ offerDigest o = k := by
  rw [mem_filed]
  constructor
  · rintro ⟨r, hr, hp, rfl⟩
    exact ⟨r.offer, ⟨(hf.mem_iff _).2 ⟨r, hr, rfl⟩, place_root.1 hp⟩, rfl⟩
  · rintro ⟨o, ⟨ho, hrank⟩, rfl⟩
    obtain ⟨r, hr, rfl⟩ := (hf.mem_iff o).1 ho
    exact ⟨r, hr, place_root.2 hrank, rfl⟩

theorem Filing.mem_invalid (hf : Filing S d rs) (k : String) :
    k ∈ filed d rs .invalid ↔ ∃ o, Invalid (offerRules H) S o ∧ offerDigest o = k := by
  rw [mem_filed]
  constructor
  · rintro ⟨r, hr, hp, rfl⟩
    exact ⟨r.offer, (place_invalid hf.toIndex ((hf.mem_iff _).2 ⟨r, hr, rfl⟩)).1 hp, rfl⟩
  · rintro ⟨o, hi, rfl⟩
    obtain ⟨r, hr, rfl⟩ := (hf.mem_iff o).1 hi.1
    exact ⟨r, hr, (place_invalid hf.toIndex hi.1).2 hi, rfl⟩

theorem Filing.mem_child (hf : Filing S d rs) (k l : String) : l ∈ filed d rs (.child k) ↔
    ∃ a b, Child (offerRules H) S a b ∧ offerDigest a = k ∧ offerDigest b = l := by
  rw [mem_filed]
  constructor
  · rintro ⟨r, hr, hp, rfl⟩
    obtain ⟨a, ha, rfl, hfol⟩ := (place_child hf.toIndex).1 hp
    exact ⟨a, r.offer, ⟨ha, (hf.mem_iff _).2 ⟨r, hr, rfl⟩, hfol⟩, rfl, rfl⟩
  · rintro ⟨a, b, ⟨ha, hb, hfol⟩, rfl, rfl⟩
    obtain ⟨r, hr, rfl⟩ := (hf.mem_iff b).1 hb
    exact ⟨r, hr, (place_child hf.toIndex).2 ⟨a, ha, rfl, hfol⟩, rfl⟩

/-- The children, by digest. -/
theorem Filing.edge_iff (hf : Filing S d rs) {next : String → List String}
    (hnext : ∀ k, next k = filed d rs (.child k)) {a b : TradeOffer H} (ha : a ∈ S) (hb : b ∈ S) :
    Worklist.Edge next (offerDigest a) (offerDigest b) ↔ Child (offerRules H) S a b := by
  rw [Worklist.Edge, hnext, hf.mem_child]
  constructor
  · rintro ⟨a', b', hc, hka, hkb⟩
    rw [hf.injOn hc.1 ha hka, hf.injOn hc.2.1 hb hkb] at hc
    exact hc
  · intro hc
    exact ⟨a, b, hc, rfl, rfl⟩

/-- What some digests lead to is what their offers lead to. -/
theorem Filing.reaches_iff (hf : Filing S d rs) {next : String → List String}
    (hnext : ∀ k, next k = filed d rs (.child k)) {starts : List String}
    {from' : TradeOffer H → Prop} (hfrom : ∀ a, from' a → a ∈ S)
    (hstarts : ∀ k, k ∈ starts ↔ ∃ a, from' a ∧ offerDigest a = k) (k : String) :
    Worklist.Reaches next starts k ↔
      ∃ b, (∃ a, from' a ∧ ReflTransGen (Child (offerRules H) S) a b) ∧ offerDigest b = k := by
  constructor
  · rintro ⟨s, hs, hr⟩
    obtain ⟨a, ha, rfl⟩ := (hstarts s).1 hs
    induction hr with
    | refl => exact ⟨a, ⟨a, ha, .refl⟩, rfl⟩
    | @tail m l _ hml ih =>
      obtain ⟨b, ⟨a', ha', hab⟩, rfl⟩ := ih
      rw [Worklist.Edge, hnext, hf.mem_child] at hml
      obtain ⟨b', c, hc, hkb, rfl⟩ := hml
      rw [hf.injOn hc.1 (mem_of_path (hfrom _ ha') hab) hkb] at hc
      exact ⟨c, ⟨a', ha', hab.tail hc⟩, rfl⟩
  · rintro ⟨b, ⟨a, ha, hab⟩, rfl⟩
    refine ⟨offerDigest a, (hstarts _).2 ⟨a, ha, rfl⟩, ?_⟩
    induction hab with
    | refl => exact .refl
    | tail _ hbc ih => exact ih.tail ((hf.edge_iff hnext hbc.1 hbc.2.1).2 hbc)

/-! ## Forks and orphans -/

theorem one_lt_length_iff {l : List String} (hn : l.Nodup) {x : String} (hx : x ∈ l) :
    1 < l.length ↔ ∃ y ∈ l, y ≠ x := by
  have hlen := List.length_erase_of_mem hx
  constructor
  · intro h
    obtain ⟨y, hy⟩ := List.exists_mem_of_length_pos (l := l.erase x) (by omega)
    rw [hn.mem_erase_iff] at hy
    exact ⟨y, hy.2, hy.1⟩
  · rintro ⟨y, hy, hne⟩
    have := List.length_pos_of_mem (hn.mem_erase_iff.2 ⟨hne, hy⟩)
    omega

theorem Filing.mem_forkSeeds (hf : Filing S d rs) (k : String) :
    k ∈ (rs.foldl (link d) {}).forkSeeds ↔
      ∃ o, Seed (offerRules H) S o ∧ offerDigest o = k := by
  obtain ⟨hroots, -, -, hchildren⟩ := foldl_link (d := d) rs {}
  have hkeys := nodup_children (d := d) rs {} List.nodup_nil
  simp only [List.nil_append, Dict.members, Dict.get, List.find?_nil, Option.map_none,
    Option.getD_none] at hroots hchildren
  have htwo : ∀ {q : Place}, (1 < (filed d rs q).length ∧ k ∈ filed d rs q) ↔
      k ∈ filed d rs q ∧ ∃ l ∈ filed d rs q, l ≠ k := fun {q} => by
    constructor
    · rintro ⟨hl, hk⟩
      exact ⟨hk, (one_lt_length_iff (hf.nodup_filed q) hk).1 hl⟩
    · rintro ⟨hk, hl⟩
      exact ⟨(one_lt_length_iff (hf.nodup_filed q) hk).2 hl, hk⟩
  have hsplit : k ∈ (rs.foldl (link d) {}).forkSeeds ↔
      (1 < (filed d rs .root).length ∧ k ∈ filed d rs .root) ∨
        ∃ q, 1 < (filed d rs (.child q)).length ∧ k ∈ filed d rs (.child q) := by
    rw [Links.forkSeeds, hroots, List.mem_append, List.mem_flatMap]
    refine or_congr ?_ ⟨?_, ?_⟩
    · split_ifs with h
      · simp [h]
      · simp [h]
    · rintro ⟨⟨q, v⟩, hp, hk⟩
      have hv : v = filed d rs (.child q) := by
        rw [← hchildren, ← Dict.get, Dict.get_of_mem hkeys hp, Option.getD_some]
      split_ifs at hk with hl
      · exact ⟨q, hv ▸ hl, hv ▸ hk⟩
      · cases hk
    · rintro ⟨q, hl, hk⟩
      cases hg : (rs.foldl (link d) {}).children.get q with
      | none =>
        rw [← hchildren, ← Dict.get, hg] at hk
        cases hk
      | some v =>
        have hv : v = filed d rs (.child q) := by rw [← hchildren, ← Dict.get, hg, Option.getD_some]
        refine ⟨(q, v), Dict.mem_of_get hg, ?_⟩
        rw [hv, if_pos hl]
        exact hk
  rw [hsplit]
  simp only [htwo]
  simp only [hf.mem_root, hf.mem_child]
  constructor
  · rintro (⟨⟨o, ho, rfl⟩, -, ⟨c, hc, rfl⟩, hne⟩ | ⟨q, ⟨a, o, ho, rfl, rfl⟩, -, ⟨a', c, hc, hka, rfl⟩, hne⟩)
    · exact ⟨o, .inl ⟨ho, c, hc, fun h => hne (h ▸ rfl)⟩, rfl⟩
    · rw [hf.injOn hc.1 ho.1 hka] at hc
      exact ⟨o, .inr ⟨a, c, ho, hc, fun h => hne (h ▸ rfl)⟩, rfl⟩
  · rintro ⟨o, ⟨ho, c, hc, hne⟩ | ⟨a, c, ho, hc, hne⟩, rfl⟩
    · exact .inl ⟨⟨o, ho, rfl⟩, _, ⟨c, hc, rfl⟩, fun h => hne (hf.injOn hc.1 ho.1 h)⟩
    · exact .inr ⟨_, ⟨a, o, ho, rfl, rfl⟩, _, ⟨a, c, hc, rfl, rfl⟩,
        fun h => hne (hf.injOn hc.2.1 ho.2.1 h)⟩

/-- The records without a predecessor and those that no root leads to are the orphans. -/
theorem Filing.mem_orphans (hf : Filing S d rs) {reachable : List String}
    (hreach : ∀ k, k ∈ reachable ↔ ∃ o, Reached (offerRules H) S o ∧ offerDigest o = k) (k : String) :
    k ∈ filed d rs .orphan ++
        (d.map Prod.fst).filter (fun l => l ∉ reachable && l ∉ filed d rs .invalid) ↔
      ∃ o, Orphan (offerRules H) S o ∧ offerDigest o = k := by
  rw [List.mem_append, List.mem_filter, ← hf.map_digest.mem_iff, hf.mem_digests, mem_filed]
  simp only [Bool.and_eq_true, decide_eq_true_eq, hreach, hf.mem_invalid]
  constructor
  · rintro (⟨r, hr, hp, rfl⟩ | ⟨⟨o, ho, rfl⟩, hnr, hni⟩)
    · obtain ⟨hrank, hprev⟩ := place_orphan hf.toIndex hp
      refine ⟨r.offer, ⟨(hf.mem_iff _).2 ⟨r, hr, rfl⟩, ?_, ?_⟩, rfl⟩
      · rintro ⟨a, ha, hab⟩
        rcases hab.cases_tail with rfl | ⟨b, -, hb⟩
        · exact hrank ha.2
        · exact hprev b hb.1 ((offerRules H).previous_of_follows hb.2.2)
      · rintro ⟨-, -, a, ha, hpa, -⟩
        exact hprev a ha hpa
    · exact ⟨o, ⟨ho, fun h => hnr ⟨o, h, rfl⟩, fun h => hni ⟨o, h, rfl⟩⟩, rfl⟩
  · rintro ⟨o, ⟨ho, hnr, hni⟩, rfl⟩
    refine .inr ⟨⟨o, ho, rfl⟩, ?_, ?_⟩
    · rintro ⟨b, hb, hk⟩
      exact hnr (hf.injOn hb.mem ho hk ▸ hb)
    · rintro ⟨b, hb, hk⟩
      exact hni (hf.injOn hb.1 ho hk ▸ hb)

/-! ## The chain -/

theorem exists_map_eq {f : TradeOffer H → String} {l : List String}
    (h : ∀ k ∈ l, ∃ o ∈ S, f o = k) : ∃ os : List (TradeOffer H), (∀ o ∈ os, o ∈ S) ∧ os.map f = l := by
  induction l with
  | nil => exact ⟨[], by simp, rfl⟩
  | cons k l ih =>
    rw [List.forall_mem_cons] at h
    obtain ⟨o, ho, rfl⟩ := h.1
    obtain ⟨os, hos, rfl⟩ := ih h.2
    exact ⟨o :: os, List.forall_mem_cons.2 ⟨ho, hos⟩, rfl⟩

/-- **In a straight set the walk from the root lists all of it.** -/
theorem Filing.chain (hf : Filing S d rs) (hs : Straight (offerRules H) S)
    {next : String → List String} (hnext : ∀ k, next k = filed d rs (.child k)) {root : String}
    (hroot : ∃ o, Root (offerRules H) S o ∧ offerDigest o = root) :
    ∃ chain, Worklist.follow next (rs.length + 1) root = some chain ∧ chain.length = d.length ∧
      ∃ os, Line (offerRules H) os ∧ (∀ o, o ∈ os ↔ o ∈ S) ∧ chain = os.map offerDigest := by
  obtain ⟨o, ho, rfl⟩ := hroot
  have hsub : ∀ k l, l ∈ next k → ∃ o ∈ S, offerDigest o = l := fun k l hl => by
    rw [hnext, hf.mem_child] at hl
    obtain ⟨a, b, hc, -, rfl⟩ := hl
    exact ⟨b, hc.2.1, rfl⟩
  -- the rank of a digest is the revision of its record
  let rank : String → ℤ := fun k => ((d.get k).map fun r => revisionOf r.offer).getD 0
  have hrank : ∀ o ∈ S, rank (offerDigest o) = revisionOf o := fun o ho => by
    obtain ⟨r, hr, rfl⟩ := hf.get_of_mem ho
    simp only [rank, hr, Option.map_some, Option.getD_some]
  have hend : (Worklist.follow next (rs.length + 1) (offerDigest o)).isSome = true := by
    refine Worklist.follow_isSome (rs.map OfferRecord.digest) rank (fun k hk l hl => ?_)
      ((hf.mem_digests _).2 ⟨o, ho.1, rfl⟩) ?_
    · refine ⟨(hf.mem_digests l).2 (hsub k l hl), ?_⟩
      rw [hnext, hf.mem_child] at hl
      obtain ⟨a, b, hc, rfl, rfl⟩ := hl
      rw [hrank a hc.1, hrank b hc.2.1]
      have : revisionOf b = revisionOf a + 1 := (offerRules H).rank_of_follows hc.2.2
      omega
    · refine Nat.lt_succ_of_le (List.countP_le_length.trans ?_)
      rw [List.length_map]
  obtain ⟨chain, hchain⟩ := Option.isSome_iff_exists.1 hend
  obtain ⟨hhead, hedges, hlast⟩ := Worklist.follow_spec hchain
  have hin : ∀ k ∈ chain, ∃ o ∈ S, offerDigest o = k := by
    have hone : ∀ k, (next k).length ≤ 1 := fun k => by
      rw [hnext]
      by_contra hlen
      obtain ⟨x, hx⟩ := List.exists_mem_of_length_pos (l := filed d rs (.child k)) (by omega)
      obtain ⟨y, hy, hne⟩ := (one_lt_length_iff (hf.nodup_filed _) hx).1 (by omega)
      rw [hf.mem_child] at hx hy
      obtain ⟨a, b, hb, rfl, rfl⟩ := hx
      obtain ⟨a', c, hc, hk, rfl⟩ := hy
      rw [hf.injOn hc.1 hb.1 hk] at hc
      exact hne (congrArg offerDigest (hs.child hc hb))
    intro k hk
    rcases ((Worklist.mem_follow hone hchain k).1 hk).cases_tail with rfl | ⟨l, -, hl⟩
    · exact ⟨o, ho.1, rfl⟩
    · exact hsub l k hl
  obtain ⟨os, hos, rfl⟩ := exists_map_eq hin
  have hc : os.IsChain (Child (offerRules H) S) := by
    rw [List.isChain_map] at hedges
    have : ∀ l : List (TradeOffer H), (∀ o ∈ l, o ∈ S) →
        l.IsChain (fun a b => Worklist.Edge next (offerDigest a) (offerDigest b)) →
        l.IsChain (Child (offerRules H) S) := by
      intro l
      induction l with
      | nil => exact fun _ _ => .nil
      | cons a l ih =>
        cases l with
        | nil => exact fun _ _ => .singleton a
        | cons b l =>
          intro hm he
          rw [List.isChain_cons_cons] at he ⊢
          exact ⟨(hf.edge_iff hnext (hm a (by simp)) (hm b (by simp))).1 he.1,
            ih (fun x hx => hm x (List.mem_cons_of_mem _ hx)) he.2⟩
    exact this os hos hedges
  obtain ⟨hline, hall⟩ := Line.complete hs hc (by
      rw [List.head?_map, Option.map_eq_some_iff] at hhead
      obtain ⟨r, hr, hk⟩ := hhead
      refine ⟨r, hr, ?_⟩
      rw [hf.injOn (hos r (List.mem_of_mem_head? hr)) ho.1 hk]
      exact ho) (by
      intro z hz b hzb
      have hzn := hlast (offerDigest z) (by
        rw [List.getLast?_map]
        exact Option.mem_map_of_mem _ hz)
      have := (hf.edge_iff hnext hzb.1 hzb.2.1).2 hzb
      rw [Worklist.Edge, hzn] at this
      cases this)
  refine ⟨_, hchain, ?_, os, hline, hall, rfl⟩
  have hnodup : (os.map offerDigest).Nodup :=
    (nodup_of_isChain hline.2).map_on fun a ha b hb h => hf.injOn (hos a ha) (hos b hb) h
  have hperm : (os.map offerDigest).Perm (d.map Prod.fst) := by
    rw [List.perm_ext_iff_of_nodup hnodup hf.nodup]
    intro k
    rw [← hf.map_digest.mem_iff, hf.mem_digests, List.mem_map]
    simp only [hall]
  rw [hperm.length_eq, List.length_map]

/-! ## The view -/

/-- The filters of a view keep a set of digests. -/
theorem Filing.mem_filter (hf : Filing S d rs) {l : List String} {q : TradeOffer H → Prop}
    (hq : ∀ o, q o → o ∈ S) (hl : ∀ k, k ∈ l ↔ ∃ o, q o ∧ offerDigest o = k) (k : String) :
    k ∈ (rs.map OfferRecord.digest).filter (· ∈ l) ↔ ∃ o, q o ∧ offerDigest o = k := by
  rw [List.mem_filter, hf.mem_digests, decide_eq_true_eq, hl]
  constructor
  · exact fun h => h.2
  · rintro ⟨o, ho, rfl⟩
    exact ⟨⟨o, hq o ho, rfl⟩, o, ho, rfl⟩

end

theorem mem_empty_iff {l : List String} {q : TradeOffer H → Prop}
    (hl : ∀ k, k ∈ l ↔ ∃ o, q o ∧ offerDigest o = k) : l.isEmpty = true ↔ ¬ ∃ o, q o := by
  rw [List.isEmpty_iff, List.eq_nil_iff_forall_not_mem]
  constructor
  · rintro h ⟨o, ho⟩
    exact h _ ((hl _).2 ⟨o, ho, rfl⟩)
  · intro h k hk
    obtain ⟨o, ho, -⟩ := (hl k).1 hk
    exact h ⟨o, ho⟩

section

variable {S : Set (TradeOffer H)} {d : Py.Dict String (OfferRecord H)} {rs : List (OfferRecord H)}

/-- The children that the loop collects. -/
theorem children_eq (k : String) :
    (rs.foldl (link d) {}).children.members k = filed d rs (.child k) :=
  ((foldl_link (d := d) rs {}).2.2.2 k).trans (List.nil_append _)

theorem Filing.closed (hf : Filing S d rs) : ∀ a ∈ rs.map OfferRecord.digest,
    ∀ b ∈ (rs.foldl (link d) {}).children.members a, b ∈ rs.map OfferRecord.digest := by
  intro a _ b hb
  rw [children_eq, hf.mem_child] at hb
  obtain ⟨x, y, hc, -, rfl⟩ := hb
  exact (hf.mem_digests _).2 ⟨y, hc.2.1, rfl⟩

/-- The fork loop ends with what is forked. -/
theorem Filing.forks (hf : Filing S d rs) : ∃ forks,
    Worklist.spread (rs.foldl (link d) {}).children.members
      ((rs.foldl (link d) {}).forkSeeds.length + rs.length) (rs.foldl (link d) {}).forkSeeds
      (rs.foldl (link d) {}).forkSeeds = some forks ∧
    ∀ k, k ∈ forks ↔ ∃ o, Forked (offerRules H) S o ∧ offerDigest o = k := by
  have hseeds := hf.mem_forkSeeds
  generalize (rs.foldl (link d) {}).forkSeeds = seeds at hseeds ⊢
  have hsub : ∀ a, Seed (offerRules H) S a → a ∈ S := fun a ha => Forked.mem ⟨a, ha, .refl⟩
  have hend : (Worklist.spread (rs.foldl (link d) {}).children.members (seeds.length + rs.length)
      seeds seeds).isSome = true := by
    refine Worklist.spread_isSome (rs.map OfferRecord.digest) hf.closed (fun k hk => ?_) ?_
    · obtain ⟨o, ho, rfl⟩ := (hseeds k).1 hk
      exact (hf.mem_digests _).2 ⟨o, hsub o ho, rfl⟩
    · have : Worklist.unmarked (rs.map OfferRecord.digest) seeds ≤ (rs.map OfferRecord.digest).length :=
        List.countP_le_length
      rw [List.length_map] at this
      omega
  obtain ⟨forks, hforks⟩ := Option.isSome_iff_exists.1 hend
  refine ⟨forks, hforks, fun k => ?_⟩
  rw [Worklist.mem_spread hforks (fun _ h => h) (fun _ h => .inl h),
    hf.reaches_iff children_eq hsub hseeds]
  rfl

/-- The loop from the roots ends with what they lead to. -/
theorem Filing.reachable (hf : Filing S d rs) : ∃ reachable,
    Worklist.sweep (rs.foldl (link d) {}).children.members
      ((filed d rs .root).length + rs.length * rs.length) [] (filed d rs .root).reverse =
        some reachable ∧
    ∀ k, k ∈ reachable ↔ ∃ o, Reached (offerRules H) S o ∧ offerDigest o = k := by
  have hstart : ∀ k, k ∈ (filed d rs .root).reverse ↔
      ∃ o, Root (offerRules H) S o ∧ offerDigest o = k := fun k => by
    rw [List.mem_reverse, hf.mem_root]
  have hend : (Worklist.sweep (rs.foldl (link d) {}).children.members
      ((filed d rs .root).length + rs.length * rs.length) []
      (filed d rs .root).reverse).isSome = true := by
    refine Worklist.sweep_isSome (rs.map OfferRecord.digest) hf.closed (fun k hk => ?_) ?_
    · obtain ⟨o, ho, rfl⟩ := (hstart k).1 hk
      exact (hf.mem_digests _).2 ⟨o, ho.1, rfl⟩
    · have hle : Worklist.pending (rs.foldl (link d) {}).children.members
          (rs.map OfferRecord.digest) [] ≤ (rs.map OfferRecord.digest).length • rs.length := by
        rw [Worklist.pending, ← List.length_map (f := fun x => if x ∈ ([] : List String) then 0 else
          ((rs.foldl (link d) {}).children.members x).length)]
        refine List.sum_le_card_nsmul _ _ fun m hm => ?_
        obtain ⟨k, -, rfl⟩ := List.mem_map.1 hm
        rw [if_neg (by simp), children_eq, filed, List.length_map]
        exact List.length_filter_le _ _
      rw [List.length_map] at hle
      change _ ≤ rs.length * rs.length at hle
      rw [List.length_reverse]
      omega
  obtain ⟨reachable, hr⟩ := Option.isSome_iff_exists.1 hend
  refine ⟨reachable, hr, fun k => ?_⟩
  rw [Worklist.mem_sweep hr (by simp), hf.reaches_iff children_eq (fun a ha => ha.1) hstart]
  simp only [List.not_mem_nil, false_or]
  rfl

end

/-- **The projection returns, and what it returns is the standing of the offers.** -/
theorem project_eq {records : List (OfferRecord H)} {publisherDid offerId : String}
    (hinj : Set.InjOn offerDigest (offered records publisherDid offerId)) :
    ∃ v, project records publisherDid offerId = some v ∧
      Projects (offered records publisherDid offerId) v := by
  have hd := index_deduplicate hinj
  rw [project]
  generalize offered records publisherDid offerId = S at hd ⊢
  generalize deduplicate (records.filter (isOf publisherDid offerId)) = d at hd ⊢
  have hf : Filing S d ((d.map Prod.snd).insertionSort fun a b => a.seq ≤ b.seq) :=
    ⟨hd, List.perm_insertionSort _ _⟩
  generalize (d.map Prod.snd).insertionSort (fun a b => a.seq ≤ b.seq) = rs at hf ⊢
  by_cases hempty : rs.isEmpty = true
  · have hS : S = ∅ := by
      rw [Set.eq_empty_iff_forall_notMem]
      intro o ho
      obtain ⟨r, hr, -⟩ := (hf.mem_iff o).1 ho
      rw [List.isEmpty_iff.1 hempty] at hr
      cases hr
    refine ⟨⟨publisherDid, offerId, "empty", [], [], [], none, [], [], []⟩, by rw [if_pos hempty], ?_⟩
    subst hS
    refine ⟨by rw [standing, if_pos rfl], by simp, ?_, ?_, ?_, ?_, fun h => ?_, fun _ => rfl, rfl⟩
    · simp [Root]
    · intro k
      simp only [List.not_mem_nil, false_iff]
      rintro ⟨o, ho, -⟩
      exact ho.mem
    · simp [Orphan]
    · simp [Invalid]
    · simp at h
  · have hne : S ≠ ∅ := by
      rintro rfl
      obtain ⟨r, hr⟩ := List.exists_mem_of_ne_nil rs (by simpa using hempty)
      exact (hf.mem_iff r.offer).2 ⟨r, hr, rfl⟩
    obtain ⟨forks, hforks, hfm⟩ := hf.forks
    obtain ⟨reachable, hreach, hrm⟩ := hf.reachable
    obtain ⟨hroots, horphans, hinvalid, -⟩ := foldl_link (d := d) rs {}
    simp only [List.nil_append] at hroots horphans hinvalid
    have hom := hf.mem_orphans hrm
    have him := hf.mem_invalid
    simp only [hforks, hreach, hroots, horphans, hinvalid, if_neg hempty, Option.bind_eq_bind,
      Option.bind_some, Option.pure_def]
    generalize filed d rs .orphan ++ (d.map Prod.fst).filter
      (fun l => l ∉ reachable && l ∉ filed d rs .invalid) = orphans at hom ⊢
    -- every view is right but for its status and its chain
    have hview : ∀ (status : String) (chain : List String), status = standing S →
        (status = "canonical" → ∃ os, Line (offerRules H) os ∧ (∀ o, o ∈ os ↔ o ∈ S) ∧
          chain = os.map offerDigest) → (status ≠ "canonical" → chain = []) →
        Projects S ⟨publisherDid, offerId, status, rs.map OfferRecord.digest, filed d rs .root, chain,
          chain.getLast?, (rs.map OfferRecord.digest).filter (· ∈ forks),
          (rs.map OfferRecord.digest).filter (· ∈ orphans),
          (rs.map OfferRecord.digest).filter (· ∈ filed d rs .invalid)⟩ := by
      intro status chain h₁ h₂ h₃
      exact ⟨h₁, hf.mem_digests, hf.mem_root, hf.mem_filter (fun _ h => h.mem) hfm,
        hf.mem_filter (fun _ h => h.1) hom, hf.mem_filter (fun _ h => h.1) him, h₂, h₃, rfl⟩
    by_cases h₁ : forks.isEmpty = true
    · have hn₁ := (mem_empty_iff hfm).1 h₁
      simp only [h₁, Bool.not_true, Bool.false_eq_true, if_false]
      by_cases h₂ : (filed d rs .invalid).isEmpty = true
      · have hn₂ := (mem_empty_iff him).1 h₂
        simp only [h₂, Bool.not_true, Bool.false_eq_true, if_false]
        by_cases h₃ : orphans.isEmpty = true
        · have hn₃ := (mem_empty_iff hom).1 h₃
          have hs : Straight (offerRules H) S :=
            ⟨Set.nonempty_iff_ne_empty.2 hne, fun b h => hn₁ ⟨b, h⟩, fun b h => hn₂ ⟨b, h⟩,
              fun b h => hn₃ ⟨b, h⟩⟩
          obtain ⟨r, hr, huniq⟩ := hs.root
          have hone : filed d rs .root = [offerDigest r] := by
            refine List.perm_singleton.1 ((List.perm_ext_iff_of_nodup (hf.nodup_filed _)
              (List.nodup_singleton _)).2 fun k => ?_)
            rw [hf.mem_root, List.mem_singleton]
            constructor
            · rintro ⟨o, ho, rfl⟩
              rw [huniq o ho]
            · rintro rfl
              exact ⟨r, hr, rfl⟩
          obtain ⟨chain, hfollow, hlen, hos⟩ := hf.chain hs children_eq ⟨r, hr, rfl⟩
          rw [List.isEmpty_iff.1 h₃] at hview ⊢
          rw [hone] at hview ⊢
          simp only [hfollow, Option.bind_some, hlen, bne_self_eq_false, Bool.false_eq_true, if_false]
          refine ⟨_, rfl, hview _ _ ?_ (fun _ => hos) (fun h => absurd rfl h)⟩
          rw [standing, if_neg hne, if_neg hn₁, if_neg hn₂, if_neg hn₃]
        · have hn₃ := fun h => h₃ ((mem_empty_iff hom).2 h)
          have hfall : standing S = "incomplete" := by
            rw [standing, if_neg hne, if_neg hn₁, if_neg hn₂, if_pos (not_not.1 hn₃)]
          cases orphans with
          | nil => exact absurd rfl h₃
          | cons k orphans =>
            exact ⟨_, rfl, hview "incomplete" [] hfall.symm (by simp) (fun _ => rfl)⟩
      · have hn₂ := fun h => h₂ ((mem_empty_iff him).2 h)
        rw [if_pos (by simpa using h₂)]
        refine ⟨_, rfl, hview _ _ ?_ (by simp) (fun _ => rfl)⟩
        rw [standing, if_neg hne, if_neg hn₁, if_pos (not_not.1 hn₂)]
    · have hn₁ := fun h => h₁ ((mem_empty_iff hfm).2 h)
      rw [if_pos (by simpa using h₁)]
      refine ⟨_, rfl, hview _ _ ?_ (by simp) (fun _ => rfl)⟩
      rw [standing, if_neg hne, if_pos (not_not.1 hn₁)]

/-! ## What a projection depends on -/

/-- Two views agree in all that does not depend on the order of arrival. -/
structure OfferChainView.Agrees (v w : OfferChainView) : Prop where
  status : v.status = w.status
  canonical : v.canonicalDigests = w.canonicalDigests
  head : v.canonicalHeadDigest = w.canonicalHeadDigest
  all : ∀ d, d ∈ v.allDigests ↔ d ∈ w.allDigests
  roots : ∀ d, d ∈ v.rootDigests ↔ d ∈ w.rootDigests
  forks : ∀ d, d ∈ v.forkDigests ↔ d ∈ w.forkDigests
  orphans : ∀ d, d ∈ v.orphanDigests ↔ d ∈ w.orphanDigests
  invalid : ∀ d, d ∈ v.invalidDigests ↔ d ∈ w.invalidDigests

/-- Offers from revision 1 on, each the verified successor of the one before. -/
def LinearChain (chain : List (TradeOffer H)) : Prop :=
  (∃ o ∈ chain.head?, o.field "revision" = .int 1) ∧
    chain.IsChain fun a b => verifyOfferSuccessor a b = .ok ()

theorem line_iff {chain : List (TradeOffer H)} : Line (offerRules H) chain ↔ LinearChain chain := by
  have hrev : ∀ o : TradeOffer H, revisionOf o = 1 ↔ o.field "revision" = .int 1 := fun o => by
    rw [← Json.asInt_eq_some, asInt_revision, Option.some.injEq]
  exact and_congr (exists_congr fun o => and_congr_right fun _ => hrev o) Iff.rfl

section

variable {S S' : Set (TradeOffer H)} {v v' : OfferChainView}

theorem Projects.agrees (h : Projects S v) (h' : Projects S v') : v.Agrees v' := by
  have hcanonical : v.canonicalDigests = v'.canonicalDigests := by
    by_cases hs : standing S = "canonical"
    · obtain ⟨l, hl, hmem, he⟩ := h.chain (h.status.trans hs)
      obtain ⟨l', hl', hmem', he'⟩ := h'.chain (h'.status.trans hs)
      rw [he, he', hl.unique hl' fun a => (hmem a).trans (hmem' a).symm]
    · rw [h.no_chain fun he => hs (h.status.symm.trans he),
        h'.no_chain fun he => hs (h'.status.symm.trans he)]
  exact ⟨h.status.trans h'.status.symm, hcanonical, by rw [h.head, h'.head, hcanonical],
    fun d => (h.all d).trans (h'.all d).symm, fun d => (h.roots d).trans (h'.roots d).symm,
    fun d => (h.forks d).trans (h'.forks d).symm, fun d => (h.orphans d).trans (h'.orphans d).symm,
    fun d => (h.invalid d).trans (h'.invalid d).symm⟩

theorem Projects.canonical_iff (h : Projects S v) (hinj : Set.InjOn offerDigest S) :
    v.status = "canonical" ↔ ∃ chain, LinearChain chain ∧ ∀ o, o ∈ chain ↔ o ∈ S := by
  constructor
  · intro hs
    obtain ⟨l, hl, hmem, -⟩ := h.chain hs
    exact ⟨l, line_iff.1 hl, hmem⟩
  · rintro ⟨l, hl, hmem⟩
    have hstraight := (line_iff.2 hl).sound hmem hinj
    rw [h.status, standing, if_neg hstraight.nonempty.ne_empty,
      if_neg (not_exists.2 hstraight.forked), if_neg (not_exists.2 hstraight.invalid),
      if_neg (not_exists.2 hstraight.orphan)]

theorem standing_eq_forked : standing S = "forked" ↔ ∃ o, Forked (offerRules H) S o := by
  rw [standing]
  constructor
  · intro h
    by_contra hn
    rw [if_neg hn] at h
    split_ifs at h <;> exact absurd h (by decide)
  · rintro ⟨o, ho⟩
    rw [if_neg (Set.nonempty_iff_ne_empty.1 ⟨o, ho.mem⟩), if_pos ⟨o, ho⟩]

theorem Projects.forked_mono (h : Projects S v) (h' : Projects S' v') (hsub : S ⊆ S')
    (hs : v.status = "forked") : v'.status = "forked" := by
  rw [h.status, standing_eq_forked] at hs
  rw [h'.status, standing_eq_forked]
  exact hs.imp fun o ho => ho.mono hsub

theorem Projects.prefix (h : Projects S v) (h' : Projects S' v') (hsub : S ⊆ S')
    (hs : v.status = "canonical") (hs' : v'.status = "canonical") :
    v.canonicalDigests <+: v'.canonicalDigests := by
  obtain ⟨l, hl, hmem, he⟩ := h.chain hs
  obtain ⟨l', hl', hmem', he'⟩ := h'.chain hs'
  rw [he, he']
  exact (hl.isPrefix hl' fun a ha => (hmem' a).2 (hsub ((hmem a).1 ha))).map _

end

theorem recordOf_digest (offer : TradeOffer H) : offerDigest offer = offerDigest offer := rfl

/-- A record of an offer. -/
def recordOf (seq : ℕ) (offer : TradeOffer H) : OfferRecord H where
  seq := seq
  digest := offerDigest offer
  offer := offer
  entryHash := ""
  receivedAtMs := 0
  sourceKind := "local-library"
  sourceId := ""
  digest_eq := recordOf_digest offer

end NthDao.TradeRules
