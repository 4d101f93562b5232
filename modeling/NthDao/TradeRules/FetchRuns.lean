/-
  Runs of the fetch journal: any number of workers, each call a transaction, on one clock
  that does not run backwards.

  * `Effect`: what a call other than a purge may do to the table;
  * `World`: the table, the leases that workers hold, and the time; `Sound`: its invariant;
  * `Sound.leases_after`: the leases behind a call;
  * `fetch_journal`: what holds in every run;
  * `nonce_rebound`: a nonce that a purge set free, used for another request.
-/
import NthDao.Reach
import NthDao.TradeRules.FetchSteps

namespace NthDao.TradeRules.Fetch

open Py

variable {H : Host} {toNs : ℚ → ℤ}

/-! ## Tables -/

theorem find_update {table : Table} {key key' : String × String} {row' : Row} (hk : row'.key = key) :
    Table.find (table.update key fun _ => row') key' =
      if key' = key then (table.find key).map fun _ => row' else table.find key' := by
  have hkeys : (fun row : Row => row.key == key') ∘ (fun row => if row.key = key then row' else row) =
      fun row => row.key == key' := by
    funext row
    rw [Function.comp_apply]
    split_ifs with h
    · rw [hk, h]
    · rfl
  rw [Table.find, Table.update, List.find?_map, hkeys]
  change (table.find key').map _ = _
  cases hf : table.find key' with
  | none =>
    split_ifs with h
    · rw [← h, hf]
      rfl
    · rfl
  | some row =>
    have hrow := (find_key hf).2
    split_ifs with h
    · rw [← h, hf, Option.map_some, Option.map_some, if_pos hrow]
    · rw [Option.map_some, if_neg (hrow ▸ h)]

theorem find_append {table : Table} {key : String × String} {row new : Row}
    (h : table.find key = some row) : Table.find (table ++ [new]) key = some row := by
  rw [Table.find, List.find?_append]
  change (table.find key).or _ = _
  rw [h]
  rfl

/-- Rows are found by their keys. -/
theorem find_of_mem {table : Table} {row : Row} (hn : (table.map Row.key).Nodup) (h : row ∈ table) :
    table.find row.key = some row := by
  cases hf : table.find row.key with
  | none => simpa using List.find?_eq_none.1 hf row h
  | some row' =>
    obtain ⟨hm, hk⟩ := find_key hf
    rw [List.inj_on_of_nodup_map hn hm h hk]

namespace Rewritten

variable {key : String × String} {table table' : Table} {row row' : Row}

theorem find (h : Rewritten H key table table' row row') (key' : String × String) :
    table'.find key' = if key' = key then some row' else table.find key' := by
  rw [h.table, find_update (h.kept.key.trans (find_key h.found).2), h.found]
  rfl

theorem keys (h : Rewritten H key table table' row row') : table'.map Row.key = table.map Row.key := by
  rw [h.table, Table.update, List.map_map]
  refine List.map_congr_left fun r _ => ?_
  rw [Function.comp_apply]
  split_ifs with hr
  · rw [hr]
    exact h.kept.key.trans (find_key h.found).2
  · rfl

theorem mem (h : Rewritten H key table table' row row') {r : Row} (hr : r ∈ table') :
    r = row' ∨ r ∈ table := by
  rw [h.table] at hr
  obtain ⟨r', hr', rfl⟩ := List.mem_map.1 hr
  split_ifs
  · exact .inl rfl
  · exact .inr hr'

end Rewritten

/-! ## Effects -/

variable (H) in
/-- A row is that of a request, and readable if the request ends after 1970. -/
def Stored (row : Row) : Prop :=
  ∃ request : FetchRequest H, requestKey request = row.key ∧ row.requestBytes = request.canonicalBytes ∧
    timestampNs (request.field "not_after") "request.not_after" = .ok row.notAfterNs ∧
      (1 ≤ row.notAfterNs → Valid H row)

theorem Stored.rewritten {key : String × String} {table table' : Table} {row row' : Row}
    (h : Stored H row) (hr : Rewritten H key table table' row row') : Stored H row' := by
  obtain ⟨request, hkey, hbytes, hexp, -⟩ := h
  refine ⟨request, hkey.trans hr.kept.key.symm, hr.kept.requestBytes.trans hbytes, ?_, fun _ => hr.valid'⟩
  rw [hr.kept.notAfter]
  exact hexp

variable (H) in
/-- What a call other than a purge may do to the table. -/
inductive Effect (table : Table) : Table → Prop
  | same : Effect table table
  | inserted {row : Row} (fresh : table.find row.key = none) (stored : Stored H row) :
      Effect table (table ++ [row])
  | rewritten {key : String × String} {table' : Table} {row row' : Row}
      (h : Rewritten H key table table' row row') : Effect table table'

namespace Effect

variable {table table' : Table}

/-- **Rows are kept** by every call but a purge. -/
theorem find (h : Effect H table table') {key : String × String} {row : Row}
    (hf : table.find key = some row) : ∃ row', table'.find key = some row' ∧ Kept row row' := by
  cases h with
  | same => exact ⟨row, hf, Kept.refl row⟩
  | inserted fresh stored => exact ⟨row, find_append hf, Kept.refl row⟩
  | rewritten h =>
    rename_i key' r r'
    rw [h.find]
    split_ifs with hk
    · have : r = row := Option.some.inj (h.found.symm.trans (hk ▸ hf))
      exact ⟨r', rfl, this ▸ h.kept⟩
    · exact ⟨row, hf, Kept.refl row⟩

theorem nodup (h : Effect H table table') (hn : (table.map Row.key).Nodup) :
    (table'.map Row.key).Nodup := by
  cases h with
  | same => exact hn
  | inserted fresh stored =>
    rw [List.map_append, List.nodup_append]
    refine ⟨hn, List.nodup_singleton _, fun key hkey key' hkey' => ?_⟩
    obtain ⟨row', hrow', rfl⟩ := List.mem_map.1 hkey
    rw [List.map_singleton, List.mem_singleton] at hkey'
    rintro heq
    have := List.find?_eq_none.1 fresh row' hrow'
    simp [heq, hkey'] at this
  | rewritten h =>
    rw [h.keys]
    exact hn

theorem stored (h : Effect H table table') (hs : ∀ row ∈ table, Stored H row) :
    ∀ row ∈ table', Stored H row := by
  cases h with
  | same => exact hs
  | inserted fresh stored =>
    intro row hrow
    rcases List.mem_append.1 hrow with hrow | hrow
    · exact hs row hrow
    · rw [List.mem_singleton.1 hrow]
      exact stored
  | rewritten h =>
    intro row hrow
    rcases h.mem hrow with rfl | hrow
    · exact (hs _ (find_key h.found).1).rewritten h
    · exact hs row hrow

end Effect

/-! ## The world -/

/-- A lease as the worker knows it. -/
structure Grant where
  key : String × String
  owner : String
  untilNs : ℤ

/-- A grant that the table still says. -/
def Grant.LeasedIn (g : Grant) (table : Table) : Prop :=
  ∃ row, table.find g.key = some row ∧ row.processingOwner = some g.owner ∧
    row.leaseUntilNs = some g.untilNs

/-- The journal, the leases its workers hold, and the time of the last call. -/
structure World where
  table : Table
  held : List Grant
  now : ℤ

variable (H) in
/-- The calls of the workers. -/
inductive FetchCall where
  | reserve (journal : Journal) (request : FetchRequest H) (atNs : ℤ)
  | markAudited (request : FetchRequest H) (response : FetchResponse H) (event : Audit) (atNs : ℤ)
  | claim (request : FetchRequest H) (owner : String) (atNs : ℤ) (leaseSeconds : ℚ)
  | release (request : FetchRequest H) (owner : String) (atNs : ℤ) (retryAfterSeconds : ℚ)
  | complete (journal : Journal) (request : FetchRequest H) (response : FetchResponse H)
      (owner : String) (atNs : ℤ)
  | purge (atNs : ℤ) (clockSkewSeconds : ℚ) (limit : ℕ)

/-- The time that a call is given. -/
def FetchCall.atNs : FetchCall H → ℤ
  | .reserve _ _ atNs | .markAudited _ _ _ atNs | .claim _ _ atNs _ | .release _ _ atNs _
  | .complete _ _ _ _ atNs | .purge atNs _ _ => atNs

/-- The lease that a claim grants. -/
def granted (key : String × String) (owner : String) : Except JournalError (Row × Bool) → List Grant
  | .ok (row, true) => [⟨key, owner, row.leaseUntilNs.getD 0⟩]
  | _ => []

/-- The leases left when a worker gave its lease on `key` back. -/
def givenBack (key : String × String) (owner : String) (held : List Grant) :
    Except JournalError (Row × Bool) → List Grant
  | .ok (_, true) => held.filter fun g => !(g.key == key && g.owner == owner)
  | _ => held

variable (toNs) in
/-- The world behind a call. -/
def World.after (w : World) : FetchCall H → World
  | .reserve journal request atNs =>
    { w with table := (reserve journal request atNs w.table).1, now := atNs }
  | .markAudited request response event atNs =>
    { w with table := (markAudited request response event atNs w.table).1, now := atNs }
  | .claim request owner atNs leaseSeconds =>
    let result := claimProcessing toNs request owner atNs leaseSeconds w.table
    { table := result.1, held := granted (requestKey request) owner result.2 ++ w.held, now := atNs }
  | .release request owner atNs retryAfterSeconds =>
    let result := releaseProcessing toNs request owner atNs retryAfterSeconds w.table
    { table := result.1, held := givenBack (requestKey request) owner w.held result.2, now := atNs }
  | .complete journal request response owner atNs =>
    let result := complete journal request response owner atNs w.table
    { table := result.1, held := givenBack (requestKey request) owner w.held result.2, now := atNs }
  | .purge atNs clockSkewSeconds limit =>
    { w with
      table := (purgeIneligibleReplays H toNs atNs clockSkewSeconds limit w.table).1, now := atNs }

variable (H toNs) in
/-- A call, at no time before the last one. -/
def step (w : World) (call : FetchCall H) : Option World :=
  if w.now ≤ call.atNs then some (w.after toNs call) else none

/-- An empty journal. -/
def World.start : World := ⟨[], [], 0⟩

variable (H) in
/-- The invariant of the journal. -/
structure Sound (w : World) : Prop where
  keys : (w.table.map Row.key).Nodup
  rows : ∀ row ∈ w.table, Stored H row
  leases : ∀ g ∈ w.held, w.now < g.untilNs → g.LeasedIn w.table

variable (toNs) in
/-- A call is a purge, or one of the effects. -/
theorem after_effect (w : World) (call : FetchCall H) :
    (∃ atNs clockSkewSeconds limit, call = .purge atNs clockSkewSeconds limit) ∨
      Effect H w.table (w.after toNs call).table := by
  cases call with
  | purge atNs clockSkewSeconds limit => exact .inl ⟨_, _, _, rfl⟩
  | reserve journal request atNs =>
    refine .inr ?_
    rcases reserve_spec journal request atNs w.table with
      h | ⟨hf, expiry, hexp, hat, h⟩
    · change Effect H w.table (reserve journal request atNs w.table).1
      rw [h]
      exact .same
    · change Effect H w.table (reserve journal request atNs w.table).1
      rw [h]
      exact .inserted hf ⟨request, rfl, rfl, hexp, valid_newRow hat hexp⟩
  | markAudited request response event atNs =>
    refine .inr ?_
    rcases markAudited_spec request response event atNs w.table with h | ⟨row, audited, h, -⟩
    · change Effect H w.table (markAudited request response event atNs w.table).1
      rw [h]
      exact .same
    · exact .rewritten h
  | claim request owner atNs leaseSeconds =>
    refine .inr ?_
    rcases claim_spec toNs request owner atNs leaseSeconds w.table with ⟨h, -⟩ | ⟨row, claimed, _, h, -⟩
    · change Effect H w.table (claimProcessing toNs request owner atNs leaseSeconds w.table).1
      rw [h]
      exact .same
    · exact .rewritten h
  | release request owner atNs retryAfterSeconds =>
    refine .inr ?_
    rcases release_spec toNs request owner atNs retryAfterSeconds w.table with ⟨h, -⟩ | ⟨row, released, h, -⟩
    · change Effect H w.table (releaseProcessing toNs request owner atNs retryAfterSeconds w.table).1
      rw [h]
      exact .same
    · exact .rewritten h
  | complete journal request response owner atNs =>
    refine .inr ?_
    rcases complete_spec journal request response owner atNs w.table with ⟨h, -⟩ | ⟨row, completed, h, -⟩
    · change Effect H w.table (complete journal request response owner atNs w.table).1
      rw [h]
      exact .same
    · exact .rewritten h

/-! ## Leases -/

theorem mem_granted {key : String × String} {owner : String} {r : Except JournalError (Row × Bool)}
    {g : Grant} (h : g ∈ granted key owner r) :
    ∃ row, r = .ok (row, true) ∧ g = ⟨key, owner, row.leaseUntilNs.getD 0⟩ := by
  unfold granted at h
  split at h
  · exact ⟨_, rfl, List.mem_singleton.1 h⟩
  · cases h

theorem mem_givenBack {key : String × String} {owner : String} {held : List Grant}
    {r : Except JournalError (Row × Bool)} {g : Grant} (h : g ∈ givenBack key owner held r) :
    g ∈ held ∧ ∀ row, r = .ok (row, true) → g.key = key → g.owner ≠ owner := by
  unfold givenBack at h
  split at h
  · rw [List.mem_filter, Bool.not_eq_true', Bool.and_eq_false_iff, beq_eq_false_iff_ne,
      beq_eq_false_iff_ne] at h
    refine ⟨h.1, fun _ _ hk ho => ?_⟩
    rcases h.2 with h | h
    · exact h hk
    · exact h ho
  · rename_i hr
    exact ⟨h, fun row he => absurd he (hr row)⟩

namespace Grant.LeasedIn

variable {g : Grant} {table table' : Table}

/-- A rewritten row that is not the leased one, or has the same lease. -/
theorem rewritten (hg : g.LeasedIn table) {key : String × String} {row row' : Row}
    (h : Rewritten H key table table' row row')
    (hsame : g.key = key → row.processingOwner = some g.owner → row.leaseUntilNs = some g.untilNs →
      row'.processingOwner = some g.owner ∧ row'.leaseUntilNs = some g.untilNs) :
    g.LeasedIn table' := by
  obtain ⟨r, hf, howner, hlease⟩ := hg
  rw [LeasedIn, h.find]
  split_ifs with hk
  · have : r = row := Option.some.inj (hf.symm.trans (hk ▸ h.found))
    subst this
    exact ⟨row', rfl, hsame hk howner hlease⟩
  · exact ⟨r, hf, howner, hlease⟩

/-- The worker of a lease is the one of the row. -/
theorem owner_eq (hg : g.LeasedIn table) {row : Row} (hf : table.find g.key = some row) :
    row.processingOwner = some g.owner ∧ row.leaseUntilNs = some g.untilNs := by
  obtain ⟨r, hr, howner, hlease⟩ := hg
  cases Option.some.inj (hr.symm.trans hf)
  exact ⟨howner, hlease⟩

end Grant.LeasedIn

/-- **The leases behind a call** are those of the table. -/
theorem Sound.leases_after {w : World} (hs : Sound H w) {call : FetchCall H} (hnow : w.now ≤ call.atNs) :
    ∀ g ∈ (w.after toNs call).held, call.atNs < g.untilNs → g.LeasedIn (w.after toNs call).table := by
  intro g hg hexp
  have old : g ∈ w.held → g.LeasedIn w.table := fun h => hs.leases g h (hnow.trans_lt hexp)
  cases call with
  | reserve journal request atNs =>
    obtain ⟨r, hf, hr⟩ := old hg
    change g.LeasedIn (reserve journal request atNs w.table).1
    rcases reserve_spec journal request atNs w.table with h | ⟨-, _, -, -, h⟩
    · rw [h]
      exact ⟨r, hf, hr⟩
    · rw [h]
      exact ⟨r, find_append hf, hr⟩
  | markAudited request response event atNs =>
    change g.LeasedIn (markAudited request response event atNs w.table).1
    rcases markAudited_spec request response event atNs w.table with h | ⟨row, audited, h, ho, hl⟩
    · rw [h]
      exact old hg
    · exact (old hg).rewritten h fun _ howner hlease => ⟨ho.trans howner, hl.trans hlease⟩
  | claim request owner atNs leaseSeconds =>
    change g.LeasedIn (claimProcessing toNs request owner atNs leaseSeconds w.table).1
    rcases List.mem_append.1 hg with hg | hg
    · obtain ⟨answered, hr, rfl⟩ := mem_granted hg
      rcases claim_spec toNs request owner atNs leaseSeconds w.table with
        ⟨h, hans⟩ | ⟨row, claimed, leaseUntil, h, hr', -, howner, hlease⟩
      · obtain ⟨hf, howner, leaseUntil, hlease⟩ := hans answered hr
        rw [h]
        exact ⟨answered, hf, howner, by rw [hlease]; rfl⟩
      · cases hr.symm.trans hr'
        refine ⟨answered, ?_, howner, by rw [hlease]; rfl⟩
        rw [h.find, if_pos rfl]
    · rcases claim_spec toNs request owner atNs leaseSeconds w.table with
        ⟨h, -⟩ | ⟨row, claimed, _, h, -, hfree, -, -⟩
      · rw [h]
        exact old hg
      · refine (old hg).rewritten h fun _ howner hlease => ?_
        have hdone := hfree g.untilNs (by rw [howner]; rfl) hlease
        exact absurd hexp (not_lt.2 hdone)
  | release request owner atNs retryAfterSeconds =>
    change g.LeasedIn (releaseProcessing toNs request owner atNs retryAfterSeconds w.table).1
    obtain ⟨hmem, hback⟩ := mem_givenBack hg
    rcases release_spec toNs request owner atNs retryAfterSeconds w.table with
      ⟨h, -⟩ | ⟨row, released, h, hr, howner⟩
    · rw [h]
      exact old hmem
    · refine (old hmem).rewritten h fun hk howner' _ => ?_
      exact absurd (Option.some.inj (howner'.symm.trans howner)) (hback released hr hk)
  | complete journal request response owner atNs =>
    change g.LeasedIn (complete journal request response owner atNs w.table).1
    obtain ⟨hmem, hback⟩ := mem_givenBack hg
    rcases complete_spec journal request response owner atNs w.table with
      ⟨h, -⟩ | ⟨row, completed, h, hr, howner⟩
    · rw [h]
      exact old hmem
    · refine (old hmem).rewritten h fun hk howner' _ => ?_
      exact absurd (Option.some.inj (howner'.symm.trans howner)) (hback completed hr hk)
  | purge atNs clockSkewSeconds limit =>
    obtain ⟨hsub, hgone⟩ := purge_spec H toNs atNs clockSkewSeconds limit hs.keys
    change g.LeasedIn (purgeIneligibleReplays H toNs atNs clockSkewSeconds limit w.table).1
    obtain ⟨row, hf, howner, hlease⟩ := old hg
    obtain ⟨hmem, hkey⟩ := find_key hf
    have hkept : row ∈ (purgeIneligibleReplays H toNs atNs clockSkewSeconds limit w.table).1 := by
      by_contra hout
      have hdel := hgone row hmem hout
      rw [Row.ineligible, howner, hlease] at hdel
      have : g.untilNs ≤ atNs := by simpa using (Bool.and_eq_true_iff.1 hdel).2
      exact absurd hexp (not_lt.2 this)
    refine ⟨row, ?_, howner, hlease⟩
    rw [← hkey]
    exact find_of_mem ((hsub.map Row.key).nodup hs.keys) hkept

/-! ## Runs -/

theorem sound_start : Sound H World.start := 
  ⟨List.nodup_nil, List.forall_mem_nil _, List.forall_mem_nil _⟩

/-- **A call keeps the invariant.** -/
theorem Sound.step {w w' : World} (hs : Sound H w) {call : FetchCall H}
    (h : step H toNs w call = some w') : Sound H w' := by
  rw [Fetch.step, Option.ite_none_right_eq_some] at h
  obtain ⟨hnow, h⟩ := h
  cases h
  have hl : (w.after toNs call).now = call.atNs := by cases call <;> rfl
  have hleases : ∀ g ∈ (w.after toNs call).held, (w.after toNs call).now < g.untilNs →
      g.LeasedIn (w.after toNs call).table := by
    rw [hl]
    exact hs.leases_after hnow
  rcases after_effect toNs w call with ⟨atNs, skew, limit, rfl⟩ | he
  · obtain ⟨hsub, -⟩ := purge_spec H toNs atNs skew limit hs.keys
    exact ⟨(hsub.map Row.key).nodup hs.keys, fun row hrow => hs.rows row (hsub.subset hrow), hleases⟩
  · exact ⟨he.nodup hs.keys, he.stored hs.rows, hleases⟩

variable (toNs) in
/-- The row of `key`, if there is one, is not deleted by the call. -/
def Spares (key : String × String) (w : World) (call : FetchCall H) : Prop :=
  (w.table.find key).isSome = true → ((w.after toNs call).table.find key).isSome = true

/-- A call that spares a row keeps what it says. -/
theorem Sound.kept {w : World} (hs : Sound H w) {call : FetchCall H} {key : String × String} {row : Row}
    (hf : w.table.find key = some row) (hspare : Spares toNs key w call) :
    ∃ row', (w.after toNs call).table.find key = some row' ∧ Kept row row' := by
  rcases after_effect toNs w call with ⟨atNs, skew, limit, rfl⟩ | he
  · obtain ⟨row', hf'⟩ := Option.isSome_iff_exists.1 (hspare (by rw [hf]; rfl))
    obtain ⟨hsub, -⟩ := purge_spec H toNs atNs skew limit hs.keys
    obtain ⟨hm', hk'⟩ := find_key hf'
    have := find_of_mem hs.keys (hsub.subset hm')
    rw [hk', hf] at this
    cases this
    exact ⟨row, hf', Kept.refl row⟩
  · exact he.find hf

/-- **Exactly one response per nonce.**  In every run of the calls with times that do not run
    backwards:
    unexpired leases on one nonce have one worker;
    a nonce has one row, that of a request, which the decoder accepts where the request ends
    after 1970;
    as long as the row is not deleted, its request does not change, nor do a response and an
    audit event once they are there;
    a completion by anyone but the worker with the lease stores nothing, and returns at most the
    identical response that is stored;
    and only a purge deletes a row, none that is answered but not audited, none with an
    unexpired lease, and none whose request may still be accepted. -/
theorem fetch_journal (toNs : ℚ → ℤ) {w : World}
    (h : Runs.Reach (step H toNs) (fun _ _ => True) World.start w) :
    (∀ g ∈ w.held, ∀ g' ∈ w.held, g.key = g'.key → w.now < g.untilNs → w.now < g'.untilNs →
      g.owner = g'.owner) ∧
    (w.table.map Row.key).Nodup ∧
    (∀ row ∈ w.table, ∃ request : FetchRequest H, requestKey request = row.key ∧
      row.requestBytes = request.canonicalBytes ∧ ∃ expiry,
        timestampNs (request.field "not_after") "not_after" = .ok expiry ∧
          (1 ≤ expiry → record H row = .ok row)) ∧
    (∀ key row w', w.table.find key = some row →
      Runs.Reach (step H toNs) (fun w call => Spares toNs key w call) w w' →
        ∃ row', w'.table.find key = some row' ∧ row'.requestBytes = row.requestBytes ∧
          (∀ raw, row.responseBytes = some raw → row'.responseBytes = some raw) ∧
          ∀ id, row.auditEventId = some id → row'.auditEventId = some id) ∧
    (∀ journal (request : FetchRequest H) response owner atNs,
      (∀ row, w.table.find (requestKey request) = some row → row.processingOwner ≠ some owner) →
        (complete journal request response owner atNs w.table).1 = w.table ∧
          ∀ row flag, (complete journal request response owner atNs w.table).2 = .ok (row, flag) →
            flag = false ∧ w.table.find (requestKey request) = some row ∧
              row.responseBytes = some response.canonicalBytes) ∧
    ∀ call w', step H toNs w call = some w' → ∀ row ∈ w.table, w'.table.find row.key = none →
      ∃ atNs clockSkewSeconds limit, call = .purge atNs clockSkewSeconds limit ∧
        row.notAfterNs < atNs - toNs clockSkewSeconds ∧
        (row.responseBytes.isSome = true → row.auditEventId.isSome = true) ∧
        ∀ leaseUntil, row.processingOwner.isSome = true → row.leaseUntilNs = some leaseUntil →
          leaseUntil ≤ atNs := by
  have sound_of : ∀ {cond : World → FetchCall H → Prop} {w w' : World}, Sound H w →
      Runs.Reach (step H toNs) cond w w' → Sound H w' :=
    fun hs hr => hr.invariant hs fun _ _ _ hs _ hstep => hs.step hstep
  have hs : Sound H w := sound_of sound_start h
  refine ⟨?_, hs.keys, ?_, ?_, ?_, ?_⟩
  · intro g hg g' hg' hk hexp hexp'
    obtain ⟨row, hf, howner, -⟩ := hs.leases g hg hexp
    have howner' := ((hs.leases g' hg' hexp').owner_eq (hk ▸ hf)).1
    exact Option.some.inj (howner.symm.trans howner')
  · intro row hrow
    obtain ⟨request, hkey, hbytes, hexp, hv⟩ := hs.rows row hrow
    exact ⟨request, hkey, hbytes, row.notAfterNs, timestampNs_label hexp,
      fun hpos => record_eq_ok.2 ⟨rfl, hv hpos⟩⟩
  · intro key row w' hf hrun
    let P : World → Prop := fun u => Sound H u ∧ ∃ row', u.table.find key = some row' ∧ Kept row row'
    have hinv : P w' := by
      refine hrun.invariant ⟨hs, row, hf, Kept.refl row⟩ ?_
      rintro u call u' ⟨hu, r, hr, hkept⟩ hspare hstep
      have hafter := hstep
      rw [Fetch.step, Option.ite_none_right_eq_some] at hafter
      obtain ⟨-, hafter⟩ := hafter
      cases hafter
      obtain ⟨r', hr', hkept'⟩ := hu.kept hr hspare
      exact ⟨hu.step hstep, r', hr', hkept.trans hkept'⟩
    obtain ⟨-, row', hf', hk⟩ := hinv
    exact ⟨row', hf', hk.requestBytes, hk.response, hk.audit⟩
  · intro journal request response owner atNs hother
    rcases complete_spec journal request response owner atNs w.table with h | ⟨row, _, hr, -, howner⟩
    · exact h
    · exact absurd howner (hother row hr.found)
  · intro call w' hstep row hrow hgone
    rw [Fetch.step, Option.ite_none_right_eq_some] at hstep
    obtain ⟨-, hstep⟩ := hstep
    cases hstep
    have hf := find_of_mem hs.keys hrow
    rcases after_effect toNs w call with ⟨atNs, skew, limit, rfl⟩ | he
    · obtain ⟨-, hdel⟩ := purge_spec H toNs atNs skew limit hs.keys
      have hout : row ∉ (purgeIneligibleReplays H toNs atNs skew limit w.table).1 := by
        intro hin
        simpa using List.find?_eq_none.1 hgone row hin
      have helig := hdel row hrow hout
      simp only [Row.ineligible, cutoff, Bool.and_eq_true, Bool.or_eq_true] at helig
      obtain ⟨⟨hbefore, haudit⟩, hlease⟩ := helig
      refine ⟨atNs, skew, limit, rfl, of_decide_eq_true hbefore, fun hr => ?_, fun leaseUntil ho hl => ?_⟩
      · rcases haudit with hn | ha
        · rw [Option.isNone_iff_eq_none.1 hn] at hr
          cases hr
        · exact ha
      · rcases hlease with hn | hle
        · rw [Option.isNone_iff_eq_none.1 hn] at ho
          cases ho
        · rw [hl] at hle
          simpa using hle
    · obtain ⟨row', hf', -⟩ := he.find hf
      rw [hgone] at hf'
      cases hf'

/-! ## A nonce after a purge -/

/-- A journal with the default limits. -/
def sampleJournal : Journal := ⟨20000, 536870912, 500, 50, by decide, by decide, by decide, by decide⟩

/-- `int(s * 1_000_000_000)` without rounding. -/
def sampleNs (seconds : ℚ) : ℤ := (seconds * 1000000000).floor

/-- A request is reserved in an empty journal. -/
theorem reserve_nil {request : FetchRequest H} {atNs expiry : ℤ}
    (hat : 1 ≤ atNs ∧ atNs ≤ maxTransportTimestampNs)
    (hexp : timestampNs (request.field "not_after") "not_after" = .ok expiry) :
    (reserve sampleJournal request atNs []).1 = [newRow request atNs expiry] := by
  obtain ⟨_, _, _, _, -, -, -, -, hlen⟩ := request_fields request
  have hlen' : request.canonicalBytes.length ≤ 16384 := hlen
  have hlong : request.canonicalBytes.length ≤ maxJournalRecordBytes := hlen.trans (by decide)
  have hquota : checkQuota sampleJournal [] request = .ok () := by
    simp only [checkQuota, bind_eq_ok]
    refine ⟨(), rfl, (), ?_, (), rfl, rfl⟩
    simp only [require_eq_ok, List.map_nil, List.sum_nil, decide_eq_true_eq, sampleJournal]
    omega
  have hok : checkTimestamp atNs "observed_at_ns" = .ok () := checkTimestamp_eq_ok.2 hat
  rw [reserve, hok, timestampNs_label hexp]
  simp only [ok_bind, mapError_ok, hlong, decide_true, require, if_true, Table.find, List.find?_nil,
    List.any_nil, Bool.not_false, hquota, pure, Except.pure, commit, List.nil_append]

/-- A request alone in the journal is purged once it ended. -/
theorem purge_singleton {toNs : ℚ → ℤ} (h0 : toNs 0 = 0) {row : Row} {atNs : ℤ} (hv : Valid H row)
    (hat : 1 ≤ atNs ∧ atNs ≤ maxTransportTimestampNs) (hend : row.notAfterNs < atNs)
    (hfresh : row.responseBytes = none ∧ row.processingOwner = none) :
    (purgeIneligibleReplays H toNs atNs 0 1 [row]).1 = [] := by
  have helig : row.ineligible (atNs - toNs 0) atNs = true := by
    simp [Row.ineligible, h0, hend, hfresh]
  have hrows : purgeRows H toNs atNs 0 1 [row] = .ok [row] := by
    simp only [purgeRows, bind_eq_ok]
    refine ⟨(), checkTimestamp_eq_ok.2 hat, (), ?_, (), rfl, ?_⟩
    · rw [boundedSeconds, require_eq_ok, maxFetchSeconds]
      norm_num
    · have hlist : List.take 1 (List.insertionSort Row.before
          (List.filter (fun row => row.ineligible (atNs - toNs 0) atNs) [row])) = [row] := by
        simp [helig]
      rw [hlist, records, record_eq_ok.2 ⟨rfl, hv⟩]
      rfl
  rw [purgeIneligibleReplays, hrows]
  simp

/-- **A nonce is used again**: the row of a request that ended is purged, and the nonce is free
    for another request. -/
theorem nonce_reused (toNs : ℚ → ℤ) (h0 : toNs 0 = 0) {request request' : FetchRequest H}
    {expiry expiry' : ℤ} (hpos : 1 ≤ expiry) (hlt : expiry < maxTransportTimestampNs)
    (hexp : timestampNs (request.field "not_after") "not_after" = .ok expiry)
    (hexp' : timestampNs (request'.field "not_after") "not_after" = .ok expiry') :
    ∃ w w' : World,
      Runs.Reach (step H toNs) (fun _ _ => True) World.start w ∧
      Runs.Reach (step H toNs) (fun _ _ => True) w w' ∧
      w.table = [newRow request expiry expiry] ∧ w'.table = [newRow request' (expiry + 1) expiry'] := by
  have hat : 1 ≤ expiry ∧ expiry ≤ maxTransportTimestampNs := ⟨hpos, hlt.le⟩
  have hat' : 1 ≤ expiry + 1 ∧ expiry + 1 ≤ maxTransportTimestampNs := by omega
  refine ⟨World.after toNs World.start (.reserve sampleJournal request expiry),
    World.after toNs (World.after toNs
      (World.after toNs World.start (.reserve sampleJournal request expiry))
      (FetchCall.purge (expiry + 1) 0 1 : FetchCall H)) (.reserve sampleJournal request' (expiry + 1)),
    ?_, ?_, ?_, ?_⟩
  · refine Runs.Reach.start.step trivial (a := .reserve sampleJournal request expiry) (if_pos ?_)
    exact zero_le_one.trans hpos
  · refine (Runs.Reach.start.step trivial (a := .purge (expiry + 1) 0 1) (if_pos ?_)).step trivial
      (a := .reserve sampleJournal request' (expiry + 1)) (if_pos ?_)
    · exact Int.le_of_lt (Int.lt_succ expiry)
    · exact le_refl _
  · exact reserve_nil hat hexp
  · have hpurged : (purgeIneligibleReplays H toNs (expiry + 1) 0 1 [newRow request expiry expiry]).1 = [] :=
      purge_singleton h0 (valid_newRow hat (timestampNs_label hexp) hpos) hat' (Int.lt_succ expiry)
        ⟨rfl, rfl⟩
    change (reserve sampleJournal request' (expiry + 1) (purgeIneligibleReplays H toNs (expiry + 1) 0 1
      (reserve sampleJournal request expiry []).1).1).1 = _
    rw [reserve_nil hat hexp, hpurged, reserve_nil hat' hexp']

/-- The end of the first sample. -/
theorem sample_expiry : timestampNs (.str "2026-01-01T00:05:00Z") "not_after" = .ok 1767225900000000000 := by
  have h : (timestampNs (.str "2026-01-01T00:05:00Z") "not_after").toOption.any
      (fun ns => ns == 1767225900000000000) = true := by decide
  obtain ⟨ns, hok, hns⟩ := ok_of_any h
  rw [hok, beq_iff_eq.1 hns]

/-- The journal with one request. -/
theorem fetch_journal_sample : ∃ (request : FetchRequest checksumHost) (w : World) (row : Row),
    w.table = [row] ∧ row.requestBytes = request.canonicalBytes ∧
      record checksumHost row = .ok row := by
  obtain ⟨request, request', -, -, hend, -⟩ := exists_sampleRequests
  have hexp : timestampNs (request.field "not_after") "not_after" = .ok 1767225900000000000 := by
    rw [hend]
    exact sample_expiry
  obtain ⟨w, -, hw, -, htable, -⟩ := nonce_reused sampleNs (by decide +kernel)
    (by decide) (by decide) hexp hexp
  obtain ⟨-, -, hrows, -⟩ := fetch_journal sampleNs hw
  obtain ⟨request'', -, hbytes, expiry, hexp', hrecord⟩ := hrows _ (htable ▸ List.mem_singleton_self _)
  rw [← field_eq_of_canonicalBytes hbytes, hexp] at hexp'
  cases hexp'
  exact ⟨request, w, _, htable, rfl, hrecord (by decide)⟩

/-- **One nonce, two requests.** -/
theorem nonce_rebound : ∃ (request request' : FetchRequest checksumHost) (w w' : World),
    Runs.Reach (step checksumHost sampleNs) (fun _ _ => True) World.start w ∧
    Runs.Reach (step checksumHost sampleNs) (fun _ _ => True) w w' ∧
    requestKey request' = requestKey request ∧ request'.canonicalBytes ≠ request.canonicalBytes ∧
    (∃ row ∈ w.table, row.key = requestKey request ∧ row.requestBytes = request.canonicalBytes) ∧
    ∃ row ∈ w'.table, row.key = requestKey request ∧ row.requestBytes = request'.canonicalBytes := by
  obtain ⟨request, request', hdid, hnonce, hend, hend'⟩ := exists_sampleRequests
  have hexp : timestampNs (request.field "not_after") "not_after" = .ok 1767225900000000000 := by
    rw [hend]
    exact sample_expiry
  obtain ⟨_, _, _, expiry', -, -, -, hexp', -⟩ := request_fields request'
  obtain ⟨w, w', hw, hw', htable, htable'⟩ := nonce_reused sampleNs (by decide +kernel)
    (by decide) (by decide) hexp hexp'
  have hkey : requestKey request' = requestKey request := by
    rw [requestKey, requestKey, FetchRequest.text, FetchRequest.text, FetchRequest.text,
      FetchRequest.text, hdid, hnonce]
  refine ⟨request, request', w, w', hw, hw', hkey, fun hsame => ?_, ?_, ?_⟩
  · have := field_eq_of_canonicalBytes hsame "not_after"
    rw [hend, hend'] at this
    exact absurd this (by decide)
  · exact ⟨_, htable ▸ List.mem_singleton_self _, rfl, rfl⟩
  · rw [htable', ← hkey]
    exact ⟨_, List.mem_singleton_self _, rfl, rfl⟩

end NthDao.TradeRules.Fetch
