/-
  The audit and revocation store of capability tokens
  (`nth_dao/cap_token.py`, `CapTokenStore`).

  The records of the issued tokens and the list of the revoked ids are files of
  one directory.  Both are written to a temporary file that then replaces the
  old one; a revocation reads the list first, and nothing is locked.

  * `Store.step`: the steps of any number of workers: a call starts, goes on, or
    dies;
  * `revoked_stays_revoked`: what has been revoked stays so in the runs where no
    token is called `revoked` and revocations do not overlap;
  * `revocations_lost`: the two ways to lose one.

  A file is the value that its text stands for, and a temporary file is written
  in one step.
-/
import NthDao.CapToken
import NthDao.Py.Dict
import NthDao.Reach

namespace NthDao

open Py

namespace CapToken

variable (H : Host)

/-! ## Files -/

/-- `REVOKED_FILE`. -/
def revokedFile : String := "revoked.json"

/-- The file of a token. -/
def recordFile (tid : String) : String := tid ++ ".json"

/-- `path.with_suffix(".json.tmp")`. -/
def tmpFile (name : String) : String := name ++ ".tmp"

/-- `os.replace`, `none` if there is no source. -/
def replaceFile (files : Dict String Json) (src dst : String) : Option (Dict String Json) :=
  (files.get src).map fun v => (files.pop src).set dst v

/-- The texts of `data.get("revoked", [])`. -/
def listedIds : Json → Except String (List String)
  | .obj kvs =>
    match Json.getD kvs "revoked" (.arr []) with
    | .arr xs => .ok (xs.map (toStr H.isprintable))
    | .str s => .ok ((chars s).map fun c => String.ofList [c])
    | .obj ps => .ok (ps.map Prod.fst)
    | _ => .error "object is not iterable"
  | _ => .error "object has no attribute 'get'"

/-- `revoked_set`. -/
def revokedSet (files : Dict String Json) : Except String (List String) :=
  match files.get revokedFile with
  | none => .ok []
  | some data => listedIds H data

/-- The list of revoked ids, as `revoke` writes it. -/
def revokedList (ids : List String) : Json :=
  .obj [("revoked", .arr ((sortedSet ids).map .str))]

/-- The id that `record` takes from a token. -/
def recordId (token : Fields) : String :=
  let tid := Json.getD token "token_id" (.str "")
  if truthy tid then toStr H.isprintable tid else ""

def validId (tid : String) : Bool := tid != "" && idChars H tid

/-! ## Workers -/

/-- A `revoke` on its way. -/
inductive Revoking where
  /-- the list has been read -/
  | read (tid : String) (current : List String)
  /-- the temporary file has been written -/
  | written (tid : String)
  deriving DecidableEq

/-- The directory, the tokens whose temporary file `record` has written, the
    revocations on their way, and the ids whose `revoke` has returned. -/
structure Store where
  files : Dict String Json := []
  recording : List String := []
  revoking : List Revoking := []
  returned : List String := []

/-- What may happen next; a number is the place of a call on its way. -/
inductive Act where
  | record (token : Fields)
  | recordOn (i : ℕ)
  | recordDies (i : ℕ)
  | revoke (tid : String)
  | revokeOn (i : ℕ)
  | revokeDies (i : ℕ)

namespace Store

/-- `record` replaces its file; without a temporary file it raises. -/
def recordOn (s : Store) (i : ℕ) (tid : String) : Store :=
  { s with
    files := (replaceFile s.files (tmpFile (recordFile tid)) (recordFile tid)).getD s.files
    recording := s.recording.eraseIdx i }

/-- The next step of a `revoke`. -/
def revokeOn (s : Store) (i : ℕ) : Revoking → Store
  | .read tid current =>
    { s with
      files := s.files.set (tmpFile revokedFile) (revokedList (tid :: current))
      revoking := s.revoking.set i (.written tid) }
  | .written tid =>
    match replaceFile s.files (tmpFile revokedFile) revokedFile with
    | some files =>
      { s with files := files, revoking := s.revoking.eraseIdx i, returned := tid :: s.returned }
    | none => { s with revoking := s.revoking.eraseIdx i }

/-- One step of the workers; a call that raises is over. -/
def step (s : Store) : Act → Option Store
  | .record token =>
    let tid := recordId H token
    if validId H tid then
      some { s with
        files := s.files.set (tmpFile (recordFile tid)) (.obj token)
        recording := s.recording ++ [tid] }
    else some s
  | .recordOn i => (s.recording[i]?).map (s.recordOn i)
  | .recordDies i => some { s with recording := s.recording.eraseIdx i }
  | .revoke tid =>
    if validId H tid then
      match revokedSet H s.files with
      | .error _ => some s
      | .ok current =>
        if tid ∈ current then some { s with returned := tid :: s.returned }
        else some { s with revoking := s.revoking ++ [.read tid current] }
    else some s
  | .revokeOn i => (s.revoking[i]?).map (s.revokeOn i)
  | .revokeDies i => some { s with revoking := s.revoking.eraseIdx i }

/-- No token is called `revoked`, and a revocation that has to write does not start
    while another one is on its way. -/
def Apart (s : Store) : Act → Prop
  | .record token => recordId H token ≠ "revoked"
  | .revoke tid => s.revoking ≠ [] → ∃ current, revokedSet H s.files = .ok current ∧ tid ∈ current
  | _ => True

end Store

/-! ## Frames -/

variable {H}

theorem listedIds_revokedList (ids : List String) :
    listedIds H (revokedList ids) = .ok (sortedSet ids) := by
  simp [listedIds, revokedList, Json.getD, Json.lookup_cons, toStr, Function.comp_def]

theorem mem_sortedSet {t : String} {ids : List String} : t ∈ sortedSet ids ↔ t ∈ ids := by
  rw [sortedSet, List.mem_insertionSort, List.mem_dedup]

theorem append_right_injective {a b c : String} (h : a ++ c = b ++ c) : a = b := by
  have := congrArg String.toList h
  rw [String.toList_append, String.toList_append] at this
  exact String.toList_inj.1 (List.append_cancel_right this)

theorem recordFile_ne {tid : String} (h : tid ≠ "revoked") : recordFile tid ≠ revokedFile :=
  fun he => h (append_right_injective (c := ".json") he)

theorem tmpFile_recordFile_ne {tid : String} (h : tid ≠ "revoked") :
    tmpFile (recordFile tid) ≠ tmpFile revokedFile :=
  fun he => recordFile_ne h (append_right_injective he)

theorem tmpFile_ne_recordFile (name tid : String) : tmpFile name ≠ recordFile tid := by
  intro he
  have := congrArg (fun s => s.toList.getLast?) he
  simp [tmpFile, recordFile, String.toList_append, List.getLast?_append] at this

/-- The revocation list and the temporary file that replaces it. -/
def lists (files : Dict String Json) : Option Json × Option Json :=
  (files.get revokedFile, files.get (tmpFile revokedFile))

theorem lists_set {files : Dict String Json} {name : String} {v : Json} (h₁ : name ≠ revokedFile)
    (h₂ : name ≠ tmpFile revokedFile) : lists (files.set name v) = lists files := by
  rw [lists, Dict.get_set, Dict.get_set, if_neg h₁.symm, if_neg h₂.symm, lists]

theorem lists_pop {files : Dict String Json} {name : String} (h₁ : name ≠ revokedFile)
    (h₂ : name ≠ tmpFile revokedFile) : lists (files.pop name) = lists files := by
  rw [lists, Dict.get_pop, Dict.get_pop, if_neg h₁.symm, if_neg h₂.symm, lists]

/-- Another token's record leaves the list alone. -/
theorem lists_recordOn {s : Store} {i : ℕ} {tid : String} (h : tid ≠ "revoked") :
    lists (s.recordOn i tid).files = lists s.files := by
  have htmp : tmpFile (recordFile tid) ≠ revokedFile := tmpFile_ne_recordFile _ "revoked"
  have hrec : recordFile tid ≠ tmpFile revokedFile := (tmpFile_ne_recordFile _ _).symm
  show lists ((replaceFile s.files _ _).getD s.files) = _
  rw [replaceFile]
  cases s.files.get (tmpFile (recordFile tid)) with
  | none => rfl
  | some v =>
    exact (lists_set (recordFile_ne h) hrec).trans (lists_pop htmp (tmpFile_recordFile_ne h))

theorem revokedSet_congr {files files' : Dict String Json} (h : lists files' = lists files) :
    revokedSet H files' = revokedSet H files := by
  have h₁ : files'.get revokedFile = files.get revokedFile := congrArg Prod.fst h
  rw [revokedSet, revokedSet, h₁]

/-! ## Runs -/

/-- What a revocation on its way has seen is still true. -/
def Revoking.Holds (H : Host) (files : Dict String Json) : Revoking → Prop
  | .read _ current => revokedSet H files = .ok current
  | .written tid => ∃ current, revokedSet H files = .ok current ∧
      files.get (tmpFile revokedFile) = some (revokedList (tid :: current))

theorem Revoking.Holds.congr {files files' : Dict String Json} (h : lists files' = lists files)
    {r : Revoking} (hr : r.Holds H files) : r.Holds H files' := by
  have h₂ : files'.get (tmpFile revokedFile) = files.get (tmpFile revokedFile) :=
    congrArg Prod.snd h
  cases r with
  | read tid current => exact (revokedSet_congr h).trans hr
  | written tid =>
    obtain ⟨current, hc, ht⟩ := hr
    exact ⟨current, (revokedSet_congr h).trans hc, h₂.trans ht⟩

namespace Store

/-- The list holds what was revoked; no record is on its way to its file, and at most
    one revocation, which knows the list. -/
structure Inv (H : Host) (s : Store) : Prop where
  listed : ∃ ids, revokedSet H s.files = .ok ids ∧ ∀ t ∈ s.returned, t ∈ ids
  recording : ∀ tid ∈ s.recording, tid ≠ "revoked"
  revoking : s.revoking = [] ∨ ∃ r, s.revoking = [r] ∧ r.Holds H s.files

theorem Inv.frame {s s' : Store} (h : s.Inv H) (hl : lists s'.files = lists s.files)
    (hr : s'.returned = s.returned) (hv : s'.revoking = s.revoking)
    (hrec : ∀ tid ∈ s'.recording, tid ≠ "revoked") : s'.Inv H := by
  refine ⟨?_, hrec, ?_⟩
  · rw [revokedSet_congr hl, hr]
    exact h.listed
  · rw [hv]
    rcases h.revoking with he | ⟨r, he, hr⟩
    · exact .inl he
    · exact .inr ⟨r, he, hr.congr hl⟩

/-- A revocation on its way is the only one. -/
theorem Inv.only {s : Store} (h : s.Inv H) {i : ℕ} {r : Revoking} (hi : s.revoking[i]? = some r) :
    i = 0 ∧ s.revoking = [r] ∧ r.Holds H s.files := by
  rcases h.revoking with he | ⟨r', he, hr⟩
  · rw [he] at hi; cases hi
  · rw [he, List.getElem?_singleton] at hi
    split_ifs at hi with h0
    obtain rfl := Option.some.inj hi
    exact ⟨h0, he, hr⟩

theorem inv_revokeOn {s : Store} (h : s.Inv H) {i : ℕ} {r : Revoking}
    (hi : s.revoking[i]? = some r) : (s.revokeOn i r).Inv H := by
  obtain ⟨rfl, hv, hr⟩ := h.only hi
  cases r with
  | read tid current =>
    have hset : revokedSet H (s.files.set (tmpFile revokedFile) (revokedList (tid :: current))) =
        revokedSet H s.files := by
      rw [revokedSet, revokedSet, Dict.get_set,
        if_neg (show revokedFile ≠ tmpFile revokedFile from (tmpFile_ne_recordFile _ "revoked").symm)]
    refine ⟨?_, h.recording, .inr ⟨.written tid, ?_, current, ?_, ?_⟩⟩
    · show ∃ ids, revokedSet H (s.files.set _ _) = _ ∧ _
      rw [hset]
      exact h.listed
    · show s.revoking.set 0 _ = _
      rw [hv]; rfl
    · exact hset.trans hr
    · show (s.files.set _ _).get _ = _
      rw [Dict.get_set, if_pos rfl]
  | written tid =>
    obtain ⟨current, hc, ht⟩ := hr
    have hrep : replaceFile s.files (tmpFile revokedFile) revokedFile =
        some ((s.files.pop (tmpFile revokedFile)).set revokedFile
          (revokedList (tid :: current))) := by
      rw [replaceFile, ht]; rfl
    simp only [revokeOn, hrep]
    refine ⟨⟨sortedSet (tid :: current), ?_, ?_⟩, h.recording, .inl (by simp [hv])⟩
    · rw [revokedSet, Dict.get_set, if_pos rfl]
      exact listedIds_revokedList _
    · intro t hts
      obtain ⟨ids, hids, hall⟩ := h.listed
      obtain rfl := Except.ok.inj (hc.symm.trans hids)
      rw [mem_sortedSet]
      rcases List.mem_cons.1 hts with rfl | hts
      · exact List.mem_cons_self
      · exact List.mem_cons_of_mem _ (hall t hts)

/-- A step apart from the others keeps the invariant. -/
theorem inv_step {s s' : Store} {a : Act} (h : s.Inv H) (ha : s.Apart H a)
    (hs : s.step H a = some s') : s'.Inv H := by
  cases a with
  | record token =>
    simp only [step] at hs
    split_ifs at hs
    · cases hs
      refine h.frame (lists_set (tmpFile_ne_recordFile _ "revoked") (tmpFile_recordFile_ne ha))
        rfl rfl fun tid ht => ?_
      rcases List.mem_append.1 ht with ht | ht
      · exact h.recording tid ht
      · exact List.mem_singleton.1 ht ▸ ha
    · cases hs
      exact h
  | recordOn i =>
    obtain ⟨tid, hi, rfl⟩ := Option.map_eq_some_iff.1 hs
    exact h.frame (lists_recordOn (h.recording tid (List.mem_of_getElem? hi))) rfl rfl
      fun t ht => h.recording t (List.mem_of_mem_eraseIdx ht)
  | recordDies i =>
    cases hs
    exact h.frame rfl rfl rfl fun t ht => h.recording t (List.mem_of_mem_eraseIdx ht)
  | revoke tid =>
    obtain ⟨ids, hids, hall⟩ := h.listed
    simp only [step, hids] at hs
    split_ifs at hs with hv hmem
    · cases hs
      refine ⟨⟨ids, hids, fun t ht => ?_⟩, h.recording, h.revoking⟩
      rcases List.mem_cons.1 ht with rfl | ht
      · exact hmem
      · exact hall t ht
    · cases hs
      have hnone : s.revoking = [] := by
        by_contra hne
        obtain ⟨ids', hids', hmem'⟩ := ha hne
        exact hmem (Except.ok.inj (hids.symm.trans hids') ▸ hmem')
      refine ⟨⟨ids, hids, hall⟩, h.recording, .inr ⟨.read tid ids, ?_, hids⟩⟩
      simp [hnone]
    · cases hs
      exact h
  | revokeOn i =>
    obtain ⟨r, hi, rfl⟩ := Option.map_eq_some_iff.1 hs
    exact inv_revokeOn h hi
  | revokeDies i =>
    cases hs
    refine ⟨h.listed, h.recording, ?_⟩
    rcases h.revoking with he | ⟨r, he, hr⟩
    · exact .inl (by simp [he])
    · cases i with
      | zero => exact .inl (by simp [he])
      | succ i => exact .inr ⟨r, by simp [he], hr⟩

/-- What has returned stays so. -/
theorem returned_step {s s' : Store} {a : Act} (hs : s.step H a = some s') {t : String}
    (ht : t ∈ s.returned) : t ∈ s'.returned := by
  cases a with
  | record token =>
    simp only [step] at hs
    split_ifs at hs <;> cases hs <;> exact ht
  | recordOn i =>
    obtain ⟨tid, -, rfl⟩ := Option.map_eq_some_iff.1 hs
    exact ht
  | recordDies i => cases hs; exact ht
  | revoke tid =>
    simp only [step] at hs
    split at hs
    · split at hs
      · cases hs; exact ht
      · split_ifs at hs
        · cases hs; exact List.mem_cons_of_mem _ ht
        · cases hs; exact ht
    · cases hs; exact ht
  | revokeOn i =>
    obtain ⟨r, -, rfl⟩ := Option.map_eq_some_iff.1 hs
    cases r with
    | read tid current => exact ht
    | written tid =>
      simp only [revokeOn]
      split
      · exact List.mem_cons_of_mem _ ht
      · exact ht
  | revokeDies i => cases hs; exact ht

end Store

/-- **Once `revoke` has returned, the id is listed in every later state**, and no
    token with the id passes, in every run whose records and revocations stay
    apart. -/
theorem revoked_stays_revoked {s s' : Store} {t : String}
    (h : Runs.Reach (Store.step H) (Store.Apart H) {} s)
    (hl : Runs.Reach (Store.step H) (Store.Apart H) s s') (ht : t ∈ s.returned) :
    ∃ ids, revokedSet H s'.files = .ok ids ∧ t ∈ ids ∧
      ∀ intText token now required taskId dao, Json.get token "token_id" = .str t →
        verifyCapToken H intText token now ids required taskId dao ≠ .ok () := by
  have hstart : Store.Inv H {} := ⟨⟨[], rfl, by simp⟩, by simp, .inl rfl⟩
  have hinv : s.Inv H := h.invariant (P := Store.Inv H) hstart fun _ _ _ hi hc hs =>
    Store.inv_step hi hc hs
  have hinv' : s'.Inv H ∧ t ∈ s'.returned :=
    hl.invariant (P := fun x => x.Inv H ∧ t ∈ x.returned) ⟨hinv, ht⟩ fun _ _ _ hi hc hs =>
      ⟨Store.inv_step hi.1 hc hs, Store.returned_step hs hi.2⟩
  obtain ⟨ids, hids, hall⟩ := hinv'.1.listed
  refine ⟨ids, hids, hall t hinv'.2, ?_⟩
  intro intText token now required taskId dao hid
  exact verifyCapToken_revoked hid (hall t hinv'.2) now required taskId dao

/-! ## Samples -/

/-- A revocation that nothing disturbs. -/
theorem revoked_stays_revoked_alone : ∃ s : Store,
    Runs.Reach (Store.step checksumHost) (Store.Apart checksumHost) {} s ∧ "a" ∈ s.returned ∧
      ∃ ids, revokedSet checksumHost s.files = .ok ids ∧ "a" ∈ ids := by
  obtain ⟨s, hs, ht⟩ : ∃ s, Runs.run (Store.step checksumHost) {}
      [.revoke "a", .revokeOn 0, .revokeOn 0] = some s ∧ s.returned = ["a"] :=
    ⟨_, rfl, by decide⟩
  simp only [Runs.run, Option.bind_eq_some_iff] at hs
  obtain ⟨s₁, h₁, s₂, h₂, s₃, h₃, h₄⟩ := hs
  cases h₄
  have hstart : Runs.Reach (Store.step checksumHost) (Store.Apart checksumHost) {} {} := .start
  have hapart : Store.Apart checksumHost {} (.revoke "a") := fun h => absurd rfl h
  have hon : ∀ s, Store.Apart checksumHost s (.revokeOn 0) := fun _ => trivial
  have hreach := ((hstart.step hapart h₁).step (hon s₁) h₂).step (hon s₂) h₃
  have hret : "a" ∈ s.returned := ht ▸ List.mem_singleton_self _
  obtain ⟨ids, hids, hmem, -⟩ := revoked_stays_revoked hreach .start hret
  exact ⟨s, hreach, hret, ids, hids, hmem⟩

/-- A token that its issuer calls `revoked`. -/
theorem exists_token_called_revoked : ∃ token,
    signCapToken checksumHost (1 : UInt8) (asDid checksumHost (2 : UInt8)) ["x"] "" "" none 1000
      "revoked" "0" 1 "n" = .ok token ∧ Json.lookup token "token_id" = some (.str "revoked") ∧
      Json.lookup token "revoked" = none := by
  have henc : ∀ p ∈ body checksumHost (1 : UInt8) "revoked" (asDid checksumHost (2 : UInt8)) ["x"]
      "" "" none 1 1000 "n", p.2.encodable = true := by
    intro p hp
    simp only [body, List.append_nil, List.mem_cons, List.not_mem_nil, or_false] at hp
    rcases hp with rfl | rfl | rfl | rfl | rfl | rfl | rfl | rfl | rfl | rfl | rfl <;> rfl
  obtain ⟨m, hm⟩ := canonicalJson_isSome.2 henc
  have hcaps : sortedSet ["x"] = ["x"] := by decide
  have hid : idChars checksumHost "revoked" = true := by decide
  refine ⟨body checksumHost (1 : UInt8) "revoked" (asDid checksumHost (2 : UInt8)) ["x"] "" ""
    none 1 1000 "n" ++ [("sig", .str (signText checksumHost (1 : UInt8) m))], ?_, rfl, rfl⟩
  simp only [signCapToken, bind_eq_ok, require_eq_ok, expect_eq_ok, pure_eq_ok, hcaps]
  exact ⟨(), rfl, (), by decide, (), by decide, (), by decide, (), isDidKey_asDid _ _, (), hid,
    none, rfl, m, hm, rfl⟩

/-- Two ways to lose a revocation: a token called `revoked` is recorded over the
    list, and a revocation writes the list that it read before another returned. -/
theorem revocations_lost :
    (∃ token s, signCapToken checksumHost (1 : UInt8) (asDid checksumHost (2 : UInt8)) ["x"] "" ""
        none 1000 "revoked" "0" 1 "n" = .ok token ∧
      Runs.run (Store.step checksumHost) {} [.revoke "a", .revokeOn 0, .revokeOn 0, .record token,
        .recordOn 0] = some s ∧
      "a" ∈ s.returned ∧ revokedSet checksumHost s.files = .ok []) ∧
    ∃ s, Runs.run (Store.step checksumHost) {} [.revoke "a", .revoke "b", .revokeOn 0, .revokeOn 0,
        .revokeOn 0, .revokeOn 0] = some s ∧
      "a" ∈ s.returned ∧ revokedSet checksumHost s.files = .ok ["b"] := by
  constructor
  · obtain ⟨token, htoken, hid, hnone⟩ := exists_token_called_revoked
    have hrec : recordId checksumHost token = "revoked" := by
      simp [recordId, Json.getD, hid, truthy]
    have hvalid : validId checksumHost "revoked" = true := by decide
    refine ⟨token, ⟨[(revokedFile, .obj token)], [], [], ["a"]⟩, htoken, ?_,
      List.mem_singleton_self _, ?_⟩
    · change ((Store.step checksumHost ⟨[(revokedFile, revokedList ["a"])], [], [], ["a"]⟩
        (.record token)).bind fun s => Runs.run (Store.step checksumHost) s [.recordOn 0]) = _
      rw [Store.step, hrec]
      simp only [hvalid, if_true, Option.bind_some]
      rfl
    · simp [revokedSet, Dict.get, listedIds, Json.getD, hnone]
  · refine ⟨_, rfl, ?_, ?_⟩
    · decide
    · rfl

end CapToken

end NthDao
