/-
  What `json.loads` returns is a value of the interpreter: the keys of every
  object are distinct.
-/
import NthDao.Py.Loads

namespace Py

namespace Json

theorem keys_insert (kvs : Fields) (k : String) (v : Json) : (insert kvs k v).map Prod.fst =
    if k ∈ kvs.map Prod.fst then kvs.map Prod.fst else kvs.map Prod.fst ++ [k] := by
  induction kvs with
  | nil => rfl
  | cons p kvs ih =>
    rw [insert]
    by_cases h : p.1 = k
    · simp [h]
    · rw [if_neg (by simpa using h), List.map_cons, ih]
      by_cases hk : k ∈ kvs.map Prod.fst
      · rw [if_pos hk, if_pos (by simp [hk])]
        rfl
      · have hne : k ∉ (p :: kvs).map Prod.fst := by
          rw [List.map_cons, List.mem_cons, not_or]
          exact ⟨Ne.symm h, hk⟩
        rw [if_neg hk, if_neg hne]
        rfl

theorem mem_insert {kvs : Fields} {k : String} {v : Json} {p : String × Json}
    (h : p ∈ insert kvs k v) : p = (k, v) ∨ p ∈ kvs := by
  induction kvs with
  | nil => exact .inl (List.mem_singleton.1 h)
  | cons q kvs ih =>
    rw [insert] at h
    split_ifs at h
    · rcases List.mem_cons.1 h with h | h
      · exact .inl h
      · exact .inr (List.mem_cons_of_mem _ h)
    · rcases List.mem_cons.1 h with rfl | h
      · exact .inr List.mem_cons_self
      · exact (ih h).imp_right (List.mem_cons_of_mem _)

theorem nodup_insert {kvs : Fields} (h : (kvs.map Prod.fst).Nodup) (k : String) (v : Json) :
    ((insert kvs k v).map Prod.fst).Nodup := by
  rw [keys_insert]
  split_ifs with hk
  · exact h
  · rw [List.nodup_append]
    refine ⟨h, List.nodup_singleton k, ?_⟩
    rintro a ha b hb rfl
    exact hk (List.mem_singleton.1 hb ▸ ha)

theorem wf_insert {kvs : Fields} (h : (Json.obj kvs).wf = true) (k : String) {v : Json}
    (hv : v.wf = true) : (Json.obj (insert kvs k v)).wf = true := by
  rw [wf_obj] at h ⊢
  refine ⟨nodup_insert h.1 k v, fun p hp => ?_⟩
  rcases mem_insert hp with rfl | hp
  · exact hv
  · exact h.2 p hp

/-- What is filtered out by its key may have been inserted. -/
theorem filter_insert (kvs : Fields) (k : String) (v : Json) :
    (insert kvs k v).filter (fun p => p.1 != k) = kvs.filter fun p => p.1 != k := by
  induction kvs with
  | nil => simp [insert]
  | cons p kvs ih =>
    rw [insert]
    by_cases hp : p.1 = k
    · simp [hp]
    · rw [if_neg (by simpa using hp), List.filter_cons, List.filter_cons, ih]

/-- The last value counts. -/
theorem insert_insert (kvs : Fields) (k : String) (v w : Json) :
    insert (insert kvs k v) k w = insert kvs k w := by
  induction kvs with
  | nil => simp [insert]
  | cons p kvs ih =>
    rw [insert, insert]
    by_cases hp : p.1 = k
    · simp [hp, insert]
    · rw [if_neg (by simpa using hp), if_neg (by simpa using hp), insert,
        if_neg (by simpa using hp), ih]

/-- To insert the value that is there changes nothing. -/
theorem insert_self {kvs : Fields} {k : String} {v : Json} (h : lookup kvs k = some v) :
    insert kvs k v = kvs := by
  induction kvs with
  | nil => cases h
  | cons p kvs ih =>
    obtain ⟨l, w⟩ := p
    rw [lookup_cons] at h
    by_cases hl : l = k
    · rw [if_pos hl] at h
      cases h
      simp [insert, hl]
    · rw [if_neg hl] at h
      rw [insert, if_neg (by simpa using hl), ih h]

/-- A filter that keeps the key keeps the insertion. -/
theorem filter_insert_of_pos {kvs : Fields} {k : String} {v : Json} {keep : String × Json → Bool}
    (hold : ∀ w, (k, w) ∈ kvs → keep (k, w) = true) (hnew : keep (k, v) = true) :
    (insert kvs k v).filter keep = insert (kvs.filter keep) k v := by
  induction kvs with
  | nil => simp [insert, hnew]
  | cons p kvs ih =>
    obtain ⟨l, w⟩ := p
    have ih := ih fun w hw => hold w (List.mem_cons_of_mem _ hw)
    rw [insert]
    by_cases hl : l = k
    · subst hl
      rw [if_pos (by simp), List.filter_cons, if_pos hnew, List.filter_cons,
        if_pos (hold w List.mem_cons_self), insert, if_pos (by simp)]
    · rw [if_neg (by simpa using hl), List.filter_cons, List.filter_cons, ih]
      split_ifs with hkeep
      · rw [insert, if_neg (by simpa using hl)]
      · rfl

end Json

theorem wf_dictOf {kvs : Fields} (h : ∀ p ∈ kvs, p.2.wf = true) :
    (Json.obj (dictOf kvs)).wf = true := by
  have hfold : ∀ d : Fields, (Json.obj d).wf = true →
      (Json.obj (kvs.foldl (fun d p => Json.insert d p.1 p.2) d)).wf = true := by
    induction kvs with
    | nil => exact fun d hd => hd
    | cons p kvs ih =>
      rw [List.forall_mem_cons] at h
      exact fun d hd => ih h.2 _ (Json.wf_insert hd p.1 h.1)
  exact hfold [] rfl

theorem wf_strVal (us : List ℕ) : (strVal us).wf = true := by
  unfold strVal
  split <;> rfl

theorem wf_objVal {kvs : List (Option String × Json)} (h : ∀ p ∈ kvs, p.2.wf = true) :
    (objVal kvs).wf = true := by
  have hmap : ∀ (kvs : List (Option String × Json)) (items : Fields),
      kvs.mapM (fun p => p.1.map (·, p.2)) = some items → (∀ p ∈ kvs, p.2.wf = true) →
      ∀ p ∈ items, p.2.wf = true := by
    intro kvs
    induction kvs with
    | nil =>
      intro items hi _
      cases hi
      simp
    | cons q kvs ih =>
      intro items hi hq
      simp only [List.mapM_cons, Option.bind_eq_bind, Option.bind_eq_some_iff, Option.pure_def,
        Option.some.injEq, Option.map_eq_some_iff] at hi
      obtain ⟨a, ⟨k, -, rfl⟩, as, has, rfl⟩ := hi
      rw [List.forall_mem_cons] at hq ⊢
      exact ⟨hq.1, ih as has hq.2⟩
  unfold objVal
  split
  · rename_i items hm
    exact wf_dictOf (hmap kvs items hm h)
  · rfl

theorem wf_scanNumber {neg : Bool} {cs r : List Char} {v : Json}
    (h : scanNumber neg cs = some (v, r)) : v.wf = true := by
  simp only [scanNumber, Option.bind_eq_bind, Option.bind_eq_some_iff] at h
  obtain ⟨⟨ds, r'⟩, -, h⟩ := h
  split at h
  · split_ifs at h <;> cases h <;> rfl
  · cases h
    rfl

/-- A hook that returns values of the interpreter. -/
def HookWf (hook : List (Option String × Json) → Option Json) : Prop :=
  ∀ kvs v, (∀ p ∈ kvs, p.2.wf = true) → hook kvs = some v → v.wf = true

variable {hook : List (Option String × Json) → Option Json}

variable (hook) in
/-- The values that a parser with the fuel `n` returns. -/
structure ParsesWf (n : ℕ) : Prop where
  value : ∀ cs v r, parseValueWith hook n cs = some (v, r) → v.wf = true
  elems : ∀ cs xs r, parseElemsWith hook n cs = some (xs, r) → ∀ x ∈ xs, x.wf = true
  members : ∀ cs kvs r, parseMembersWith hook n cs = some (kvs, r) → ∀ p ∈ kvs, p.2.wf = true

theorem parsesWf (hh : HookWf hook) (n : ℕ) : ParsesWf hook n := by
  induction n with
  | zero =>
    refine ⟨fun cs v r h => ?_, fun cs xs r h => ?_, fun cs kvs r h => ?_⟩
    · rw [parseValueWith] at h; cases h
    · rw [parseElemsWith] at h; cases h
    · rw [parseMembersWith] at h; cases h
  | succ n ih =>
    refine ⟨fun cs v r h => ?_, fun cs xs r h => ?_, fun cs kvs r h => ?_⟩
    · rw [parseValueWith.eq_def] at h
      dsimp only at h
      split at h
      · obtain ⟨p, -, hp⟩ := Option.map_eq_some_iff.1 h
        cases hp
        exact wf_strVal _
      · split at h
        · obtain ⟨w, hw, he⟩ := Option.map_eq_some_iff.1 h
          cases he
          exact hh [] _ (by simp) hw
        · obtain ⟨⟨kvs, r'⟩, hp, h⟩ := Option.bind_eq_some_iff.1 h
          obtain ⟨w, hw, he⟩ := Option.map_eq_some_iff.1 h
          cases he
          exact hh kvs _ (ih.members _ _ _ hp) hw
      · split at h
        · cases h; rfl
        · obtain ⟨⟨xs, r'⟩, hp, he⟩ := Option.map_eq_some_iff.1 h
          cases he
          exact Json.wf_arr.2 (ih.elems _ _ _ hp)
      all_goals first
        | (cases h; rfl)
        | exact wf_scanNumber h
    · rw [parseElemsWith.eq_def] at h
      dsimp only at h
      split at h
      · cases h
      · rename_i x r' hx
        have hwf := ih.value _ _ _ hx
        split at h
        · cases h
          simpa using hwf
        · obtain ⟨⟨ys, r₁⟩, hp, he⟩ := Option.map_eq_some_iff.1 h
          cases he
          rw [List.forall_mem_cons]
          exact ⟨hwf, ih.elems _ _ _ hp⟩
        · cases h
    · rw [parseMembersWith.eq_def] at h
      dsimp only at h
      split at h
      · split at h
        · cases h
        · split at h
          · split at h
            · cases h
            · rename_i x r' hx
              have hwf := ih.value _ _ _ hx
              split at h
              · cases h
                simpa using hwf
              · obtain ⟨⟨ys, r₁⟩, hp, he⟩ := Option.map_eq_some_iff.1 h
                cases he
                rw [List.forall_mem_cons]
                exact ⟨hwf, ih.members _ _ _ hp⟩
              · cases h
          · cases h
      · cases h

/-- **What `json.loads` returns has distinct keys**, whatever the hook builds. -/
theorem wf_loadsWith (hh : HookWf hook) {cs : List Char} {v : Json}
    (h : loadsWith hook cs = some v) : v.wf = true := by
  unfold loadsWith at h
  split at h
  · rename_i w r hp
    split_ifs at h
    cases h
    exact (parsesWf hh _).value _ _ _ hp
  · cases h

theorem wf_loads {cs : List Char} {v : Json} (h : loads cs = some v) : v.wf = true := by
  rw [← loadsWith_objVal] at h
  refine wf_loadsWith (fun kvs w hk hw => ?_) h
  cases hw
  exact wf_objVal hk

end Py
