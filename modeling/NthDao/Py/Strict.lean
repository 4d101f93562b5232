/-
  Strict JSON: `json.loads` with hooks that refuse repeated keys, floats and
  constants.

  * `strictLoads` reads back what a canonical encoder writes (`strictLoads_dumps`);
  * `parseWith_append`: a value is read alike whatever opens after it;
  * `strictLoads_append`: two values in a row are not one, so an object behind a
    whole text spoils it (`strictLoads_append_obj`).
-/
import NthDao.Py.Float
import NthDao.Py.Parsed

namespace Py

/-- An `object_pairs_hook` that raises on a repeated key. -/
def distinctPairs (kvs : List (Option String × Json)) : Option Json :=
  if (kvs.map Prod.fst).Nodup then some (objVal kvs) else none

/-- `json.loads` that raises on repeated keys, on floats and on constants.  A text with a lone
    surrogate, which no canonical encoder takes, is refused as well. -/
def strictLoads (cs : List Char) : Option Json :=
  (loadsWith distinctPairs cs).bind fun v => if v.encodable then some v else none

theorem keeps_distinctPairs : Keeps distinctPairs := by
  intro kvs h
  have hn : ((kvs.map fun p : String × Json => (some p.1, p.2)).map Prod.fst).Nodup := by
    have : (kvs.map fun p : String × Json => (some p.1, p.2)).map Prod.fst =
        (kvs.map Prod.fst).map some := by simp
    rw [this]
    exact h.map (Option.some_injective _)
  rw [distinctPairs, if_pos hn, objVal_eq h]

/-- The text of a value reads back, also before trailing whitespace. -/
theorem strictLoads_dumps_append (ascii : Bool) {v : Json} (hw : v.wf = true)
    (he : v.encodable = true) {t : List Char} (ht : ∀ c ∈ t, isWs c = true) :
    strictLoads (dumps ascii v ++ t) = some v := by
  rw [strictLoads, loadsWith_dumps_append keeps_distinctPairs ascii hw he ht, Option.bind_some,
    if_pos he]

theorem strictLoads_dumps (ascii : Bool) {v : Json} (hw : v.wf = true) (he : v.encodable = true) :
    strictLoads (dumps ascii v) = some v := by
  simpa using strictLoads_dumps_append ascii hw he (t := []) (by simp)

theorem encodable_of_strictLoads {cs : List Char} {v : Json} (h : strictLoads cs = some v) :
    v.encodable = true := by
  obtain ⟨w, -, h⟩ := Option.bind_eq_some_iff.1 h
  by_cases he : w.encodable = true
  · rw [if_pos he] at h
    cases h
    exact he
  · rw [if_neg he] at h
    cases h

theorem wf_strictLoads {cs : List Char} {v : Json} (h : strictLoads cs = some v) :
    v.wf = true := by
  obtain ⟨w, hw, h⟩ := Option.bind_eq_some_iff.1 h
  by_cases he : w.encodable = true
  · rw [if_pos he] at h
    cases h
    refine wf_loadsWith (fun kvs u hk hu => ?_) hw
    rw [distinctPairs] at hu
    split_ifs at hu
    cases hu
    exact wf_objVal hk
  · rw [if_neg he] at h
    cases h

/-! ## What follows a value -/

/-- A text that does not go on a number. -/
def Apart (q : List Char) : Prop := Stop q ∧ ∀ c ∈ q.head?, c ≠ '+' ∧ c ≠ '-'

theorem apart_cons {c : Char} (h : c.isDigit = false ∧ c ≠ '.' ∧ c ≠ 'e' ∧ c ≠ 'E' ∧ c ≠ '+' ∧ c ≠ '-')
    (q : List Char) : Apart (c :: q) := by
  obtain ⟨h₁, h₂, h₃, h₄, h₅⟩ := h
  refine ⟨stop_cons ⟨h₁, h₂, h₃, h₄⟩ q, fun d hd => ?_⟩
  cases hd
  exact h₅

variable {q : List Char}

theorem spanDigits_append_apart (hq : Apart q) (cs : List Char) :
    spanDigits (cs ++ q) = ((spanDigits cs).1, (spanDigits cs).2 ++ q) :=
  spanDigits_append_stop cs hq.1

theorem scanSign_append_apart (hq : Apart q) (cs : List Char) :
    scanSign (cs ++ q) = ((scanSign cs).1, (scanSign cs).2 ++ q) := by
  cases cs with
  | nil =>
    cases q with
    | nil => rfl
    | cons c q =>
      obtain ⟨h₁, h₂⟩ := hq.2 c rfl
      rw [List.nil_append]
      unfold scanSign
      split
      · rename_i heq; cases heq; exact absurd rfl h₂
      · rename_i heq; cases heq; exact absurd rfl h₁
      · rfl
  | cons c cs => exact scanSign_append (List.cons_ne_nil c cs) q

theorem scanExp_append (hq : Apart q) {frac cs f r : List Char} (h : scanExp frac cs = (f, r)) :
    scanExp frac (cs ++ q) = (f, r ++ q) := by
  cases cs with
  | nil =>
    cases h
    exact scanExp_append_stop (show scanExp frac [] = (frac, []) from rfl) hq.1
  | cons e cs =>
    rw [scanExp] at h
    rw [List.cons_append, scanExp]
    split_ifs at h ⊢ with he
    · rw [scanSign_append_apart hq, spanDigits_append_apart hq]
      cases hs : spanDigits (scanSign cs).2 with
      | mk ds t =>
        rw [hs] at h
        cases ds with
        | nil => cases h; rfl
        | cons d ds => cases h; rfl
    · cases h
      rfl

theorem scanFrac_append (hq : Apart q) {cs f r : List Char} (h : scanFrac cs = (f, r)) :
    scanFrac (cs ++ q) = (f, r ++ q) := by
  cases cs with
  | nil => cases h; exact scanFrac_stop hq.1
  | cons c cs =>
    by_cases hc : c = '.'
    · subst hc
      rw [scanFrac_dot] at h
      rw [List.cons_append, scanFrac_dot, spanDigits_append_apart hq]
      cases hs : spanDigits cs with
      | mk ds t =>
        rw [hs] at h
        cases ds with
        | nil => exact scanExp_append hq h
        | cons d ds => exact scanExp_append hq h
    · rw [scanFrac_of_ne hc] at h
      rw [List.cons_append, scanFrac_of_ne hc]
      exact scanExp_append hq h

theorem scanNumber_append (hq : Apart q) {neg : Bool} {cs r : List Char} {v : Json}
    (h : scanNumber neg cs = some (v, r)) : scanNumber neg (cs ++ q) = some (v, r ++ q) := by
  simp only [scanNumber, Option.bind_eq_bind, Option.bind_eq_some_iff] at h
  obtain ⟨⟨ds, t⟩, hn, h⟩ := h
  rw [scanNumber, scanNat_append_stop hn hq.1]
  simp only [Option.bind_eq_bind, Option.bind_some]
  dsimp only at h
  cases hf : scanFrac t with
  | mk f t' =>
    rw [hf] at h
    rw [scanFrac_append hq hf]
    cases f with
    | nil =>
      dsimp only at h ⊢
      by_cases hl : ds.length ≤ maxIntDigits
      · rw [if_pos hl] at h ⊢
        cases h
        rfl
      · rw [if_neg hl] at h
        cases h
    | cons c f => cases h; rfl

theorem scanStr_append {cs r : List Char} {us : List ℕ} (h : scanStr cs = some (us, r)) :
    scanStr (cs ++ q) = some (us, r ++ q) := by
  induction cs using scanStr.induct generalizing us with
  | case1 => cases h
  | case2 => cases h; rfl
  | case3 a b c d t n hx ih =>
    rw [scanStr, hx] at h
    obtain ⟨p, hp, he⟩ := Option.map_eq_some_iff.1 h
    cases he
    simp only [List.cons_append]
    rw [scanStr, hx]
    simp only [ih hp, Option.map_some]
  | case4 a b c d t hx =>
    rw [scanStr, hx] at h
    cases h
  | case5 e t hne c hc ih =>
    have hu : e ≠ 'u' := by
      rintro rfl
      cases hc
    rw [scanStr.eq_4 _ _ hne, hc] at h
    obtain ⟨p, hp, he⟩ := Option.map_eq_some_iff.1 h
    cases he
    rw [List.cons_append, List.cons_append, scanStr.eq_4 _ _ fun _ _ _ _ _ he _ => hu he, hc]
    simp only [ih hp, Option.map_some]
  | case6 e t hne hc =>
    rw [scanStr.eq_4 _ _ hne, hc] at h
    cases h
  | case7 c t h₁ h₂ h₃ hlt =>
    rw [scanStr.eq_5 _ _ h₁ h₂ h₃, if_pos hlt] at h
    cases h
  | case8 c t h₁ h₂ h₃ hlt ih =>
    rw [scanStr.eq_5 _ _ h₁ h₂ h₃, if_neg hlt] at h
    obtain ⟨p, hp, he⟩ := Option.map_eq_some_iff.1 h
    cases he
    have hc : c ≠ '\\' := by
      intro hc
      cases t with
      | nil => cases hp
      | cons e t => exact h₃ e t hc rfl
    rw [List.cons_append, scanStr_plain h₁ hc hlt, ih hp, Option.map_some]

theorem skipWs_append {cs : List Char} (h : skipWs cs ≠ []) (q : List Char) :
    skipWs (cs ++ q) = skipWs cs ++ q := by
  induction cs with
  | nil => exact absurd rfl h
  | cons c cs ih =>
    rw [skipWs] at h
    rw [List.cons_append, skipWs, skipWs]
    split_ifs at h ⊢ with hc
    · exact ih h
    · rfl

theorem skipWs_append_cons {cs r : List Char} {c : Char} (h : skipWs cs = c :: r) (q : List Char) :
    skipWs (cs ++ q) = c :: (r ++ q) := by
  rw [skipWs_append (by rw [h]; exact List.cons_ne_nil c r), h, List.cons_append]

theorem skipWs_ws_append {w : List Char} (h : ∀ c ∈ w, isWs c = true) (r : List Char) :
    skipWs (w ++ r) = skipWs r := by
  induction w with
  | nil => rfl
  | cons c w ih =>
    rw [List.forall_mem_cons] at h
    rw [List.cons_append, skipWs, if_pos h.1, ih h.2]

theorem apart_ws_append {w : List Char} (h : ∀ c ∈ w, isWs c = true) (hq : Apart q) :
    Apart (w ++ q) := by
  cases w with
  | nil => exact hq
  | cons c w =>
    refine apart_cons ?_ _
    have hc := h c List.mem_cons_self
    simp only [isWs, Bool.or_eq_true, beq_iff_eq] at hc
    rcases hc with ((rfl | rfl) | rfl) | rfl <;> decide

variable {hook : List (Option String × Json) → Option Json}

variable (hook) in
/-- A value, elements and items are read alike before `q`, with more fuel. -/
structure ReadsOn (q : List Char) (n m : ℕ) : Prop where
  value : ∀ cs v r, parseValueWith hook n cs = some (v, r) →
    parseValueWith hook m (cs ++ q) = some (v, r ++ q)
  elems : ∀ cs xs r, parseElemsWith hook n cs = some (xs, r) →
    parseElemsWith hook m (cs ++ q) = some (xs, r ++ q)
  members : ∀ cs kvs r, parseMembersWith hook n cs = some (kvs, r) →
    parseMembersWith hook m (cs ++ q) = some (kvs, r ++ q)

theorem ReadsOn.value_succ (hq : Apart q) {n m : ℕ} (h : ReadsOn hook q n m) {cs r : List Char}
    {v : Json} (hv : parseValueWith hook (n + 1) cs = some (v, r)) :
    parseValueWith hook (m + 1) (cs ++ q) = some (v, r ++ q) := by
  rw [parseValueWith.eq_def] at hv
  dsimp only at hv
  split at hv
  · obtain ⟨p, hp, he⟩ := Option.map_eq_some_iff.1 hv
    cases he
    rw [List.cons_append, parseValueWith, scanStr_append hp, Option.map_some]
  · rename_i t
    have hne : skipWs t ≠ [] := by
      intro hs
      rw [hs] at hv
      simp only [Option.bind_eq_some_iff] at hv
      obtain ⟨p, hp, -⟩ := hv
      cases n with
      | zero => rw [parseMembersWith] at hp; cases hp
      | succ n => rw [parseMembersWith.eq_def] at hp; cases hp
    rw [List.cons_append, parseValueWith, skipWs_append hne]
    generalize skipWs t = u at hv hne
    split at hv
    · obtain ⟨w, hw, he⟩ := Option.map_eq_some_iff.1 hv
      cases he
      simp only [List.cons_append, hw, Option.map_some]
    · rename_i hn
      obtain ⟨p, hp, hv⟩ := Option.bind_eq_some_iff.1 hv
      obtain ⟨w, hw, he⟩ := Option.map_eq_some_iff.1 hv
      cases he
      have hm := h.members _ _ _ hp
      split
      · rename_i heq
        cases u with
        | nil => exact absurd rfl hne
        | cons c u => cases heq; exact absurd rfl (hn _)
      · rw [hm, Option.bind_some, hw, Option.map_some]
  · rename_i t
    have hne : skipWs t ≠ [] := by
      intro hs
      rw [hs] at hv
      obtain ⟨p, hp, -⟩ := Option.map_eq_some_iff.1 hv
      cases n with
      | zero => rw [parseElemsWith] at hp; cases hp
      | succ n =>
        rw [parseElemsWith] at hp
        cases n <;> (rw [parseValueWith.eq_def] at hp; cases hp)
    rw [List.cons_append, parseValueWith, skipWs_append hne]
    generalize skipWs t = u at hv hne
    split at hv
    · cases hv
      rfl
    · rename_i hn
      obtain ⟨p, hp, he⟩ := Option.map_eq_some_iff.1 hv
      cases he
      have hm := h.elems _ _ _ hp
      split
      · rename_i heq
        cases u with
        | nil => exact absurd rfl hne
        | cons c u => cases heq; exact absurd rfl (hn _)
      · rw [hm, Option.map_some]
  · cases hv; rfl
  · cases hv; rfl
  · cases hv; rfl
  · cases hv; rfl
  · cases hv; rfl
  · cases hv; rfl
  · obtain ⟨c, p, rfl, hc⟩ := digit_of_scanNumber hv
    rw [List.cons_append, List.cons_append, parseValueWith_minus hc, ← List.cons_append]
    exact scanNumber_append hq hv
  · obtain ⟨c, p, rfl, hc⟩ := digit_of_scanNumber hv
    rw [List.cons_append, parseValueWith_digit hc, ← List.cons_append]
    exact scanNumber_append hq hv

theorem ReadsOn.elems_succ {n m : ℕ} (h : ReadsOn hook q n m) {cs r : List Char} {xs : List Json}
    (hv : parseElemsWith hook (n + 1) cs = some (xs, r)) :
    parseElemsWith hook (m + 1) (cs ++ q) = some (xs, r ++ q) := by
  rw [parseElemsWith] at hv ⊢
  split at hv
  · cases hv
  · rename_i x t hx
    rw [h.value _ _ _ hx]
    dsimp only
    split at hv
    · rename_i hs
      cases hv
      rw [skipWs_append_cons hs]
      rfl
    · rename_i u hs
      obtain ⟨p, hp, he⟩ := Option.map_eq_some_iff.1 hv
      cases he
      have hne : skipWs u ≠ [] := by
        intro hu
        rw [hu] at hp
        cases n with
        | zero => rw [parseElemsWith] at hp; cases hp
        | succ n =>
          rw [parseElemsWith] at hp
          cases n <;> (rw [parseValueWith.eq_def] at hp; cases hp)
      rw [skipWs_append_cons hs]
      simp only [skipWs_append hne, h.elems _ _ _ hp, Option.map_some]
    · cases hv

theorem ReadsOn.members_succ {n m : ℕ} (h : ReadsOn hook q n m) {cs r : List Char}
    {kvs : List (Option String × Json)} (hv : parseMembersWith hook (n + 1) cs = some (kvs, r)) :
    parseMembersWith hook (m + 1) (cs ++ q) = some (kvs, r ++ q) := by
  rw [parseMembersWith.eq_def] at hv
  dsimp only at hv
  split at hv
  · rename_i t
    split at hv
    · cases hv
    rename_i us t₁ hs
    split at hv
    · rename_i t₂ hc
      split at hv
      · cases hv
      rename_i x t₃ hx
      have hne : skipWs t₂ ≠ [] := by
        intro hu
        rw [hu] at hx
        cases n <;> (rw [parseValueWith.eq_def] at hx; cases hx)
      rw [List.cons_append, parseMembersWith, scanStr_append hs]
      simp only [skipWs_append_cons hc, skipWs_append hne, h.value _ _ _ hx]
      split at hv
      · rename_i hs
        cases hv
        rw [skipWs_append_cons hs]
        rfl
      · rename_i u hs
        obtain ⟨p, hp, he⟩ := Option.map_eq_some_iff.1 hv
        cases he
        have hne : skipWs u ≠ [] := by
          intro hu
          rw [hu] at hp
          cases n with
          | zero => rw [parseMembersWith] at hp; cases hp
          | succ n => rw [parseMembersWith.eq_def] at hp; cases hp
        rw [skipWs_append_cons hs]
        simp only [skipWs_append hne, h.members _ _ _ hp, Option.map_some]
      · cases hv
    · cases hv
  · cases hv

/-- **A value is read alike whatever opens after it.** -/
theorem parseWith_append (hq : Apart q) {n m : ℕ} (hnm : n ≤ m) : ReadsOn hook q n m := by
  induction n generalizing m with
  | zero =>
    refine ⟨fun cs v r h => ?_, fun cs v r h => ?_, fun cs v r h => ?_⟩
    · rw [parseValueWith] at h; cases h
    · rw [parseElemsWith] at h; cases h
    · rw [parseMembersWith] at h; cases h
  | succ n ih =>
    obtain ⟨m, rfl⟩ : ∃ m', m = m' + 1 := ⟨m - 1, by omega⟩
    have h := ih (show n ≤ m by omega)
    exact ⟨fun cs v r hv => h.value_succ hq hv, fun cs v r hv => h.elems_succ hv,
      fun cs v r hv => h.members_succ hv⟩

/-- A whole text is not one when a value follows it. -/
theorem loadsWith_append {cs : List Char} {v : Json} (h : loadsWith hook cs = some v)
    (hq : Apart q) (hne : skipWs q ≠ []) : loadsWith hook (cs ++ q) = none := by
  rw [loadsWith] at h
  split at h
  · rename_i w r hp
    split_ifs at h with hr
    have hcs : skipWs cs ≠ [] := by
      intro hs
      rw [hs, parseValueWith.eq_def] at hp
      cases hp
    have happ := (parseWith_append hq (show 2 * cs.length + 1 ≤ 2 * (cs ++ q).length + 1 by
      rw [List.length_append]; omega)).value _ _ _ hp
    have hrq : skipWs (r ++ q) ≠ [] := by
      clear hp happ h
      induction r with
      | nil => exact hne
      | cons c r ih =>
        rw [skipWs] at hr
        rw [List.cons_append, skipWs]
        split_ifs at hr ⊢
        exact ih hr
    rw [loadsWith, skipWs_append hcs, happ]
    simp only [if_neg hrq]
  · cases h

theorem strictLoads_append {cs : List Char} {v : Json} (h : strictLoads cs = some v)
    (hq : Apart q) (hne : skipWs q ≠ []) : strictLoads (cs ++ q) = none := by
  obtain ⟨w, hw, -⟩ := Option.bind_eq_some_iff.1 h
  rw [strictLoads, loadsWith_append hw hq hne, Option.bind_none]

theorem dumps_obj_eq_cons (ascii : Bool) (kvs : Fields) : ∃ t, dumps ascii (.obj kvs) = '{' :: t :=
  ⟨_, by rw [dumps]⟩

/-- A whole text is not one when whitespace and an object follow it. -/
theorem strictLoads_append_obj {cs w : List Char} {v : Json} (h : strictLoads cs = some v)
    (hw : ∀ c ∈ w, isWs c = true) (ascii : Bool) (kvs : Fields) :
    strictLoads (cs ++ (w ++ dumps ascii (.obj kvs))) = none := by
  obtain ⟨t, ht⟩ := dumps_obj_eq_cons ascii kvs
  refine strictLoads_append h (apart_ws_append hw ?_) ?_
  · rw [ht]
    exact apart_cons (by decide) t
  · rw [skipWs_ws_append hw, ht, skipWs_of_not_ws (by decide)]
    exact List.cons_ne_nil _ _

end Py
