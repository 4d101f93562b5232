/-
  Numbers with a fraction or an exponent.

  A `float` is known by its text; `json.dumps` writes the text and `json.loads`
  reads it.

  * `floatText t`: `t` is the text of a `float`;
  * `parseValue_floatText`: it reads back, whatever follows it.
-/
import NthDao.Py.Loads

namespace Py

/-- The text of a `float`, as `json.dumps` writes it. -/
def floatText (t : String) : Bool :=
  (chars t).all (fun c => 0x20 ≤ c.toNat) && parseValue 1 (chars t) == some (.other t, [])

/-! ## Scanning before a stop -/

theorem spanDigits_append_stop (cs : List Char) {r : List Char} (hr : Stop r) :
    spanDigits (cs ++ r) = ((spanDigits cs).1, (spanDigits cs).2 ++ r) := by
  induction cs with
  | nil =>
    cases r with
    | nil => rfl
    | cons c r => simp [spanDigits, (hr c rfl).1]
  | cons c cs ih =>
    rw [List.cons_append, spanDigits, spanDigits]
    split_ifs
    · rw [ih]; rfl
    · rfl

theorem scanNat_append_stop {cs ds q : List Char} (h : scanNat cs = some (ds, q)) {r : List Char}
    (hr : Stop r) : scanNat (cs ++ r) = some (ds, q ++ r) := by
  rw [scanNat, spanDigits_append_stop cs hr]
  rw [scanNat] at h
  cases hs : spanDigits cs with
  | mk es q' =>
    rw [hs] at h
    cases es with
    | nil => cases h
    | cons e es =>
      by_cases he : e = '0'
      · subst he
        cases h
        simp
      · split at h
        · rename_i heq; cases heq
        · rename_i heq; cases heq; exact absurd rfl he
        · rename_i heq
          cases heq
          cases h
          split
          · rename_i heq; cases heq
          · rename_i heq; cases heq; exact absurd rfl he
          · rename_i heq; cases heq; rfl

/-- The sign of an exponent and the rest. -/
def scanSign (cs : List Char) : List Char × List Char :=
  match cs with
  | '-' :: r => (['-'], r)
  | '+' :: r => (['+'], r)
  | _ => ([], cs)

/-- The part of `scanFrac` after the fraction. -/
def scanExp (frac : List Char) : List Char → List Char × List Char
  | [] => (frac, [])
  | e :: r =>
    if e == 'e' || e == 'E' then
      match spanDigits (scanSign r).2 with
      | ([], _) => (frac, e :: r)
      | (ds, r') => (frac ++ e :: (scanSign r).1 ++ ds, r')
    else (frac, e :: r)

theorem scanFrac_dot (q : List Char) : scanFrac ('.' :: q) =
    match spanDigits q with
    | ([], _) => scanExp [] ('.' :: q)
    | (ds, r) => scanExp ('.' :: ds) r := by
  unfold scanFrac
  cases hs : spanDigits q with
  | mk ds r =>
    cases ds with
    | nil => simp only [hs]; rfl
    | cons d ds =>
      simp only [hs]
      cases r <;> rfl

theorem scanFrac_of_ne {c : Char} (hc : c ≠ '.') (q : List Char) :
    scanFrac (c :: q) = scanExp [] (c :: q) := by
  unfold scanFrac
  split
  rename_i heq
  split at heq
  · rename_i h; cases h; exact absurd rfl hc
  · cases heq
    rfl

theorem scanSign_append {q : List Char} (hq : q ≠ []) (r : List Char) :
    scanSign (q ++ r) = ((scanSign q).1, (scanSign q).2 ++ r) := by
  obtain ⟨s, q, rfl⟩ := List.exists_cons_of_ne_nil hq
  rw [List.cons_append]
  unfold scanSign
  split
  · rename_i heq; cases heq; rfl
  · rename_i heq; cases heq; rfl
  · rename_i h₁ h₂
    split
    · rename_i heq; cases heq; exact absurd rfl (h₁ _)
    · rename_i heq; cases heq; exact absurd rfl (h₂ _)
    · rfl

theorem scanExp_append_stop {frac cs f : List Char} (h : scanExp frac cs = (f, []))
    {r : List Char} (hr : Stop r) : scanExp frac (cs ++ r) = (f, r) := by
  cases cs with
  | nil =>
    cases h
    cases r with
    | nil => rfl
    | cons c r =>
      obtain ⟨-, -, h₂, h₃⟩ := hr c rfl
      simp [scanExp, h₂, h₃]
  | cons e q =>
    rw [scanExp] at h
    rw [List.cons_append, scanExp]
    split_ifs at h ⊢ with he
    · have hq : q ≠ [] := by
        rintro rfl
        cases h
      rw [scanSign_append hq, spanDigits_append_stop _ hr]
      cases hs : spanDigits (scanSign q).2 with
      | mk ds t =>
        rw [hs] at h
        cases ds with
        | nil => cases h
        | cons d ds => cases h; rfl
    · cases h

theorem scanFrac_append_stop {cs f : List Char} (h : scanFrac cs = (f, [])) {r : List Char}
    (hr : Stop r) : scanFrac (cs ++ r) = (f, r) := by
  cases cs with
  | nil => cases h; exact scanFrac_stop hr
  | cons c q =>
    by_cases hc : c = '.'
    · subst hc
      rw [scanFrac_dot] at h
      rw [List.cons_append, scanFrac_dot, spanDigits_append_stop q hr]
      cases hs : spanDigits q with
      | mk ds t =>
        rw [hs] at h
        cases ds with
        | nil => exact scanExp_append_stop h hr
        | cons d ds => exact scanExp_append_stop h hr
    · rw [scanFrac_of_ne hc] at h
      rw [List.cons_append, scanFrac_of_ne hc]
      exact scanExp_append_stop h hr

theorem scanNumber_append_stop {neg : Bool} {cs : List Char} {t : String}
    (h : scanNumber neg cs = some (.other t, [])) {r : List Char} (hr : Stop r) :
    scanNumber neg (cs ++ r) = some (.other t, r) := by
  simp only [scanNumber, Option.bind_eq_bind, Option.bind_eq_some_iff] at h
  obtain ⟨⟨ds, q⟩, hn, h⟩ := h
  rw [scanNumber, scanNat_append_stop hn hr]
  simp only [Option.bind_eq_bind, Option.bind_some]
  dsimp only at h
  cases hf : scanFrac q with
  | mk f q' =>
    rw [hf] at h
    cases f with
    | nil =>
      dsimp only at h
      split_ifs at h <;> cases h
    | cons c f =>
      cases h
      rw [scanFrac_append_stop hf hr]

theorem digit_of_scanNumber {neg : Bool} {cs : List Char} {p : Json × List Char}
    (h : scanNumber neg cs = some p) : ∃ c q, cs = c :: q ∧ c.isDigit = true := by
  simp only [scanNumber, Option.bind_eq_bind, Option.bind_eq_some_iff] at h
  obtain ⟨d, hn, -⟩ := h
  cases cs with
  | nil => cases hn
  | cons c q =>
    refine ⟨c, q, rfl, ?_⟩
    by_contra hc
    rw [scanNat, spanDigits, if_neg hc] at hn
    cases hn

/-! ## Reading back -/

/-- The text of a `float` is read back, whatever follows it. -/
theorem parseValue_floatText {t : String} (h : floatText t = true) (fuel : ℕ) {r : List Char}
    (hr : Stop r) : parseValue (fuel + 1) (chars t ++ r) = some (.other t, r) := by
  rw [floatText, Bool.and_eq_true, beq_iff_eq] at h
  replace h := h.2
  generalize hcs : chars t = cs at h ⊢
  have ht : String.ofList cs = t := by rw [← hcs, chars_eq, String.ofList_toList]
  rw [parseValue.eq_def] at h
  dsimp only at h
  split at h
  · -- a scanned string is no `float`: its text would start with a quote
    obtain ⟨p, -, hp⟩ := Option.map_eq_some_iff.1 h
    have hs := (Prod.mk.inj hp).1
    unfold strVal at hs
    split at hs
    · cases hs
    · cases hs
      cases hcs
  · split at h
    · cases h
    · obtain ⟨p, hp, -⟩ := Option.map_eq_some_iff.1 h
      rw [parseMembers] at hp
      cases hp
  · split at h
    · cases h
    · obtain ⟨p, hp, -⟩ := Option.map_eq_some_iff.1 h
      rw [parseElems] at hp
      cases hp
  · cases h
  · cases h
  · cases h
  · cases h; rfl
  · cases h; rfl
  · cases h; rfl
  · rename_i q _ _
    obtain ⟨c, p, rfl, hc⟩ := digit_of_scanNumber h
    rw [List.cons_append, List.cons_append, parseValue_minus hc, ← List.cons_append]
    exact scanNumber_append_stop h hr
  · obtain ⟨c, p, rfl, hc⟩ := digit_of_scanNumber h
    rw [List.cons_append, parseValue_digit hc, ← List.cons_append]
    exact scanNumber_append_stop h hr

/-- It opens a value. -/
theorem floatText_head {t : String} (h : floatText t = true) :
    ∃ c cs, chars t = c :: cs ∧ isWs c = false ∧ c ≠ ']' := by
  rw [floatText, Bool.and_eq_true, beq_iff_eq] at h
  have hp := h.2
  cases hcs : chars t with
  | nil => rw [hcs] at hp; cases hp
  | cons c cs =>
    rw [hcs, parseValue.eq_def] at hp
    refine ⟨c, cs, rfl, ?_⟩
    have digit : c.isDigit = true → isWs c = false ∧ c ≠ ']' := by
      intro hc
      refine ⟨?_, by rintro rfl; cases hc⟩
      simp only [isWs, Bool.or_eq_false_iff, beq_eq_false_iff_ne]
      refine ⟨⟨⟨?_, ?_⟩, ?_⟩, ?_⟩ <;> (rintro rfl; cases hc)
    dsimp only at hp
    split at hp
    all_goals first
      | (rename_i heq; cases heq; decide)
      | (obtain ⟨d, q, heq, hd⟩ := digit_of_scanNumber hp; cases heq; exact digit hd)

end Py
