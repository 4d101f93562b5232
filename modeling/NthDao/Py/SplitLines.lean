/-
  `str.splitlines`, and the values whose text it leaves on one line.

  * `splitlines cs` breaks a text at every line boundary of Unicode;
  * `splitlines_lines`: lines without a boundary come back;
  * `Json.allTexts p v`: `p` holds of the texts of `v`, its keys included;
  * `isBreak_of_mem_dumpsSpaced`: a boundary in the text that `json.dumps` writes comes
    from them.
-/
import NthDao.Py.Spaced

namespace Py

/-- A line boundary, of a text whose `\r` have been read as `\n`. -/
def isBreak (c : Char) : Bool :=
  [0x0a, 0x0b, 0x0c, 0x0d, 0x1c, 0x1d, 0x1e, 0x85, 0x2028, 0x2029].contains c.toNat

/-- `text.splitlines()`. -/
def splitlines : List Char → List (List Char)
  | [] => []
  | c :: cs =>
    if isBreak c then [] :: splitlines cs
    else match splitlines cs with
      | [] => [[c]]
      | l :: ls => (c :: l) :: ls

example : splitlines ['a', '\n', '\n', 'b', '\u2028', 'c'] = [['a'], [], ['b'], ['c']] := by decide

theorem splitlines_append {l : List Char} (h : ∀ c ∈ l, isBreak c = false) (cs : List Char) :
    splitlines (l ++ '\n' :: cs) = l :: splitlines cs := by
  induction l with
  | nil => rfl
  | cons c l ih =>
    rw [List.forall_mem_cons] at h
    rw [List.cons_append, splitlines, h.1, ih h.2]
    rfl

/-- **Lines without a boundary** come back. -/
theorem splitlines_lines {ls : List (List Char)} (h : ∀ l ∈ ls, ∀ c ∈ l, isBreak c = false) :
    splitlines (ls.flatMap (· ++ ['\n'])) = ls := by
  induction ls with
  | nil => rfl
  | cons l ls ih =>
    rw [List.forall_mem_cons] at h
    rw [List.flatMap_cons, List.append_assoc, List.singleton_append, splitlines_append h.1,
      ih h.2]

/-! ## The texts of a value -/

mutual
/-- `p` holds of every text of the value. -/
def Json.allTexts (p : String → Bool) : Json → Bool
  | .str s => p s
  | .other t => p t
  | .arr xs => allTextsList p xs
  | .obj kvs => allTextsFields p kvs
  | _ => true
def Json.allTextsList (p : String → Bool) : List Json → Bool
  | [] => true
  | x :: xs => Json.allTexts p x && allTextsList p xs
def Json.allTextsFields (p : String → Bool) : Fields → Bool
  | [] => true
  | (k, x) :: kvs => p k && Json.allTexts p x && allTextsFields p kvs
end

/-- The text of a string has the characters of the string and printable ones. -/
theorem forall_mem_dumpsStr {q : Char → Prop} (hq : ∀ c, printable c = true → q c) {s : String}
    (hs : ∀ c ∈ s.toList, q c) : ∀ c ∈ dumpsStr false s, q c := by
  have hesc : ∀ d ∈ s.toList, ∀ c ∈ escChar false d, q c := by
    intro d hd c hc
    unfold escChar at hc
    split_ifs at hc with h₁ h₂ h₃ h₄ h₅ h₆ h₇ h₈ h₉
    iterate 7
      · simp only [List.mem_cons, List.not_mem_nil, or_false] at hc
        rcases hc with rfl | rfl <;> exact hq _ (by decide)
    · exact hq c (printable_hexEsc _ c hc)
    · simp at h₉
    · rw [List.mem_singleton.1 hc]; exact hs d hd
  intro c hc
  rw [dumpsStr, chars_eq, List.mem_cons, List.mem_append, List.mem_singleton] at hc
  rcases hc with rfl | hc | rfl
  · exact hq _ (by decide)
  · obtain ⟨d, hd, hc⟩ := List.mem_flatMap.1 hc
    exact hesc d hd c hc
  · exact hq _ (by decide)

namespace Json

theorem allTexts_arr {p : String → Bool} {xs : List Json} :
    (Json.arr xs).allTexts p = true ↔ ∀ x ∈ xs, x.allTexts p = true := by
  rw [allTexts]
  induction xs with
  | nil => simp [allTextsList]
  | cons x xs ih => simp [allTextsList, ih]

theorem allTexts_obj {p : String → Bool} {kvs : Fields} :
    (Json.obj kvs).allTexts p = true ↔ ∀ q ∈ kvs, p q.1 = true ∧ q.2.allTexts p = true := by
  rw [allTexts]
  induction kvs with
  | nil => simp [allTextsFields]
  | cons q kvs ih => obtain ⟨k, x⟩ := q; simp [allTextsFields, ih, and_assoc]

end Json

/-- What holds of printable characters and of those in the texts of a value holds of its
    whole text. -/
theorem forall_mem_dumpsSpaced {q : Char → Bool} (hq : ∀ c, printable c = true → q c = true)
    (v : Json) (ht : v.allTexts (fun s => s.toList.all q) = true) :
    ∀ c ∈ dumpsSpaced v, q c = true := by
  have str : ∀ {s : String}, s.toList.all q = true → ∀ c ∈ dumpsStr false s, q c = true :=
    fun h => forall_mem_dumpsStr hq (List.all_eq_true.1 h)
  have wrap : ∀ {a b : Char} {cs : List Char}, printable a = true → printable b = true →
      (∀ c ∈ cs, q c = true) → ∀ c ∈ a :: (cs ++ [b]), q c = true := by
    intro a b cs ha hb h
    simp only [List.forall_mem_cons, List.forall_mem_append, List.not_mem_nil, IsEmpty.forall_iff,
      implies_true, and_true]
    exact ⟨hq a ha, h, hq b hb⟩
  have sep : ∀ {a b : Char} {cs ds : List Char}, printable a = true → printable b = true →
      (∀ c ∈ cs, q c = true) → (∀ c ∈ ds, q c = true) → ∀ c ∈ cs ++ a :: b :: ds, q c = true := by
    intro a b cs ds ha hb h h'
    simp only [List.forall_mem_cons, List.forall_mem_append]
    exact ⟨h, hq a ha, hq b hb, h'⟩
  have text : ∀ {t : String}, t.toList.all printable = true → ∀ c ∈ t.toList, q c = true :=
    fun h c hc => hq c (List.all_eq_true.1 h c hc)
  induction v using Json.ind with
  | null => exact text (t := "null") (by decide)
  | bool b =>
    cases b
    · exact text (t := "false") (by decide)
    · exact text (t := "true") (by decide)
  | int n => exact fun c hc => hq c (printable_dumpsInt n c hc)
  | str s => exact str ht
  | other t =>
    intro c hc
    rw [dumpsSpaced_atom (by simp) (by simp), dumps, chars_eq] at hc
    exact List.all_eq_true.1 ht c hc
  | arr xs ih =>
    rw [Json.allTexts_arr] at ht
    refine wrap (by decide) (by decide) ?_
    induction xs with
    | nil => exact fun c hc => absurd hc List.not_mem_nil
    | cons x xs ihx =>
      rw [List.forall_mem_cons] at ht
      have hx := ih x (by simp) ht.1
      have hxs := ihx (fun y hy => ih y (by simp [hy])) ht.2
      cases xs with
      | nil => exact hx
      | cons y ys => exact sep (by decide) (by decide) hx hxs
  | obj kvs ih =>
    rw [Json.allTexts_obj] at ht
    refine wrap (by decide) (by decide) ?_
    induction kvs with
    | nil => exact fun c hc => absurd hc List.not_mem_nil
    | cons p kvs ihx =>
      obtain ⟨k, x⟩ := p
      rw [List.forall_mem_cons] at ht
      have hx := sep (a := ':') (b := ' ') (by decide) (by decide) (str ht.1.1)
        (ih (k, x) (by simp) ht.1.2)
      have hxs := ihx (fun y hy => ih y (by simp [hy])) ht.2
      cases kvs with
      | nil => exact hx
      | cons r ys =>
        rw [dumpsSpacedFields]
        exact sep (by decide) (by decide) hx hxs

/-- A value whose texts have no boundary that is printed as it is has its text on one line. -/
theorem isBreak_of_mem_dumpsSpaced {v : Json} (he : v.writable = true)
    (ht : v.allTexts (fun s => s.toList.all fun c => !(isBreak c && 0x20 ≤ c.toNat)) = true) :
    ∀ c ∈ dumpsSpaced v, isBreak c = false := by
  intro c hc
  have hle := le_of_mem_dumpsSpaced v he c hc
  have hq := forall_mem_dumpsSpaced (q := fun c => !(isBreak c && 0x20 ≤ c.toNat))
    (fun d hd => ?_) v ht c hc
  · simpa [hle] using hq
  · simp only [printable, Bool.and_eq_true, decide_eq_true_eq] at hd
    have : isBreak d = false := by
      rw [isBreak, List.contains_eq_mem, decide_eq_false_iff_not]
      simp only [List.mem_cons, List.not_mem_nil, or_false]
      omega
    rw [this]
    rfl

end Py
