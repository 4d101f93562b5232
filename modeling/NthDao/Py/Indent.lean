/-
  The text of a JSON value as it is written to a file:
  `json.dumps(v, indent=2, ensure_ascii=False)`.

  * `dumpsIndent level v` is the text of `v` at the given depth;
  * `fileWeight level v` is its number of bytes, computed from the parts by
    `fileWeight_obj` and `fileWeight_arr`.
-/
import NthDao.Py.Size

namespace Py

/-- A line break and the indentation of a level. -/
def newline (level : ℕ) : List Char := '\n' :: List.replicate (2 * level) ' '

mutual
/-- `json.dumps(v, indent=2, ensure_ascii=False)`, `level` containers deep. -/
def dumpsIndent (level : ℕ) : Json → List Char
  | .arr xs =>
    if xs.isEmpty then ['[', ']']
    else '[' :: (newline (level + 1) ++ dumpsIndentList (level + 1) xs ++ newline level ++ [']'])
  | .obj kvs =>
    if kvs.isEmpty then ['{', '}']
    else '{' :: (newline (level + 1) ++ dumpsIndentFields (level + 1) kvs ++ newline level ++ ['}'])
  | v => dumps false v
def dumpsIndentList (level : ℕ) : List Json → List Char
  | [] => []
  | [x] => dumpsIndent level x
  | x :: y :: xs => dumpsIndent level x ++ ',' :: newline level ++ dumpsIndentList level (y :: xs)
def dumpsIndentFields (level : ℕ) : Fields → List Char
  | [] => []
  | [(k, x)] => dumpsStr false k ++ ':' :: ' ' :: dumpsIndent level x
  | (k, x) :: q :: kvs =>
    dumpsStr false k ++ ':' :: ' ' :: dumpsIndent level x ++ ',' :: newline level ++
      dumpsIndentFields level (q :: kvs)
end

/-- The number of bytes of the text at a depth. -/
def fileWeight (level : ℕ) (j : Json) : ℕ := (utf8 (dumpsIndent level j)).length

theorem utf8_length_newline (level : ℕ) : (utf8 (newline level)).length = 2 * level + 1 := by
  rw [newline, utf8_length_cons (by decide), utf8_length_plain, List.length_replicate]
  intro c hc
  rw [List.eq_of_mem_replicate hc]; decide

theorem fileWeight_str (level : ℕ) (s : String) : fileWeight level (.str s) = strWeight false s := by
  rw [fileWeight, dumpsIndent, dumps, strWeight]
  all_goals (intro _ h; cases h)

theorem fileWeight_int (level : ℕ) (n : ℤ) :
    fileWeight level (.int n) = weight false (.int n) := by
  rw [fileWeight, dumpsIndent, weight]
  all_goals (intro _ h; cases h)

theorem utf8_dumpsIndentFields (level : ℕ) : ∀ kvs : Fields, kvs ≠ [] →
    (utf8 (dumpsIndentFields level kvs)).length + 2 * level + 2 =
      (kvs.map fun p => strWeight false p.1 + fileWeight level p.2 + 2 * level + 4).sum
  | [], h => absurd rfl h
  | [(k, x)], _ => by
    rw [dumpsIndentFields, utf8_length_append, utf8_length_cons (by decide),
      utf8_length_cons (by decide)]
    simp [strWeight, fileWeight]; omega
  | (k, x) :: q :: kvs, _ => by
    have ih := utf8_dumpsIndentFields level (q :: kvs) (by simp)
    rw [dumpsIndentFields, List.append_assoc, utf8_length_append, utf8_length_append,
      List.cons_append, utf8_length_cons (by decide), utf8_length_cons (by decide),
      utf8_length_cons (by decide), utf8_length_append, utf8_length_newline, List.map_cons,
      List.sum_cons, ← ih]
    simp only [strWeight, fileWeight]; omega

theorem utf8_dumpsIndentList (level : ℕ) : ∀ xs : List Json, xs ≠ [] →
    (utf8 (dumpsIndentList level xs)).length + 2 * level + 2 =
      (xs.map fun x => fileWeight level x + 2 * level + 2).sum
  | [], h => absurd rfl h
  | [x], _ => by simp [dumpsIndentList, fileWeight]
  | x :: y :: xs, _ => by
    have ih := utf8_dumpsIndentList level (y :: xs) (by simp)
    rw [dumpsIndentList, List.append_assoc, utf8_length_append, List.cons_append,
      utf8_length_cons (by decide), utf8_length_append, utf8_length_newline, List.map_cons,
      List.sum_cons, ← ih]
    simp only [fileWeight]; omega

theorem fileWeight_obj (level : ℕ) {kvs : Fields} (h : kvs ≠ []) :
    fileWeight level (.obj kvs) = 2 * level + 2 +
      (kvs.map fun p => strWeight false p.1 + fileWeight (level + 1) p.2 + 2 * level + 6).sum := by
  have hf := utf8_dumpsIndentFields (level + 1) kvs h
  rw [fileWeight, dumpsIndent, if_neg (by simpa using h), utf8_length_cons (by decide),
    utf8_length_append, utf8_length_append, utf8_length_append, utf8_length_newline,
    utf8_length_newline, show (utf8 ['}']).length = 1 from rfl]
  have he : (kvs.map fun p => strWeight false p.1 + fileWeight (level + 1) p.2 + 2 * level + 6) =
      kvs.map fun p => strWeight false p.1 + fileWeight (level + 1) p.2 + 2 * (level + 1) + 4 :=
    List.map_congr_left fun p _ => by omega
  rw [he, ← hf]; omega

theorem fileWeight_arr (level : ℕ) {xs : List Json} (h : xs ≠ []) :
    fileWeight level (.arr xs) = 2 * level + 2 +
      (xs.map fun x => fileWeight (level + 1) x + 2 * level + 4).sum := by
  have hf := utf8_dumpsIndentList (level + 1) xs h
  rw [fileWeight, dumpsIndent, if_neg (by simpa using h), utf8_length_cons (by decide),
    utf8_length_append, utf8_length_append, utf8_length_append, utf8_length_newline,
    utf8_length_newline, show (utf8 [']']).length = 1 from rfl]
  have he : (xs.map fun x => fileWeight (level + 1) x + 2 * level + 4) =
      xs.map fun x => fileWeight (level + 1) x + 2 * (level + 1) + 2 :=
    List.map_congr_left fun x _ => by omega
  rw [he, ← hf]; omega

end Py
