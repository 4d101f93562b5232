/-
  The text of a JSON value under `ensure_ascii`.

  * `printable_dumps`: it has printable ASCII characters only;
  * `length_dumpsStr`: text of such characters grows by its quotes and
    backslashes when it is written as a string;
  * `grows_dumps`: it is longer than the UTF-8 text by at most five bytes for each
    of its backslashes;
  * `norm_norm`: sorting keys twice changes nothing more.
-/
import NthDao.Py.Size

namespace Py

/-- A printable ASCII character. -/
def printable (c : Char) : Bool := 0x20 ≤ c.toNat && c.toNat ≤ 0x7e

/-- Text of printable ASCII characters. -/
def Printable (cs : List Char) : Prop := ∀ c ∈ cs, printable c = true

theorem Printable.append {cs ds : List Char} (h : Printable cs) (h' : Printable ds) :
    Printable (cs ++ ds) := by
  intro c hc
  rcases List.mem_append.1 hc with hc | hc
  · exact h c hc
  · exact h' c hc

theorem Printable.cons {c : Char} {cs : List Char} (hc : printable c = true) (h : Printable cs) :
    Printable (c :: cs) := List.forall_mem_cons.2 ⟨hc, h⟩

theorem printable_nil : Printable [] := fun _ h => absurd h List.not_mem_nil

/-! ## Bytes -/

/-- Printable text is encoded with one byte for each character. -/
theorem utf8_printable {cs : List Char} (h : Printable cs) :
    utf8 cs = cs.map fun c => UInt8.ofNat c.toNat := by
  induction cs with
  | nil => rfl
  | cons c cs ih =>
    unfold Printable at h
    rw [List.forall_mem_cons] at h
    have hc := h.1
    simp only [printable, Bool.and_eq_true, decide_eq_true_iff] at hc
    have hsize : c.utf8Size = 1 := by
      rw [Char.utf8Size_eq_one_iff, UInt32.le_iff_toNat_le]
      exact (by omega : c.toNat ≤ 127)
    rw [utf8, List.flatMap_cons, ← utf8, ih h.2, String.utf8EncodeChar_eq_singleton hsize]
    rfl

theorem toNat_ofNat_printable {c : Char} (h : printable c = true) :
    (UInt8.ofNat c.toNat).toNat = c.toNat := by
  simp only [printable, Bool.and_eq_true, decide_eq_true_iff] at h
  rw [UInt8.toNat_ofNat']; exact Nat.mod_eq_of_lt (by omega)

theorem utf8_length_printable {cs : List Char} (h : Printable cs) :
    (utf8 cs).length = cs.length := by
  rw [utf8_printable h, List.length_map]

/-- The bytes of printable text. -/
theorem le_of_mem_utf8 {cs : List Char} (h : Printable cs) {b : UInt8} (hb : b ∈ utf8 cs) :
    32 ≤ b.toNat := by
  rw [utf8_printable h, List.mem_map] at hb
  obtain ⟨c, hc, rfl⟩ := hb
  rw [toNat_ofNat_printable (h c hc)]
  have := h c hc
  simp only [printable, Bool.and_eq_true, decide_eq_true_iff] at this
  omega

/-- `b.decode("ascii")` of ASCII text. -/
theorem asciiChars_utf8 {cs : List Char} (h : Printable cs) : asciiChars (utf8 cs) = some cs := by
  rw [utf8_printable h]
  induction cs with
  | nil => rfl
  | cons c cs ih =>
    unfold Printable at h
    rw [List.forall_mem_cons] at h
    have hc : c.toNat < 128 := by
      have := h.1
      simp only [printable, Bool.and_eq_true, decide_eq_true_iff] at this
      omega
    rw [List.map_cons, asciiChars, toNat_ofNat_printable h.1, if_pos hc, ih h.2, Option.map_some,
      Char.ofNat_toNat]

/-! ## Printable text -/

theorem printable_digitChar : ∀ d < 16, printable (Nat.digitChar d) = true := by decide

theorem printable_hexEsc (n : ℕ) : Printable (hexEsc n) := by
  have hd : ∀ m, printable (Nat.digitChar (m % 16)) = true :=
    fun m => printable_digitChar _ (Nat.mod_lt _ (by decide))
  exact .cons (by decide) (.cons (by decide)
    (.cons (hd _) (.cons (hd _) (.cons (hd _) (.cons (hd _) printable_nil)))))

theorem printable_escChar (c : Char) : Printable (escChar true c) := by
  have hpair : ∀ d : Char, printable d = true → Printable ['\\', d] := fun d hd =>
    .cons (by decide) (.cons hd printable_nil)
  unfold escChar
  split_ifs with h₁ h₂ h₃ h₄ h₅ h₆ h₇ h₈ h₉
  iterate 7 exact hpair _ (by decide)
  · exact printable_hexEsc _
  · unfold uniEsc
    split_ifs
    · exact printable_hexEsc _
    · exact (printable_hexEsc _).append (printable_hexEsc _)
  · refine .cons ?_ printable_nil
    simp only [printable, Bool.and_eq_true, decide_eq_true_iff]
    simp only [true_and, not_lt] at h₉
    omega

theorem printable_dumpsInt (n : ℤ) : Printable (dumpsInt n) := by
  have hd : Printable (Nat.toDigits 10 n.natAbs) := by
    intro c hc
    have hc := Nat.isDigit_of_mem_toDigits (by decide) (by decide) hc
    simp only [Char.isDigit, Bool.and_eq_true, decide_eq_true_eq, ge_iff_le,
      UInt32.le_iff_toNat_le] at hc
    change 48 ≤ c.toNat ∧ c.toNat ≤ 57 at hc
    simp only [printable, Bool.and_eq_true, decide_eq_true_eq]; omega
  unfold dumpsInt
  split_ifs
  · exact .cons (by decide) hd
  · exact hd

/-- What holds of printable characters and of the text of every character in a
    string holds of the whole text of a value. -/
theorem forall_mem_dumps {ascii : Bool} {P : Char → Prop} (hp : ∀ c, printable c = true → P c)
    (hesc : ∀ d, ∀ c ∈ escChar ascii d, P c) (v : Json) (he : v.encodable = true) :
    ∀ c ∈ dumps ascii v, P c := by
  have str : ∀ s, ∀ c ∈ dumpsStr ascii s, P c := by
    intro s c hc
    rw [dumpsStr, List.mem_cons, List.mem_append] at hc
    rcases hc with rfl | hc | hc
    · exact hp _ (by decide)
    · obtain ⟨d, -, hd⟩ := List.mem_flatMap.1 hc
      exact hesc d c hd
    · rw [List.mem_singleton.1 hc]; exact hp _ (by decide)
  have list : ∀ xs : List Json, (∀ x ∈ xs, ∀ c ∈ dumps ascii x, P c) →
      ∀ c ∈ dumpsList ascii xs, P c := by
    intro xs
    induction xs with
    | nil => intro _ c hc; cases hc
    | cons x xs ih =>
      intro h c hc
      rw [List.forall_mem_cons] at h
      cases xs with
      | nil => exact h.1 c hc
      | cons y ys =>
        rw [dumpsList, List.mem_append, List.mem_cons] at hc
        rcases hc with hc | rfl | hc
        · exact h.1 c hc
        · exact hp _ (by decide)
        · exact ih h.2 c hc
  have fields : ∀ kvs : Fields, (∀ p ∈ kvs, ∀ c ∈ dumps ascii p.2, P c) →
      ∀ c ∈ dumpsFields ascii kvs, P c := by
    intro kvs
    induction kvs with
    | nil => intro _ c hc; cases hc
    | cons p kvs ih =>
      intro h
      rw [List.forall_mem_cons] at h
      have item : ∀ c ∈ dumpsStr ascii p.1 ++ ':' :: dumps ascii p.2, P c := by
        intro c hc
        rw [List.mem_append, List.mem_cons] at hc
        rcases hc with hc | rfl | hc
        · exact str _ c hc
        · exact hp _ (by decide)
        · exact h.1 c hc
      cases kvs with
      | nil => exact item
      | cons q kvs =>
        intro c hc
        have hc : c ∈ dumpsStr ascii p.1 ++ ':' :: dumps ascii p.2 ++
            ',' :: dumpsFields ascii (q :: kvs) := hc
        rw [List.mem_append, List.mem_cons] at hc
        rcases hc with hc | rfl | hc
        · exact item c hc
        · exact hp _ (by decide)
        · exact ih h.2 c hc
  have wrap : ∀ {a b : Char} {cs : List Char}, printable a = true → printable b = true →
      (∀ c ∈ cs, P c) → ∀ c ∈ a :: cs ++ [b], P c := by
    intro a b cs ha hb h c hc
    rw [List.cons_append, List.mem_cons, List.mem_append] at hc
    rcases hc with rfl | hc | hc
    · exact hp _ ha
    · exact h c hc
    · rw [List.mem_singleton.1 hc]; exact hp _ hb
  induction v using Json.ind with
  | null => exact fun c hc => hp c (List.all_eq_true.1 (by decide : "null".toList.all printable) c hc)
  | bool b =>
    cases b
    · exact fun c hc => hp c (List.all_eq_true.1 (by decide : "false".toList.all printable) c hc)
    · exact fun c hc => hp c (List.all_eq_true.1 (by decide : "true".toList.all printable) c hc)
  | int n => exact fun c hc => hp c (printable_dumpsInt n c hc)
  | str s => exact str s
  | other t => cases he
  | arr xs ih =>
    rw [Json.encodable_arr] at he
    exact wrap (by decide) (by decide) (list xs fun x hx => ih x hx (he x hx))
  | obj kvs ih =>
    rw [Json.encodable_obj] at he
    exact wrap (by decide) (by decide) (fields kvs fun p hp => ih p hp (he p hp))

/-- The text under `ensure_ascii` is printable ASCII. -/
theorem printable_dumps (v : Json) (he : v.encodable = true) : Printable (dumps true v) :=
  forall_mem_dumps (fun _ h => h) printable_escChar v he

theorem printable_dumpsStr (s : String) : Printable (dumpsStr true s) :=
  printable_dumps (.str s) rfl

/-- JSON text has no control characters. -/
theorem le_of_mem_dumps (v : Json) (he : v.encodable = true) :
    ∀ c ∈ dumps false v, 0x20 ≤ c.toNat := by
  have hp : ∀ c, printable c = true → 0x20 ≤ c.toNat := by
    intro c hc
    simp only [printable, Bool.and_eq_true, decide_eq_true_iff] at hc
    exact hc.1
  refine forall_mem_dumps hp (fun d c hc => ?_) v he
  unfold escChar at hc
  split_ifs at hc with h₁ h₂ h₃ h₄ h₅ h₆ h₇ h₈ h₉
  iterate 7
    · simp only [List.mem_cons, List.not_mem_nil, or_false] at hc
      rcases hc with rfl | rfl <;> decide
  · exact hp c (printable_hexEsc _ c hc)
  · simp at h₉
  · rw [List.mem_singleton.1 hc]; omega

/-- The bytes of a text without control characters. -/
theorem le_of_mem_utf8_of_le {cs : List Char} (h : ∀ c ∈ cs, 0x20 ≤ c.toNat) {b : UInt8}
    (hb : b ∈ utf8 cs) : 32 ≤ b.toNat := by
  obtain ⟨c, hc, hb⟩ := List.mem_flatMap.1 hb
  have := h c hc
  unfold String.utf8EncodeChar at hb
  simp only at hb
  split_ifs at hb with h₁ h₂ h₃
  · rw [List.mem_singleton.1 hb, UInt8.toNat_ofNat']
    change c.toNat ≤ 0x7f at h₁
    change 32 ≤ c.toNat % 256
    omega
  all_goals
    simp only [List.mem_cons, List.not_mem_nil, or_false] at hb
    rcases hb with rfl | rfl | rfl | rfl <;> (rw [UInt8.toNat_ofNat']; omega)

/-! ## Growth -/

/-- The number of quotes and backslashes of a text. -/
def quotes (cs : List Char) : ℕ := cs.countP fun c => c == '"' || c == '\\'

theorem quotes_append (cs ds : List Char) : quotes (cs ++ ds) = quotes cs + quotes ds :=
  List.countP_append

/-- Printable text written as a string. -/
theorem length_dumpsStr {cs : List Char} (h : Printable cs) :
    (dumpsStr true (String.ofList cs)).length = cs.length + quotes cs + 2 := by
  have hesc : ∀ c, printable c = true →
      (escChar true c).length = 1 + if c == '"' || c == '\\' then 1 else 0 := by
    intro c hc
    simp only [printable, Bool.and_eq_true, decide_eq_true_iff] at hc
    by_cases hq : c.toNat = 0x22
    · have : c = '"' := Char.toNat_inj.1 hq
      subst this; rfl
    by_cases hb : c.toNat = 0x5c
    · have : c = '\\' := Char.toNat_inj.1 hb
      subst this; rfl
    · have hp : plain c = true := by
        simp only [plain, Bool.and_eq_true, decide_eq_true_iff, bne_iff_ne]
        exact ⟨⟨hc, hq⟩, hb⟩
      have h₁ : c ≠ '"' := by rintro rfl; exact hq rfl
      have h₂ : c ≠ '\\' := by rintro rfl; exact hb rfl
      rw [escChar_plain true hp]
      simp [h₁, h₂]
  have hflat : ∀ cs : List Char, Printable cs →
      (cs.flatMap (escChar true)).length = cs.length + quotes cs := by
    intro cs
    induction cs with
    | nil => intro _; rfl
    | cons c cs ih =>
      intro hp
      unfold Printable at hp
      rw [List.forall_mem_cons] at hp
      rw [List.flatMap_cons, List.length_append, ih hp.2, hesc c hp.1, quotes, quotes,
        List.countP_cons, List.length_cons]
      omega
  rw [dumpsStr, chars_eq, String.toList_ofList, List.length_cons, List.length_append, hflat cs h]
  rfl

/-- The text `cs` is longer than the UTF-8 bytes of `ds` by at most five for each
    of its backslashes. -/
def Grows (cs ds : List Char) : Prop := cs.length ≤ (utf8 ds).length + 5 * quotes cs

theorem Grows.append {cs ds cs' ds' : List Char} (h : Grows cs ds) (h' : Grows cs' ds') :
    Grows (cs ++ cs') (ds ++ ds') := by
  unfold Grows at *
  rw [List.length_append, utf8_length_append, quotes_append]
  omega

theorem Grows.refl (cs : List Char) : Grows cs cs := by
  have h : cs.length ≤ (utf8 cs).length := by
    induction cs with
    | nil => simp
    | cons c cs ih =>
      have := c.utf8Size_pos
      rw [utf8_cons, List.length_append, List.length_cons]
      simp [utf8] at ih ⊢
      omega
  unfold Grows
  omega

theorem Grows.cons (c : Char) {cs ds : List Char} (h : Grows cs ds) : Grows (c :: cs) (c :: ds) :=
  (Grows.refl [c]).append h

theorem grows_escChar (c : Char) : Grows (escChar true c) (escChar false c) := by
  have hesc : ∀ n, quotes (hexEsc n) = 1 := by
    intro n
    have hd : ∀ d < 16, (Nat.digitChar d == '"' || Nat.digitChar d == '\\') = false := by decide
    have hm : ∀ m, (Nat.digitChar (m % 16) == '"' || Nat.digitChar (m % 16) == '\\') = false :=
      fun m => hd _ (Nat.mod_lt _ (by decide))
    simp only [quotes, hexEsc, List.countP_cons, List.countP_nil, hm]
    rfl
  have hlen : ∀ n, (hexEsc n).length = 6 := fun _ => rfl
  by_cases hc : c.toNat ≤ 0x7e
  · have : escChar true c = escChar false c := by
      unfold escChar
      simp only [true_and, Bool.false_eq_true, false_and, if_false, not_lt.2 hc]
    rw [this]; exact Grows.refl _
  · have h₁ : escChar true c = uniEsc c.toNat := by
      unfold escChar
      rw [if_neg (by omega), if_neg (by omega), if_neg (by omega), if_neg (by omega),
        if_neg (by omega), if_neg (by omega), if_neg (by omega), if_neg (by omega),
        if_pos ⟨rfl, by omega⟩]
    have h₂ : escChar false c = [c] := by
      unfold escChar
      rw [if_neg (by omega), if_neg (by omega), if_neg (by omega), if_neg (by omega),
        if_neg (by omega), if_neg (by omega), if_neg (by omega), if_neg (by omega),
        if_neg (by simp)]
    have hsize : (utf8 [c]).length = c.utf8Size := by simp [utf8]
    have hpos := c.utf8Size_pos
    rw [h₁, h₂, Grows, uniEsc, hsize]
    split_ifs with hbig
    · rw [hlen, hesc]; omega
    · have htwo : c.utf8Size ≠ 1 := by
        rw [Ne, Char.utf8Size_eq_one_iff, UInt32.le_iff_toNat_le]
        exact fun h : c.toNat ≤ 127 => hbig (by omega)
      rw [List.length_append, hlen, hlen, quotes_append, hesc, hesc]; omega

theorem grows_dumpsStr (s : String) : Grows (dumpsStr true s) (dumpsStr false s) := by
  have h : ∀ cs : List Char, Grows (cs.flatMap (escChar true)) (cs.flatMap (escChar false)) := by
    intro cs
    induction cs with
    | nil => exact Grows.refl []
    | cons c cs ih =>
      rw [List.flatMap_cons, List.flatMap_cons]
      exact (grows_escChar c).append ih
  exact ((h _).append (Grows.refl _)).cons '"'

/-- Escaping grows the text of a value by its backslashes. -/
theorem grows_dumps (v : Json) : Grows (dumps true v) (dumps false v) := by
  have list : ∀ xs : List Json, (∀ x ∈ xs, Grows (dumps true x) (dumps false x)) →
      Grows (dumpsList true xs) (dumpsList false xs) := by
    intro xs
    induction xs with
    | nil => intro _; exact Grows.refl []
    | cons x xs ih =>
      intro h
      rw [List.forall_mem_cons] at h
      cases xs with
      | nil => exact h.1
      | cons y ys => exact h.1.append ((ih h.2).cons ',')
  have fields : ∀ kvs : Fields, (∀ p ∈ kvs, Grows (dumps true p.2) (dumps false p.2)) →
      Grows (dumpsFields true kvs) (dumpsFields false kvs) := by
    intro kvs
    induction kvs with
    | nil => intro _; exact Grows.refl []
    | cons p kvs ih =>
      intro h
      rw [List.forall_mem_cons] at h
      have hp := (grows_dumpsStr p.1).append (h.1.cons ':')
      cases kvs with
      | nil => exact hp
      | cons q kvs => exact hp.append ((ih h.2).cons ',')
  induction v using Json.ind with
  | str s => exact grows_dumpsStr s
  | arr xs ih => exact ((list xs ih).append (Grows.refl _)).cons '['
  | obj kvs ih => exact ((fields kvs ih).append (Grows.refl _)).cons '{'
  | bool b => cases b <;> exact Grows.refl _
  | _ => exact Grows.refl _

/-! ## Sorting twice -/

namespace Json

/-- Sorting keys twice changes nothing more. -/
theorem norm_norm (j : Json) : j.norm.norm = j.norm := by
  induction j using ind with
  | arr xs ih =>
    rw [norm_arr, norm_arr, List.map_map]
    exact congrArg _ (List.map_congr_left fun x hx => ih x hx)
  | obj kvs ih =>
    rw [norm_obj]
    set s := (kvs.map fun p => (p.1, p.2.norm)).insertionSort keyLe with hs
    have hmap : s.map (fun p => (p.1, p.2.norm)) = s := by
      refine (List.map_congr_left fun p hp => ?_).trans (List.map_id s)
      rw [hs, List.mem_insertionSort] at hp
      obtain ⟨q, hq, rfl⟩ := List.mem_map.1 hp
      rw [ih q hq]; rfl
    rw [norm_obj, hmap, hs]
    exact congrArg _ (List.pairwise_insertionSort keyLe _).insertionSort_eq
  | _ => rfl

end Json

end Py
