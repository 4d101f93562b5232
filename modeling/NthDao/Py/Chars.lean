/-
  The characters of a string.

  `chars s` is `s.toList` and `len s` is `s.length`; they read the bytes of an
  ASCII string directly, so that the model evaluates on concrete inputs.
-/
import Mathlib.Data.String.Basic

namespace Py

/-- The bytes of a string. -/
def bytesOf (s : String) : List UInt8 := s.toByteArray.data.toList

/-- The characters that ASCII bytes encode, `none` if there is another byte. -/
def asciiChars : List UInt8 → Option (List Char)
  | [] => some []
  | b :: bs =>
    if b.toNat < 128 then (asciiChars bs).map (Char.ofNat b.toNat :: ·) else none

/-- The characters of a string. -/
def chars (s : String) : List Char := (asciiChars (bytesOf s)).getD s.toList

/-- The number of characters of a string. -/
def len (s : String) : ℕ := (chars s).length

/-- The encoding of a character is one byte below 128, or starts above. -/
theorem utf8EncodeChar_cases (c : Char) :
    (String.utf8EncodeChar c = [UInt8.ofNat c.toNat] ∧ c.toNat < 128) ∨
      ∃ b bs, String.utf8EncodeChar c = b :: bs ∧ 128 ≤ b.toNat := by
  unfold String.utf8EncodeChar
  simp only
  split_ifs with h₁ h₂ h₃
  · exact .inl ⟨rfl, lt_of_le_of_lt h₁ (by decide)⟩
  all_goals
    refine .inr ⟨_, _, rfl, ?_⟩
    rw [UInt8.toNat_ofNat']
    omega

theorem bytesOf_ofList (cs : List Char) :
    bytesOf (String.ofList cs) = cs.flatMap String.utf8EncodeChar := by
  rw [bytesOf, String.toByteArray_ofList, List.utf8Encode, List.data_toByteArray]

theorem asciiChars_eq_some {cs ds : List Char}
    (h : asciiChars (cs.flatMap String.utf8EncodeChar) = some ds) : ds = cs := by
  induction cs generalizing ds with
  | nil => cases h; rfl
  | cons c cs ih =>
    rw [List.flatMap_cons] at h
    rcases utf8EncodeChar_cases c with ⟨hc, hlt⟩ | ⟨b, bs, hc, hle⟩
    · have hn : (UInt8.ofNat c.toNat).toNat = c.toNat := by
        rw [UInt8.toNat_ofNat']; exact Nat.mod_eq_of_lt (hlt.trans (by decide))
      rw [hc, List.singleton_append, asciiChars, hn, if_pos hlt, Option.map_eq_some_iff] at h
      obtain ⟨es, he, rfl⟩ := h
      rw [ih he, Char.ofNat_toNat]
    · rw [hc, List.cons_append, asciiChars, if_neg (by omega)] at h
      cases h

@[simp] theorem chars_eq (s : String) : chars s = s.toList := by
  unfold chars
  cases h : asciiChars (bytesOf s) with
  | none => rfl
  | some ds =>
    rw [← String.ofList_toList (s := s), bytesOf_ofList] at h
    exact asciiChars_eq_some h

@[simp] theorem len_eq (s : String) : len s = s.length := by
  rw [len, chars_eq, String.length_toList]

end Py
