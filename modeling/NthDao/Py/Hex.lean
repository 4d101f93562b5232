/-
  Hexadecimal texts of bytes.

  * `bytesFromHex` is `bytes.fromhex`: pairs of digits of either case, with blanks
    between the pairs;
  * `lower_of_bytesFromHex`: without blanks, the bytes determine the text up to
    the case of its letters.
-/
import NthDao.Py.Loads

namespace Py

/-- The blanks that `bytes.fromhex` skips. -/
def isAsciiSpace (c : Char) : Bool :=
  c == ' ' || c == '\t' || c == '\n' || c == '\r' || c == '\x0b' || c == '\x0c'

/-- `bytes.fromhex`. -/
def bytesFromHex : List Char → Option Bytes
  | [] => some []
  | [c] => if isAsciiSpace c then some [] else none
  | c :: d :: r =>
    if isAsciiSpace c then bytesFromHex (d :: r)
    else do
      let h ← hexVal c
      let l ← hexVal d
      let b ← bytesFromHex r
      return UInt8.ofNat (h * 16 + l) :: b

/-- A hexadecimal digit in lower case. -/
def hexLower (c : Char) : Char :=
  match hexVal c with
  | some n => Nat.digitChar n
  | none => c

theorem hexVal_lt {c : Char} {n : ℕ} (h : hexVal c = some n) : n < 16 := by
  unfold hexVal at h
  simp only [Char.le_def, UInt32.le_iff_toNat_le] at h
  change (if 48 ≤ c.toNat ∧ c.toNat ≤ 57 then some (c.toNat - 48)
    else if 97 ≤ c.toNat ∧ c.toNat ≤ 102 then some (c.toNat - 97 + 10)
    else if 65 ≤ c.toNat ∧ c.toNat ≤ 70 then some (c.toNat - 65 + 10) else none) = some n at h
  split_ifs at h <;> simp only [Option.some.injEq] at h <;> omega

/-- A text has two digits for each byte, and perhaps blanks. -/
theorem length_bytesFromHex {cs : List Char} {b : Bytes} (h : bytesFromHex cs = some b) :
    2 * b.length ≤ cs.length := by
  induction cs using bytesFromHex.induct generalizing b with
  | case1 => cases h; simp
  | case2 c hc =>
    rw [bytesFromHex, if_pos hc] at h
    cases h
    simp
  | case3 c hc =>
    rw [bytesFromHex, if_neg hc] at h
    cases h
  | case4 c d r hc ih =>
    rw [bytesFromHex, if_pos hc] at h
    have := ih h
    simp only [List.length_cons] at this ⊢
    omega
  | case5 c d r hc ih =>
    rw [bytesFromHex, if_neg hc] at h
    simp only [Option.bind_eq_bind, Option.bind_eq_some_iff, Option.pure_def,
      Option.some.injEq] at h
    obtain ⟨x, -, y, -, b', hb, rfl⟩ := h
    have := ih hb
    simp only [List.length_cons]
    omega

theorem ofNat_pair_injective {x y x' y' : ℕ} (hx : x < 16) (hy : y < 16) (hx' : x' < 16)
    (hy' : y' < 16) (h : UInt8.ofNat (x * 16 + y) = UInt8.ofNat (x' * 16 + y')) :
    x = x' ∧ y = y' := by
  have := congrArg UInt8.toNat h
  rw [UInt8.toNat_ofNat', UInt8.toNat_ofNat'] at this
  omega

/-- **Without blanks the bytes determine the text**, up to the case of the letters. -/
theorem lower_of_bytesFromHex {cs ds : List Char} {b : Bytes} (hc : bytesFromHex cs = some b)
    (hd : bytesFromHex ds = some b) (hcs : cs.length = 2 * b.length)
    (hds : ds.length = 2 * b.length) : cs.map hexLower = ds.map hexLower := by
  induction b generalizing cs ds with
  | nil =>
    rw [List.length_nil] at hcs hds
    rw [List.length_eq_zero_iff.1 hcs, List.length_eq_zero_iff.1 hds]
  | cons a b ih =>
    have split : ∀ {es : List Char}, bytesFromHex es = some (a :: b) →
        es.length = 2 * (a :: b).length → ∃ c d r x y, es = c :: d :: r ∧ hexVal c = some x ∧
          hexVal d = some y ∧ a = UInt8.ofNat (x * 16 + y) ∧ bytesFromHex r = some b ∧
          r.length = 2 * b.length := by
      intro es he hl
      rcases es with _ | ⟨c, _ | ⟨d, r⟩⟩
      · simp at hl
      · simp at hl
        omega
      · rw [bytesFromHex] at he
        simp only [List.length_cons] at hl
        by_cases hs : isAsciiSpace c = true
        · -- a blank leaves too few digits
          rw [if_pos hs] at he
          have := length_bytesFromHex he
          simp only [List.length_cons] at this
          omega
        · rw [if_neg hs] at he
          simp only [Option.bind_eq_bind, Option.bind_eq_some_iff, Option.pure_def,
            Option.some.injEq, List.cons.injEq] at he
          obtain ⟨x, hx, y, hy, b', hb, rfl, rfl⟩ := he
          exact ⟨c, d, r, x, y, rfl, hx, hy, rfl, hb, by omega⟩
    obtain ⟨c, d, r, x, y, rfl, hx, hy, ha, hr, hlr⟩ := split hc hcs
    obtain ⟨c', d', r', x', y', rfl, hx', hy', ha', hr', hlr'⟩ := split hd hds
    obtain ⟨rfl, rfl⟩ := ofNat_pair_injective (hexVal_lt hx) (hexVal_lt hy) (hexVal_lt hx')
      (hexVal_lt hy') (ha ▸ ha')
    simp only [List.map_cons, hexLower, hx, hy, hx', hy', ih hr hr' hlr hlr']

/-- `b.hex()`. -/
def hexText (b : Bytes) : String :=
  String.ofList (b.flatMap fun x => [Nat.digitChar (x.toNat / 16), Nat.digitChar (x.toNat % 16)])

end Py
