/-
  Base64url without padding (`nth_dao/b64u.py`).

  * `b64uEncode` is `b64u_encode` and `b64uDecode` is `b64u_decode`, with the
    alphabet check of `base64.b64decode(…, altchars=b"-_", validate=True)`;
  * `b64uDecode_b64uEncode`: decoding inverts encoding.
-/
import Mathlib.Data.List.DropRight
import NthDao.Py.Dumps

namespace NthDao

open Py

/-- The URL-safe alphabet. -/
def b64Alphabet : List Char :=
  ['A', 'B', 'C', 'D', 'E', 'F', 'G', 'H', 'I', 'J', 'K', 'L', 'M', 'N', 'O', 'P', 'Q', 'R', 'S',
   'T', 'U', 'V', 'W', 'X', 'Y', 'Z', 'a', 'b', 'c', 'd', 'e', 'f', 'g', 'h', 'i', 'j', 'k', 'l',
   'm', 'n', 'o', 'p', 'q', 'r', 's', 't', 'u', 'v', 'w', 'x', 'y', 'z', '0', '1', '2', '3', '4',
   '5', '6', '7', '8', '9', '-', '_']

/-- The character of a six-bit value. -/
def b64Char (n : ℕ) : Char := b64Alphabet.getD n 'A'

/-- The six-bit value of a character.  The alternative characters are mapped to
    `+` and `/` before the check, so these are values too. -/
def b64Val (c : Char) : Option ℕ :=
  if c = '+' then some 62 else if c = '/' then some 63 else b64Alphabet.idxOf? c

/-- The six-bit values of a byte string. -/
def sextets : Bytes → List ℕ
  | a :: b :: c :: r =>
    [a.toNat / 4, a.toNat % 4 * 16 + b.toNat / 16, b.toNat % 16 * 4 + c.toNat / 64, c.toNat % 64] ++
      sextets r
  | [a, b] => [a.toNat / 4, a.toNat % 4 * 16 + b.toNat / 16, b.toNat % 16 * 4]
  | [a] => [a.toNat / 4, a.toNat % 4 * 16]
  | [] => []

/-- The byte string of six-bit values; bits left over are dropped. -/
def ofSextets : List ℕ → Bytes
  | p :: q :: r :: s :: rest =>
    [UInt8.ofNat (p * 4 + q / 16), UInt8.ofNat (q % 16 * 16 + r / 4), UInt8.ofNat (r % 4 * 64 + s)] ++
      ofSextets rest
  | [p, q, r] => [UInt8.ofNat (p * 4 + q / 16), UInt8.ofNat (q % 16 * 16 + r / 4)]
  | [p, q] => [UInt8.ofNat (p * 4 + q / 16)]
  | _ => []

/-- `b64u_encode`. -/
def b64uEncode (raw : Bytes) : String := String.ofList ((sextets raw).map b64Char)

/-- `b64u_decode`: the padding is completed to a multiple of four, and at most
    two `=` may end the text. -/
def b64uDecode (s : String) : Option Bytes :=
  let body := (chars s).rdropWhile (· == '=')
  let pad := len s - body.length + (4 - len s % 4) % 4
  if pad ≤ 2 then (body.mapM b64Val).map ofSextets else none

theorem b64Val_b64Char : ∀ n < 64, b64Val (b64Char n) = some n := by decide

theorem b64Char_ne_pad : ∀ n < 64, (b64Char n == '=') = false := by decide

theorem sextets_lt : ∀ bs : Bytes, ∀ n ∈ sextets bs, n < 64
  | a :: b :: c :: r, n, h => by
    have ha := a.toNat_lt; have hb := b.toNat_lt; have hc := c.toNat_lt
    simp only [sextets, List.cons_append, List.nil_append, List.mem_cons] at h
    rcases h with rfl | rfl | rfl | rfl | h
    iterate 4 omega
    exact sextets_lt r n h
  | [a, b], n, h => by
    have ha := a.toNat_lt; have hb := b.toNat_lt
    simp only [sextets, List.mem_cons, List.not_mem_nil, or_false] at h
    rcases h with rfl | rfl | rfl <;> omega
  | [a], n, h => by
    have ha := a.toNat_lt
    simp only [sextets, List.mem_cons, List.not_mem_nil, or_false] at h
    rcases h with rfl | rfl <;> omega
  | [], n, h => by simp [sextets] at h

theorem ofSextets_sextets : ∀ bs : Bytes, ofSextets (sextets bs) = bs
  | a :: b :: c :: r => by
    have ha := a.toNat_lt; have hb := b.toNat_lt; have hc := c.toNat_lt
    simp only [sextets, List.cons_append, List.nil_append, ofSextets, ofSextets_sextets r]
    rw [show a.toNat / 4 * 4 + (a.toNat % 4 * 16 + b.toNat / 16) / 16 = a.toNat by omega,
      show (a.toNat % 4 * 16 + b.toNat / 16) % 16 * 16 + (b.toNat % 16 * 4 + c.toNat / 64) / 4 =
        b.toNat by omega,
      show (b.toNat % 16 * 4 + c.toNat / 64) % 4 * 64 + c.toNat % 64 = c.toNat by omega]
    simp
  | [a, b] => by
    have ha := a.toNat_lt; have hb := b.toNat_lt
    simp only [sextets, ofSextets]
    rw [show a.toNat / 4 * 4 + (a.toNat % 4 * 16 + b.toNat / 16) / 16 = a.toNat by omega,
      show (a.toNat % 4 * 16 + b.toNat / 16) % 16 * 16 + b.toNat % 16 * 4 / 4 = b.toNat by omega]
    simp
  | [a] => by
    have ha := a.toNat_lt
    simp only [sextets, ofSextets]
    rw [show a.toNat / 4 * 4 + a.toNat % 4 * 16 / 16 = a.toNat by omega]
    simp
  | [] => rfl

theorem length_sextets : ∀ bs : Bytes, (sextets bs).length = (4 * bs.length + 2) / 3
  | _ :: _ :: _ :: r => by
    simp only [sextets, List.length_append, length_sextets r, List.length_cons, List.length_nil]
    omega
  | [_, _] | [_] | [] => by simp [sextets]

theorem length_b64uEncode (raw : Bytes) :
    (b64uEncode raw).length = (4 * raw.length + 2) / 3 := by
  simp [b64uEncode, ← length_sextets]

theorem mapM_b64Val {ns : List ℕ} (h : ∀ n ∈ ns, n < 64) : (ns.map b64Char).mapM b64Val = some ns := by
  induction ns with
  | nil => rfl
  | cons n ns ih =>
    rw [List.forall_mem_cons] at h
    simp [List.mapM_cons, b64Val_b64Char n h.1, ih h.2]

/-- Decoding inverts encoding. -/
theorem b64uDecode_b64uEncode (raw : Bytes) : b64uDecode (b64uEncode raw) = some raw := by
  have hs := sextets_lt raw
  have hb : ((sextets raw).map b64Char).rdropWhile (· == '=') = (sextets raw).map b64Char := by
    rw [List.rdropWhile_eq_self_iff]
    intro h
    obtain ⟨n, hn, hc⟩ := List.mem_map.1 (List.getLast_mem h)
    rw [← hc, b64Char_ne_pad n (hs n hn)]
    simp
  have hl := length_sextets raw
  unfold b64uDecode b64uEncode
  simp only [chars_eq, len_eq, String.length_ofList, String.toList_ofList, hb, List.length_map]
  rw [if_pos (by omega), mapM_b64Val hs]
  simp [ofSextets_sextets]

end NthDao
