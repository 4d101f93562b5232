/-
  Decoding UTF-8 after a known text.

  * `utf8Decode_append`: what follows a text is decoded on its own;
  * `utf8_of_utf8Decode`: only the encoding of a text decodes to it.
-/
import NthDao.Py.Dumps

namespace Py

theorem utf8Decode_append (cs : List Char) (v : Bytes) :
    utf8Decode (utf8 cs ++ v) = (utf8Decode v).map (cs ++ ·) := by
  induction cs with
  | nil => simp [utf8]
  | cons c cs ih =>
    have h : (utf8 (c :: cs) ++ v).toByteArray = [c].utf8Encode ++ (utf8 cs ++ v).toByteArray := by
      rw [utf8_cons, List.append_assoc, List.toByteArray_append]
      rfl
    rw [utf8Decode] at ih
    rw [utf8Decode, h, ByteArray.utf8Decode?_utf8Encode_singleton_append, Option.map_map]
    have hm : (Array.toList ∘ fun x : Array Char => #[c] ++ x) = (c :: ·) ∘ Array.toList := by
      funext x
      simp
    rw [hm, ← Option.map_map, ih, Option.map_map]
    rfl

theorem utf8_of_utf8Decode {b : Bytes} {cs : List Char} (h : utf8Decode b = some cs) :
    utf8 cs = b := by
  rw [utf8Decode, Option.map_eq_some_iff] at h
  obtain ⟨x, hx, rfl⟩ := h
  have := ByteArray.utf8Encode_get_utf8Decode? (b := b.toByteArray) (h := by rw [hx]; rfl)
  simp only [hx, Option.get_some] at this
  have hb := congrArg (fun y : ByteArray => y.data.toList) this
  simpa [List.utf8Encode, utf8] using hb

end Py
