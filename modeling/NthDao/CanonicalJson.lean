/-
  Canonical JSON (`nth_dao/canonical_json.py`): the bytes that are hashed and
  signed.

  * `canonicalJson v` is `canonical_json(v)`, `none` where it raises: the root
    must be an object and no part a `float`;
  * `canonicalJson_injective`: the bytes determine the value, up to the order
    of the keys.
-/
import NthDao.Py.Loads
import NthDao.Py.Size

namespace NthDao

open Py

/-- `canonical_json`. -/
def canonicalJson : Json → Option Bytes
  | .obj kvs =>
    if (Json.obj kvs).encodable then some (utf8 (dumps false (Json.obj kvs).norm)) else none
  | _ => none

theorem canonicalJson_eq_some {v : Json} {b : Bytes} (h : canonicalJson v = some b) :
    v.encodable = true ∧ b = utf8 (dumps false v.norm) := by
  cases v with
  | obj kvs =>
    rw [canonicalJson] at h
    split_ifs at h with he
    exact ⟨he, (Option.some.inj h).symm⟩
  | _ => cases h

theorem canonicalJson_of_encodable {kvs : Fields} (h : (Json.obj kvs).encodable = true) :
    ∃ b, canonicalJson (.obj kvs) = some b := by
  rw [canonicalJson, if_pos h]; exact ⟨_, rfl⟩

theorem canonicalJson_isSome {kvs : Fields} :
    (∃ b, canonicalJson (.obj kvs) = some b) ↔ ∀ p ∈ kvs, p.2.encodable = true := by
  rw [← Json.encodable_obj]
  constructor
  · rintro ⟨b, hb⟩; exact (canonicalJson_eq_some hb).1
  · exact canonicalJson_of_encodable

theorem canonicalJson_length {v : Json} {b : Bytes} (h : canonicalJson v = some b) :
    b.length = weight false v := by
  rw [(canonicalJson_eq_some h).2, ← weight_norm, weight]

/-- **Canonical JSON determines the value**, up to the order of keys. -/
theorem canonicalJson_injective {v w : Json} (hv : v.wf = true) (hw : w.wf = true) {b : Bytes}
    (h : canonicalJson v = some b) (h' : canonicalJson w = some b) : v.norm = w.norm := by
  obtain ⟨he, hb⟩ := canonicalJson_eq_some h
  obtain ⟨he', hb'⟩ := canonicalJson_eq_some h'
  refine dumps_injective false (Json.wf_norm v hv) ?_ (Json.wf_norm w hw) ?_
    (utf8_injective (hb ▸ hb'))
  · rw [Json.encodable_norm, he]
  · rw [Json.encodable_norm, he']

end NthDao
