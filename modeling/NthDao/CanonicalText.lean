/-
  Canonical JSON as a text.

  * `canonicalJson_congr`: `canonical_json` sees no order of keys;
  * `canonicalText` is `canonical_json(d).decode("utf-8")`, and `loads_canonicalText`
    reads it back with sorted keys.
-/
import NthDao.CanonicalJson
import NthDao.Py.Norm

namespace NthDao

open Py

/-- `canonical_json` sees no order of keys. -/
theorem canonicalJson_congr {v w : Json} (hv : v.isObj = true) (hw : w.isObj = true)
    (h : v.norm = w.norm) : canonicalJson v = canonicalJson w := by
  rw [Json.eq_obj_of_isObj hv, Json.eq_obj_of_isObj hw] at h ⊢
  rw [canonicalJson, canonicalJson, ← Json.encodable_norm, h, Json.encodable_norm]

theorem canonicalJson_norm (v : Json) : canonicalJson v.norm = canonicalJson v := by
  by_cases h : v.isObj = true
  · exact canonicalJson_congr (by rwa [Json.isObj_norm]) h (Json.norm_norm v)
  · cases v with
    | obj kvs => exact absurd rfl h
    | _ => rfl

/-- `canonical_json(d).decode("utf-8")`. -/
def canonicalText (kvs : Fields) : Option String :=
  if (Json.obj kvs).encodable then some (String.ofList (dumps false (Json.obj kvs).norm)) else none

theorem canonicalText_eq (kvs : Fields) : canonicalText kvs =
    ((canonicalJson (.obj kvs)).bind utf8Decode).map String.ofList := by
  rw [canonicalText, canonicalJson]
  split_ifs <;> simp

theorem canonicalText_congr {xs ys : Fields} (h : (Json.obj xs).norm = (Json.obj ys).norm) :
    canonicalText xs = canonicalText ys := by
  rw [canonicalText, canonicalText, ← Json.encodable_norm, h, Json.encodable_norm]

theorem canonicalText_eq_some {kvs : Fields} {t : String} (h : canonicalText kvs = some t) :
    (Json.obj kvs).encodable = true ∧ chars t = dumps false (Json.obj kvs).norm := by
  rw [canonicalText] at h
  split_ifs at h with he
  refine ⟨he, ?_⟩
  rw [← Option.some.inj h, chars_eq, String.toList_ofList]

/-- Canonical text reads back. -/
theorem loads_canonicalText {kvs : Fields} (hw : (Json.obj kvs).wf = true) {t : String}
    (h : canonicalText kvs = some t) : loads (chars t) = some (Json.obj kvs).norm := by
  obtain ⟨he, ht⟩ := canonicalText_eq_some h
  rw [ht]
  exact loads_dumps false (Json.wf_norm _ hw) (by rw [Json.encodable_norm, he])

end NthDao
