/-
  The JSON Schema subset of the plugin core (`nth_dao/plugins/schema.py`).

  * `Schema`: the supported keywords, one constructor a type;
  * `validateInstance`: whether a value is an instance, `PluginSchemaError` otherwise;
  * `Schema.maxQuotes`: how many quotes and backslashes the text of an instance
    has at most, and so how it grows inside another text.
-/
import Mathlib.Algebra.Order.BigOperators.Group.List
import Mathlib.Data.List.Perm.Subperm
import NthDao.Py.Quotes

namespace NthDao

namespace Plugins

open Py

/-- A schema: `additionalProperties` is false of every object. -/
inductive Schema where
  | object (properties : List (String × Schema)) (required : List String)
  | array (minItems maxItems : ℕ) (items : Schema)
  | string (minLength maxLength : ℕ)
  | choice (enum : List String)
  | integer (minimum maximum : ℤ)
  | boolean

namespace Schema

/-- Induction on schemas, with a hypothesis for every property. -/
theorem ind {P : Schema → Prop} (object : ∀ ps r, (∀ p ∈ ps, P p.2) → P (.object ps r))
    (array : ∀ lo hi s, P s → P (.array lo hi s)) (string : ∀ lo hi, P (.string lo hi))
    (choice : ∀ es, P (.choice es)) (integer : ∀ lo hi, P (.integer lo hi)) (boolean : P .boolean) :
    ∀ s, P s :=
  @Schema.rec P (fun ps => ∀ p ∈ ps, P p.2) (fun p => P p.2) object array string choice integer
    boolean (by simp) (fun _ _ h hs => List.forall_mem_cons.2 ⟨h, hs⟩) (fun _ _ h => h)

end Schema

mutual
/-- `validate_instance`. -/
def validateInstance : Schema → Json → Bool
  | .object properties required, v =>
    v.isObj && required.all (fun k => (Json.lookup v.fields k).isSome) &&
      v.fields.all (fun p => (properties.map Prod.fst).contains p.1) &&
      validateProperties properties v.fields
  | .array minItems maxItems items, .arr xs =>
    decide (minItems ≤ xs.length) && decide (xs.length ≤ maxItems) &&
      xs.all fun x => validateInstance items x
  | .string minLength maxLength, .str s => decide (minLength ≤ len s) && decide (len s ≤ maxLength)
  | .choice enum, .str s => enum.contains s
  | .integer minimum maximum, .int n => decide (minimum ≤ n) && decide (n ≤ maximum)
  | .boolean, .bool _ => true
  | _, _ => false
/-- The properties that are present. -/
def validateProperties : List (String × Schema) → Fields → Bool
  | [], _ => true
  | (k, s) :: ps, d =>
    ((Json.lookup d k).all fun v => validateInstance s v) && validateProperties ps d
end

theorem validateProperties_iff {ps : List (String × Schema)} {d : Fields} :
    validateProperties ps d = true ↔
      ∀ p ∈ ps, ∀ v, Json.lookup d p.1 = some v → validateInstance p.2 v = true := by
  induction ps with
  | nil => simp [validateProperties]
  | cons p ps ih =>
    obtain ⟨k, s⟩ := p
    rw [validateProperties, Bool.and_eq_true, ih, List.forall_mem_cons]
    refine and_congr_left fun _ => ?_
    cases Json.lookup d k <;> simp

/-- What an instance of an object schema is. -/
theorem validateInstance_object {ps : List (String × Schema)} {required : List String} {v : Json} :
    validateInstance (.object ps required) v = true ↔ v.isObj = true ∧
      (∀ k ∈ required, (Json.lookup v.fields k).isSome = true) ∧
      (∀ p ∈ v.fields, p.1 ∈ ps.map Prod.fst) ∧
      ∀ p ∈ ps, ∀ w, Json.lookup v.fields p.1 = some w → validateInstance p.2 w = true := by
  rw [validateInstance, Bool.and_eq_true, Bool.and_eq_true, Bool.and_eq_true, validateProperties_iff,
    List.all_eq_true, List.all_eq_true, and_assoc, and_assoc]
  simp only [List.contains_iff_mem]

/-! ## Texts inside texts -/

/-- The quotes and backslashes that the text of an instance has at most, for a
    schema without objects. -/
def Schema.maxQuotes : Schema → Option ℕ
  | .object .. => none
  | .array _ maxItems items => items.maxQuotes.map (maxItems * ·)
  | .string _ maxLength => some (2 + 2 * maxLength)
  | .choice enum => some (2 + 2 * (enum.map String.length).sum)
  | .integer .. | .boolean => some 0

/-- The quotes of an object, from a bound for each of its keys. -/
theorem quotes_obj_le {d : Fields} (hd : (d.map Prod.fst).Nodup) {ks : List String}
    (hks : ∀ p ∈ d, p.1 ∈ ks) {g : String → ℕ}
    (hg : ∀ p ∈ d, quotes (dumps false p.2) ≤ g p.1) :
    quotes (dumps false (.obj d)) ≤ (ks.map fun k => 2 + 2 * k.length + g k).sum := by
  have hsub : (d.map Prod.fst).Subperm ks := by
    refine List.subperm_of_subset hd fun k hk => ?_
    obtain ⟨p, hp, rfl⟩ := List.mem_map.1 hk
    exact hks p hp
  obtain ⟨l, hl, hsub⟩ := hsub
  have hperm := hl.symm.map fun k => 2 + 2 * k.length + g k
  have hle := (hsub.map fun k => 2 + 2 * k.length + g k).sum_le_sum fun _ _ => Nat.zero_le _
  rw [quotes_dumps_obj]
  refine le_trans ?_ (hperm.sum_eq.le.trans hle)
  rw [List.map_map]
  refine List.sum_le_sum fun p hp => ?_
  have h₁ := quotes_dumpsStr_le p.1
  have h₂ := hg p hp
  simp only [Function.comp_apply]
  omega

/-- The text of an instance has no more quotes than its schema allows. -/
theorem quotes_le_of_validateInstance (s : Schema) : ∀ {v : Json} {n : ℕ}, s.maxQuotes = some n →
    validateInstance s v = true → quotes (dumps false v) ≤ n := by
  induction s using Schema.ind with
  | object ps required => rintro _ _ ⟨⟩
  | array lo hi s ih =>
    intro v n hn h
    obtain ⟨m, hm, rfl⟩ := Option.map_eq_some_iff.1 hn
    cases v with
    | arr xs =>
      simp only [validateInstance, Bool.and_eq_true, decide_eq_true_eq, List.all_eq_true] at h
      have hle := List.sum_le_card_nsmul (xs.map fun x => quotes (dumps false x)) m fun n hn => by
        obtain ⟨x, hx, rfl⟩ := List.mem_map.1 hn
        exact ih hm (h.2 x hx)
      rw [List.length_map, Nat.nsmul_eq_mul] at hle
      rw [quotes_dumps_arr]
      exact hle.trans (Nat.mul_le_mul_right _ h.1.2)
    | _ => simp [validateInstance] at h
  | string lo hi =>
    rintro v n ⟨⟩ h
    cases v with
    | str t =>
      simp only [validateInstance, Bool.and_eq_true, decide_eq_true_eq, len_eq] at h
      have := quotes_dumpsStr_le t
      rw [dumps]
      omega
    | _ => simp [validateInstance] at h
  | choice es =>
    rintro v n ⟨⟩ h
    cases v with
    | str t =>
      rw [validateInstance, List.contains_iff_mem] at h
      have hlen := List.single_le_sum (l := es.map String.length) (fun _ _ => Nat.zero_le _)
        t.length (List.mem_map_of_mem h)
      have := quotes_dumpsStr_le t
      rw [dumps]
      omega
    | _ => simp [validateInstance] at h
  | integer lo hi =>
    rintro v n ⟨⟩ h
    cases v with
    | int n => rw [quotes_dumps_int]
    | _ => simp [validateInstance] at h
  | boolean =>
    rintro v n ⟨⟩ h
    cases v with
    | bool b => cases b <;> exact Nat.zero_le _
    | _ => simp [validateInstance] at h

end Plugins

end NthDao
