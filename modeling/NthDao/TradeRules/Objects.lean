/-
  Directories of content-addressed objects, as the recognition, policy and proof stores
  keep them: a file `<64 hexadecimal digits>.json` for every object.

  * `objectName` and `isObjectName`: the name of an object, and the names that a listing
    accepts;
  * `listObjects`: the listing, which refuses a directory with any other entry;
  * `Dir.Grows`: every object is still there.

  * `not_isObjectName_temporary`: a temporary file is no object, so that it spoils the
    listing (`listObjects_residue`).
-/
import Mathlib.Data.List.Sort
import Mathlib.Data.String.Basic
import NthDao.Directory
import NthDao.TradeRules.Signing

namespace NthDao.TradeRules

open Py Directory

/-- `f"{digest[7:]}.json"`. -/
def objectName (digest : String) : String := String.ofList ((chars digest).drop 7) ++ ".json"

/-- The suffix `.json` and a stem of 64 lowercase hexadecimal digits. -/
def isObjectName (name : String) : Bool :=
  isHex 64 ((chars name).take 64) && (chars name).drop 64 == ".json".toList

/-- `sorted(root.iterdir())` with the checks on every entry, `none` where one fails. -/
def listObjects (d : Dir Bytes) : Option (List (String × Bytes)) :=
  let files := d.entries.insertionSort fun p q => p.1 ≤ q.1
  if files.all fun p => isObjectName p.1 then some files else none

theorem listObjects_eq_some {d : Dir Bytes} {files : List (String × Bytes)}
    (h : listObjects d = some files) : files.Perm d.entries ∧ ∀ p ∈ files, isObjectName p.1 = true := by
  rw [listObjects] at h
  split_ifs at h with hall
  cases h
  exact ⟨List.perm_insertionSort _ _, List.all_eq_true.1 hall⟩

theorem exists_listObjects {d : Dir Bytes} :
    (∃ files, listObjects d = some files) ↔ ∀ name ∈ d.names, isObjectName name = true := by
  have hperm := List.perm_insertionSort (fun p q : String × Bytes => p.1 ≤ q.1) d.entries
  constructor
  · rintro ⟨files, h⟩ name hn
    obtain ⟨hp, hall⟩ := listObjects_eq_some h
    obtain ⟨p, hp', rfl⟩ := List.mem_map.1 hn
    exact hall p (hp.mem_iff.2 hp')
  · intro h
    refine ⟨_, if_pos (List.all_eq_true.2 fun p hp => ?_)⟩
    exact h p.1 (List.mem_map.2 ⟨p, hperm.mem_iff.1 hp, rfl⟩)

theorem length_of_isObjectName {name : String} (h : isObjectName name = true) : name.length = 69 := by
  simp only [isObjectName, isHex, chars_eq, Bool.and_eq_true, beq_iff_eq] at h
  have hd := congrArg List.length h.2
  have ht := h.1.1
  rw [List.length_drop] at hd
  rw [List.length_take] at ht
  rw [← String.length_toList]
  change _ = 5 at hd
  omega

/-- The name of an object. -/
theorem isObjectName_objectName {digest : String} (h : isHex 64 ((chars digest).drop 7) = true) :
    isObjectName (objectName digest) = true := by
  have hl : ((chars digest).drop 7).length = 64 := by
    rw [isHex, Bool.and_eq_true, beq_iff_eq] at h
    exact h.1
  simp only [isObjectName, objectName, chars_eq, String.toList_append, String.toList_ofList,
    Bool.and_eq_true, beq_iff_eq] at h hl ⊢
  rw [List.take_left' hl, List.drop_left' hl]
  exact ⟨h, rfl⟩

theorem objectName_injective {a b : String} (ha : startsWith "sha256:" a = true)
    (hb : startsWith "sha256:" b = true) (h : objectName a = objectName b) : a = b := by
  have hsplit : ∀ {s : String}, startsWith "sha256:" s = true →
      s.toList = "sha256:".toList ++ s.toList.drop 7 := by
    intro s hs
    rw [startsWith, chars_eq, chars_eq, List.isPrefixOf_iff_prefix] at hs
    obtain ⟨t, ht⟩ := hs
    rw [← ht]
    rfl
  rw [objectName, objectName, chars_eq, chars_eq] at h
  have hdrop : a.toList.drop 7 = b.toList.drop 7 := by
    have := congrArg String.toList h
    simpa using this
  rw [← String.toList_inj, hsplit ha, hsplit hb, hdrop]

/-- A temporary file is no object. -/
theorem not_isObjectName_temporary {name token : String} (h : isObjectName name = true) :
    isObjectName (name ++ "." ++ token ++ ".tmp") = false := by
  rw [Bool.eq_false_iff]
  intro ht
  have h₁ := length_of_isObjectName h
  have h₂ := length_of_isObjectName ht
  simp only [String.length_append, h₁] at h₂
  change 69 + 1 + token.length + 4 = 69 at h₂
  omega

variable {δ : Type} [DecidableEq δ]

/-- **What a crash leaves inside an atomic write of an object spoils the listing.** -/
theorem listObjects_residue {dir : δ} {name : String} {disk disk' : δ → Dir Bytes}
    (hname : isObjectName name = true) (h : Residue dir name disk disk') :
    listObjects (disk' dir) = none := by
  obtain ⟨token, raw, -, rfl⟩ := h
  cases hl : listObjects (onDir dir (fun d => d.set (name ++ "." ++ token ++ ".tmp") raw) disk dir) with
  | none => rfl
  | some files =>
    have hall := exists_listObjects.1 ⟨files, hl⟩ (name ++ "." ++ token ++ ".tmp") (by
      simp only [onDir, Function.update_self]
      exact Dir.mem_names_set.2 (.inl rfl))
    rw [not_isObjectName_temporary hname] at hall
    cases hall

/-! ## Growth -/

/-- Every object of `d` is in `d'`. -/
def Grows (d d' : Dir Bytes) : Prop :=
  ∀ name raw, isObjectName name = true → d.get name = some raw → d'.get name = some raw

theorem Grows.refl (d : Dir Bytes) : Grows d d := fun _ _ _ h => h

theorem Grows.trans {d d' d'' : Dir Bytes} (h : Grows d d') (h' : Grows d' d'') : Grows d d'' :=
  fun name raw hn hd => h' name raw hn (h name raw hn hd)

/-- A new object, or a temporary file. -/
theorem grows_set {d : Dir Bytes} {name : String} (h : isObjectName name = true → name ∉ d.names)
    (raw : Bytes) : Grows d (d.set name raw) := by
  intro other raw' hn hd
  rw [Dir.get_set]
  split_ifs with he
  · subst he
    rw [Dir.get_eq_none.2 (h hn)] at hd
    cases hd
  · exact hd

end NthDao.TradeRules
