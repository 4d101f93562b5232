/-
  Directories of files, and files that are replaced atomically.

  A disk is a family of directories.  `atomicWrite` is the usual writer of a file: a
  temporary file `<name>.<token>.tmp` in the same directory (`mkstemp`), its bytes, and
  `os.replace`, each a durable step.

  * `triple_atomicWrite`: it leaves the file with its bytes, or, cut in front of its
    first step, the old disk, or, cut behind it, a temporary file more (`Residue`);
  * `atomicWrite_eq`: with steps enough it returns.
-/
import Mathlib.Logic.Function.Basic
import NthDao.Crash
import NthDao.Py.Dict

namespace Directory

open Py Crash

variable {β : Type}

/-- The files of a directory with their bytes. -/
structure Dir (β : Type) where
  entries : Dict String β
  nodup : (entries.map Prod.fst).Nodup

namespace Dir

def empty : Dir β := ⟨[], List.nodup_nil⟩

def names (d : Dir β) : List String := d.entries.map Prod.fst

/-- The bytes of a file. -/
def get (d : Dir β) (name : String) : Option β := Dict.get d.entries name

/-- A file with new bytes. -/
def set (d : Dir β) (name : String) (raw : β) : Dir β :=
  ⟨Dict.set d.entries name raw, Dict.nodup_set d.nodup name raw⟩

/-- A file less. -/
def remove (d : Dir β) (name : String) : Dir β :=
  ⟨Dict.pop d.entries name, d.nodup.sublist (List.filter_sublist.map _)⟩

theorem get_isSome {d : Dir β} {name : String} : (d.get name).isSome = true ↔ name ∈ d.names := by
  rw [get, Dict.get_isSome, Dict.has_iff]
  rfl

theorem get_eq_none {d : Dir β} {name : String} : d.get name = none ↔ name ∉ d.names :=
  Dict.get_eq_none

theorem mem_entries {d : Dir β} {name : String} {raw : β} :
    (name, raw) ∈ d.entries ↔ d.get name = some raw :=
  ⟨Dict.get_of_mem d.nodup, Dict.mem_of_get⟩

theorem get_set (d : Dir β) (name other : String) (raw : β) :
    (d.set name raw).get other = if other = name then some raw else d.get other :=
  Dict.get_set ..

theorem get_remove (d : Dir β) (name other : String) :
    (d.remove name).get other = if other = name then none else d.get other :=
  Dict.get_pop ..

theorem mem_names_set {d : Dir β} {name other : String} {raw : β} :
    other ∈ (d.set name raw).names ↔ other = name ∨ other ∈ d.names := by
  rw [← get_isSome, get_set]
  split_ifs with h
  · simp [h]
  · simp [h, get_isSome]

theorem entries_set_of_not_mem {d : Dir β} {name : String} (h : name ∉ d.names) (raw : β) :
    (d.set name raw).entries = d.entries ++ [(name, raw)] :=
  Dict.set_of_not_mem h raw

theorem ext {d e : Dir β} (h : d.entries = e.entries) : d = e := by
  cases d
  cases e
  cases h
  rfl

theorem remove_set (d : Dir β) (name : String) (raw : β) :
    (d.set name raw).remove name = d.remove name :=
  ext (Dict.pop_set ..)

theorem set_set (d : Dir β) (name : String) (raw raw' : β) :
    (d.set name raw).set name raw' = d.set name raw' :=
  ext (Dict.set_set ..)

theorem remove_of_not_mem {d : Dir β} {name : String} (h : name ∉ d.names) : d.remove name = d :=
  ext (Dict.pop_of_not_mem h)

end Dir

/-! ## Temporary names -/

/-- The names that `mkstemp` picks behind a prefix, among the names there are. -/
structure TempNames where
  token : String → List String → String
  fresh : ∀ pre names, pre ++ token pre names ++ ".tmp" ∉ names

/-- The name of the temporary file. -/
def TempNames.pick (T : TempNames) (name : String) (names : List String) : String :=
  name ++ "." ++ T.token (name ++ ".") names ++ ".tmp"

theorem TempNames.pick_fresh (T : TempNames) (name : String) (names : List String) :
    T.pick name names ∉ names := T.fresh _ _

theorem length_le_sum {names : List String} {name : String} (h : name ∈ names) :
    name.length ≤ (names.map String.length).sum := by
  induction names with
  | nil => cases h
  | cons n names ih =>
    rw [List.map_cons, List.sum_cons]
    rcases List.mem_cons.1 h with rfl | h
    · exact Nat.le_add_right _ _
    · exact (ih h).trans (Nat.le_add_left _ _)

/-- Names that are longer than all there are. -/
def TempNames.long : TempNames where
  token _ names := String.ofList (List.replicate (names.map String.length).sum 'x')
  fresh pre names h := by
    have hlen := length_le_sum h
    simp only [String.length_append, String.length_ofList, List.length_replicate] at hlen
    change _ + _ + 4 ≤ _ at hlen
    omega

/-! ## Atomic writes -/

variable {δ ε : Type}

/-- Where a crash strikes: outside the atomic writes, or inside one to a file of `dir`. -/
inductive Site (δ : Type) where
  | outside
  | inside (dir : δ)

variable [DecidableEq δ]

/-- A directory changed. -/
def onDir (dir : δ) (f : Dir β → Dir β) (disk : δ → Dir β) : δ → Dir β :=
  Function.update disk dir (f (disk dir))

/-- `_atomic_write`: the file is empty, holds its bytes, has its name. -/
def atomicWrite (T : TempNames) (blank : β) (dir : δ) (name : String) (raw : β) :
    Op (δ → Dir β) (Site δ) ε Unit := do
  let disk ← Op.get
  let temporary := T.pick name (disk dir).names
  Op.write .outside (onDir dir fun d => d.set temporary blank)
  Op.write (.inside dir) (onDir dir fun d => d.set temporary raw)
  Op.write (.inside dir) (onDir dir fun d => (d.remove temporary).set name raw)

/-- What a crash inside an atomic write leaves: one file more, with a temporary name. -/
def Residue (dir : δ) (name : String) (disk disk' : δ → Dir β) : Prop :=
  ∃ token raw, name ++ "." ++ token ++ ".tmp" ∉ (disk dir).names ∧
    disk' = onDir dir (fun d => d.set (name ++ "." ++ token ++ ".tmp") raw) disk

variable {T : TempNames} {blank raw : β} {dir : δ} {name : String} {disk : δ → Dir β}

theorem onDir_onDir (f g : Dir β → Dir β) :
    onDir dir f (onDir dir g disk) = onDir dir (fun d => f (g d)) disk := by
  simp [onDir]

/-- An atomic write with steps enough. -/
theorem atomicWrite_eq (n : ℕ) : atomicWrite (ε := ε) T blank dir name raw (n + 3) disk =
    ⟨.returned (), n, onDir dir (fun d => d.set name raw) disk⟩ := by
  have hfresh := T.pick_fresh name (disk dir).names
  have h : (((disk dir).set (T.pick name (disk dir).names) blank).set (T.pick name (disk dir).names)
      raw).remove (T.pick name (disk dir).names) = disk dir := by
    rw [Dir.remove_set, Dir.remove_set, Dir.remove_of_not_mem hfresh]
  change (⟨.returned (), n, onDir dir _ (onDir dir _ (onDir dir _ disk))⟩ : Outcome _ _ _ _) = _
  rw [onDir_onDir, onDir_onDir]
  simp only [onDir, h]

/-- **An atomic write is done, or not begun, or leaves a temporary file.** -/
theorem triple_atomicWrite : Triple (· = disk)
    (atomicWrite T blank dir name raw : Op (δ → Dir β) (Site δ) ε Unit)
    (fun _ s => s = onDir dir (fun d => d.set name raw) disk) (fun _ _ => False)
    (fun k s => (k = .outside ∧ s = disk) ∨ (k = .inside dir ∧ Residue dir name disk s)) := by
  rintro n s rfl
  have hfresh := T.pick_fresh name (s dir).names
  match n with
  | 0 => exact .inl ⟨rfl, rfl⟩
  | 1 => exact .inr ⟨rfl, _, blank, hfresh, rfl⟩
  | 2 =>
    refine .inr ⟨rfl, _, raw, hfresh, ?_⟩
    change onDir dir (fun d => d.set (T.pick name (s dir).names) raw)
      (onDir dir (fun d => d.set (T.pick name (s dir).names) blank) s) = _
    rw [onDir_onDir]
    simp only [Dir.set_set]
    rfl
  | n + 3 =>
    rw [atomicWrite_eq]
    rfl

end Directory
