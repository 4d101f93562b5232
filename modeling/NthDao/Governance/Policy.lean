/-
  Governance policies and their evaluation (`nth_dao/governance/policy.py`,
  `nth_dao/governance/engine.py`).

  A policy gives roles to principals and grants to roles, and constrains some
  actions.

  * `Policy.fromDict` reads one; where `roles` or `grants` is no map it raises
    what its callers do not catch;
  * `can` is the decision for one principal, with an empty context;
  * `fromDict_mapped`: nothing of the kind happens where they are maps.
-/
import NthDao.CapToken
import NthDao.Py.Dict

namespace NthDao.Governance

open Py

variable (H : Host)

/-! ## Policies -/

/-- A `Policy`. -/
structure Policy where
  roles : Dict String (List String) := []
  grants : Dict String (List String) := []
  constraints : Dict String Fields := []
  deriving DecidableEq

/-- The exceptions of the reader. -/
inductive Raised where
  | typeError (message : String)
  | attributeError (message : String)
  deriving DecidableEq

/-- `d[k] = f(v)` for the items of a dict, in order. -/
def readItems {ν : Type} (read : String → Json → Except Raised ν) :
    Fields → Except Raised (Dict String ν)
  | kvs => kvs.foldlM (fun out p => return out.set p.1 (← read p.1 p.2)) []

/-- `_str_list_map`: whatever is not true stands for an empty map, and a value
    that has no `items` raises. -/
def strListMap (raw : Json) : Except Raised (Dict String (List String)) :=
  if !truthy raw then .ok []
  else
    match raw with
    | .obj kvs => readItems (fun k v => match v with
        | .arr xs => .ok (xs.map (toStr H.isprintable))
        | _ => .error (.typeError ("policy map " ++ String.ofList (reprStr H.isprintable k) ++
            " must be str→list"))) kvs
    | _ => .error (.attributeError "object has no attribute 'items'")

/-- `constraints` of a policy. -/
def constraintMap (raw : Json) : Except Raised (Dict String Fields) :=
  if !truthy raw then .ok []
  else
    match raw with
    | .obj kvs => readItems (fun _ v => match v with
        | .obj c => .ok c
        | _ => .error (.typeError "constraints must be action(str)→dict")) kvs
    | _ => .error (.typeError "constraints must be a dict")

/-- `Policy.from_dict`. -/
def Policy.fromDict : Json → Except Raised Policy
  | .obj data => do
    let constraints ← constraintMap (Json.get data "constraints")
    let roles ← strListMap H (Json.get data "roles")
    let grants ← strListMap H (Json.get data "grants")
    return { roles, grants, constraints }
  | _ => .error (.typeError "policy must be a dict")

/-- `roles_of`. -/
def Policy.rolesOf (p : Policy) (did : String) : List String := ((p.roles.get did).getD []).dedup

/-! ## Decisions -/

structure Decision where
  allowed : Bool
  reason : String
  deriving DecidableEq

/-- `ACTION_POLICY_AMEND`. -/
def actionPolicyAmend : String := "policy.amend"

/-- `_action_matches`. -/
def actionMatches (pattern action : String) : Bool :=
  if pattern = "*" then true
  else if (chars ".*").isSuffixOf (chars pattern) then
    (chars pattern).dropLast.isPrefixOf (chars action)
  else pattern == action

/-- `granted_actions`. -/
def grantedActions (p : Policy) (did : String) : List String :=
  ((p.rolesOf did).flatMap fun role => (p.grants.get role).getD []).dedup

/-- `can`, with its default context: a constrained amount is missing. -/
def can (p : Policy) (did action : String) : Decision :=
  let roles := p.rolesOf did
  let quoted := String.ofList (reprStr H.isprintable action)
  if roles = [] then ⟨false, "principal has no roles"⟩
  else if !(grantedActions p did).any (actionMatches · action) then
    ⟨false, "roles " ++ toStr H.isprintable (.arr ((CapToken.sortedSet roles).map .str)) ++
      " grant no match for " ++ quoted⟩
  else
    let c := (p.constraints.get action).getD []
    if (Json.lookup c "quorum").isSome then
      ⟨false, quoted ++ " requires quorum; use evaluate_quorum()"⟩
    else if (Json.lookup c "max_minor").isSome then
      ⟨false, quoted ++ " needs int context['amount_minor']"⟩
    else ⟨true, "ok"⟩

/-! ## What the reader raises -/

/-- `roles` and `grants` are maps, or stand for empty ones. -/
def Mapped (data : Fields) : Prop :=
  ∀ k ∈ ["roles", "grants"], truthy (Json.get data k) = true → (Json.get data k).isObj = true

instance (data : Fields) : Decidable (Mapped data) := by
  unfold Mapped
  infer_instance

theorem readItems_error {ν : Type} {read : String → Json → Except Raised ν} {kvs : Fields}
    (hread : ∀ k v e, read k v = .error e → ∃ m, e = .typeError m) {e : Raised}
    (h : readItems read kvs = .error e) : ∃ m, e = .typeError m := by
  unfold readItems at h
  generalize ([] : Dict String ν) = out at h
  induction kvs generalizing out with
  | nil => cases h
  | cons p kvs ih =>
    rw [List.foldlM_cons] at h
    cases hp : read p.1 p.2 with
    | error e' =>
      rw [hp] at h
      cases h
      exact hread p.1 p.2 _ hp
    | ok v =>
      rw [hp] at h
      exact ih _ h

theorem strListMap_error {raw : Json} (hm : truthy raw = true → raw.isObj = true) {e : Raised}
    (h : strListMap H raw = .error e) : ∃ m, e = .typeError m := by
  unfold strListMap at h
  split_ifs at h with ht
  rw [Bool.not_eq_true, Bool.not_eq_eq_eq_not, Bool.not_false] at ht
  cases raw with
  | obj kvs =>
    refine readItems_error (fun k v e' he' => ?_) h
    cases v with
    | arr xs => cases he'
    | _ => exact ⟨_, (Except.error.inj he').symm⟩
  | _ => exact absurd (hm ht) (by simp [Json.isObj])

theorem constraintMap_error {raw : Json} {e : Raised} (h : constraintMap raw = .error e) :
    ∃ m, e = .typeError m := by
  unfold constraintMap at h
  split_ifs at h
  cases raw with
  | obj kvs =>
    refine readItems_error (fun k v e' he' => ?_) h
    cases v with
    | obj c => cases he'
    | _ => exact ⟨_, (Except.error.inj he').symm⟩
  | _ => exact ⟨_, (Except.error.inj h).symm⟩

/-- Where the maps are maps, a policy raises nothing but `TypeError`. -/
theorem fromDict_mapped {data : Fields} (hm : Mapped data) {e : Raised}
    (h : Policy.fromDict H (.obj data) = .error e) : ∃ m, e = .typeError m := by
  rw [Policy.fromDict] at h
  cases hc : constraintMap (Json.get data "constraints") with
  | error e' =>
    rw [hc] at h
    cases h
    exact constraintMap_error hc
  | ok constraints =>
    rw [hc, ok_bind] at h
    cases hr : strListMap H (Json.get data "roles") with
    | error e' =>
      rw [hr] at h
      cases h
      exact strListMap_error H (hm "roles" (by simp)) hr
    | ok roles =>
      rw [hr, ok_bind] at h
      cases hg : strListMap H (Json.get data "grants") with
      | error e' =>
        rw [hg] at h
        cases h
        exact strListMap_error H (hm "grants" (by simp)) hg
      | ok grants =>
        rw [hg] at h
        cases h

end NthDao.Governance
