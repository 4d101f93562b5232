/-
  Capability tokens (`nth_dao/cap_token.py`).

  An issuer signs that a subject may use some capabilities for a while.

  * `signCapToken`: issuing; the clock, the minted id and the nonce are arguments;
  * `verifyCapToken`: the checks at the time of a request, in their order;
  * `verifyCapToken_revoked`: a token with a revoked id passes for no arguments.

  `int()` of a text or a `float` is a parameter.
-/
import NthDao.CanonicalJson
import NthDao.Identity
import NthDao.Py.Check
import NthDao.Py.Str
import Mathlib.Data.List.Dedup
import Mathlib.Data.List.Sort

namespace NthDao

open Py

namespace CapToken

variable (H : Host)

def kindText : String := "nth-cap-token-v1"
def specText : String := "nth-dao/cap-token@1.0"

/-- `MAX_TTL_MS`: one week. -/
def maxTtlMs : ℤ := 7 * 24 * 60 * 60 * 1000

/-- The reasons of `verify_cap_token`. -/
inductive Reject where
  | missingField | badKind | notYetValid | expired | revoked | badIssuerDid | sigInvalid
  | capInsufficient | scopeMismatch | sigDecodeFailed
  deriving DecidableEq

/-- The texts of the reasons. -/
def Reject.text : Reject → String
  | missingField => "missing-field"
  | badKind => "bad-kind"
  | notYetValid => "not-yet-valid"
  | expired => "expired"
  | revoked => "revoked"
  | badIssuerDid => "bad-issuer-did"
  | sigInvalid => "sig-invalid"
  | capInsufficient => "cap-insufficient"
  | scopeMismatch => "scope-mismatch"
  | sigDecodeFailed => "sig-decode-failed"

/-- How `verify_cap_token` does not accept: a reason is returned, or an exception
    leaves it. -/
inductive Failure where
  | reject (reason : Reject)
  | raises (text : String)
  deriving DecidableEq

/-! ## Issuing -/

/-- `all(c.isalnum() or c == "-" for c in tid)`. -/
def idChars (tid : String) : Bool := (chars tid).all fun c => H.isalnum c || c == '-'

/-- `sorted(set(xs))`. -/
def sortedSet (xs : List String) : List String := xs.dedup.insertionSort (· ≤ ·)

/-- `s.strip()`. -/
def stripSpace (s : String) : String :=
  String.ofList ((((chars s).dropWhile isSpace).reverse.dropWhile isSpace).reverse)

/-- The entries of `scope_model_allowlist`, stripped. -/
def modelScope (models : List String) : Except String (List String) :=
  models.mapM fun m => do
    require (stripSpace m != "") "scope_model_allowlist entries must be non-empty after strip"
    return stripSpace m

/-- The token without its signature. -/
def body (k : H.SecretKey) (tid subjectDid : String) (caps : List String)
    (scopeTaskId scopeDao : String) (models : Option (List String)) (now ttlMs : ℤ)
    (nonce : String) : Fields :=
  [("kind", .str kindText), ("spec", .str specText), ("token_id", .str tid),
    ("issuer_did", .str (asDid H k)), ("subject_did", .str subjectDid),
    ("capabilities", .arr (caps.map .str)), ("scope_task_id", .str scopeTaskId),
    ("scope_dao", .str scopeDao), ("not_before", .int now), ("not_after", .int (now + ttlMs)),
    ("nonce", .str nonce)] ++
  match models with
  | some ms => [("scope_model_allowlist", .arr ((sortedSet ms).map .str))]
  | none => []

/-- `sign_cap_token`. -/
def signCapToken (k : H.SecretKey) (subjectDid : String) (capabilities : List String)
    (scopeTaskId scopeDao : String) (models : Option (List String)) (ttlMs : ℤ)
    (tokenId minted : String) (now : ℤ) (nonce : String) : Except String Fields := do
  let caps := sortedSet capabilities
  require (!caps.isEmpty) "at least one capability required"
  require (caps.all (· != "")) "capability entries must be non-empty strings"
  require (0 < ttlMs) "ttl_ms must be a positive int"
  require (ttlMs ≤ maxTtlMs) "ttl_ms exceeds maximum 604800000 ms (1 week)"
  require (isDidKey subjectDid) "subject_did must be a did:key"
  let rid := if tokenId = "" then minted else tokenId
  require (idChars H rid) "token_id must be alphanumeric (or dash)"
  let models ← match models with
    | some ms => (modelScope ms).map some
    | none => pure none
  let token := body H k rid subjectDid caps scopeTaskId scopeDao models now ttlMs nonce
  let payload ← expect (canonicalJson (.obj token)) "canonical_json"
  return token ++ [("sig", .str (signText H k payload))]

/-! ## Verifying -/

def requiredFields : List String :=
  ["kind", "issuer_did", "subject_did", "capabilities", "not_before", "not_after", "sig",
    "token_id"]

variable (intText : String → Except String (Option ℤ))

/-- `int(v)`; `none` for a `TypeError` or a `ValueError`. -/
def intOf : Json → Except String (Option ℤ)
  | .int n => .ok (some n)
  | .bool b => .ok (some (if b then 1 else 0))
  | .str s => intText s
  | .other t => intText t
  | _ => .ok none

/-- A time of the token. -/
def timeOf (token : Fields) (field : String) : Except Failure ℤ :=
  match intOf intText (Json.get token field) with
  | .ok (some n) => .ok n
  | .ok none => .error (.reject .missingField)
  | .error text => .error (.raises text)

/-- A list or an object has no hash. -/
def unhashable : Json → Bool
  | .arr _ => true
  | .obj _ => true
  | _ => false

/-- `set(v)`. -/
def setOf : Json → Except Failure (List Json)
  | .arr xs => if xs.any unhashable then .error (.raises "unhashable type") else .ok xs
  | .str s => .ok ((chars s).map fun c => .str (String.ofList [c]))
  | .obj kvs => .ok (kvs.map fun p => .str p.1)
  | _ => .error (.raises "object is not iterable")

/-- The scope does not exclude what is required; without a requirement, or with an
    empty scope, nothing is excluded. -/
def inScope (token : Fields) (field required : String) : Bool :=
  let scope := Json.getD token field (.str "")
  required == "" || !truthy scope || scope.eqStr required

/-- `verify_cap_token`. -/
def verifyCapToken (token : Fields) (now : ℤ) (revokedIds : List String)
    (requiredCapabilities : Option (List String)) (requiredTaskId requiredDao : String) :
    Except Failure Unit := do
  require (requiredFields.all fun f => (Json.lookup token f).isSome) (.reject .missingField)
  require ((Json.get token "kind").eqStr kindText) (.reject .badKind)
  let nbf ← timeOf intText token "not_before"
  let exp ← timeOf intText token "not_after"
  require (nbf ≤ now) (.reject .notYetValid)
  require (now ≤ exp) (.reject .expired)
  require (revokedIds.isEmpty || !unhashable (Json.get token "token_id"))
    (.raises "unhashable type")
  require (!revokedIds.any fun t => (Json.get token "token_id").eqStr t) (.reject .revoked)
  let caps ← setOf (Json.get token "capabilities")
  require ((requiredCapabilities.getD []).all fun c => caps.any fun x => x.eqStr c)
    (.reject .capInsufficient)
  require (inScope token "scope_task_id" requiredTaskId) (.reject .scopeMismatch)
  require (inScope token "scope_dao" requiredDao) (.reject .scopeMismatch)
  let issuerDid ← expect (Json.get token "issuer_did").asStr (.reject .badIssuerDid)
  let pubkey ← expect (decodeDidKey issuerDid) (.reject .badIssuerDid)
  let sig ← expect (b64uDecode (toStr H.isprintable (Json.get token "sig")))
    (.reject .sigDecodeFailed)
  let payload ← expect (canonicalJson (.obj (token.filter fun p => p.1 != "sig")))
    (.reject .sigInvalid)
  require (sig.length == 64 && H.verify pubkey payload sig) (.reject .sigInvalid)

variable {H intText}

/-- A token with a revoked id does not pass, whatever else is asked. -/
theorem verifyCapToken_revoked {token : Fields} {t : String} {revokedIds : List String}
    (hid : Json.get token "token_id" = .str t) (ht : t ∈ revokedIds) (now : ℤ)
    (required : Option (List String)) (taskId dao : String) :
    verifyCapToken H intText token now revokedIds required taskId dao ≠ .ok () := by
  intro h
  simp only [verifyCapToken, bind_eq_ok, require_eq_ok] at h
  obtain ⟨_, -, _, -, nbf, -, exp, -, _, -, _, -, _, -, _, hr, -⟩ := h
  rw [Bool.not_eq_true', List.any_eq_false] at hr
  exact hr t ht (by simp [hid])

end CapToken

end NthDao
