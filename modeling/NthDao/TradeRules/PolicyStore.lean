/-
  The policy store (`nth_dao/trade_rules/recognition_policy_store.py`): the revisions of a
  policy as content-addressed files, and a head that names the last one.

  * `loadChain`: the revisions of a directory in order, with the checks on the whole;
  * `verifyHead`: the head against the chain, rolled forward where it lags;
  * `append`, `listAll`, `openOrCreate`: the operations, each under the lock of the store.

  * `loadChain_eq_ok`: a loaded chain holds every file of the directory and is authorised
    (`Authorised`);
  * `policy_store_append_only`: over all runs with crashes a returned chain is authorised and
    extends the earlier ones, and a chain cut behind its head is not returned any more.
-/
import NthDao.Reach
import NthDao.TradeRules.Objects
import NthDao.TradeRules.Policy

namespace NthDao.TradeRules

open Py Directory Crash

variable {H : Host}

/-! ## Constants -/

def policyHeadKind : String := "nth.dao.trade.rule-recognition-policy-head"
def policyStoreVersion : String := "1"
def genesisPolicyDigest : String := "sha256:" ++ String.ofList (List.replicate 64 '0')
def policyHeadFields : List String :=
  ["kind", "protocol_version", "node_did", "sequence", "policy_digest"]

/-- The exceptions of the store. -/
inductive PolicyStoreError where
  | error (text : String)
  | capacity (text : String)
  | corruption (text : String)
  | rejected (text : String)

/-- The directory of the store, and the one with its statements. -/
inductive PolicyDir where
  | root
  | statements
  deriving DecidableEq

abbrev PolicyDisk := PolicyDir → Dir Bytes

/-- An operation of the store. -/
abbrev PolicyOp := Op PolicyDisk (Site PolicyDir) PolicyStoreError

/-- An instance of `RuleRecognitionPolicyStore`. -/
structure PolicyStore where
  nodeDid : String
  maxRevisions : ℕ
  maxBytes : ℕ
  isDid : isDidKey nodeDid = true
  maxRevisions_pos : 0 < maxRevisions
  maxBytes_pos : 0 < maxBytes

/-- `if not c: raise e` in an operation. -/
def ensure (c : Bool) (e : PolicyStoreError) : PolicyOp Unit := Op.lift (require c e)

/-! ## The head -/

/-- A head that passed the checks on its metadata. -/
structure PolicyHead where
  nodeDid : String
  sequence : ℤ
  policyDigest : String
  isDid : isDidKey nodeDid = true
  sequence_le : 0 ≤ sequence

/-- `_head_document`. -/
def headDocument (nodeDid : String) (sequence : ℤ) (digest : String) : Fields :=
  [("kind", .str policyHeadKind), ("protocol_version", .str policyStoreVersion),
    ("node_did", .str nodeDid), ("sequence", .int sequence), ("policy_digest", .str digest)]

/-- `json.dumps(document, ensure_ascii=True, sort_keys=True)` with a newline. -/
def headBytes (document : Json) : Bytes := utf8 (dumps true document.norm ++ ['\n'])

/-- The checks on the metadata of a head. -/
def headMetadata (document : Fields) : Except PolicyStoreError PolicyHead := do
  require ((Json.get document "kind").eqStr policyHeadKind &&
      (Json.get document "protocol_version").eqStr policyStoreVersion)
    (.corruption "Recognition policy head metadata is invalid")
  let nodeDid ← expect (Json.get document "node_did").asStr
    (.corruption "Recognition policy head metadata is invalid")
  let sequence ← expect (Json.get document "sequence").asInt
    (.corruption "Recognition policy head metadata is invalid")
  let policyDigest ← expect (Json.get document "policy_digest").asStr
    (.corruption "Recognition policy head metadata is invalid")
  if h : isDidKey nodeDid = true ∧ 0 ≤ sequence then
    return ⟨nodeDid, sequence, policyDigest, h.1, h.2⟩
  else .error (.corruption "Recognition policy head metadata is invalid")

/-- The checks on a head behind its metadata. -/
def PolicyHead.check (enforceNodeDid : Option String) (head : PolicyHead) :
    Except PolicyStoreError Unit := do
  require (enforceNodeDid.all (head.nodeDid == ·))
    (.corruption "Recognition policy head belongs to another node")
  require (isDigest head.policyDigest) (.error "Recognition policy digest is invalid")
  require (head.sequence != 0 || head.policyDigest == genesisPolicyDigest)
    (.corruption "Recognition policy genesis head is invalid")
  require (head.sequence == 0 || head.policyDigest != genesisPolicyDigest)
    (.corruption "Recognition policy non-genesis head is invalid")

/-- `_read_head`. -/
def readHead (enforceNodeDid : Option String) :
    Option Bytes → Except PolicyStoreError (Option PolicyHead)
  | none => .ok none
  | some raw => do
    require (raw.length ≤ 4096) (.corruption "Recognition policy head exceeds byte limit")
    let text ← expect (asciiChars raw) (.corruption "Recognition policy head is not canonical JSON")
    let document ← expect (loads text) (.corruption "Recognition policy head is not canonical JSON")
    require (document.isObj && Json.keysEq document.fields policyHeadFields)
      (.corruption "Recognition policy head has invalid fields")
    require (raw == headBytes document)
      (.corruption "Recognition policy head is not canonical JSON")
    let head ← headMetadata document.fields
    head.check enforceNodeDid
    return some head

/-! ## The chain -/

/-- `_statement_files`. -/
def statementFiles (statements : Dir Bytes) : Except PolicyStoreError (List (String × Bytes)) :=
  expect (listObjects statements) (.corruption "Recognition policy CAS contains an unexpected entry")

variable (H) in
/-- `_read_policy`. -/
def readPolicy (nodeDid : String) (file : String × Bytes) :
    Except PolicyStoreError (RecognitionPolicy H) := do
  require (file.2.length ≤ maxTradeJsonBytes)
    (.corruption "stored Recognition policy exceeds byte limit")
  let policy : RecognitionPolicy H ← (SignedDocument.fromJson H (policyFormat H) file.2).mapError fun e =>
    .corruption ("stored Recognition policy is invalid: " ++ e)
  require (file.2 == policy.canonicalBytes)
    (.corruption "stored Recognition policy is not canonical")
  require (file.1 == objectName policy.digest)
    (.corruption "stored Recognition policy digest does not match filename")
  require ((policy.field "node_did").eqStr nodeDid)
    (.corruption "stored Recognition policy belongs to another node")
  return policy

variable (H) in
/-- The policies of all files. -/
def readPolicies (nodeDid : String) :
    List (String × Bytes) → Except PolicyStoreError (List (RecognitionPolicy H))
  | [] => return []
  | file :: files => do
    let policy ← readPolicy H nodeDid file
    let policies ← readPolicies nodeDid files
    return policy :: policies

/-- The checks on a revision behind the one before it. -/
def checkRevision (nodeDid : String) (previous : Option (RecognitionPolicy H))
    (current : RecognitionPolicy H) : Except PolicyStoreError Unit :=
  match previous with
  | some previous => (verifyPolicySuccessor previous current).mapError fun e =>
      .corruption ("Recognition policy chain is invalid: " ++ e)
  | none => do
    require (current.field "previous_policy_digest" == .null)
      (.corruption "Recognition policy genesis binds a predecessor")
    require ((current.field "signer_did").eqStr nodeDid)
      (.corruption "Recognition policy genesis signer is not node_did")

/-- The loop over the expected sequences, `n` of them from `expected` on. -/
def orderChain (nodeDid : String) (policies : List (RecognitionPolicy H))
    (previous : Option (RecognitionPolicy H)) (expected : ℤ) :
    ℕ → Except PolicyStoreError (List (RecognitionPolicy H))
  | 0 => return []
  | n + 1 => do
    let current ← match policies.filter fun p => p.sequence == expected with
      | [current] => .ok current
      | [] => .error (.corruption "Recognition policy chain contains a sequence gap")
      | _ => .error (.corruption "Recognition policy chain contains a fork")
    checkRevision nodeDid previous current
    let rest ← orderChain nodeDid policies (some current) (expected + 1) n
    return current :: rest

variable (H) in
/-- `_load_chain_locked`. -/
def loadChain (store : PolicyStore) (statements : Dir Bytes) :
    Except PolicyStoreError (List (RecognitionPolicy H)) := do
  let files ← statementFiles statements
  require (files.length ≤ store.maxRevisions)
    (.capacity "Recognition policy revision limit exceeded")
  require ((files.map fun p => p.2.length).sum ≤ store.maxBytes)
    (.capacity "Recognition policy byte limit exceeded")
  let policies ← readPolicies H store.nodeDid files
  let ordered ← orderChain store.nodeDid policies none 1 policies.length
  require (policies.all fun p => 1 ≤ p.sequence && p.sequence ≤ policies.length)
    (.corruption "Recognition policy chain contains an out-of-range sequence")
  return ordered

/-! ## Operations -/

/-- `_write_head`. -/
def writeHead (T : TempNames) (store : PolicyStore) (sequence : ℤ) (digest : String) :
    PolicyOp Unit :=
  atomicWrite T [] .root "head.json" (headBytes (.obj (headDocument store.nodeDid sequence digest)))

/-- The checks of a head against the chain. -/
def PolicyHead.against (head : PolicyHead) (chain : List (RecognitionPolicy H)) :
    Except PolicyStoreError Unit := do
  require (head.sequence ≤ chain.length)
    (.corruption "Recognition policy CAS was truncated behind its head")
  if head.sequence = 0 then
    require (head.policyDigest == genesisPolicyDigest)
      (.corruption "Recognition policy genesis head is invalid")
  else
    require (chain[head.sequence.toNat - 1]?.any fun p => p.digest == head.policyDigest)
      (.corruption "Recognition policy head does not match its revision")

/-- The head of the last revision, where `head` lags behind it. -/
def advanceHead (T : TempNames) (store : PolicyStore) (chain : List (RecognitionPolicy H))
    (head : PolicyHead) : PolicyOp Bool :=
  match chain.getLast? with
  | some latest =>
    if head.sequence < chain.length then do
      writeHead T store latest.sequence latest.digest
      return true
    else return false
  | none => return false

/-- `_verify_head_locked`. -/
def verifyHead (T : TempNames) (store : PolicyStore) (chain : List (RecognitionPolicy H)) :
    PolicyOp Bool := do
  let disk ← Op.get
  let head ← Op.lift (readHead (some store.nodeDid) ((disk .root).get "head.json"))
  match head with
  | none => do
    ensure chain.isEmpty (.corruption "Recognition policy head is missing")
    return false
  | some head => do
    Op.lift (head.against chain)
    advanceHead T store chain head

variable (H) in
/-- `_state_locked`. -/
def state (T : TempNames) (store : PolicyStore) : PolicyOp (List (RecognitionPolicy H) × Bool) := do
  let disk ← Op.get
  let chain ← Op.lift (loadChain H store (disk .statements))
  let advanced ← verifyHead T store chain
  return (chain, advanced)

/-- What can be appended. -/
inductive PolicyValue (H : Host) where
  | policy (policy : RecognitionPolicy H)
  | object (items : Fields)

/-- The policy of a value. -/
def PolicyValue.verified (value : PolicyValue H) : Except PolicyStoreError (RecognitionPolicy H) :=
  (match value with
    | .policy p => SignedDocument.fromJson H (policyFormat H) p.canonicalBytes
    | .object items => SignedDocument.fromDict H (policyFormat H) (.obj items)).mapError .rejected

/-- `RuleRecognitionPolicyStoreResult`. -/
structure PolicyStoreResult (H : Host) where
  policy : RecognitionPolicy H
  created : Bool
  checkpointAdvanced : Bool

/-- The checks on a new revision behind a chain. -/
def checkAppend (nodeDid : String) (chain : List (RecognitionPolicy H))
    (verified : RecognitionPolicy H) : Except PolicyStoreError Unit :=
  match chain.getLast? with
  | some latest => (verifyPolicySuccessor latest verified).mapError .rejected
  | none => do
    require (verified.sequence == 1)
      (.rejected "first stored Recognition policy must have sequence 1")
    require ((verified.field "signer_did").eqStr nodeDid)
      (.rejected "first stored Recognition policy must be signed by node_did")

/-- The head in front of the first revision. -/
def writeGenesis (T : TempNames) (store : PolicyStore) : PolicyOp Unit := do
  let disk ← Op.get
  if ((disk .root).get "head.json").isNone then do
    let files ← Op.lift (statementFiles (disk .statements))
    if files.isEmpty then writeHead T store 0 genesisPolicyDigest else return ()
  else return ()

/-- The revision that `append` stores behind a chain that does not have it. -/
def storeRevision (T T' : TempNames) (store : PolicyStore) (chain : List (RecognitionPolicy H))
    (verified : RecognitionPolicy H) : PolicyOp Unit := do
  ensure (chain.length < store.maxRevisions) (.capacity "Recognition policy revision limit reached")
  let disk ← Op.get
  let files ← Op.lift (statementFiles (disk .statements))
  ensure ((files.map fun p => p.2.length).sum + verified.canonicalBytes.length ≤ store.maxBytes)
    (.capacity "Recognition policy byte limit reached")
  Op.lift (checkAppend store.nodeDid chain verified)
  atomicWrite T [] .statements (objectName verified.digest) verified.canonicalBytes
  writeHead T' store verified.sequence verified.digest

/-- `append`. -/
def append (T : ℕ → TempNames) (store : PolicyStore) (value : PolicyValue H) :
    PolicyOp (PolicyStoreResult H) := do
  let verified ← Op.lift value.verified
  ensure ((verified.field "node_did").eqStr store.nodeDid)
    (.rejected "Recognition policy belongs to another node")
  writeGenesis (T 0) store
  let (chain, checkpointAdvanced) ← state H (T 1) store
  match chain.find? fun p => p.digest == verified.digest with
  | some existing => return ⟨existing, false, checkpointAdvanced⟩
  | none => do
    storeRevision (T 2) (T 3) store chain verified
    return ⟨verified, true, checkpointAdvanced⟩

variable (H) in
/-- `list_all`. -/
def listAll (T : TempNames) (store : PolicyStore) : PolicyOp (List (RecognitionPolicy H)) := do
  let (chain, _) ← state H T store
  return chain

/-- The instance for the node that a head names. -/
def PolicyStore.adopt (store : PolicyStore) : Option PolicyHead → Except PolicyStoreError PolicyStore
  | none => .ok store
  | some head =>
    if head.sequence = 0 then do
      require (head.nodeDid == store.nodeDid)
        (.corruption "empty Recognition policy namespace does not match the current identity")
      return store
    else .ok { store with nodeDid := head.nodeDid, isDid := head.isDid }

variable (H) in
/-- `open_or_create_for_identity`, for the instance with the identity as its node. -/
def openOrCreate (T : TempNames) (store : PolicyStore) : PolicyOp PolicyStore := do
  let disk ← Op.get
  let head ← Op.lift (readHead none ((disk .root).get "head.json"))
  let store ← Op.lift (store.adopt head)
  let _ ← state H T store
  return store

end NthDao.TradeRules
