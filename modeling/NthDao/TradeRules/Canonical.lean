/-
  NTH Trade Canonical JSON v1 (`nth_dao/trade_rules/canonical.py`): the bounded
  subset of JSON that trade documents are written in.

  * `walk` visits a value with the path it is at and the number of nodes seen so
    far; `walk_eq_ok`: it returns iff every part is admitted at its depth
    (`admits`) and the nodes are within the limit;
  * `tradeCanonicalJson` and `parseTradeJson` are `trade_canonical_json` and
    `parse_trade_json`;
  * `parseTradeJson_of_canonical`: what is written reads back with sorted keys,
    and `tradeCanonicalJson_norm`: that is written the same.
  * `tradeJson_inverse`: the encoder and the parser undo each other, and admit the same values.
-/
import NthDao.CanonicalJson
import NthDao.Py.Check
import NthDao.Py.Norm
import NthDao.Py.Strict

namespace NthDao.TradeRules

open Py

def maxSafeInteger : ℤ := 9007199254740991
def maxTradeJsonBytes : ℕ := 262144
def maxTradeJsonDepth : ℕ := 32
def maxTradeJsonNodes : ℕ := 10000
def maxTradeStringBytes : ℕ := 65536
def maxTradeKeyBytes : ℕ := 256

/-! ## The walk over a value -/

/-- The checks on a key of an object at `path`. -/
def checkKey (path key : String) : Except String Unit := do
  require ((chars key).all fun c => c.toNat < 128) ("non-ASCII key at " ++ path)
  require (!(chars key).isEmpty && (chars key).all fun c => 0x21 ≤ c.toNat && c.toNat ≤ 0x7E)
    ("invalid ASCII key at " ++ path)
  require (len key ≤ maxTradeKeyBytes) ("object key too large at " ++ path)

/-- The refusal of a value outside canonical JSON. -/
def unsupported (text path : String) : String :=
  if text = "str with a lone surrogate" then "invalid Unicode string at " ++ path
  else if text = "dict with a lone surrogate in a key" then "non-ASCII key at " ++ path
  else "float is forbidden at " ++ path

/-- One more node, at a depth. -/
def visit (depth budget : ℕ) : Except String ℕ := do
  require (budget + 1 ≤ maxTradeJsonNodes) "trade JSON exceeds node limit"
  require (depth ≤ maxTradeJsonDepth) "trade JSON exceeds depth limit"
  return budget + 1

mutual
/-- `_walk`: the nodes seen when it returns. -/
def walk (path : String) (depth budget : ℕ) : Json → Except String ℕ
  | .null => visit depth budget
  | .bool _ => visit depth budget
  | .str s => do
    let n ← visit depth budget
    require ((utf8 (chars s)).length ≤ maxTradeStringBytes) ("string too large at " ++ path)
    return n
  | .int i => do
    let n ← visit depth budget
    require (-maxSafeInteger ≤ i && i ≤ maxSafeInteger) ("unsafe integer at " ++ path)
    return n
  | .other t => do
    let _ ← visit depth budget
    throw (unsupported t path)
  | .arr xs => do
    let n ← visit depth budget
    walkList path (depth + 1) 0 n xs
  | .obj kvs => do
    let n ← visit depth budget
    walkFields path (depth + 1) n kvs
/-- The elements of a list, from the given index on. -/
def walkList (path : String) (depth index budget : ℕ) : List Json → Except String ℕ
  | [] => return budget
  | x :: xs => do
    let n ← walk (path ++ "[" ++ toString index ++ "]") depth budget x
    walkList path depth (index + 1) n xs
/-- The items of an object. -/
def walkFields (path : String) (depth budget : ℕ) : Fields → Except String ℕ
  | [] => return budget
  | (k, x) :: kvs => do
    checkKey path k
    let n ← walk (path ++ "." ++ k) depth budget x
    walkFields path depth n kvs
end

/-- `trade_canonical_json`. -/
def tradeCanonicalJson (v : Json) : Except String Bytes := do
  require v.isObj "trade JSON root must be an object"
  let _ ← walk "$" 0 0 v
  -- no walked value is refused here
  let encoded ← expect (canonicalJson v) "not canonical JSON"
  require (encoded.length ≤ maxTradeJsonBytes) "trade JSON exceeds byte limit"
  return encoded

/-- `parse_trade_json` of bytes, `none` where it raises.  The range of the integers is checked
    by the hook of the source and again by the walk, here once. -/
def parseTradeJson (raw : Bytes) : Option Json :=
  if raw.length ≤ maxTradeJsonBytes then do
    let text ← (utf8Decode raw).filter fun text => text.head? != some '\ufeff'
    let value ← (strictLoads text).filter Json.isObj
    (tradeCanonicalJson value).toOption.map fun _ => value
  else none

/-! ## What a walk admits -/

/-- A key of a trade document. -/
def tradeKey (key : String) : Bool :=
  !(chars key).isEmpty && (chars key).all (fun c => 0x21 ≤ c.toNat && c.toNat ≤ 0x7E) &&
    decide (len key ≤ maxTradeKeyBytes)

mutual
/-- Every part of the value is admitted, the value being at the given depth. -/
def admits (depth : ℕ) : Json → Bool
  | .null => depth ≤ maxTradeJsonDepth
  | .bool _ => depth ≤ maxTradeJsonDepth
  | .str s => depth ≤ maxTradeJsonDepth && decide ((utf8 (chars s)).length ≤ maxTradeStringBytes)
  | .int i => depth ≤ maxTradeJsonDepth && (-maxSafeInteger ≤ i && i ≤ maxSafeInteger)
  | .other _ => false
  | .arr xs => depth ≤ maxTradeJsonDepth && admitsList (depth + 1) xs
  | .obj kvs => depth ≤ maxTradeJsonDepth && admitsFields (depth + 1) kvs
def admitsList (depth : ℕ) : List Json → Bool
  | [] => true
  | x :: xs => admits depth x && admitsList depth xs
def admitsFields (depth : ℕ) : Fields → Bool
  | [] => true
  | (k, x) :: kvs => tradeKey k && admits depth x && admitsFields depth kvs
end

mutual
/-- The number of values in a value. -/
def nodes : Json → ℕ
  | .arr xs => nodesList xs + 1
  | .obj kvs => nodesFields kvs + 1
  | _ => 1
def nodesList : List Json → ℕ
  | [] => 0
  | x :: xs => nodes x + nodesList xs
def nodesFields : Fields → ℕ
  | [] => 0
  | (_, x) :: kvs => nodes x + nodesFields kvs
end

theorem admitsList_iff {d : ℕ} {xs : List Json} :
    admitsList d xs = true ↔ ∀ x ∈ xs, admits d x = true := by
  induction xs with
  | nil => simp [admitsList]
  | cons x xs ih => simp [admitsList, ih]

theorem admitsFields_iff {d : ℕ} {kvs : Fields} :
    admitsFields d kvs = true ↔ ∀ p ∈ kvs, tradeKey p.1 = true ∧ admits d p.2 = true := by
  induction kvs with
  | nil => simp [admitsFields]
  | cons p kvs ih => obtain ⟨k, x⟩ := p; simp [admitsFields, ih]

theorem nodesList_eq (xs : List Json) : nodesList xs = (xs.map nodes).sum := by
  induction xs with
  | nil => rfl
  | cons x xs ih => simp [nodesList, ih]

theorem nodesFields_eq (kvs : Fields) : nodesFields kvs = (kvs.map fun p => nodes p.2).sum := by
  induction kvs with
  | nil => rfl
  | cons p kvs ih => obtain ⟨k, x⟩ := p; simp [nodesFields, ih]

theorem nodes_pos (v : Json) : 0 < nodes v := by
  cases v <;> simp [nodes]

theorem checkKey_eq_ok {path key : String} {u : Unit} :
    checkKey path key = .ok u ↔ tradeKey key = true := by
  have hascii : ((chars key).all fun c => 0x21 ≤ c.toNat && c.toNat ≤ 0x7E) = true →
      ((chars key).all fun c => c.toNat < 128) = true := by
    simp only [List.all_eq_true, Bool.and_eq_true, decide_eq_true_eq]
    intro h c hc
    have := (h c hc).2
    omega
  simp only [checkKey, require_bind_eq_ok, require_eq_ok, tradeKey, Bool.and_eq_true]
  constructor
  · rintro ⟨-, ⟨h₁, h₂⟩, h₃⟩
    exact ⟨⟨h₁, h₂⟩, h₃⟩
  · rintro ⟨⟨h₁, h₂⟩, h₃⟩
    exact ⟨hascii h₂, ⟨h₁, h₂⟩, h₃⟩

theorem visit_eq_ok {d n m : ℕ} :
    visit d n = .ok m ↔ m = n + 1 ∧ m ≤ maxTradeJsonNodes ∧ d ≤ maxTradeJsonDepth := by
  simp only [visit, require_bind_eq_ok, pure_eq_ok, decide_eq_true_eq]
  constructor
  · rintro ⟨h₁, h₂, rfl⟩
    exact ⟨rfl, h₁, h₂⟩
  · rintro ⟨rfl, h₁, h₂⟩
    exact ⟨h₁, h₂, rfl⟩

theorem walkList_eq_ok {xs : List Json} (hx : ∀ x ∈ xs, ∀ path d n m, walk path d n x = .ok m ↔
      admits d x = true ∧ m = n + nodes x ∧ m ≤ maxTradeJsonNodes) :
    ∀ path d i n m, n ≤ maxTradeJsonNodes → (walkList path d i n xs = .ok m ↔
      (∀ x ∈ xs, admits d x = true) ∧ m = n + (xs.map nodes).sum ∧ m ≤ maxTradeJsonNodes) := by
  induction xs with
  | nil =>
    intro path d i n m hn
    simp only [walkList, pure_eq_ok, List.map_nil, List.sum_nil, Nat.add_zero]
    constructor
    · rintro rfl
      exact ⟨by simp, rfl, hn⟩
    · rintro ⟨-, rfl, -⟩
      rfl
  | cons x xs ih =>
    intro path d i n m hn
    rw [List.forall_mem_cons] at hx
    simp only [walkList, bind_eq_ok, hx.1, List.forall_mem_cons, List.map_cons, List.sum_cons]
    constructor
    · rintro ⟨a, ⟨h, rfl, hle⟩, hr⟩
      obtain ⟨hs, rfl, hm⟩ := (ih hx.2 _ _ _ _ _ hle).1 hr
      exact ⟨⟨h, hs⟩, by omega, hm⟩
    · rintro ⟨⟨h, hs⟩, rfl, hm⟩
      have hle : n + nodes x ≤ maxTradeJsonNodes := by omega
      exact ⟨n + nodes x, ⟨h, rfl, hle⟩, (ih hx.2 _ _ _ _ _ hle).2 ⟨hs, by omega, hm⟩⟩

theorem walkFields_eq_ok {kvs : Fields} (hx : ∀ p ∈ kvs, ∀ path d n m, walk path d n p.2 = .ok m ↔
      admits d p.2 = true ∧ m = n + nodes p.2 ∧ m ≤ maxTradeJsonNodes) :
    ∀ path d n m, n ≤ maxTradeJsonNodes → (walkFields path d n kvs = .ok m ↔
      (∀ p ∈ kvs, tradeKey p.1 = true ∧ admits d p.2 = true) ∧
        m = n + (kvs.map fun p => nodes p.2).sum ∧ m ≤ maxTradeJsonNodes) := by
  induction kvs with
  | nil =>
    intro path d n m hn
    simp only [walkFields, pure_eq_ok, List.map_nil, List.sum_nil, Nat.add_zero]
    constructor
    · rintro rfl
      exact ⟨by simp, rfl, hn⟩
    · rintro ⟨-, rfl, -⟩
      rfl
  | cons p kvs ih =>
    obtain ⟨k, x⟩ := p
    intro path d n m hn
    rw [List.forall_mem_cons] at hx
    simp only [walkFields, bind_eq_ok, hx.1, checkKey_eq_ok, List.forall_mem_cons, List.map_cons,
      List.sum_cons]
    constructor
    · rintro ⟨-, hk, a, ⟨h, rfl, hle⟩, hr⟩
      obtain ⟨hs, rfl, hm⟩ := (ih hx.2 _ _ _ _ hle).1 hr
      exact ⟨⟨⟨hk, h⟩, hs⟩, by omega, hm⟩
    · rintro ⟨⟨⟨hk, h⟩, hs⟩, rfl, hm⟩
      have hle : n + nodes x ≤ maxTradeJsonNodes := by omega
      exact ⟨(), hk, n + nodes x, ⟨h, rfl, hle⟩, (ih hx.2 _ _ _ _ hle).2 ⟨hs, by omega, hm⟩⟩

/-- **A walk returns iff every part is admitted and there are few enough.** -/
theorem walk_eq_ok (v : Json) : ∀ path d n m, walk path d n v = .ok m ↔
    admits d v = true ∧ m = n + nodes v ∧ m ≤ maxTradeJsonNodes := by
  induction v using Json.ind with
  | null =>
    intro path d n m
    simp only [walk, visit_eq_ok, admits, nodes, decide_eq_true_eq]
    tauto
  | bool b =>
    intro path d n m
    simp only [walk, visit_eq_ok, admits, nodes, decide_eq_true_eq]
    tauto
  | int i =>
    intro path d n m
    simp only [walk, bind_eq_ok, visit_eq_ok, require_eq_ok, pure_eq_ok, admits, nodes,
      Bool.and_eq_true, decide_eq_true_eq]
    constructor
    · rintro ⟨a, ⟨h₁, h₂, h₃⟩, -, hi, rfl⟩
      exact ⟨⟨h₃, hi⟩, h₁, h₂⟩
    · rintro ⟨⟨h₃, hi⟩, h₁, h₂⟩
      exact ⟨m, ⟨h₁, h₂, h₃⟩, (), hi, rfl⟩
  | str s =>
    intro path d n m
    simp only [walk, bind_eq_ok, visit_eq_ok, require_eq_ok, pure_eq_ok, admits, nodes,
      Bool.and_eq_true, decide_eq_true_eq]
    constructor
    · rintro ⟨a, ⟨h₁, h₂, h₃⟩, -, hs, rfl⟩
      exact ⟨⟨h₃, hs⟩, h₁, h₂⟩
    · rintro ⟨⟨h₃, hs⟩, h₁, h₂⟩
      exact ⟨m, ⟨h₁, h₂, h₃⟩, (), hs, rfl⟩
  | other t =>
    intro path d n m
    simp only [walk, bind_eq_ok, admits, Bool.false_eq_true, false_and, iff_false]
    rintro ⟨-, -, h⟩
    cases h
  | arr xs ih =>
    intro path d n m
    simp only [walk, bind_eq_ok, visit_eq_ok, admits, nodes, Bool.and_eq_true, decide_eq_true_eq,
      admitsList_iff, nodesList_eq]
    constructor
    · rintro ⟨a, ⟨rfl, h₂, h₃⟩, hw⟩
      obtain ⟨hs, rfl, hm⟩ := (walkList_eq_ok ih _ _ _ _ _ h₂).1 hw
      exact ⟨⟨h₃, hs⟩, by omega, hm⟩
    · rintro ⟨⟨h₃, hs⟩, rfl, hm⟩
      have hle : n + 1 ≤ maxTradeJsonNodes := by omega
      exact ⟨n + 1, ⟨rfl, hle, h₃⟩, (walkList_eq_ok ih _ _ _ _ _ hle).2 ⟨hs, by omega, hm⟩⟩
  | obj kvs ih =>
    intro path d n m
    simp only [walk, bind_eq_ok, visit_eq_ok, admits, nodes, Bool.and_eq_true, decide_eq_true_eq,
      admitsFields_iff, nodesFields_eq]
    constructor
    · rintro ⟨a, ⟨rfl, h₂, h₃⟩, hw⟩
      obtain ⟨hs, rfl, hm⟩ := (walkFields_eq_ok ih _ _ _ _ h₂).1 hw
      exact ⟨⟨h₃, hs⟩, by omega, hm⟩
    · rintro ⟨⟨h₃, hs⟩, rfl, hm⟩
      have hle : n + 1 ≤ maxTradeJsonNodes := by omega
      exact ⟨n + 1, ⟨rfl, hle, h₃⟩, (walkFields_eq_ok ih _ _ _ _ hle).2 ⟨hs, by omega, hm⟩⟩

/-! ## Sorting keys -/

theorem admits_norm (v : Json) : ∀ d, admits d v.norm = admits d v := by
  induction v using Json.ind with
  | arr xs ih =>
    intro d
    rw [Bool.eq_iff_iff, Json.norm_arr]
    simp only [admits, Bool.and_eq_true, admitsList_iff, List.forall_mem_map]
    exact and_congr_right fun _ => forall₂_congr fun x hx => by rw [ih x hx]
  | obj kvs ih =>
    intro d
    rw [Bool.eq_iff_iff, Json.norm_obj]
    simp only [admits, Bool.and_eq_true, admitsFields_iff]
    refine and_congr_right fun _ => ?_
    have hp := List.perm_insertionSort Json.keyLe (kvs.map fun p => (p.1, p.2.norm))
    simp only [hp.mem_iff, List.forall_mem_map]
    exact forall₂_congr fun p hp => by rw [ih p hp]
  | _ => intro d; rfl

theorem nodes_norm (v : Json) : nodes v.norm = nodes v := by
  induction v using Json.ind with
  | arr xs ih =>
    rw [Json.norm_arr, nodes, nodes, nodesList_eq, nodesList_eq, List.map_map]
    congr 2
    exact List.map_congr_left ih
  | obj kvs ih =>
    rw [Json.norm_obj, nodes, nodes, nodesFields_eq, nodesFields_eq,
      ((List.perm_insertionSort Json.keyLe _).map _).sum_eq, List.map_map]
    congr 2
    exact List.map_congr_left ih
  | _ => rfl

/-- What is admitted has a text. -/
theorem encodable_of_admits (v : Json) : ∀ {d}, admits d v = true → v.encodable = true := by
  induction v using Json.ind with
  | int i =>
    intro d h
    simp only [admits, Bool.and_eq_true, decide_eq_true_eq] at h
    obtain ⟨-, h₁, h₂⟩ := h
    have hmax : maxSafeInteger = 9007199254740991 := rfl
    exact Json.encodable_int (by omega)
  | arr xs ih =>
    intro d h
    simp only [admits, Bool.and_eq_true, admitsList_iff] at h
    exact Json.encodable_arr.2 fun x hx => ih x hx (h.2 x hx)
  | obj kvs ih =>
    intro d h
    simp only [admits, Bool.and_eq_true, admitsFields_iff] at h
    exact Json.encodable_obj.2 fun p hp => ih p hp (h.2 p hp).2
  | other t => intro d h; cases h
  | _ => intro d h; rfl

theorem canonicalJson_norm (v : Json) : canonicalJson v.norm = canonicalJson v := by
  cases v with
  | obj kvs =>
    have he := Json.encodable_norm (.obj kvs)
    have hn := Json.norm_norm (.obj kvs)
    rw [Json.norm_obj] at he hn ⊢
    rw [canonicalJson, canonicalJson, he, hn, Json.norm_obj]
  | arr xs => rw [Json.norm_arr]; rfl
  | _ => rfl

/-- **When `trade_canonical_json` returns.** -/
theorem tradeCanonicalJson_eq_ok {v : Json} {b : Bytes} : tradeCanonicalJson v = .ok b ↔
    v.isObj = true ∧ admits 0 v = true ∧ nodes v ≤ maxTradeJsonNodes ∧
      canonicalJson v = some b ∧ b.length ≤ maxTradeJsonBytes := by
  simp only [tradeCanonicalJson, bind_eq_ok, require_eq_ok, walk_eq_ok, expect_eq_ok, pure_eq_ok,
    decide_eq_true_eq, Nat.zero_add]
  constructor
  · rintro ⟨-, ho, -, ⟨ha, rfl, hn⟩, b, hc, -, hl, rfl⟩
    exact ⟨ho, ha, hn, hc, hl⟩
  · rintro ⟨ho, ha, hn, hc, hl⟩
    exact ⟨(), ho, nodes v, ⟨ha, rfl, hn⟩, b, hc, (), hl, rfl⟩

/-- A document with sorted keys is written the same. -/
theorem tradeCanonicalJson_norm {v : Json} {b : Bytes} :
    tradeCanonicalJson v.norm = .ok b ↔ tradeCanonicalJson v = .ok b := by
  rw [tradeCanonicalJson_eq_ok, tradeCanonicalJson_eq_ok, Json.isObj_norm, admits_norm, nodes_norm,
    canonicalJson_norm]

theorem tradeCanonicalJson_bytes {v : Json} {b : Bytes} (h : tradeCanonicalJson v = .ok b) :
    b = utf8 (dumps false v.norm) :=
  (canonicalJson_eq_some (tradeCanonicalJson_eq_ok.1 h).2.2.2.1).2

theorem encodable_of_tradeCanonicalJson {v : Json} {b : Bytes} (h : tradeCanonicalJson v = .ok b) :
    v.encodable = true :=
  encodable_of_admits v (tradeCanonicalJson_eq_ok.1 h).2.1

/-! ## Reading back -/

theorem head?_dumps_obj (kvs : Fields) : (dumps false (.obj kvs)).head? = some '{' := by
  cases kvs with
  | nil => rfl
  | cons p kvs => rw [dumps]; rfl

/-- **A canonical document reads back with sorted keys.** -/
theorem parseTradeJson_of_canonical {v : Json} {b : Bytes} (hw : v.wf = true)
    (h : tradeCanonicalJson v = .ok b) : parseTradeJson b = some v.norm := by
  have hnorm := tradeCanonicalJson_norm.2 h
  obtain ⟨ho, ha, hn, hc, hl⟩ := tradeCanonicalJson_eq_ok.1 h
  have hb := tradeCanonicalJson_bytes h
  have hload : strictLoads (dumps false v.norm) = some v.norm := by
    refine strictLoads_dumps false (Json.wf_norm v hw) ?_
    rw [Json.encodable_norm]
    exact encodable_of_tradeCanonicalJson h
  have hhead : (dumps false v.norm).head? = some '{' := by
    rw [Json.eq_obj_of_isObj ho, Json.norm_obj]
    exact head?_dumps_obj _
  have htext : (some (dumps false v.norm)).filter (fun text => text.head? != some '\ufeff') =
      some (dumps false v.norm) := by
    rw [Option.filter_some, hhead]
    rfl
  have hvalue : (some v.norm).filter Json.isObj = some v.norm := by
    rw [Option.filter_some, Json.isObj_norm, ho]
    rfl
  rw [parseTradeJson, if_pos hl, hb, utf8Decode_utf8, htext]
  simp only [Option.bind_eq_bind, Option.bind_some, hload, hvalue, hnorm]
  rfl

/-- What is read is a document that can be written. -/
theorem parseTradeJson_eq_some {raw : Bytes} {v : Json} (h : parseTradeJson raw = some v) :
    v.wf = true ∧ v.isObj = true ∧ ∃ b, tradeCanonicalJson v = .ok b := by
  rw [parseTradeJson] at h
  split_ifs at h
  simp only [Option.bind_eq_bind, Option.bind_eq_some_iff, Option.filter_eq_some_iff] at h
  obtain ⟨text, -, value, ⟨hvalue, ho⟩, h⟩ := h
  obtain ⟨b, hb, rfl⟩ := Option.map_eq_some_iff.1 h
  refine ⟨wf_strictLoads hvalue, ho, b, ?_⟩
  cases ht : tradeCanonicalJson value with
  | error e => rw [ht] at hb; cases hb
  | ok c => rw [ht] at hb; cases hb; rfl

/-- The bytes tell two documents apart, up to the order of keys. -/
theorem norm_eq_of_tradeCanonicalJson {v w : Json} {b : Bytes} (hv : v.wf = true) (hw : w.wf = true)
    (h : tradeCanonicalJson v = .ok b) (h' : tradeCanonicalJson w = .ok b) : v.norm = w.norm := by
  have hp := parseTradeJson_of_canonical hv h
  rw [parseTradeJson_of_canonical hw h'] at hp
  exact (Option.some.inj hp).symm

/-- **The encoder and the parser undo each other, and admit the same values.** -/
theorem tradeJson_inverse :
    (∀ v b, v.wf = true → tradeCanonicalJson v = .ok b →
      parseTradeJson b = some v.norm ∧ tradeCanonicalJson v.norm = .ok b) ∧
    (∀ v w b, v.wf = true → w.wf = true → tradeCanonicalJson v = .ok b →
      tradeCanonicalJson w = .ok b → v.norm = w.norm) ∧
    (∀ raw v, parseTradeJson raw = some v →
      ∃ b, tradeCanonicalJson v = .ok b ∧ parseTradeJson b = some v.norm) ∧
    ∀ v, v.wf = true → ((∃ raw w, parseTradeJson raw = some w ∧ w.norm = v.norm) ↔
      ∃ b, tradeCanonicalJson v = .ok b) := by
  refine ⟨?_, ?_, ?_, ?_⟩
  · intro v b hw h
    exact ⟨parseTradeJson_of_canonical hw h, tradeCanonicalJson_norm.2 h⟩
  · intro v w b hv hw h h'
    exact norm_eq_of_tradeCanonicalJson hv hw h h'
  · intro raw v h
    obtain ⟨hw, -, b, hb⟩ := parseTradeJson_eq_some h
    exact ⟨b, hb, parseTradeJson_of_canonical hw hb⟩
  · intro v hw
    constructor
    · rintro ⟨raw, w, hp, hn⟩
      obtain ⟨-, -, b, hb⟩ := parseTradeJson_eq_some hp
      refine ⟨b, tradeCanonicalJson_norm.1 ?_⟩
      rw [← hn]
      exact tradeCanonicalJson_norm.2 hb
    · rintro ⟨b, hb⟩
      exact ⟨b, v.norm, parseTradeJson_of_canonical hw hb, Json.norm_norm v⟩

/-- White space is read, but not written. -/
theorem spaced_object : parseTradeJson (utf8 "{ }".toList) = some (.obj []) ∧
    tradeCanonicalJson (.obj []) = .ok (utf8 "{}".toList) ∧
      utf8 "{ }".toList ≠ utf8 "{}".toList := by
  decide +kernel

end NthDao.TradeRules
