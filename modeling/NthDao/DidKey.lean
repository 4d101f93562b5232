/-
  `did:key` strings of Ed25519 public keys (`nth_dao/did_key.py`).

  * `b58encode` and `b58decode` are the base-58 codec: the leading zero bytes as
    `1`s, then the digits of the big-endian number;
  * `encodeDidKey` and `decodeDidKey` wrap a 32-byte key with the multicodec and
    multibase prefixes;
  * `did_key_canonical`: decoding inverts encoding, and every text that decodes is
    the encoding of its key.
-/
import Mathlib.Data.Nat.Digits.Lemmas
import Mathlib.Tactic.NormNum
import NthDao.Py.Dumps

namespace NthDao

open Py

/-! ## Base 58 -/

/-- The Bitcoin alphabet. -/
def b58Alphabet : List Char :=
  ['1', '2', '3', '4', '5', '6', '7', '8', '9', 'A', 'B', 'C', 'D', 'E', 'F', 'G', 'H', 'J', 'K',
   'L', 'M', 'N', 'P', 'Q', 'R', 'S', 'T', 'U', 'V', 'W', 'X', 'Y', 'Z', 'a', 'b', 'c', 'd', 'e',
   'f', 'g', 'h', 'i', 'j', 'k', 'm', 'n', 'o', 'p', 'q', 'r', 's', 't', 'u', 'v', 'w', 'x', 'y',
   'z']

/-- The character of a digit. -/
def b58Char (n : ℕ) : Char := b58Alphabet.getD n '1'

/-- The digit of a character. -/
def b58Val (c : Char) : Option ℕ := b58Alphabet.idxOf? c

/-- The number with the big-endian digits `ds`. -/
def ofDigitsBE (b : ℕ) (ds : List ℕ) : ℕ := ds.foldl (fun n d => n * b + d) 0

/-- `_b58encode`. -/
def b58encode (raw : Bytes) : List Char :=
  let zeros := (raw.takeWhile (· == 0)).length
  let num := ofDigitsBE 256 (raw.map UInt8.toNat)
  List.replicate zeros '1' ++ (Nat.digits 58 num).reverse.map b58Char

/-- `_b58decode`. -/
def b58decode (s : List Char) : Option Bytes := do
  let zeros := (s.takeWhile (· == '1')).length
  let ds ← s.mapM b58Val
  return List.replicate zeros 0 ++ (Nat.digits 256 (ofDigitsBE 58 ds)).reverse.map UInt8.ofNat

/-! ## did:key -/

/-- `MULTICODEC_ED25519_PUB`. -/
def multicodecEd25519Pub : Bytes := [0xed, 0x01]

/-- `DID_KEY_PREFIX` with the multibase character `z`. -/
def didKeyHead : List Char := ['d', 'i', 'd', ':', 'k', 'e', 'y', ':', 'z']

/-- `encode_ed25519_did_key` of a 32-byte key. -/
def encodeDidKey (pubkey : Bytes) : String :=
  String.ofList (didKeyHead ++ b58encode (multicodecEd25519Pub ++ pubkey))

/-- `decode_ed25519_did_key`, `none` where it raises. -/
def decodeDidKey (did : String) : Option Bytes := do
  if didKeyHead.isPrefixOf (chars did) then
    let raw ← b58decode ((chars did).drop didKeyHead.length)
    if multicodecEd25519Pub.isPrefixOf raw && (raw.drop 2).length == 32 then
      return raw.drop 2
    else none
  else none

/-- `is_did_key`. -/
def isDidKey (did : String) : Bool := (decodeDidKey did).isSome

/-! ## Decoding inverts encoding -/

theorem b58Val_b58Char : ∀ n < 58, b58Val (b58Char n) = some n := by decide +kernel

theorem b58Char_ne_one : ∀ n < 58, n ≠ 0 → (b58Char n == '1') = false := by decide

theorem ofDigitsBE_eq (b : ℕ) (ds : List ℕ) : ofDigitsBE b ds = Nat.ofDigits b ds.reverse := by
  rw [ofDigitsBE, Nat.ofDigits_eq_foldr, List.foldr_reverse]
  congr 1; funext n d; simp [mul_comm, add_comm]

theorem mapM_b58Val {ns : List ℕ} (h : ∀ n ∈ ns, n < 58) :
    (ns.map b58Char).mapM b58Val = some ns := by
  induction ns with
  | nil => rfl
  | cons n ns ih =>
    rw [List.forall_mem_cons] at h
    simp [List.mapM_cons, b58Val_b58Char n h.1, ih h.2]

/-- The minimal big-endian bytes of the number of a byte string that does not
    start with a zero byte are the byte string. -/
theorem digits_ofDigitsBE {a : UInt8} (ha : a ≠ 0) (r : Bytes) :
    (Nat.digits 256 (ofDigitsBE 256 ((a :: r).map UInt8.toNat))).reverse.map UInt8.ofNat =
      a :: r := by
  rw [ofDigitsBE_eq, Nat.digits_ofDigits 256 (by decide)]
  · simp [Function.comp_def]
  · intro l hl
    simp only [List.mem_reverse, List.mem_map] at hl
    obtain ⟨x, -, rfl⟩ := hl; exact x.toNat_lt
  · intro _
    simp only [List.map_cons, List.reverse_cons, List.getLast_append_singleton]
    exact fun h => ha (UInt8.toNat_inj.1 h)

theorem b58decode_b58encode {a : UInt8} (ha : a ≠ 0) (r : Bytes) :
    b58decode (b58encode (a :: r)) = some (a :: r) := by
  set num := ofDigitsBE 256 ((a :: r).map UInt8.toNat) with hnum
  have hn : num ≠ 0 := by
    intro h
    have := digits_ofDigitsBE ha r
    rw [← hnum, h] at this
    simp at this
  have he : b58encode (a :: r) = (Nat.digits 58 num).reverse.map b58Char := by
    simp [b58encode, ha, hnum]
  have hlt : ∀ n ∈ (Nat.digits 58 num).reverse, n < 58 :=
    fun n h => Nat.digits_lt_base (by decide) (List.mem_reverse.1 h)
  -- the first digit is not zero, so no `1` is taken for a zero byte
  have hone : (((Nat.digits 58 num).reverse.map b58Char).takeWhile (· == '1')) = [] := by
    have hne := Nat.digits_ne_nil_iff_ne_zero (b := 58).2 hn
    have hd := Nat.getLast_digit_ne_zero 58 hn
    obtain ⟨d, ds, hds⟩ := List.exists_cons_of_ne_nil (List.reverse_ne_nil_iff.2 hne)
    have hdl : d = (Nat.digits 58 num).getLast hne := by
      have := List.head_reverse (l := Nat.digits 58 num) (by simpa using hne)
      simp only [hds, List.head_cons] at this
      exact this
    rw [hds, List.map_cons, List.takeWhile_cons,
      b58Char_ne_one d (hlt d (by simp [hds])) (hdl ▸ hd)]
    simp
  have hback : ofDigitsBE 58 (Nat.digits 58 num).reverse = num := by
    rw [ofDigitsBE_eq, List.reverse_reverse, Nat.ofDigits_digits]
  rw [he, b58decode, mapM_b58Val hlt, hone]
  simp only [List.length_nil, List.replicate_zero, List.nil_append, Option.bind_eq_bind,
    Option.bind_some, Option.pure_def, hback]
  rw [hnum, digits_ofDigitsBE ha r]

/-- Decoding the `did:key` of a key gives the key. -/
theorem decodeDidKey_encodeDidKey {pubkey : Bytes} (h : pubkey.length = 32) :
    decodeDidKey (encodeDidKey pubkey) = some pubkey := by
  have hp : didKeyHead.isPrefixOf (didKeyHead ++ b58encode (multicodecEd25519Pub ++ pubkey)) = true := by
    simp
  have hd : b58decode (b58encode (multicodecEd25519Pub ++ pubkey)) =
      some (multicodecEd25519Pub ++ pubkey) := b58decode_b58encode (by decide) _
  unfold decodeDidKey encodeDidKey
  rw [chars_eq, String.toList_ofList, if_pos hp, List.drop_left, hd]
  simp [multicodecEd25519Pub, h]

theorem length_of_mapM {α β : Type} {f : α → Option β} {xs : List α} {ys : List β}
    (h : xs.mapM f = some ys) : ys.length = xs.length := by
  induction xs generalizing ys with
  | nil => simp at h; simp [← h]
  | cons x xs ih =>
    simp only [List.mapM_cons, Option.bind_eq_bind, Option.bind_eq_some_iff, Option.pure_def,
      Option.some.injEq] at h
    obtain ⟨y, -, zs, hzs, rfl⟩ := h
    rw [List.length_cons, List.length_cons, ih hzs]

theorem b58Val_eq_zero {c : Char} (h : b58Val c = some 0) : c = '1' := by
  have := (List.idxOf?_eq_some_iff.1 h).2.1
  simpa [b58Alphabet] using this.symm

/-- Without a leading zero byte, the text is a number of at most as many bytes. -/
theorem length_b58decode {cs : List Char} {raw : Bytes} (h : b58decode cs = some raw)
    (h0 : raw.head? ≠ some 0) : 58 ^ (cs.length - 1) ≤ 256 ^ raw.length := by
  cases cs with
  | nil => exact Nat.one_le_pow _ _ (by decide)
  | cons c cs =>
    simp only [b58decode, Option.bind_eq_bind, Option.bind_eq_some_iff, Option.pure_def,
      Option.some.injEq] at h
    obtain ⟨ds, hds, rfl⟩ := h
    have hc : (c == '1') = false := by
      rw [Bool.eq_false_iff]
      intro hc
      rw [List.takeWhile_cons_of_pos (p := (· == '1')) hc, List.length_cons,
        List.replicate_succ] at h0
      exact h0 rfl
    have hlen := length_of_mapM hds
    simp only [List.mapM_cons, Option.bind_eq_bind, Option.bind_eq_some_iff, Option.pure_def,
      Option.some.injEq] at hds
    obtain ⟨d, hd, ds, -, rfl⟩ := hds
    have hd0 : d ≠ 0 := by
      rintro rfl
      rw [b58Val_eq_zero hd] at hc
      cases hc
    rw [List.takeWhile_cons_of_neg (by simp [hc]), List.length_nil, List.replicate_zero,
      List.nil_append, List.length_map, List.length_reverse]
    -- the first digit is not zero, and the digits in base 256 are those of the same number
    calc 58 ^ ((c :: cs).length - 1) = 58 ^ ds.length := by
          rw [List.length_cons, List.length_cons] at hlen
          rw [List.length_cons, Nat.add_sub_cancel]; congr 1; omega
      _ ≤ ofDigitsBE 58 (d :: ds) := by
          rw [ofDigitsBE_eq, List.reverse_cons, Nat.ofDigits_append, List.length_reverse,
            Nat.ofDigits_singleton]
          exact (Nat.le_mul_of_pos_right _ (Nat.pos_of_ne_zero hd0)).trans (Nat.le_add_left _ _)
      _ ≤ 256 ^ (Nat.digits 256 (ofDigitsBE 58 (d :: ds))).length :=
          (Nat.lt_base_pow_length_digits (by decide)).le

/-- What decodes has at most 56 characters. -/
theorem length_of_decodeDidKey {did : String} {pubkey : Bytes}
    (h : decodeDidKey did = some pubkey) : did.length ≤ 56 := by
  rw [decodeDidKey] at h
  split_ifs at h with hp
  simp only [Option.bind_eq_bind, Option.bind_eq_some_iff] at h
  obtain ⟨raw, hraw, h⟩ := h
  split_ifs at h with hr
  rw [Bool.and_eq_true, beq_iff_eq, List.isPrefixOf_iff_prefix] at hr
  obtain ⟨⟨rest, rfl⟩, hrest⟩ := hr
  have hlen := length_b58decode hraw (by simp [multicodecEd25519Pub])
  have h34 : (multicodecEd25519Pub ++ rest).length = 34 := by
    rw [List.length_drop] at hrest
    rw [List.length_append, show multicodecEd25519Pub.length = 2 from rfl] at hrest ⊢
    omega
  rw [h34, List.length_drop] at hlen
  by_contra hlong
  have hk : 47 ≤ (chars did).length - didKeyHead.length - 1 := by
    rw [chars_eq, String.length_toList, show didKeyHead.length = 9 from rfl]
    omega
  exact absurd ((Nat.pow_le_pow_right (by decide) hk).trans hlen) (by norm_num)

/-- A `did:key` has at most 56 characters. -/
theorem length_encodeDidKey {pubkey : Bytes} (h : pubkey.length = 32) :
    (encodeDidKey pubkey).length ≤ 56 :=
  length_of_decodeDidKey (decodeDidKey_encodeDidKey h)

theorem isDidKey_encodeDidKey {pubkey : Bytes} (h : pubkey.length = 32) :
    isDidKey (encodeDidKey pubkey) = true := by
  rw [isDidKey, decodeDidKey_encodeDidKey h]; rfl

/-! ## Encoding inverts decoding -/

theorem b58Val_eq_some {c : Char} {n : ℕ} (h : b58Val c = some n) : n < 58 ∧ b58Char n = c := by
  obtain ⟨hn, hc, -⟩ := List.idxOf?_eq_some_iff.1 h
  exact ⟨hn, by rw [b58Char, List.getD_eq_getElem?_getD, List.getElem?_eq_getElem hn, hc]; rfl⟩

/-- The digits of a text are below the base, and spell it. -/
theorem mapM_b58Val_eq_some {cs : List Char} {ds : List ℕ} (h : cs.mapM b58Val = some ds) :
    (∀ d ∈ ds, d < 58) ∧ ds.map b58Char = cs := by
  induction cs generalizing ds with
  | nil =>
    simp only [List.mapM_nil, Option.pure_def, Option.some.injEq] at h
    simp [← h]
  | cons c cs ih =>
    simp only [List.mapM_cons, Option.bind_eq_bind, Option.bind_eq_some_iff, Option.pure_def,
      Option.some.injEq] at h
    obtain ⟨d, hd, es, hes, rfl⟩ := h
    obtain ⟨hlt, hc⟩ := b58Val_eq_some hd
    obtain ⟨hall, hcs⟩ := ih hes
    exact ⟨List.forall_mem_cons.2 ⟨hlt, hall⟩, by rw [List.map_cons, hc, hcs]⟩

/-- A list is its leading zeros and the rest. -/
theorem replicate_append_dropWhile {α : Type} [DecidableEq α] (a : α) (xs : List α) :
    List.replicate (xs.takeWhile (· == a)).length a ++ xs.dropWhile (· == a) = xs := by
  have hall : ∀ x ∈ xs.takeWhile (· == a), x = a := fun x hx =>
    beq_iff_eq.1 (List.all_eq_true.1 List.all_takeWhile x hx)
  rw [← List.eq_replicate_of_mem hall, List.takeWhile_append_dropWhile]

theorem ofDigitsBE_replicate_append (b n : ℕ) (ds : List ℕ) :
    ofDigitsBE b (List.replicate n 0 ++ ds) = ofDigitsBE b ds := by
  induction n with
  | zero => rfl
  | succ n ih =>
    rw [List.replicate_succ, List.cons_append, ← ih]
    simp [ofDigitsBE]

/-- Digits without a leading zero are those of their number. -/
theorem digits_ofDigitsBE_eq {b : ℕ} (hb : 1 < b) {ds : List ℕ} (hlt : ∀ d ∈ ds, d < b)
    (h0 : ds.head? ≠ some 0) : (Nat.digits b (ofDigitsBE b ds)).reverse = ds := by
  rw [ofDigitsBE_eq, Nat.digits_ofDigits b hb, List.reverse_reverse]
  · exact fun d hd => hlt d (List.mem_reverse.1 hd)
  · intro hne
    rw [List.getLast_reverse]
    intro he
    exact h0 (by rw [List.head?_eq_some_head (by simpa using hne), he])

/-- The bytes of a number do not start with a zero byte. -/
theorem head_bytes_ne_zero (num : ℕ) :
    ((Nat.digits 256 num).reverse.map UInt8.ofNat).head? ≠ some 0 := by
  rcases hds : (Nat.digits 256 num).reverse with _ | ⟨d, ds⟩
  · simp
  · have hne : Nat.digits 256 num ≠ [] := fun he => by simp [he] at hds
    have hnum : num ≠ 0 := Nat.digits_ne_nil_iff_ne_zero.1 hne
    have hd : d = (Nat.digits 256 num).getLast hne := by
      have := List.head_reverse (l := Nat.digits 256 num) (by simpa using hne)
      simp only [hds, List.head_cons] at this
      exact this
    have hlt : d < 256 := Nat.digits_lt_base (by decide) (hd ▸ List.getLast_mem hne)
    have hd0 : d ≠ 0 := hd ▸ Nat.getLast_digit_ne_zero 256 hnum
    rw [List.map_cons, List.head?_cons, ne_eq, Option.some.injEq, ← UInt8.toNat_inj,
      UInt8.toNat_ofNat_of_lt' hlt]
    exact hd0

/-- **Base 58 has one spelling**: what decodes is the encoding of its bytes. -/
theorem b58encode_b58decode {cs : List Char} {raw : Bytes} (h : b58decode cs = some raw) :
    b58encode raw = cs := by
  simp only [b58decode, Option.bind_eq_bind, Option.bind_eq_some_iff, Option.pure_def,
    Option.some.injEq] at h
  obtain ⟨ds, hds, rfl⟩ := h
  obtain ⟨hlt, rfl⟩ := mapM_b58Val_eq_some hds
  set zeros := (ds.takeWhile (· == 0)).length with hzeros
  -- a `1` is the digit zero, so the leading `1`s are the leading zeros
  have hones : ((ds.map b58Char).takeWhile (· == '1')).length = zeros := by
    rw [List.takeWhile_map, List.length_map, hzeros]
    congr 1
    clear_value zeros
    clear hds hzeros
    induction ds with
    | nil => rfl
    | cons d ds ih =>
      rw [List.forall_mem_cons] at hlt
      by_cases hd : d = 0
      · subst hd
        rw [List.takeWhile_cons_of_pos rfl, List.takeWhile_cons_of_pos rfl, ih hlt.2]
      · rw [List.takeWhile_cons_of_neg (by simp [b58Char_ne_one d hlt.1 hd]),
          List.takeWhile_cons_of_neg (by simpa using hd)]
  set rest := ds.dropWhile (· == 0) with hrest
  have hsplit : List.replicate zeros 0 ++ rest = ds := replicate_append_dropWhile 0 ds
  have hhead : rest.head? ≠ some 0 := by
    intro he
    have := List.head?_dropWhile_not (· == 0) ds
    rw [← hrest, he] at this
    simp at this
  have hrestlt : ∀ d ∈ rest, d < 58 := fun d hd =>
    hlt d (hsplit ▸ List.mem_append_right _ hd)
  have hnum : ofDigitsBE 58 ds = ofDigitsBE 58 rest := by
    rw [← hsplit, ofDigitsBE_replicate_append]
  set bytes := (Nat.digits 256 (ofDigitsBE 58 rest)).reverse.map UInt8.ofNat with hbytes
  have hzero : ((List.replicate zeros (0 : UInt8) ++ bytes).takeWhile (· == 0)).length = zeros := by
    rw [List.takeWhile_append_of_pos (by simp)]
    have hb : bytes.takeWhile (· == 0) = [] := by
      have h0 := head_bytes_ne_zero (ofDigitsBE 58 rest)
      rw [← hbytes] at h0
      cases hbs : bytes with
      | nil => rfl
      | cons a bs =>
        rw [hbs, List.head?_cons, ne_eq, Option.some.injEq] at h0
        exact List.takeWhile_cons_of_neg (by simpa using h0)
    rw [hb, List.append_nil, List.length_replicate]
  have hback : ofDigitsBE 256 ((List.replicate zeros (0 : UInt8) ++ bytes).map UInt8.toNat) =
      ofDigitsBE 58 rest := by
    have hmap : bytes.map UInt8.toNat = (Nat.digits 256 (ofDigitsBE 58 rest)).reverse := by
      rw [hbytes, List.map_map]
      refine (List.map_congr_left fun d hd => ?_).trans (List.map_id _)
      exact UInt8.toNat_ofNat_of_lt' (Nat.digits_lt_base (by decide) (List.mem_reverse.1 hd))
    rw [List.map_append, List.map_replicate, hmap]
    exact (ofDigitsBE_replicate_append 256 zeros _).trans
      (by rw [ofDigitsBE_eq, List.reverse_reverse, Nat.ofDigits_digits])
  rw [hones, hnum, b58encode, hzero, hback, digits_ofDigitsBE_eq (by decide) hrestlt hhead]
  conv_rhs => rw [← hsplit, List.map_append, List.map_replicate]
  rfl

/-- What decodes is the `did:key` of its key. -/
theorem encodeDidKey_of_decodeDidKey {did : String} {pubkey : Bytes}
    (h : decodeDidKey did = some pubkey) : encodeDidKey pubkey = did ∧ pubkey.length = 32 := by
  rw [decodeDidKey] at h
  split_ifs at h with hp
  simp only [Option.bind_eq_bind, Option.bind_eq_some_iff] at h
  obtain ⟨raw, hraw, h⟩ := h
  split_ifs at h with hr
  rw [Bool.and_eq_true, beq_iff_eq, List.isPrefixOf_iff_prefix] at hr
  obtain ⟨⟨rest, rfl⟩, hrest⟩ := hr
  obtain ⟨text, htext⟩ := List.isPrefixOf_iff_prefix.1 hp
  have hdrop : (multicodecEd25519Pub ++ rest).drop 2 = rest := rfl
  simp only [hdrop, Option.pure_def, Option.some.injEq] at h hrest
  subst h
  rw [← htext, List.drop_left] at hraw
  refine ⟨?_, hrest⟩
  rw [encodeDidKey, b58encode_b58decode hraw, htext, chars_eq, String.ofList_toList]

/-- **`did:key` is a canonical bijection**: a key is the key of its text, an accepted
    text is the text of its key, and so no key has two texts. -/
theorem did_key_canonical :
    (∀ pubkey : Bytes, pubkey.length = 32 → decodeDidKey (encodeDidKey pubkey) = some pubkey) ∧
    (∀ did pubkey, decodeDidKey did = some pubkey →
      pubkey.length = 32 ∧ encodeDidKey pubkey = did) ∧
    ∀ did did' pubkey, decodeDidKey did = some pubkey → decodeDidKey did' = some pubkey →
      did = did' := by
  refine ⟨fun pubkey h => decodeDidKey_encodeDidKey h, fun did pubkey h => ?_,
    fun did did' pubkey h h' => ?_⟩
  · exact (encodeDidKey_of_decodeDidKey h).symm
  · rw [← (encodeDidKey_of_decodeDidKey h).1, (encodeDidKey_of_decodeDidKey h').1]

end NthDao
