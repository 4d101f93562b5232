/-
  The text of a JSON value with the default separators:
  `json.dumps(v, ensure_ascii=False)`.

  * `dumpsSpaced v` is the text of `v`; a `float` is written, unlike in canonical
    JSON, so `writable` says where the encoder raises;
  * `loads_dumpsSpaced`: the text reads back as `v`;
  * `le_of_mem_dumpsSpaced`: it is one line.
-/
import NthDao.Py.Ascii
import NthDao.Py.Float

namespace Py

mutual
/-- `json.dumps(v, ensure_ascii=False)`. -/
def dumpsSpaced : Json → List Char
  | .arr xs => '[' :: (dumpsSpacedList xs ++ [']'])
  | .obj kvs => '{' :: (dumpsSpacedFields kvs ++ ['}'])
  | v => dumps false v
def dumpsSpacedList : List Json → List Char
  | [] => []
  | [x] => dumpsSpaced x
  | x :: y :: xs => dumpsSpaced x ++ ',' :: ' ' :: dumpsSpacedList (y :: xs)
def dumpsSpacedFields : Fields → List Char
  | [] => []
  | [(k, x)] => dumpsStr false k ++ ':' :: ' ' :: dumpsSpaced x
  | (k, x) :: q :: kvs =>
    dumpsStr false k ++ ':' :: ' ' :: dumpsSpaced x ++ ',' :: ' ' :: dumpsSpacedFields (q :: kvs)
end

mutual
/-- The encoder raises on none of the parts of the value. -/
def Json.writable : Json → Bool
  | .arr xs => writableList xs
  | .obj kvs => writableFields kvs
  | .other t => floatText t
  | v => v.encodable
def Json.writableList : List Json → Bool
  | [] => true
  | x :: xs => Json.writable x && writableList xs
def Json.writableFields : Fields → Bool
  | [] => true
  | (_, x) :: kvs => Json.writable x && writableFields kvs
end

namespace Json

theorem writable_arr {xs : List Json} :
    (Json.arr xs).writable = true ↔ ∀ x ∈ xs, x.writable = true := by
  rw [writable]
  induction xs with
  | nil => simp [writableList]
  | cons x xs ih => simp [writableList, ih]

theorem writable_obj {kvs : Fields} :
    (Json.obj kvs).writable = true ↔ ∀ p ∈ kvs, p.2.writable = true := by
  rw [writable]
  induction kvs with
  | nil => simp [writableFields]
  | cons p kvs ih => obtain ⟨k, x⟩ := p; simp [writableFields, ih]

/-- What canonical JSON takes can be written. -/
theorem writable_of_encodable (v : Json) (h : v.encodable = true) : v.writable = true := by
  induction v using ind with
  | arr xs ih =>
    rw [encodable_arr] at h
    exact writable_arr.2 fun x hx => ih x hx (h x hx)
  | obj kvs ih =>
    rw [encodable_obj] at h
    exact writable_obj.2 fun p hp => ih p hp (h p hp)
  | other t => cases h
  | _ => exact h

end Json

/-- A value that is no container has one text. -/
theorem dumpsSpaced_atom {v : Json} (ha : ∀ xs, v ≠ .arr xs) (ho : ∀ kvs, v ≠ .obj kvs) :
    dumpsSpaced v = dumps false v := by
  cases v with
  | arr xs => exact absurd rfl (ha xs)
  | obj kvs => exact absurd rfl (ho kvs)
  | _ => rfl

theorem dumpsSpaced_head {v : Json} (hv : v.writable = true) :
    ∃ c cs, dumpsSpaced v = c :: cs ∧ isWs c = false ∧ c ≠ ']' := by
  cases v with
  | arr xs => exact ⟨_, _, by rw [dumpsSpaced], by decide, by decide⟩
  | obj kvs => exact ⟨_, _, by rw [dumpsSpaced], by decide, by decide⟩
  | other t => exact floatText_head hv
  | _ =>
    rw [dumpsSpaced_atom (by simp) (by simp)]
    exact dumps_head false hv

theorem skipWs_dumpsSpaced {v : Json} (hv : v.writable = true) (r : List Char) :
    skipWs (dumpsSpaced v ++ r) = dumpsSpaced v ++ r := by
  obtain ⟨c, cs, h, hws, -⟩ := dumpsSpaced_head hv
  rw [h, List.cons_append, skipWs_of_not_ws hws]

theorem skipWs_space (r : List Char) : skipWs (' ' :: r) = skipWs r := by
  rw [skipWs, if_pos (by decide)]

theorem length_dumpsSpaced_pos {v : Json} (hv : v.writable = true) :
    1 ≤ (dumpsSpaced v).length := by
  obtain ⟨c, cs, h, -⟩ := dumpsSpaced_head hv
  rw [h, List.length_cons]
  omega

theorem fuelOf_le_spaced (v : Json) (hv : v.writable = true) :
    fuelOf v ≤ 2 * (dumpsSpaced v).length := by
  induction v using Json.ind with
  | arr xs ih =>
    rw [Json.writable_arr] at hv
    have hl : fuelList xs ≤ 2 * (dumpsSpacedList xs).length + 1 := by
      induction xs with
      | nil => simp [fuelList]
      | cons x xs ihx =>
        rw [List.forall_mem_cons] at hv
        have h₁ := ih x (by simp) hv.1
        have h₂ := ihx (fun y hy => ih y (by simp [hy])) hv.2
        have h₃ := length_dumpsSpaced_pos hv.1
        cases xs with
        | nil => simp only [fuelList, dumpsSpacedList]; omega
        | cons y ys =>
          simp only [fuelList, dumpsSpacedList, List.length_append, List.length_cons] at *
          omega
    simp only [fuelOf, dumpsSpaced, List.length_cons, List.length_append, List.length_nil]
    omega
  | obj kvs ih =>
    rw [Json.writable_obj] at hv
    have hl : fuelFields kvs ≤ 2 * (dumpsSpacedFields kvs).length + 1 := by
      induction kvs with
      | nil => simp [fuelFields]
      | cons p kvs ihx =>
        obtain ⟨k, x⟩ := p
        rw [List.forall_mem_cons] at hv
        have h₁ := ih (k, x) (by simp) hv.1
        have h₂ := ihx (fun y hy => ih y (by simp [hy])) hv.2
        have h₃ := length_dumpsSpaced_pos hv.1
        cases kvs with
        | nil =>
          simp only [fuelFields, dumpsSpacedFields, List.length_append, List.length_cons] at *
          omega
        | cons q ys =>
          simp only [fuelFields, dumpsSpacedFields, List.length_append, List.length_cons] at *
          omega
    simp only [fuelOf, dumpsSpaced, List.length_cons, List.length_append, List.length_nil]
    omega
  | _ =>
    have h := length_dumpsSpaced_pos hv
    simp only [fuelOf]
    omega

/-- The reader returns `v` on the text of `v`, whatever follows it. -/
def ReadsSpaced (v : Json) : Prop :=
  ∀ fuel r, fuelOf v ≤ fuel → Stop r → parseValue fuel (dumpsSpaced v ++ r) = some (v, r)

theorem skipWs_dumpsSpacedList {x : Json} (hx : x.writable = true) (xs : List Json)
    (r : List Char) : skipWs (dumpsSpacedList (x :: xs) ++ r) = dumpsSpacedList (x :: xs) ++ r := by
  cases xs with
  | nil => rw [dumpsSpacedList, skipWs_dumpsSpaced hx]
  | cons y ys => rw [dumpsSpacedList, List.append_assoc, skipWs_dumpsSpaced hx]

theorem parseElems_dumpsSpaced {xs : List Json} (hx : xs ≠ [])
    (he : ∀ x ∈ xs, x.writable = true) (h : ∀ x ∈ xs, ReadsSpaced x) (fuel : ℕ)
    (hf : fuelList xs ≤ fuel) (r : List Char) :
    parseElems fuel (dumpsSpacedList xs ++ ']' :: r) = some (xs, r) := by
  induction xs generalizing fuel with
  | nil => exact absurd rfl hx
  | cons x xs ih =>
    rw [List.forall_mem_cons] at h he
    simp only [fuelList] at hf
    obtain ⟨f, rfl⟩ : ∃ f, fuel = f + 1 := ⟨fuel - 1, by omega⟩
    cases xs with
    | nil =>
      rw [dumpsSpacedList, parseElems, h.1 f _ (by omega) (stop_cons (by decide) r)]
      simp only [skipWs_of_not_ws (show isWs ']' = false by decide)]
    | cons y ys =>
      rw [dumpsSpacedList, List.append_assoc, List.cons_append, List.cons_append, parseElems,
        h.1 f _ (by omega) (stop_cons (by decide) _)]
      simp only [skipWs_of_not_ws (show isWs ',' = false by decide), skipWs_space,
        skipWs_dumpsSpacedList (he.2 y (by simp)), ih (by simp) he.2 h.2 f (by omega),
        Option.map_some]

theorem dumpsSpacedFields_cons (k : String) (x : Json) (kvs : Fields) (r : List Char) :
    ∃ t, dumpsSpacedFields ((k, x) :: kvs) ++ r = '"' :: t := by
  cases kvs with
  | nil => exact ⟨_, by rw [dumpsSpacedFields, dumpsStr]; rfl⟩
  | cons q kvs => exact ⟨_, by rw [dumpsSpacedFields, dumpsStr]; rfl⟩

theorem parseMembers_dumpsSpaced {kvs : Fields} (hx : kvs ≠ [])
    (he : ∀ p ∈ kvs, p.2.writable = true) (h : ∀ p ∈ kvs, ReadsSpaced p.2) (fuel : ℕ)
    (hf : fuelFields kvs ≤ fuel) (r : List Char) :
    parseMembers fuel (dumpsSpacedFields kvs ++ '}' :: r) =
      some (kvs.map fun p => (some p.1, p.2), r) := by
  induction kvs generalizing fuel with
  | nil => exact absurd rfl hx
  | cons p kvs ih =>
    obtain ⟨k, x⟩ := p
    rw [List.forall_mem_cons] at h he
    simp only [fuelFields] at hf
    obtain ⟨f, rfl⟩ : ∃ f, fuel = f + 1 := ⟨fuel - 1, by omega⟩
    -- the text of the value is followed by `t`, a comma or the closing bracket
    have item : ∀ t, Stop t → ∃ us, strOfUnits us = some k ∧
        scanStr (k.toList.flatMap (escChar false) ++ '"' :: ':' :: ' ' :: (dumpsSpaced x ++ t)) =
          some (us, ':' :: ' ' :: (dumpsSpaced x ++ t)) ∧
        parseValue f (skipWs (dumpsSpaced x ++ t)) = some (x, t) := by
      intro t ht
      obtain ⟨us, h₁, h₂⟩ := scanStr_dumpsStr false k (':' :: ' ' :: (dumpsSpaced x ++ t))
      refine ⟨us, h₂, h₁, ?_⟩
      rw [skipWs_dumpsSpaced he.1, h.1 f t (show fuelOf x ≤ f by omega) ht]
    cases kvs with
    | nil =>
      obtain ⟨us, h₁, h₂, h₃⟩ := item ('}' :: r) (stop_cons (by decide) r)
      rw [dumpsSpacedFields, dumpsStr, chars_eq]
      simp only [List.cons_append, List.append_assoc, List.nil_append]
      rw [parseMembers]
      simp only [h₂, skipWs_of_not_ws (show isWs ':' = false by decide), skipWs_space, h₃,
        skipWs_of_not_ws (show isWs '}' = false by decide), h₁, List.map_cons, List.map_nil]
    | cons q ys =>
      obtain ⟨us, h₁, h₂, h₃⟩ := item (',' :: ' ' :: (dumpsSpacedFields (q :: ys) ++ '}' :: r))
        (stop_cons (by decide) _)
      obtain ⟨t, ht⟩ := dumpsSpacedFields_cons q.1 q.2 ys ('}' :: r)
      have hq : skipWs (dumpsSpacedFields (q :: ys) ++ '}' :: r) =
          dumpsSpacedFields (q :: ys) ++ '}' :: r := by
        rw [ht, skipWs_of_not_ws (by decide)]
      rw [dumpsSpacedFields, dumpsStr, chars_eq]
      simp only [List.cons_append, List.append_assoc, List.nil_append]
      rw [parseMembers]
      simp only [h₂, skipWs_of_not_ws (show isWs ':' = false by decide), skipWs_space, h₃,
        skipWs_of_not_ws (show isWs ',' = false by decide), h₁, hq,
        ih (by simp) he.2 h.2 f (by omega), Option.map_some, List.map_cons]

theorem parseValue_dumpsSpaced (v : Json) (hw : v.wf = true) (he : v.writable = true) :
    ReadsSpaced v := by
  induction v using Json.ind with
  | arr xs ih =>
    rw [Json.wf_arr] at hw
    rw [Json.writable_arr] at he
    intro fuel r hf _
    simp only [fuelOf] at hf
    obtain ⟨f, rfl⟩ : ∃ f, fuel = f + 1 := ⟨fuel - 1, by omega⟩
    rw [dumpsSpaced, List.cons_append, List.append_assoc, List.singleton_append]
    cases xs with
    | nil => rfl
    | cons x xs =>
      have hp := parseElems_dumpsSpaced (List.cons_ne_nil x xs) he
        (fun y hy => ih y hy (hw y hy) (he y hy)) f (by omega) r
      have hd : ∃ c t, dumpsSpacedList (x :: xs) ++ ']' :: r = c :: t ∧ isWs c = false ∧
          c ≠ ']' := by
        obtain ⟨c, cs, h₁, h₂, h₃⟩ := dumpsSpaced_head (he x (by simp))
        cases xs with
        | nil => exact ⟨c, _, by rw [dumpsSpacedList, h₁]; rfl, h₂, h₃⟩
        | cons y ys => exact ⟨c, _, by rw [dumpsSpacedList, h₁]; rfl, h₂, h₃⟩
      obtain ⟨c, t, ht, hws, hc⟩ := hd
      rw [ht] at hp ⊢
      rw [parseValue, skipWs_of_not_ws hws]
      split
      · rename_i h; cases h; exact absurd rfl hc
      · rw [hp, Option.map_some]
  | obj kvs ih =>
    rw [Json.wf_obj] at hw
    rw [Json.writable_obj] at he
    intro fuel r hf _
    simp only [fuelOf] at hf
    obtain ⟨f, rfl⟩ : ∃ f, fuel = f + 1 := ⟨fuel - 1, by omega⟩
    rw [dumpsSpaced, List.cons_append, List.append_assoc, List.singleton_append]
    cases kvs with
    | nil => rfl
    | cons p kvs =>
      have hp := parseMembers_dumpsSpaced (List.cons_ne_nil p kvs) he
        (fun q hq => ih q hq (hw.2 q hq) (he q hq)) f (by omega) r
      obtain ⟨t, ht⟩ := dumpsSpacedFields_cons p.1 p.2 kvs ('}' :: r)
      rw [ht] at hp ⊢
      rw [parseValue, skipWs_of_not_ws (by decide)]
      split
      · rename_i h; exact absurd (List.cons.inj h).1 (by decide)
      · rw [hp, Option.map_some, objVal_eq hw.1]
  | other t =>
    intro fuel r hf hr
    obtain ⟨f, rfl⟩ : ∃ f, fuel = f + 1 := ⟨fuel - 1, by simp only [fuelOf] at hf; omega⟩
    exact parseValue_floatText he f hr
  | _ =>
    intro fuel r hf hr
    rw [dumpsSpaced_atom (by simp) (by simp)]
    exact parseValue_dumps false _ hw he fuel r hf hr

/-- `json.loads` inverts `json.dumps`. -/
theorem loads_dumpsSpaced {v : Json} (hw : v.wf = true) (he : v.writable = true) :
    loads (dumpsSpaced v) = some v := by
  have hf := fuelOf_le_spaced v he
  have hskip := skipWs_dumpsSpaced he []
  have hparse := parseValue_dumpsSpaced v hw he (2 * (dumpsSpaced v).length + 1) [] (by omega)
    (by intro c hc; cases hc)
  rw [List.append_nil] at hskip hparse
  simp only [loads, hskip, hparse]
  rfl

/-- The text has no control characters. -/
theorem le_of_mem_dumpsSpaced (v : Json) (he : v.writable = true) :
    ∀ c ∈ dumpsSpaced v, 0x20 ≤ c.toNat := by
  have str : ∀ s, ∀ c ∈ dumpsStr false s, 0x20 ≤ c.toNat := fun s => le_of_mem_dumps (.str s) rfl
  have wrap : ∀ {a b : Char} {cs : List Char}, 0x20 ≤ a.toNat → 0x20 ≤ b.toNat →
      (∀ c ∈ cs, 0x20 ≤ c.toNat) → ∀ c ∈ a :: (cs ++ [b]), 0x20 ≤ c.toNat := by
    intro a b cs ha hb h
    simp only [List.forall_mem_cons, List.forall_mem_append, List.not_mem_nil, IsEmpty.forall_iff,
      implies_true, and_true]
    exact ⟨ha, h, hb⟩
  have sep : ∀ {a b : Char} {cs ds : List Char}, 0x20 ≤ a.toNat → 0x20 ≤ b.toNat →
      (∀ c ∈ cs, 0x20 ≤ c.toNat) → (∀ c ∈ ds, 0x20 ≤ c.toNat) →
      ∀ c ∈ cs ++ a :: b :: ds, 0x20 ≤ c.toNat := by
    intro a b cs ds ha hb h h'
    simp only [List.forall_mem_cons, List.forall_mem_append]
    exact ⟨h, ha, hb, h'⟩
  induction v using Json.ind with
  | arr xs ih =>
    rw [Json.writable_arr] at he
    refine wrap (by decide) (by decide) ?_
    induction xs with
    | nil => exact fun c hc => absurd hc List.not_mem_nil
    | cons x xs ihx =>
      rw [List.forall_mem_cons] at he
      have hx := ih x (by simp) he.1
      have hxs := ihx (fun y hy => ih y (by simp [hy])) he.2
      cases xs with
      | nil => exact hx
      | cons y ys => exact sep (by decide) (by decide) hx hxs
  | obj kvs ih =>
    rw [Json.writable_obj] at he
    refine wrap (by decide) (by decide) ?_
    induction kvs with
    | nil => exact fun c hc => absurd hc List.not_mem_nil
    | cons p kvs ihx =>
      obtain ⟨k, x⟩ := p
      rw [List.forall_mem_cons] at he
      have hx := sep (a := ':') (b := ' ') (by decide) (by decide) (str k) (ih (k, x) (by simp) he.1)
      have hxs := ihx (fun y hy => ih y (by simp [hy])) he.2
      cases kvs with
      | nil => exact hx
      | cons q ys =>
        rw [dumpsSpacedFields]
        exact sep (by decide) (by decide) hx hxs
  | other t =>
    intro c hc
    rw [Json.writable, floatText, Bool.and_eq_true, List.all_eq_true] at he
    exact of_decide_eq_true (he.1 c hc)
  | _ =>
    rw [dumpsSpaced_atom (by simp) (by simp)]
    exact le_of_mem_dumps _ he

end Py
