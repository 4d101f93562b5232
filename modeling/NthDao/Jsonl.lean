/-
  Journals of JSON lines.

  A journal is a file that events are appended to, one JSON text and a newline
  each; it is folded from its first line when it is opened.

  * `splitLines` is `raw.split(b"\n")`; `complete raw` are the lines that end
    with a newline and `tail raw` is what stands after the last one;
  * a `Reader` is a store's fold: blank lines are skipped, a last line without a
    newline is ignored, any other line must be an object that the store applies;
  * `load_eq`: the fold of a journal is the fold of its complete lines;
  * `complete_append`: an appended line continues the tail;
  * `load_append_event`: an event appended to whole lines is read back, its keys
    sorted, and applied to their fold;
  * `load_append_flat`: events of texts and numbers, for a store that does not see
    the order of keys.
-/
import NthDao.Py.Check
import NthDao.Py.Norm

namespace Jsonl

open Py

/-! ## Lines -/

/-- `b"\n"`. -/
def nl : UInt8 := 10

/-- `raw.split(b"\n")`. -/
def splitLines : Bytes → List Bytes
  | [] => [[]]
  | b :: bs =>
    if b = nl then [] :: splitLines bs
    else match splitLines bs with
      | [] => [[b]]
      | l :: ls => (b :: l) :: ls

/-- The text of complete lines. -/
def text (ls : List Bytes) : Bytes := ls.flatMap (· ++ [nl])

@[simp] theorem text_nil : text [] = [] := rfl

@[simp] theorem text_cons (l : Bytes) (ls : List Bytes) : text (l :: ls) = l ++ nl :: text ls := by
  simp [text]

@[simp] theorem text_append (ls ms : List Bytes) : text (ls ++ ms) = text ls ++ text ms :=
  List.flatMap_append

/-- The lines of a journal that end with a newline. -/
def complete (raw : Bytes) : List Bytes := (splitLines raw).dropLast

/-- What stands after the last newline. -/
def tail (raw : Bytes) : Bytes := (splitLines raw).getLastD []

theorem splitLines_ne_nil (raw : Bytes) : splitLines raw ≠ [] := by
  induction raw with
  | nil => simp [splitLines]
  | cons b bs ih =>
    rw [splitLines]
    split_ifs
    · simp
    · split <;> simp

theorem splitLines_eq (raw : Bytes) : splitLines raw = complete raw ++ [tail raw] := by
  have h := splitLines_ne_nil raw
  rw [complete, tail, List.getLastD_eq_getLast?, List.getLast?_eq_some_getLast h, Option.getD_some,
    List.dropLast_append_getLast]

/-- Text without a newline is one line. -/
theorem splitLines_of_not_mem {t : Bytes} (h : nl ∉ t) : splitLines t = [t] := by
  induction t with
  | nil => rfl
  | cons b bs ih =>
    rw [List.mem_cons, not_or] at h
    rw [splitLines, if_neg (Ne.symm h.1), ih h.2]

theorem splitLines_cons {l : Bytes} (h : nl ∉ l) (raw : Bytes) :
    splitLines (l ++ nl :: raw) = l :: splitLines raw := by
  induction l with
  | nil => simp [splitLines]
  | cons b bs ih =>
    rw [List.mem_cons, not_or] at h
    rw [List.cons_append, splitLines, if_neg (Ne.symm h.1), ih h.2]

/-- The lines of a text of complete lines and a tail. -/
theorem splitLines_text {ls : List Bytes} (hl : ∀ l ∈ ls, nl ∉ l) {t : Bytes} (ht : nl ∉ t) :
    splitLines (text ls ++ t) = ls ++ [t] := by
  induction ls with
  | nil => exact splitLines_of_not_mem ht
  | cons l ls ih =>
    rw [List.forall_mem_cons] at hl
    rw [text_cons, List.append_assoc, List.cons_append, splitLines_cons hl.1, ih hl.2]
    rfl

theorem complete_text {ls : List Bytes} (hl : ∀ l ∈ ls, nl ∉ l) {t : Bytes} (ht : nl ∉ t) :
    complete (text ls ++ t) = ls := by
  rw [complete, splitLines_text hl ht, List.dropLast_concat]

theorem tail_text {ls : List Bytes} (hl : ∀ l ∈ ls, nl ∉ l) {t : Bytes} (ht : nl ∉ t) :
    tail (text ls ++ t) = t := by
  rw [tail, splitLines_text hl ht]; simp

theorem nl_not_mem_splitLines {raw l : Bytes} (h : l ∈ splitLines raw) : nl ∉ l := by
  induction raw generalizing l with
  | nil => rw [splitLines, List.mem_singleton] at h; simp [h]
  | cons b bs ih =>
    rw [splitLines] at h
    split_ifs at h with hb
    · rcases List.mem_cons.1 h with rfl | h
      · simp
      · exact ih h
    · split at h
      · rw [List.mem_singleton.1 h, List.mem_singleton]; exact Ne.symm hb
      · rename_i m ms hm
        rcases List.mem_cons.1 h with rfl | h
        · have := ih (hm ▸ List.mem_cons_self)
          rw [List.mem_cons, not_or]
          exact ⟨Ne.symm hb, this⟩
        · exact ih (hm ▸ List.mem_cons_of_mem _ h)

theorem nl_not_mem_complete {raw l : Bytes} (h : l ∈ complete raw) : nl ∉ l :=
  nl_not_mem_splitLines (List.dropLast_subset _ h)

theorem nl_not_mem_tail (raw : Bytes) : nl ∉ tail raw := by
  refine @nl_not_mem_splitLines raw _ ?_
  rw [splitLines_eq]; simp

/-- A journal is its complete lines and its tail. -/
theorem text_complete (raw : Bytes) : text (complete raw) ++ tail raw = raw := by
  have h : ∀ ls : List Bytes, ls ≠ [] → ls = splitLines raw →
      text ls.dropLast ++ ls.getLastD [] = raw := by
    induction raw with
    | nil => rintro ls - rfl; rfl
    | cons b bs ih =>
      rintro ls - rfl
      have hs := splitLines_ne_nil bs
      have ih := ih _ hs rfl
      rw [splitLines]
      split_ifs with hb
      · obtain ⟨m, ms, hm⟩ := List.exists_cons_of_ne_nil hs
        rw [hm] at ih ⊢
        rw [List.dropLast_cons_cons, text_cons, List.getLastD_cons, List.nil_append, List.cons_append,
          hb]
        rw [List.getLastD_cons] at ih ⊢
        rw [ih]
      · obtain ⟨m, ms, hm⟩ := List.exists_cons_of_ne_nil hs
        rw [hm] at ih ⊢
        cases ms with
        | nil => simp at ih ⊢; exact ih
        | cons m' ms =>
          simp only [List.dropLast_cons_cons, text_cons, List.append_assoc, List.cons_append,
            List.getLastD_cons, List.cons.injEq, true_and] at ih ⊢
          exact ih
  exact h _ (splitLines_ne_nil raw) rfl

/-- Appended lines continue the tail. -/
theorem complete_append (raw : Bytes) {l : Bytes} (hl : nl ∉ l) :
    complete (raw ++ (l ++ [nl])) = complete raw ++ [tail raw ++ l] ∧
      tail (raw ++ (l ++ [nl])) = [] := by
  have ht : nl ∉ tail raw ++ l := by
    rw [List.mem_append, not_or]; exact ⟨nl_not_mem_tail raw, hl⟩
  have he : raw ++ (l ++ [nl]) = text (complete raw ++ [tail raw ++ l]) ++ [] := by
    rw [text_append, text_cons, text_nil]
    nth_rewrite 1 [← text_complete raw]
    simp
  have hm : ∀ m ∈ complete raw ++ [tail raw ++ l], nl ∉ m := by
    intro m hm
    rcases List.mem_append.1 hm with hm | hm
    · exact nl_not_mem_complete hm
    · rw [List.mem_singleton.1 hm]; exact ht
  rw [he]
  exact ⟨complete_text hm (by simp), tail_text hm (by simp)⟩

theorem tail_eq_nil_iff (raw : Bytes) : tail raw = [] ↔ raw = [] ∨ raw.getLast? = some nl := by
  constructor
  · intro h
    have hr := text_complete raw
    rw [h, List.append_nil] at hr
    rcases List.eq_nil_or_concat (complete raw) with hc | ⟨ls, l, hc⟩
    · left; rw [← hr, hc]; rfl
    · right; rw [← hr, hc]; simp
  · rintro (rfl | h)
    · rfl
    · by_contra hne
      have hr := text_complete raw
      have hl : raw.getLast? = (tail raw).getLast? := by
        rw [← hr, List.getLast?_append_of_ne_nil _ hne, hr]
      rw [h] at hl
      exact nl_not_mem_tail raw (List.mem_of_getLast? hl.symm)

/-! ## The fold -/

/-- `not line.strip()`. -/
def blank (line : Bytes) : Bool := line.all fun b => b == 32 || (9 ≤ b && b ≤ 13)

/-- How a store reads a journal: the texts of its errors, and what an event on a
    line does. -/
structure Reader (σ : Type) where
  corrupt : ℕ → String
  notObject : ℕ → String
  apply : ℕ → Fields → σ → Except String σ

variable {σ : Type}

namespace Reader

variable (R : Reader σ)

/-- One line that is not blank. -/
def readLine (n : ℕ) (line : Bytes) (s : σ) : Except String σ := do
  let event ← expect ((utf8Decode line).bind loads) (R.corrupt n)
  require event.isObj (R.notObject n)
  R.apply n event.fields s

/-- The loop over the lines, from line `n`. -/
def readLines (torn : Bool) : ℕ → List Bytes → σ → Except String σ
  | _, [], s => .ok s
  | n, line :: rest, s =>
    if blank line then readLines torn (n + 1) rest s
    else if rest.isEmpty && torn then .ok s
    else R.readLine n line s >>= readLines torn (n + 1) rest

/-- The fold of the bytes of a journal. -/
def load (raw : Bytes) (s : σ) : Except String σ :=
  R.readLines (!raw.isEmpty && raw.getLast? != some nl) 1 (splitLines raw) s

/-- The fold of complete lines. -/
def fold : ℕ → List Bytes → σ → Except String σ
  | _, [], s => .ok s
  | n, line :: rest, s =>
    (if blank line then .ok s else R.readLine n line s) >>= fold (n + 1) rest

@[simp] theorem fold_nil (n : ℕ) (s : σ) : R.fold n [] s = .ok s := rfl

theorem fold_cons (n : ℕ) (l : Bytes) (ls : List Bytes) (s : σ) : R.fold n (l :: ls) s =
    ((if blank l then .ok s else R.readLine n l s) >>= R.fold (n + 1) ls) := rfl

theorem fold_append (n : ℕ) (ls ms : List Bytes) (s : σ) :
    R.fold n (ls ++ ms) s = (R.fold n ls s >>= R.fold (n + ls.length) ms) := by
  induction ls generalizing n s with
  | nil => rfl
  | cons l ls ih =>
    rw [List.cons_append, fold_cons, fold_cons, List.length_cons]
    cases h : (if blank l then .ok s else R.readLine n l s) with
    | error e => rfl
    | ok s' => rw [ok_bind, ok_bind, ih, Nat.add_assoc, Nat.add_comm 1]

theorem readLines_eq (torn : Bool) (n : ℕ) (ls : List Bytes) (t : Bytes) (s : σ)
    (ht : torn = true ∨ t = []) : R.readLines torn n (ls ++ [t]) s = R.fold n ls s := by
  induction ls generalizing n s with
  | nil =>
    rw [List.nil_append, readLines, fold_nil]
    rcases ht with rfl | rfl
    · split_ifs with hb hr
      · rfl
      · rfl
      · exact absurd rfl hr
    · rfl
  | cons l ls ih =>
    rw [List.cons_append, readLines, fold_cons]
    split_ifs with hb hr
    · rw [ih, ok_bind]
    · simp at hr
    · congr 1
      funext s'
      exact ih _ _

/-- **The fold of a journal** is the fold of its complete lines. -/
theorem load_eq (raw : Bytes) (s : σ) : R.load raw s = R.fold 1 (complete raw) s := by
  rw [load, splitLines_eq]
  refine R.readLines_eq _ _ _ _ _ ?_
  by_cases h : tail raw = []
  · exact .inr h
  · rw [tail_eq_nil_iff, not_or] at h
    left
    simp [h.1, h.2]

@[simp] theorem load_nil (s : σ) : R.load [] s = .ok s := rfl

/-- A line appended to a journal. -/
theorem load_append (raw : Bytes) {l : Bytes} (hl : nl ∉ l) (s : σ) :
    R.load (raw ++ (l ++ [nl])) s = (R.load raw s >>= fun s' =>
      if blank (tail raw ++ l) then .ok s'
      else R.readLine (1 + (complete raw).length) (tail raw ++ l) s') := by
  rw [load_eq, load_eq, (complete_append raw hl).1, fold_append]
  congr 1
  funext s'
  rw [fold_cons]
  cases (if blank (tail raw ++ l) then .ok s'
    else R.readLine (1 + (complete raw).length) (tail raw ++ l) s') <;> rfl

end Reader

/-! ## Lines of values -/

/-- The line of an event: its canonical text. -/
def line (event : Fields) : Bytes := utf8 (dumps false (Json.obj event).norm)

theorem nl_not_mem_line {event : Fields} (he : (Json.obj event).encodable = true) :
    nl ∉ line event := by
  intro h
  rw [← Json.encodable_norm] at he
  have := le_of_mem_utf8_of_le (le_of_mem_dumps _ he) h
  exact absurd this (by decide)

/-- The line of an event starts with its brace. -/
theorem line_eq_cons (event : Fields) : ∃ r, line event = 0x7b :: r := by
  rw [line, Json.norm_obj, dumps]
  exact ⟨_, rfl⟩

theorem blank_append_line (t : Bytes) (event : Fields) : blank (t ++ line event) = false := by
  obtain ⟨r, hr⟩ := line_eq_cons event
  rw [hr, blank, List.all_append, List.all_cons]
  simp

/-- The line of an event reads back as the event. -/
theorem loads_line {event : Fields} (hw : (Json.obj event).wf = true)
    (he : (Json.obj event).encodable = true) :
    (utf8Decode (line event)).bind loads = some (Json.obj event).norm := by
  rw [line, utf8Decode_utf8, Option.bind_some]
  exact loads_dumps false (Json.wf_norm _ hw) (by rw [Json.encodable_norm, he])

namespace Reader

variable (R : Reader σ)

theorem readLine_line (n : ℕ) {event : Fields} (hw : (Json.obj event).wf = true)
    (he : (Json.obj event).encodable = true) (s : σ) :
    R.readLine n (line event) s = R.apply n (Json.obj event).norm.fields s := by
  rw [readLine, loads_line hw he, Json.norm_obj]
  rfl

/-- **An event appended to whole lines** is applied to their fold. -/
theorem load_append_event {raw : Bytes} (ht : tail raw = []) {event : Fields}
    (hw : (Json.obj event).wf = true) (he : (Json.obj event).encodable = true) (s : σ) :
    R.load (raw ++ (line event ++ [nl])) s = (R.load raw s >>=
      R.apply (1 + (complete raw).length) (Json.obj event).norm.fields) := by
  rw [R.load_append raw (nl_not_mem_line he)]
  congr 1
  funext s'
  have hb := blank_append_line [] event
  rw [List.nil_append] at hb
  rw [ht, List.nil_append, hb, if_neg (by decide), R.readLine_line _ hw he]

end Reader

theorem tail_append_event (raw : Bytes) {event : Fields}
    (he : (Json.obj event).encodable = true) : tail (raw ++ (line event ++ [nl])) = [] :=
  (complete_append raw (nl_not_mem_line he)).2

/-! ## Several events -/

/-- Events that can be written. -/
def Writable (events : List Fields) : Prop :=
  ∀ e ∈ events, (Json.obj e).wf = true ∧ (Json.obj e).encodable = true

/-- The text of the lines of events. -/
def eventsText (events : List Fields) : Bytes := text (events.map line)

@[simp] theorem eventsText_nil : eventsText [] = [] := rfl

theorem eventsText_cons (e : Fields) (es : List Fields) :
    eventsText (e :: es) = (line e ++ [nl]) ++ eventsText es := by
  rw [eventsText, List.map_cons, text_cons, eventsText, List.append_assoc]; rfl

theorem eventsText_append (es fs : List Fields) :
    eventsText (es ++ fs) = eventsText es ++ eventsText fs := by
  rw [eventsText, List.map_append, text_append]; rfl

theorem tail_append_events {raw : Bytes} (ht : tail raw = []) {events : List Fields}
    (h : Writable events) : tail (raw ++ eventsText events) = [] := by
  induction events generalizing raw with
  | nil => rw [eventsText_nil, List.append_nil, ht]
  | cons e es ih =>
    unfold Writable at h
    rw [List.forall_mem_cons] at h
    rw [eventsText_cons, ← List.append_assoc]
    exact ih (tail_append_event raw h.1.2) h.2

namespace Reader

variable (R : Reader σ)

/-- Events applied in turn, their keys sorted. -/
def applyAll : ℕ → List Fields → σ → Except String σ
  | _, [], s => .ok s
  | n, e :: es, s => R.apply n (Json.obj e).norm.fields s >>= applyAll (n + 1) es

/-- **Events appended to whole lines** are applied to their fold in turn. -/
theorem load_append_events {raw : Bytes} (ht : tail raw = []) {events : List Fields}
    (h : Writable events) (s : σ) : R.load (raw ++ eventsText events) s =
      (R.load raw s >>= R.applyAll (1 + (complete raw).length) events) := by
  induction events generalizing raw with
  | nil =>
    rw [eventsText_nil, List.append_nil]
    cases R.load raw s <;> rfl
  | cons e es ih =>
    unfold Writable at h
    rw [List.forall_mem_cons] at h
    rw [eventsText_cons, ← List.append_assoc, ih (tail_append_event raw h.1.2) h.2,
      R.load_append_event ht h.1.1 h.1.2, (complete_append raw (nl_not_mem_line h.1.2)).1]
    cases R.load raw s with
    | error r => rfl
    | ok s' => simp [ok_bind, applyAll, Nat.add_assoc]

/-- The fold of events alone. -/
theorem load_events {events : List Fields} (h : Writable events) (s : σ) :
    R.load (eventsText events) s = R.applyAll 1 events s := by
  have := @load_append_events σ R [] rfl events h s
  rwa [List.nil_append, load_nil, ok_bind] at this

/-- **Events of texts and numbers** appended to whole lines, for a store that sees
    neither the number of a line nor the order of its keys. -/
theorem load_append_flat {f : Fields → σ → Except String σ} (hR : ∀ n e s, R.apply n e s = f e s)
    (hf : ∀ {xs ys : Fields} s, (∀ k, Json.lookup xs k = Json.lookup ys k) → f xs s = f ys s)
    {raw : Bytes} (ht : tail raw = []) {events : List Fields}
    (hflat : ∀ e ∈ events, Json.flat e = true)
    (he : ∀ e ∈ events, (Json.obj e).encodable = true) (s : σ) :
    R.load (raw ++ eventsText events) s =
      (R.load raw s >>= fun s' => events.foldlM (fun s e => f e s) s') ∧
    tail (raw ++ eventsText events) = [] := by
  have hw : Writable events := fun e h => ⟨Json.wf_of_flat (hflat e h), he e h⟩
  refine ⟨?_, tail_append_events ht hw⟩
  rw [R.load_append_events ht hw]
  congr 1
  funext s'
  clear ht hw he
  generalize 1 + (complete raw).length = n
  induction events generalizing s' n with
  | nil => rfl
  | cons e es ih =>
    rw [List.forall_mem_cons] at hflat
    rw [applyAll, List.foldlM_cons, hR, hf s' (Json.lookup_norm_flat hflat.1)]
    congr 1
    funext s''
    exact ih hflat.2 s'' (n + 1)

end Reader

end Jsonl
