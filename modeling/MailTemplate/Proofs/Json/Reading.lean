import MailTemplate.Json.Reader
import MailTemplate.Proofs.Fallible

/-!
# What Readers Read

A reader that succeeds reads a value and stops at a place. These outcomes are described by the text:
the characters of a string, the items of a list one after the other, the members of an object, and
the forms of a value. Each description holds just if the reader succeeds with it.

* `Reader.run` is the value and the place, and nothing for an error.
* `Chars`, `Items` and `Members` describe what is read up to a closing quote, bracket or brace.
* `Form` describes what stands where a value begins, and `run_readValue_iff` ties it to reading.
-/

namespace MailTemplate.Json

variable {α β σ : Type} {c d e n : Cursor} {x y : Char} {rest rest' : List Char}

/-- The value of a step and the place after it. -/
def Step.reading (s : Step α c) : α × Cursor :=
  (s.value, s.next)

/-- What a reader reads at a place, and the place after it. -/
def Reader.run (reader : Reader α) (c : Cursor) : Option (α × Cursor) :=
  outcome Step.reading (reader c)

/-- What was read up to a place that may be the very same, and that place. -/
def ran (x : Except ReadError (α × c.Onward)) : Option (α × Cursor) :=
  outcome (fun r => (r.1, r.2.val)) x

/-- The place that was reached. -/
def reached (x : Except ReadError c.Onward) : Option Cursor :=
  outcome Subtype.val x

theorem run_eq_some_iff {reader : Reader α} {a : α} :
    reader.run c = some (a, n) ↔ ∃ s, reader c = .ok s ∧ s.value = a ∧ s.next = n := by
  simp only [Reader.run, outcome_eq_some_iff, Step.reading, Prod.mk.injEq]

theorem ran_eq_some_iff {x : Except ReadError (α × c.Onward)} {a : α} :
    ran x = some (a, n) ↔ ∃ d : c.Onward, x = .ok (a, d) ∧ d.val = n := by
  simp only [ran, outcome_eq_some_iff, Prod.exists, Prod.mk.injEq, and_left_comm, exists_and_left,
    exists_eq_left]

theorem reached_eq_some_iff {x : Except ReadError c.Onward} :
    reached x = some n ↔ ∃ d : c.Onward, x = .ok d ∧ d.val = n :=
  outcome_eq_some_iff

theorem run_of_ok {reader : Reader α} {s : Step α c} (h : reader c = .ok s) :
    reader.run c = some (s.value, s.next) :=
  run_eq_some_iff.2 ⟨s, h, rfl, rfl⟩

theorem ran_of_ok {x : Except ReadError (α × c.Onward)} {a : α} {d : c.Onward}
    (h : x = .ok (a, d)) : ran x = some (a, d.val) :=
  ran_eq_some_iff.2 ⟨d, h, rfl⟩

theorem reached_of_ok {x : Except ReadError c.Onward} {d : c.Onward} (h : x = .ok d) :
    reached x = some d.val :=
  reached_eq_some_iff.2 ⟨d, h, rfl⟩

/-! ## Places -/

theorem skipBlanks_idem (c : Cursor) : c.skipBlanks.skipBlanks = c.skipBlanks := by
  have hpass : ∀ (position : Position) (rest : List Char),
      (Cursor.passWhile Cursor.isBlank position rest).skipBlanks =
        Cursor.passWhile Cursor.isBlank position rest := by
    intro position rest
    induction rest generalizing position with
    | nil => rfl
    | cons x rest ih =>
      rw [Cursor.passWhile]
      split
      case isTrue => exact ih _
      case isFalse hx => rw [Cursor.skipBlanks, Cursor.passWhile, if_neg hx]
  exact hpass _ _

@[simp]
theorem run_afterBlanks (reader : Reader α) (c : Cursor) :
    (afterBlanks reader).run c = reader.run c.skipBlanks := by
  rw [Reader.run, Reader.run, afterBlanks]
  cases reader c.skipBlanks <;> rfl

theorem run_readChar (h : c.rest = x :: rest) : readChar.run c = some (x, c.step) := by
  rw [Reader.run, readChar]
  split
  case h_1 hnil => simp [hnil] at h
  case h_2 hcons =>
    rw [hcons] at h
    cases h
    rfl

theorem run_readChar_nil (h : c.rest = []) : readChar.run c = none := by
  rw [Reader.run, readChar]
  split
  case h_1 => rfl
  case h_2 hcons => simp [hcons] at h

/-- After a first character, a reader goes on from the next place. -/
theorem outcome_readChar_bind {view : β → σ} {f : Step Char c → Except ReadError β}
    (f' : Char → Cursor → Option σ) (h : c.rest = x :: rest)
    (hf : ∀ s, outcome view (f s) = f' s.value s.next) :
    outcome view (readChar c >>= f) = f' x c.step := by
  have hbind : outcome view (readChar c >>= f) = (readChar.run c).bind fun r => f' r.1 r.2 :=
    outcome_bind Step.reading hf
  rw [hbind, run_readChar h, Option.bind_some]

/-- A reader that puts its value into another form reads the same text. -/
theorem run_map {reader : Reader α} {f : α → β} {reader' : Reader β}
    (h : reader' c = do return (← reader c).map f) :
    reader'.run c = (reader.run c).map fun r => (f r.1, r.2) := by
  rw [Reader.run, Reader.run, h]
  exact outcome_bind_pure fun _ => rfl

/-! ## Parts of containers -/

/-- A part of a container begins at a place: after blanks, and after a comma if it is not the first
part. -/
inductive PartAt (closing : Char) : Bool → Cursor → Cursor → Prop
  | first {c : Cursor} {x : Char} {rest : List Char} (h : c.skipBlanks.rest = x :: rest)
    (hx : x ≠ closing) : PartAt closing true c c.skipBlanks
  | next {c : Cursor} {x : Char} {rest rest' : List Char} (hcomma : c.skipBlanks.rest = ',' :: rest)
    (h : c.skipBlanks.step.skipBlanks.rest = x :: rest') (hx : x ≠ closing) :
    PartAt closing false c c.skipBlanks.step.skipBlanks

theorem PartAt.ne_closing {closing : Char} {isFirst : Bool} (h : PartAt closing isFirst c d) :
    ∃ x rest, d.rest = x :: rest ∧ x ≠ closing := by
  cases h with
  | first h hx => exact ⟨_, _, h, hx⟩
  | next _ h hx => exact ⟨_, _, h, hx⟩

/-- After a comma a part begins, unless the text ends or the container is closed. -/
theorem PartAt.of_comma {closing : Char} (hcomma : c.skipBlanks.rest = ',' :: rest)
    (hnil : c.skipBlanks.step.skipBlanks.rest ≠ [])
    (hclosing : ∀ rest, c.skipBlanks.step.skipBlanks.rest ≠ closing :: rest) :
    PartAt closing false c c.skipBlanks.step.skipBlanks := by
  obtain ⟨x, rest', hrest⟩ := List.exists_cons_of_ne_nil hnil
  refine .next hcomma hrest ?_
  rintro rfl
  exact hclosing _ hrest

theorem PartAt.skipBlanks_eq {closing : Char} {isFirst : Bool} (h : PartAt closing isFirst c d) :
    d.skipBlanks = d := by
  cases h with
  | first => exact skipBlanks_idem _
  | next => exact skipBlanks_idem _

/-- A container is closed at a place, after blanks, and ends at the next one. -/
inductive Closed (closing : Char) (c : Cursor) : Cursor → Prop
  | intro {rest : List Char} (h : c.skipBlanks.rest = closing :: rest) :
    Closed closing c c.skipBlanks.step

theorem Closed.skipBlanks {closing : Char} (h : Closed closing c n) :
    Closed closing c.skipBlanks n := by
  cases h with
  | intro h =>
    rw [← skipBlanks_idem] at h
    have hclosed := Closed.intro h
    rwa [skipBlanks_idem] at hclosed

variable {isFirst : Bool}

theorem ran_nextItem_closed (isFirst : Bool) (h : Closed ']' c n) :
    ran (nextItem isFirst c) = some (false, c.skipBlanks) := by
  cases h with
  | intro h => simp [ran, nextItem, Cursor.blanks, h]

theorem ran_nextItem_part (h : PartAt ']' isFirst c d) :
    ran (nextItem isFirst c) = some (true, d) := by
  cases h with
  | first h hx => simp [ran, nextItem, Cursor.blanks, h]
  | next hcomma h hx =>
    simp [ran, nextItem, Cursor.blanks, Cursor.onward, Cursor.Onward.trans, hcomma, h, hx]

/-- The next item is looked for at the closing bracket or where a part begins. -/
theorem closed_or_part_of_nextItem {more : Bool × c.Onward} (h : nextItem isFirst c = .ok more) :
    (∃ n, Closed ']' c n) ∨ ∃ d, PartAt ']' isFirst c d := by
  simp only [nextItem, Cursor.blanks, Cursor.onward, Cursor.Onward.trans] at h
  -- The text has ended, or the list is closed, or there is an item.
  split at h
  case h_1 => cases h
  case h_2 hrest => exact .inl ⟨_, .intro hrest⟩
  case h_3 x rest hx hrest =>
    cases isFirst with
    | true => exact .inr ⟨_, .first hrest hx⟩
    | false =>
      simp only [Bool.false_eq_true, if_false] at h
      split at h
      case isFalse => cases h
      case isTrue hcomma =>
        subst hcomma
        split at h
        case h_1 => cases h
        case h_2 => cases h
        case h_3 hnil hclosing => exact .inr ⟨_, .of_comma hrest hnil hclosing⟩

theorem reached_closeList (h : Closed ']' c n) : reached (closeList c) = some n := by
  cases h with
  | intro h => simp [reached, closeList, Cursor.blanks, Cursor.onward, Cursor.Onward.trans, h]

theorem reached_closeObject (h : Closed '}' c n) : reached (closeObject c) = some n := by
  cases h with
  | intro h => simp [reached, closeObject, Cursor.blanks, Cursor.onward, Cursor.Onward.trans, h]

/-! ## Items of lists -/

variable {item : Reader α} {xs : List α} {a : α}

/-- Items up to the closing bracket, and past it. -/
inductive Items (item : Reader α) : Bool → Cursor → List α → Cursor → Prop
  | nil {isFirst : Bool} {c n : Cursor} (h : Closed ']' c n) : Items item isFirst c [] n
  | cons {isFirst : Bool} {c d e n : Cursor} {a : α} {xs : List α} (hpart : PartAt ']' isFirst c d)
    (hitem : item.run d = some (a, e)) (hrest : Items item false e xs n) :
    Items item isFirst c (a :: xs) n

theorem ran_readItems_closed (h : Closed ']' c n) :
    ran (readItems item isFirst c) = some ([], c.skipBlanks) := by
  obtain ⟨d, hnext, heq⟩ := ran_eq_some_iff.1 (ran_nextItem_closed isFirst h)
  rw [readItems, hnext, ← heq]
  rfl

theorem ran_readItems_part (h : PartAt ']' isFirst c d) :
    ran (readItems item isFirst c) = (item.run d).bind fun r =>
      (ran (readItems item false r.2)).map fun s => (r.1 :: s.1, s.2) := by
  obtain ⟨d, hnext, rfl⟩ := ran_eq_some_iff.1 (ran_nextItem_part h)
  rw [readItems, hnext, ok_bind]
  refine outcome_bind Step.reading fun s => ?_
  dsimp only
  rw [Step.reading]
  cases readItems item false s.next <;> rfl

theorem Items.ran_readItems (h : Items item isFirst c xs n) :
    ∃ d, ran (readItems item isFirst c) = some (xs, d) ∧ Closed ']' d n := by
  induction h with
  | nil h => exact ⟨_, ran_readItems_closed h, h.skipBlanks⟩
  | cons hpart hitem _ ih =>
    obtain ⟨d, hread, hclosed⟩ := ih
    refine ⟨d, ?_, hclosed⟩
    rw [ran_readItems_part hpart, hitem, Option.bind_some, hread]
    rfl

/-- What is read as items stands there as items. -/
theorem items_of_ran_readItems (h : ran (readItems item isFirst c) = some (xs, d)) :
    ∃ n, Items item isFirst c xs n ∧ Closed ']' d n := by
  -- The induction follows the reader from one item to the next place.
  fun_induction readItems item isFirst c generalizing xs with
  | case1 isFirst c ih =>
    cases hnext : nextItem isFirst c with
    | error e =>
      rw [hnext] at h
      cases h
    | ok more =>
      rw [← readItems] at h
      rcases closed_or_part_of_nextItem hnext with ⟨n, hclosed⟩ | ⟨e, hpart⟩
      · rw [ran_readItems_closed hclosed] at h
        cases h
        exact ⟨n, .nil hclosed, hclosed.skipBlanks⟩
      · obtain ⟨place, -, rfl⟩ := ran_eq_some_iff.1 (ran_nextItem_part hpart)
        rw [ran_readItems_part hpart, Option.bind_eq_some_iff] at h
        obtain ⟨_, hitem, hrest⟩ := h
        obtain ⟨s, -, rfl⟩ := outcome_eq_some_iff.1 hitem
        obtain ⟨_, hread, heq⟩ := Option.map_eq_some_iff.1 hrest
        cases heq
        obtain ⟨n, hitems, hclosed⟩ := ih _ s hread
        exact ⟨n, .cons hpart hitem hitems, hclosed⟩

/-- Reading a list reads its items and passes the closing bracket. -/
theorem run_readList (h : c.rest = '[' :: rest) :
    (readList item).run c = (ran (readItems item true c.step)).bind fun r =>
      (reached (closeList r.2)).map fun n => (r.1, n) :=
  outcome_readChar_bind (fun _ d => (ran (readItems item true d)).bind fun r =>
    (reached (closeList r.2)).map fun n => (r.1, n)) h fun _ =>
      outcome_bind _ fun _ => outcome_bind_pure fun _ => rfl

/-- A list is read just if its items stand there. -/
theorem run_readList_iff (h : c.rest = '[' :: rest) :
    (readList item).run c = some (xs, n) ↔ Items item true c.step xs n := by
  rw [run_readList h, Option.bind_eq_some_iff]
  constructor
  · rintro ⟨⟨ys, d⟩, hitems, hclose⟩
    obtain ⟨_, hreached, heq⟩ := Option.map_eq_some_iff.1 hclose
    cases heq
    obtain ⟨n', hitems, hclosed⟩ := items_of_ran_readItems hitems
    rw [reached_closeList hclosed] at hreached
    cases hreached
    exact hitems
  · intro hitems
    obtain ⟨d, hread, hclosed⟩ := hitems.ran_readItems
    refine ⟨_, hread, ?_⟩
    rw [reached_closeList hclosed]
    rfl

/-! ## Members of objects -/

variable {value : Reader α} {key : String} {ms : List (String × α)}

/-- A key of an object stands at a place, up to another one. -/
inductive KeyAt : Bool → Cursor → String → Cursor → Prop
  | intro {isFirst : Bool} {c d e : Cursor} {key : String} {rest : List Char}
    (hpart : PartAt '}' isFirst c d) (hquote : d.rest = '"' :: rest)
    (hkey : readString.run d.step = some (key, e)) : KeyAt isFirst c key e

/-- The next key and the place after it, or no key and the place of the closing brace. -/
def keyed (x : Except ReadError (c.Onward ⊕ Step String c)) : Option (Option String × Cursor) :=
  outcome (Sum.elim (fun d => (none, d.val)) fun s => (some s.value, s.next)) x

theorem reached_keyPlace_closed (isFirst : Bool) (h : Closed '}' c n) :
    reached (keyPlace isFirst c) = some c.skipBlanks := by
  cases h with
  | intro h => simp [reached, keyPlace, Cursor.blanks, h]

theorem reached_keyPlace_part (h : PartAt '}' isFirst c d) :
    reached (keyPlace isFirst c) = some d := by
  cases h with
  | first h hx => simp [reached, keyPlace, Cursor.blanks, h]
  | next hcomma h hx =>
    simp [reached, keyPlace, Cursor.blanks, Cursor.onward, Cursor.Onward.trans, hcomma, h, hx]

theorem closed_or_part_of_keyPlace {place : c.Onward} (h : keyPlace isFirst c = .ok place) :
    (∃ n, Closed '}' c n) ∨ ∃ d, PartAt '}' isFirst c d := by
  simp only [keyPlace, Cursor.blanks, Cursor.onward, Cursor.Onward.trans] at h
  split at h
  case h_1 => cases h
  case h_2 hrest => exact .inl ⟨_, .intro hrest⟩
  case h_3 x rest hx hrest =>
    cases isFirst with
    | true => exact .inr ⟨_, .first hrest hx⟩
    | false =>
      simp only [Bool.false_eq_true, if_false] at h
      split at h
      case isFalse => cases h
      case isTrue hcomma =>
        subst hcomma
        split at h
        case h_1 => cases h
        case h_2 => cases h
        case h_3 hnil hclosing => exact .inr ⟨_, .of_comma hrest hnil hclosing⟩

theorem keyed_nextKey_closed (isFirst : Bool) (h : Closed '}' c n) :
    keyed (nextKey isFirst c) = some (none, c.skipBlanks) := by
  obtain ⟨d, hplace, hd⟩ := reached_eq_some_iff.1 (reached_keyPlace_closed isFirst h)
  cases h with
  | intro h =>
    rw [← hd] at h ⊢
    rw [nextKey, hplace, ok_bind]
    simp [keyed, h]

theorem keyed_nextKey_key (h : KeyAt isFirst c key e) :
    keyed (nextKey isFirst c) = some (some key, e) := by
  cases h with
  | intro hpart hquote hkey =>
    obtain ⟨d, hplace, rfl⟩ := reached_eq_some_iff.1 (reached_keyPlace_part hpart)
    obtain ⟨s, hs, heq⟩ := outcome_eq_some_iff.1 hkey
    rw [Step.reading, Prod.mk.injEq] at heq
    rw [nextKey, hplace, ok_bind, keyed]
    split
    case h_1 hbrace => simp [hbrace] at hquote
    case h_2 =>
      rw [hs, ← heq.1, ← heq.2]
      rfl
    case h_3 hnot => exact absurd hquote (hnot _)

/-- The next key is looked for at the closing brace or where a key stands. -/
theorem closed_or_key_of_nextKey {next : c.Onward ⊕ Step String c}
    (h : nextKey isFirst c = .ok next) :
    (∃ n, Closed '}' c n) ∨ ∃ key e, KeyAt isFirst c key e := by
  obtain ⟨place, hplace, hkey⟩ := bind_eq_ok_iff.1 h
  refine (closed_or_part_of_keyPlace hplace).imp_right fun ⟨d, hpart⟩ => ?_
  obtain ⟨_, hd, heq⟩ := reached_eq_some_iff.1 (reached_keyPlace_part hpart)
  rw [hplace] at hd
  cases hd
  subst heq
  split at hkey
  case h_1 hbrace =>
    obtain ⟨x, rest, hrest, hx⟩ := hpart.ne_closing
    rw [hrest] at hbrace
    cases hbrace
    exact absurd rfl hx
  case h_2 hquote =>
    obtain ⟨s, hs, -⟩ := bind_eq_ok_iff.1 hkey
    exact ⟨s.value, s.next, .intro hpart hquote (run_of_ok hs)⟩
  case h_3 => cases hkey

theorem reached_passColon (h : c.skipBlanks.rest = ':' :: rest) :
    reached (passColon c) = some c.skipBlanks.step := by
  simp [reached, passColon, Cursor.blanks, Cursor.onward, Cursor.Onward.trans, h]

theorem colon_of_passColon {place : c.Onward} (h : passColon c = .ok place) :
    ∃ rest, c.skipBlanks.rest = ':' :: rest := by
  simp only [passColon, Cursor.blanks] at h
  split at h
  case h_1 => cases h
  case h_2 rest hrest => exact ⟨rest, hrest⟩
  case h_3 => cases h

theorem ran_memberValue (h : c.skipBlanks.rest = ':' :: rest) :
    ran (memberValue value c) = value.run c.skipBlanks.step := by
  obtain ⟨place, hplace, heq⟩ := reached_eq_some_iff.1 (reached_passColon h)
  rw [memberValue, hplace, ← heq, ok_bind, Reader.run]
  cases value place.val <;> rfl

/-- The value of a member is read just after a colon. -/
theorem ran_memberValue_iff :
    ran (memberValue value c) = some (a, n) ↔
      (∃ rest, c.skipBlanks.rest = ':' :: rest) ∧ value.run c.skipBlanks.step = some (a, n) := by
  constructor
  · intro h
    obtain ⟨_, hread, -⟩ := outcome_eq_some_iff.1 h
    obtain ⟨place, hplace, -⟩ := bind_eq_ok_iff.1 hread
    obtain ⟨rest, hrest⟩ := colon_of_passColon hplace
    rw [ran_memberValue hrest] at h
    exact ⟨⟨rest, hrest⟩, h⟩
  · rintro ⟨⟨rest, hrest⟩, h⟩
    rwa [ran_memberValue hrest]

/-- Members up to the closing brace, and past it. -/
inductive Members (value : Reader α) : Bool → Cursor → List (String × α) → Cursor → Prop
  | nil {isFirst : Bool} {c n : Cursor} (h : Closed '}' c n) : Members value isFirst c [] n
  | cons {isFirst : Bool} {c d e n : Cursor} {key : String} {a : α} {ms : List (String × α)}
    (hkey : KeyAt isFirst c key d) (hvalue : ran (memberValue value d) = some (a, e))
    (hrest : Members value false e ms n) : Members value isFirst c ((key, a) :: ms) n

variable {f : σ → String × α → σ}
  {member : σ → String → (c : Cursor) → Except ReadError (σ × c.Onward)}

theorem ran_readMembers_closed (h : Closed '}' c n) (state : σ) :
    ran (readMembers member isFirst state c) = some (state, c.skipBlanks) := by
  obtain ⟨next, hnext, heq⟩ := outcome_eq_some_iff.1 (keyed_nextKey_closed isFirst h)
  rw [readMembers, hnext, ok_bind]
  cases next with
  | inl d =>
    simp only [Sum.elim_inl, Prod.mk.injEq, true_and] at heq
    rw [← heq]
    rfl
  | inr s => cases heq

theorem ran_readMembers_key (h : KeyAt isFirst c key d) (state : σ) :
    ran (readMembers member isFirst state c) = (ran (member state key d)).bind fun r =>
      ran (readMembers member false r.1 r.2) := by
  obtain ⟨next, hnext, heq⟩ := outcome_eq_some_iff.1 (keyed_nextKey_key h)
  rw [readMembers, hnext, ok_bind]
  cases next with
  | inl d => cases heq
  | inr s =>
    simp only [Sum.elim_inr, Prod.mk.injEq, Option.some.injEq] at heq
    obtain ⟨rfl, rfl⟩ := heq
    dsimp only
    refine outcome_bind (fun r : σ × s.next.Onward => (r.1, r.2.val)) fun r => ?_
    dsimp only
    rw [ran]
    cases readMembers member false r.1 r.2.val <;> rfl

/-- Reading members that stand in a text runs through them, if each member is read by a step. -/
theorem Members.ran_readMembers (step : σ → String × α → Option σ)
    (hmember : ∀ state key d a e, ran (memberValue value d) = some (a, e) →
      ran (member state key d) = (step state (key, a)).map (·, e))
    (h : Members value isFirst c ms n) :
    ∃ d, Closed '}' d n ∧ ∀ state,
      ran (readMembers member isFirst state c) = (ms.foldlM step state).map (·, d) := by
  induction h with
  | nil h => exact ⟨_, h.skipBlanks, ran_readMembers_closed h⟩
  | cons hkey hvalue _ ih =>
    obtain ⟨d, hclosed, hread⟩ := ih
    refine ⟨d, hclosed, fun state => ?_⟩
    rw [ran_readMembers_key hkey, hmember _ _ _ _ _ hvalue, List.foldlM_cons]
    cases step state _ with
    | none => rfl
    | some state => exact hread state

/-- What is collected as members stands there as members. -/
theorem members_of_ran_readMembers
    (hmember : ∀ state key d, ran (member state key d) =
      (ran (memberValue value d)).map fun r => (f state (key, r.1), r.2))
    {state state' : σ} (h : ran (readMembers member isFirst state c) = some (state', d)) :
    ∃ ms n, Members value isFirst c ms n ∧ Closed '}' d n ∧ state' = ms.foldl f state := by
  -- The induction follows the reader, which hands the state on from member to member.
  fun_induction readMembers member isFirst state c with
  | case1 isFirst state c ih =>
    cases hnext : nextKey isFirst c with
    | error e =>
      rw [hnext] at h
      cases h
    | ok next =>
      rw [← readMembers] at h
      rcases closed_or_key_of_nextKey hnext with ⟨n, hclosed⟩ | ⟨key, e, hkey⟩
      · rw [ran_readMembers_closed hclosed] at h
        cases h
        exact ⟨[], n, .nil hclosed, hclosed.skipBlanks, rfl⟩
      · rw [ran_readMembers_key hkey, hmember, Option.bind_eq_some_iff] at h
        obtain ⟨_, hread, hrest⟩ := h
        obtain ⟨_, hvalue, rfl⟩ := Option.map_eq_some_iff.1 hread
        -- The place of the key and that of its value, as the recursion has them.
        obtain ⟨next, -, hplace⟩ := outcome_eq_some_iff.1 (keyed_nextKey_key hkey)
        cases next with
        | inl place => cases hplace
        | inr s =>
          simp only [Sum.elim_inr, Prod.mk.injEq, Option.some.injEq] at hplace
          obtain ⟨rfl, rfl⟩ := hplace
          obtain ⟨⟨a, place⟩, -, rfl⟩ := outcome_eq_some_iff.1 hvalue
          obtain ⟨ms, n, hms, hclosed, rfl⟩ := ih s _ place hrest
          exact ⟨_, n, .cons hkey hvalue hms, hclosed, rfl⟩

/-- Reading an object reads its members and passes the closing brace. -/
theorem run_readObject (h : c.rest = '{' :: rest) (state : σ) :
    (readObject member state).run c = (ran (readMembers member true state c.step)).bind fun r =>
      (reached (closeObject r.2)).map fun n => (r.1, n) :=
  outcome_readChar_bind (fun _ d => (ran (readMembers member true state d)).bind fun r =>
    (reached (closeObject r.2)).map fun n => (r.1, n)) h fun _ =>
      outcome_bind _ fun _ => outcome_bind_pure fun _ => rfl

/-! ## Forms of values -/

variable {depth : Nat} {json : Json} {reader : Reader Json}

/-- Lists are read just if their items stand there. -/
theorem run_readContainer_list_iff (h : c.rest = '[' :: rest) :
    (readContainer reader).run c = some (json, n) ↔
      ∃ items, Items reader true c.step items n ∧ json = .array items := by
  have hread : (readContainer reader).run c =
      ((readList reader).run c).map fun r => (.array r.1, r.2) := by
    refine run_map ?_
    simp only [readContainer, h]
  rw [hread, Option.map_eq_some_iff]
  constructor
  · rintro ⟨⟨items, _⟩, hitems, heq⟩
    cases heq
    exact ⟨items, (run_readList_iff h).1 hitems, rfl⟩
  · rintro ⟨items, hitems, rfl⟩
    exact ⟨(items, n), (run_readList_iff h).2 hitems, rfl⟩

/-- Collects a member, the last one first. -/
def gather (reader : Reader Json) (ms : List (String × Json)) (key : String) (c : Cursor) :
    Except ReadError (List (String × Json) × c.Onward) := do
  let (x, d) ← memberValue reader c
  return ((key, x) :: ms, d)

theorem ran_gather (ms : List (String × Json)) (key : String) (c : Cursor) :
    ran (gather reader ms key c) =
      (ran (memberValue reader c)).map fun r => ((key, r.1) :: ms, r.2) :=
  outcome_bind_pure fun _ => rfl

/-- Objects are read just if their members stand there. -/
theorem run_readContainer_object_iff (h : c.rest = '{' :: rest) :
    (readContainer reader).run c = some (json, n) ↔
      ∃ members, Members reader true c.step members n ∧ json = .object members := by
  have hread : (readContainer reader).run c =
      ((readObject (gather reader) []).run c).map fun r => (.object r.1.reverse, r.2) := by
    refine run_map (f := fun ms : List (String × Json) => Json.object ms.reverse) ?_
    simp only [readContainer, h]
    rfl
  rw [hread, Option.map_eq_some_iff, run_readObject h]
  constructor
  · rintro ⟨⟨_, _⟩, hobject, heq⟩
    cases heq
    obtain ⟨⟨_, d⟩, hmembers, hclose⟩ := Option.bind_eq_some_iff.1 hobject
    obtain ⟨_, hreached, heq⟩ := Option.map_eq_some_iff.1 hclose
    cases heq
    obtain ⟨ms, n', hms, hclosed, rfl⟩ :=
      members_of_ran_readMembers (f := fun ms m => m :: ms) ran_gather hmembers
    rw [reached_closeObject hclosed] at hreached
    cases hreached
    refine ⟨ms, hms, ?_⟩
    rw [List.foldl_flip_cons_eq_append', List.append_nil, List.reverse_reverse]
  · rintro ⟨members, hmembers, rfl⟩
    have hgather : ∀ ms key d a e, ran (memberValue reader d) = some (a, e) →
        ran (gather reader ms key d) = some ((key, a) :: ms, e) := by
      intro ms key d a e hvalue
      rw [ran_gather, hvalue, Option.map_some]
    obtain ⟨d, hclosed, hran⟩ := hmembers.ran_readMembers (fun ms m => pure (m :: ms)) hgather
    refine ⟨(members.reverse, n), ?_, by rw [List.reverse_reverse]⟩
    rw [hran, List.foldlM_pure, List.foldl_flip_cons_eq_append', List.append_nil]
    change (reached (closeObject d)).map _ = _
    rw [reached_closeObject hclosed]
    rfl

/-- What stands where a value begins, up to the place after the value. -/
inductive Form : Nat → Cursor → Json → Cursor → Prop
  | null {depth : Nat} {c n : Cursor} {rest : List Char} (h : c.rest = 'n' :: rest)
    (hn : reached (letters ['u', 'l', 'l'] c.step) = some n) : Form depth c .null n
  | true {depth : Nat} {c n : Cursor} {rest : List Char} (h : c.rest = 't' :: rest)
    (hn : reached (letters ['r', 'u', 'e'] c.step) = some n) : Form depth c (.bool true) n
  | false {depth : Nat} {c n : Cursor} {rest : List Char} (h : c.rest = 'f' :: rest)
    (hn : reached (letters ['a', 'l', 's', 'e'] c.step) = some n) : Form depth c (.bool false) n
  | string {depth : Nat} {c n : Cursor} {rest : List Char} {s : String} (h : c.rest = '"' :: rest)
    (hs : readString.run c.step = some (s, n)) : Form depth c (.string s) n
  | negative {depth : Nat} {c n : Cursor} {rest : List Char} {x : Number} (h : c.rest = '-' :: rest)
    (hx : (readNumber Bool.true).run c.step = some (x, n)) : Form depth c (.number x) n
  | number {depth : Nat} {c n : Cursor} {rest : List Char} {y : Char} {x : Number}
    (h : c.rest = y :: rest) (hy : y.isDigit = Bool.true)
    (hx : (readNumber Bool.false).run c = some (x, n)) : Form depth c (.number x) n
  | array {depth : Nat} {c n : Cursor} {rest : List Char} {items : List Json}
    (h : c.rest = '[' :: rest) (hitems : Items (readValue depth) Bool.true c.step items n) :
    Form (depth + 1) c (.array items) n
  | object {depth : Nat} {c n : Cursor} {rest : List Char} {members : List (String × Json)}
    (h : c.rest = '{' :: rest) (hmembers : Members (readValue depth) Bool.true c.step members n) :
    Form (depth + 1) c (.object members) n

/-- The reader for the lists and objects of a value whose containers nest at most `depth` deep. -/
def containerWithin : Nat → Reader Json
  | 0 => fun c => .error (c.failNext .tooDeep)
  | depth + 1 => readContainer (readValue depth)

theorem run_readValue (depth : Nat) (c : Cursor) :
    (readValue depth).run c = (readScalarAt (containerWithin depth)).run c.skipBlanks := by
  cases depth with
  | zero => exact run_afterBlanks _ c
  | succ depth => exact run_afterBlanks _ c

theorem exists_readChar (h : c.rest = x :: rest) :
    ∃ first, readChar c = .ok first ∧ first.value = x ∧ first.next = c.step :=
  run_eq_some_iff.1 (run_readChar h)

theorem Form.run (h : Form depth c json n) :
    (readScalarAt (containerWithin depth)).run c = some (json, n) := by
  rw [Reader.run, readScalarAt]
  cases h with
  | null h hn =>
    obtain ⟨first, hread, hvalue, hnext⟩ := exists_readChar h
    obtain ⟨d, hd, rfl⟩ := reached_eq_some_iff.1 (hnext ▸ hn)
    simp only [hread, ok_bind, hvalue, hd]
    rfl
  | true h hn =>
    obtain ⟨first, hread, hvalue, hnext⟩ := exists_readChar h
    obtain ⟨d, hd, rfl⟩ := reached_eq_some_iff.1 (hnext ▸ hn)
    simp only [hread, ok_bind, hvalue, hd]
    rfl
  | false h hn =>
    obtain ⟨first, hread, hvalue, hnext⟩ := exists_readChar h
    obtain ⟨d, hd, rfl⟩ := reached_eq_some_iff.1 (hnext ▸ hn)
    simp only [hread, ok_bind, hvalue, hd]
    rfl
  | string h hs =>
    obtain ⟨first, hread, hvalue, hnext⟩ := exists_readChar h
    obtain ⟨s, hstring, rfl, rfl⟩ := run_eq_some_iff.1 (hnext ▸ hs)
    simp only [hread, ok_bind, hvalue, hstring]
    rfl
  | negative h hx =>
    obtain ⟨first, hread, hvalue, hnext⟩ := exists_readChar h
    obtain ⟨s, hnumber, rfl, rfl⟩ := run_eq_some_iff.1 (hnext ▸ hx)
    simp only [hread, ok_bind, hvalue, hnumber]
    rfl
  | @number _ _ _ _ y _ h hy hx =>
    obtain ⟨first, hread, hvalue, hnext⟩ := exists_readChar h
    obtain ⟨s, hnumber, rfl, rfl⟩ := run_eq_some_iff.1 hx
    rw [hread, ok_bind, hvalue]
    split
    case h_8 =>
      rw [if_pos hy, hnumber]
      rfl
    -- None of the characters that the reader looks for before is a digit.
    all_goals cases hy
  | array h hitems =>
    obtain ⟨first, hread, hvalue, hnext⟩ := exists_readChar h
    simp only [hread, ok_bind, hvalue]
    exact (run_readContainer_list_iff h).2 ⟨_, hitems, rfl⟩
  | object h hmembers =>
    obtain ⟨first, hread, hvalue, hnext⟩ := exists_readChar h
    simp only [hread, ok_bind, hvalue]
    exact (run_readContainer_object_iff h).2 ⟨_, hmembers, rfl⟩

theorem exists_of_readChar {first : Step Char c} (h : readChar c = .ok first) :
    ∃ rest, c.rest = first.value :: rest ∧ first.next = c.step := by
  cases hrest : c.rest with
  | nil =>
    have hnone := run_readChar_nil hrest
    rw [Reader.run, h] at hnone
    cases hnone
  | cons x rest =>
    obtain ⟨_, hread, rfl, hnext⟩ := exists_readChar hrest
    rw [h] at hread
    cases hread
    exact ⟨rest, rfl, hnext⟩

theorem form_of_run (h : (readScalarAt (containerWithin depth)).run c = some (json, n)) :
    Form depth c json n := by
  obtain ⟨s, hread, rfl, rfl⟩ := run_eq_some_iff.1 h
  obtain ⟨first, hfirst, hscalar⟩ := bind_eq_ok_iff.1 hread
  obtain ⟨rest, hrest, hnext⟩ := exists_of_readChar hfirst
  -- One case for each first character that the reader looks for.
  split at hscalar
  case h_1 hvalue =>
    obtain ⟨d, hd, heq⟩ := bind_eq_ok_iff.1 hscalar
    cases heq
    exact .null (hvalue ▸ hrest) (hnext ▸ reached_of_ok hd)
  case h_2 hvalue =>
    obtain ⟨d, hd, heq⟩ := bind_eq_ok_iff.1 hscalar
    cases heq
    exact .true (hvalue ▸ hrest) (hnext ▸ reached_of_ok hd)
  case h_3 hvalue =>
    obtain ⟨d, hd, heq⟩ := bind_eq_ok_iff.1 hscalar
    cases heq
    exact .false (hvalue ▸ hrest) (hnext ▸ reached_of_ok hd)
  case h_4 hvalue =>
    obtain ⟨d, hd, heq⟩ := bind_eq_ok_iff.1 hscalar
    cases heq
    exact .string (hvalue ▸ hrest) (hnext ▸ run_of_ok hd)
  case h_5 hvalue =>
    obtain ⟨d, hd, heq⟩ := bind_eq_ok_iff.1 hscalar
    cases heq
    exact .negative (hvalue ▸ hrest) (hnext ▸ run_of_ok hd)
  case h_6 hvalue =>
    have hlist := run_of_ok hscalar
    cases depth with
    | zero => cases hscalar
    | succ depth =>
      obtain ⟨items, hitems, heq⟩ := (run_readContainer_list_iff (hvalue ▸ hrest)).1 hlist
      rw [heq]
      exact .array (hvalue ▸ hrest) hitems
  case h_7 hvalue =>
    have hobject := run_of_ok hscalar
    cases depth with
    | zero => cases hscalar
    | succ depth =>
      obtain ⟨members, hmembers, heq⟩ := (run_readContainer_object_iff (hvalue ▸ hrest)).1 hobject
      rw [heq]
      exact .object (hvalue ▸ hrest) hmembers
  case h_8 =>
    split at hscalar
    case isTrue hdigit =>
      obtain ⟨d, hd, heq⟩ := bind_eq_ok_iff.1 hscalar
      cases heq
      exact .number hrest hdigit (run_of_ok hd)
    case isFalse => cases hscalar

/-- A value is read just if one of the forms stands there after blanks. -/
theorem run_readValue_iff :
    (readValue depth).run c = some (json, n) ↔ Form depth c.skipBlanks json n := by
  rw [run_readValue]
  exact ⟨form_of_run, Form.run⟩

/-- Whether the text of a value can begin with a character. -/
def canBegin : Json → Char → Bool
  | .null, x => x == 'n'
  | .bool _, x => x == 't' || x == 'f'
  | .number _, x => x == '-' || x.isDigit
  | .string _, x => x == '"'
  | .array _, x => x == '['
  | .object _, x => x == '{'

theorem canBegin_of_form (h : Form depth c json n) :
    ∃ x rest, c.rest = x :: rest ∧ json.canBegin x = true := by
  cases h with
  | number h hy _ => exact ⟨_, _, h, by rw [canBegin, hy, Bool.or_true]⟩
  | null h _ => exact ⟨_, _, h, rfl⟩
  | true h _ => exact ⟨_, _, h, rfl⟩
  | false h _ => exact ⟨_, _, h, rfl⟩
  | string h _ => exact ⟨_, _, h, rfl⟩
  | negative h _ => exact ⟨_, _, h, rfl⟩
  | array h _ => exact ⟨_, _, h, rfl⟩
  | object h _ => exact ⟨_, _, h, rfl⟩

theorem ne_of_canBegin (hx : json.canBegin x = true) (hy : json.canBegin y = false) : x ≠ y := by
  rintro rfl
  rw [hx] at hy
  cases hy

end MailTemplate.Json
