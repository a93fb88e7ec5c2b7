import MailTemplate.Proofs.Json.Scalars

/-!
# Passing Over Values

A value that can be read can also be passed over, and both stop at the same place. Passing over goes
through the open containers with a list of brackets, where reading a value calls itself: after a
value the rest of the containers is passed over as if the value had been read.

* `passed` and `resumed` are where passing over stops, from a value on and from after a value.
* `passed_of_run` says that passing over a value goes on where reading it stops.
-/

namespace MailTemplate.Json

variable {α : Type} {c d e n : Cursor} {rest : List Char} {isFirst afterValue : Bool}
  {stack : List Bracket} {bracket : Bracket} {key : String}

/-- Where passing over a value and the rest of the open containers stops. -/
def passed (stack : List Bracket) (c : Cursor) : Option Cursor :=
  outcome Step.next (skipWithin stack c)

/-- Where passing over the rest of the open containers stops, after a value or an opening. -/
def resumed (afterValue : Bool) (stack : List Bracket) (c : Cursor) : Option Cursor :=
  (ran (skipClosings afterValue stack c)).bind fun r =>
    if r.1.isEmpty then some r.2 else passed r.1 r.2

theorem passed_eq (stack : List Bracket) (c : Cursor) :
    passed stack c = (skipScalar.run c).bind fun r =>
      resumed r.1.isNone (r.1.toList ++ stack) r.2 := by
  rw [passed, skipWithin]
  refine outcome_bind Step.reading fun head => ?_
  refine outcome_bind (fun r : List Bracket × head.next.Onward => (r.1, r.2.val)) fun r => ?_
  obtain ⟨stack, d⟩ := r
  -- With no container left open the value was all; otherwise another value follows.
  cases stack with
  | nil => rfl
  | cons bracket stack =>
    show outcome Step.next (skipWithin (bracket :: stack) d.val >>= _) =
      passed (bracket :: stack) d.val
    rw [passed]
    cases skipWithin (bracket :: stack) d.val <;> rfl

theorem passed_skipBlanks (stack : List Bracket) (c : Cursor) :
    passed stack c.skipBlanks = passed stack c := by
  rw [passed_eq, passed_eq, skipScalar, run_afterBlanks, run_afterBlanks, skipBlanks_idem]

theorem resumed_nil (afterValue : Bool) (c : Cursor) : resumed afterValue [] c = some c := rfl

/-- How a container goes on after blanks: closed, or with another value. -/
theorem ran_skipSeparator_closed (afterValue : Bool) (h : Closed bracket.closing c n) :
    ran (skipSeparator bracket afterValue c) = some (.closed, n) := by
  cases h with
  | intro h => simp [ran, skipSeparator, Cursor.blanks, Cursor.onward, Cursor.Onward.trans, h]

theorem ran_skipSeparator_first (bracket : Bracket) (h : PartAt bracket.closing true c d) :
    ran (skipSeparator bracket false c) = some (.value, d) := by
  cases h with
  | first h hx => simp [ran, skipSeparator, Cursor.blanks, h, hx]

theorem ran_skipSeparator_next (bracket : Bracket) (h : PartAt bracket.closing false c d) :
    ∃ e, ran (skipSeparator bracket true c) = some (.value, e) ∧ d = e.skipBlanks := by
  cases h with
  | next hcomma h hx =>
    -- The comma is passed, and what follows it is looked at with the value.
    have hne : (',' : Char) ≠ bracket.closing := by cases bracket <;> decide
    refine ⟨_, ?_, rfl⟩
    simp [ran, skipSeparator, Cursor.blanks, Cursor.onward, Cursor.Onward.trans, hcomma, hne]

theorem resumed_closed (h : Closed bracket.closing c n) :
    resumed afterValue (bracket :: stack) c = resumed true stack n := by
  obtain ⟨d, hseparator, rfl⟩ := ran_eq_some_iff.1 (ran_skipSeparator_closed afterValue h)
  rw [resumed, resumed, skipClosings, hseparator, ok_bind]
  refine congrArg (Option.bind · _) ?_
  dsimp only
  rw [ran, ran]
  cases skipClosings true stack d.val <;> rfl

theorem resumed_value (h : ran (skipSeparator bracket afterValue c) = some (.value, d)) :
    resumed afterValue (bracket :: stack) c =
      (reached (skipToValue bracket d)).bind (passed (bracket :: stack)) := by
  obtain ⟨d, hseparator, rfl⟩ := ran_eq_some_iff.1 h
  rw [resumed, skipClosings, hseparator, ok_bind, reached]
  dsimp only
  cases skipToValue bracket d.val <;> rfl

/-- An item of a list is due where a part of the list begins. -/
theorem resumed_item (h : PartAt ']' isFirst c d) :
    resumed (!isFirst) (.list :: stack) c = passed (.list :: stack) d := by
  cases isFirst with
  | true => exact resumed_value (ran_skipSeparator_first .list h)
  | false =>
    obtain ⟨e, hseparator, rfl⟩ := ran_skipSeparator_next .list h
    rw [passed_skipBlanks]
    exact resumed_value hseparator

theorem reached_skipKey (hquote : c.skipBlanks.rest = '"' :: rest)
    (hkey : Reader.run skipString c.skipBlanks.step = some ((), d))
    (hcolon : ∃ rest, d.skipBlanks.rest = ':' :: rest) :
    reached (skipKey c) = some d.skipBlanks.step := by
  obtain ⟨s, hs, -, rfl⟩ := run_eq_some_iff.1 hkey
  obtain ⟨_, hcolon⟩ := hcolon
  obtain ⟨e, hpass, heq⟩ := reached_eq_some_iff.1 (reached_passColon hcolon)
  rw [← heq]
  simp only [reached, skipKey, Cursor.blanks, hquote, hs, ok_bind, hpass]
  rfl

/-- A member of an object is due where a key of the object stands. -/
theorem resumed_member (hkey : KeyAt isFirst c key d)
    (hcolon : ∃ rest, d.skipBlanks.rest = ':' :: rest) :
    resumed (!isFirst) (.object :: stack) c = passed (.object :: stack) d.skipBlanks.step := by
  cases hkey with
  | intro hpart hquote hread =>
    obtain ⟨s, hchars, -⟩ := run_readString_iff.1 hread
    cases isFirst with
    | true =>
      have hseparator := ran_skipSeparator_first .object hpart
      rw [← hpart.skipBlanks_eq] at hquote hchars
      rw [Bool.not_true, resumed_value hseparator, skipToValue,
        reached_skipKey hquote hchars.run_skipString hcolon, Option.bind_some]
    | false =>
      obtain ⟨e, hseparator, rfl⟩ := ran_skipSeparator_next .object hpart
      rw [Bool.not_false, resumed_value hseparator, skipToValue,
        reached_skipKey hquote hchars.run_skipString hcolon, Option.bind_some]

/-! ## Values -/

variable {item : Reader α} {items : List α} {members : List (String × α)}

/-- Items are passed over one after the other, and then the bracket is. -/
theorem Items.resumed (hitem : ∀ a d e, item.run d = some (a, e) →
      ∀ stack, passed stack d = resumed true stack e) (h : Items item isFirst c items n) :
    Json.resumed (!isFirst) (.list :: stack) c = Json.resumed true stack n := by
  induction h with
  | nil h => exact resumed_closed h
  | cons hpart hread _ ih => rw [resumed_item hpart, hitem _ _ _ hread, ← ih, Bool.not_false]

/-- Members are passed over one after the other, and then the brace is. -/
theorem Members.resumed (hvalue : ∀ a d e, item.run d = some (a, e) →
      ∀ stack, passed stack d = resumed true stack e) (h : Members item isFirst c members n) :
    Json.resumed (!isFirst) (.object :: stack) c = Json.resumed true stack n := by
  induction h with
  | nil h => exact resumed_closed h
  | cons hkey hread _ ih =>
    obtain ⟨hcolon, hread⟩ := ran_memberValue_iff.1 hread
    rw [resumed_member hkey hcolon, hvalue _ _ _ hread, ← ih, Bool.not_false]

/-- What stands where a value is due: the opening of a container, or a scalar that is passed
over. -/
theorem run_skipScalar {depth : Nat} {json : Json} (h : Form depth c.skipBlanks json n) :
    skipScalar.run c = some (none, n) ∨
      (∃ items, json = .array items ∧ skipScalar.run c = some (some .list, c.skipBlanks.step)) ∨
      ∃ members, json = .object members ∧
        skipScalar.run c = some (some .object, c.skipBlanks.step) := by
  rw [skipScalar, run_afterBlanks, Reader.run]
  -- A container leaves its bracket, and a scalar is passed over as it is read.
  cases h with
  | null h hn =>
    obtain ⟨first, hread, hvalue, hnext⟩ := exists_readChar h
    obtain ⟨d, hd, rfl⟩ := reached_eq_some_iff.1 (hnext ▸ hn)
    simp only [hread, ok_bind, hvalue, hd]
    exact .inl rfl
  | true h hn =>
    obtain ⟨first, hread, hvalue, hnext⟩ := exists_readChar h
    obtain ⟨d, hd, rfl⟩ := reached_eq_some_iff.1 (hnext ▸ hn)
    simp only [hread, ok_bind, hvalue, hd]
    exact .inl rfl
  | false h hn =>
    obtain ⟨first, hread, hvalue, hnext⟩ := exists_readChar h
    obtain ⟨d, hd, rfl⟩ := reached_eq_some_iff.1 (hnext ▸ hn)
    simp only [hread, ok_bind, hvalue, hd]
    exact .inl rfl
  | string h hs =>
    obtain ⟨s, hchars, -⟩ := run_readString_iff.1 hs
    obtain ⟨first, hread, hvalue, hnext⟩ := exists_readChar h
    obtain ⟨s, hskip, -, rfl⟩ := run_eq_some_iff.1 (hnext ▸ hchars.run_skipString)
    simp only [hread, ok_bind, hvalue, hskip]
    exact .inl rfl
  | negative h hx =>
    obtain ⟨first, hread, hvalue, hnext⟩ := exists_readChar h
    obtain ⟨s, hskip, -, rfl⟩ := run_eq_some_iff.1 (hnext ▸ run_skipNumber hx)
    simp only [hread, ok_bind, hvalue, hskip]
    exact .inl rfl
  | number h hy hx =>
    obtain ⟨first, hread, hvalue, hnext⟩ := exists_readChar h
    obtain ⟨s, hskip, -, rfl⟩ := run_eq_some_iff.1 (run_skipNumber hx)
    rw [hread, ok_bind, hvalue]
    split
    case h_8 =>
      rw [if_pos hy, hskip]
      exact .inl rfl
    all_goals cases hy
  | array h hitems =>
    obtain ⟨first, hread, hvalue, hnext⟩ := exists_readChar h
    simp only [hread, ok_bind, hvalue]
    exact .inr (.inl ⟨_, rfl, congrArg (fun d => some (_, d)) hnext⟩)
  | object h hmembers =>
    obtain ⟨first, hread, hvalue, hnext⟩ := exists_readChar h
    simp only [hread, ok_bind, hvalue]
    exact .inr (.inr ⟨_, rfl, congrArg (fun d => some (_, d)) hnext⟩)

/-- Passing over a value and what follows goes on where reading the value stops. -/
theorem passed_of_run {depth : Nat} {json : Json} (h : (readValue depth).run c = some (json, n))
    (stack : List Bracket) : passed stack c = resumed true stack n := by
  -- The induction is on the depth, and takes the items and members of a container together.
  induction depth generalizing c json n stack with
  | zero =>
    have hform := run_readValue_iff.1 h
    rw [passed_eq]
    rcases run_skipScalar hform with hskip | ⟨_, rfl, -⟩ | ⟨_, rfl, -⟩
    · rw [hskip]
      rfl
    · cases hform
    · cases hform
  | succ depth ih =>
    have hform := run_readValue_iff.1 h
    rw [passed_eq]
    rcases run_skipScalar hform with hskip | ⟨_, rfl, hskip⟩ | ⟨_, rfl, hskip⟩
    · rw [hskip]
      rfl
    · cases hform with
      | array _ hitems =>
        rw [hskip]
        exact hitems.resumed fun _ _ _ => ih
    · cases hform with
      | object _ hmembers =>
        rw [hskip]
        exact hmembers.resumed fun _ _ _ => ih

/-- A value that can be read can be passed over, up to the same place. -/
theorem run_skipValue {depth : Nat} {json : Json} (h : (readValue depth).run c = some (json, n)) :
    skipValue.run c = some ((), n) := by
  have hpassed := passed_of_run h []
  rw [resumed_nil, passed, outcome_eq_some_iff] at hpassed
  obtain ⟨s, hs, rfl⟩ := hpassed
  exact run_of_ok hs

end MailTemplate.Json
