import Mathlib.Data.List.TakeWhile
import MailTemplate.Proofs.Storage.Stops

/-!
# The Offset of an Error

An error in stored text names a line and a column, and its offset is found by walking the text to
that line and column. Columns count bytes, but the walk counts characters. So the offset is that of
the failing byte just if all characters before it on its line are one byte long.

* `IsLine` says what the line of a number is, and what stands before it; `IsLine.unique` says that
  there is no other.
* `exists_isLine` finds the line of a position that comes up while a text is read.
* `offsetIn_eq_iff` says where the walk ends on the line, and `ReadError.offset_eq_iff` puts it
  together.
-/

namespace MailTemplate

open Json
open String (utf8Len)

/-- A line of a text, counted from one, and what stands before it. -/
structure IsLine (text : List Char) (number : Nat) (before line : List Char) : Prop where
  parts : ∃ after, text = before ++ line ++ after ∧ (after = [] ∨ ∃ rest, after = '\n' :: rest)
  number : number = before.count '\n' + 1
  /-- A line begins after a line break, but for the first one. -/
  start : before = [] ∨ ∃ front, before = front ++ ['\n']
  unbroken : '\n' ∉ line

namespace IsLine

variable {text before line before' line' : List Char} {number : Nat}

/-- What stands before a line does not go on past what stands before a line of the same number, for
it would have one more line break. -/
theorem before_eq_of_append (h : IsLine text number before line)
    (h' : IsLine text number before' line') {more : List Char}
    (happend : before' = before ++ more) : before' = before := by
  have hcount := h'.number.symm.trans h.number
  rw [happend, List.count_append] at hcount
  have hmore : '\n' ∉ more := List.count_eq_zero.1 (by omega)
  obtain hstart | ⟨front, hstart⟩ := h'.start
  · rw [happend, List.append_eq_nil_iff] at hstart
    rw [happend, hstart.2, List.append_nil]
  · rcases List.eq_nil_or_concat more with rfl | ⟨init, last, rfl⟩
    · rw [happend, List.append_nil]
    · rw [happend, List.concat_eq_append, ← List.append_assoc] at hstart
      have hlast : last = '\n' := List.singleton_inj.1 (List.append_inj_right' hstart rfl)
      rw [List.concat_eq_append, hlast] at hmore
      exact absurd (List.mem_append_right _ (List.mem_singleton_self _)) hmore

theorem before_unique (h : IsLine text number before line) (h' : IsLine text number before' line') :
    before = before' := by
  obtain ⟨after, htext, -⟩ := h.parts
  obtain ⟨after', htext', -⟩ := h'.parts
  rw [htext, List.append_assoc, List.append_assoc] at htext'
  rcases List.append_eq_append_iff.1 htext' with ⟨more, happend, -⟩ | ⟨more, happend, -⟩
  · exact (h.before_eq_of_append h' happend).symm
  · exact h'.before_eq_of_append h happend

/-- The line is what follows up to the next line break. -/
theorem eq_takeWhile (h : IsLine text number before line) :
    line = (text.drop before.length).takeWhile (· ≠ '\n') := by
  obtain ⟨after, htext, hafter⟩ := h.parts
  have hline : ∀ x ∈ line, decide (x ≠ '\n') = true := by
    intro x hmem
    rw [decide_eq_true_iff]
    rintro rfl
    exact h.unbroken hmem
  rw [htext, List.append_assoc, List.drop_left, List.takeWhile_append_of_pos hline]
  obtain rfl | ⟨rest, rfl⟩ := hafter
  · rw [List.takeWhile_nil, List.append_nil]
  · rw [List.takeWhile_cons_of_neg (by decide), List.append_nil]

/-- A number has one line at most. -/
theorem unique (h : IsLine text number before line) (h' : IsLine text number before' line') :
    before = before' ∧ line = line' := by
  have hbefore := h.before_unique h'
  exact ⟨hbefore, by rw [h.eq_takeWhile, h'.eq_takeWhile, hbefore]⟩

end IsLine

/-- The characters that begin within so many bytes are one byte long each. -/
def PlainWithin (bytes : Nat) (chars : List Char) : Prop :=
  ∀ front x back, chars = front ++ x :: back → utf8Len front < bytes → x.utf8Size = 1

theorem plainWithin_zero (chars : List Char) : PlainWithin 0 chars :=
  fun _ _ _ _ hlt => absurd hlt (Nat.not_lt_zero _)

theorem plainWithin_cons_iff {bytes : Nat} {x : Char} {chars : List Char} :
    PlainWithin (bytes + 1) (x :: chars) ↔ x.utf8Size = 1 ∧ PlainWithin bytes chars := by
  constructor
  · intro h
    have hx : x.utf8Size = 1 := h [] x chars rfl (Nat.succ_pos bytes)
    refine ⟨hx, fun front y back heq hlt => ?_⟩
    refine h (x :: front) y back (congrArg (x :: ·) heq) ?_
    rw [String.utf8Len_cons, hx]
    exact Nat.succ_lt_succ hlt
  · rintro ⟨hx, h⟩ front y back heq hlt
    cases front with
    | nil =>
      cases heq
      exact hx
    | cons z front =>
      cases heq
      rw [String.utf8Len_cons, hx] at hlt
      exact h front y back rfl (Nat.lt_of_succ_lt_succ hlt)

/-! ## The line of a position -/

/-- What was seen of a line, and what follows up to the next line break, is a line. -/
theorem isLine_of_seen {before seen : List Char} (chars : List Char)
    (hstart : before = [] ∨ ∃ front, before = front ++ ['\n']) (hseen : '\n' ∉ seen) :
    IsLine (before ++ seen ++ chars) (before.count '\n' + 1) before
      (seen ++ chars.takeWhile (· ≠ '\n')) where
  parts := by
    refine ⟨chars.dropWhile (· ≠ '\n'), ?_, ?_⟩
    · simp only [List.append_assoc, List.takeWhile_append_dropWhile]
    · cases hafter : chars.dropWhile (· ≠ '\n') with
      | nil => exact .inl rfl
      | cons x rest =>
        have hx := List.head?_dropWhile_not (· ≠ '\n') chars
        rw [hafter] at hx
        exact .inr ⟨rest, by rw [show x = '\n' by simpa using hx]⟩
  number := rfl
  start := hstart
  unbroken := by
    rw [List.mem_append, not_or]
    exact ⟨hseen, fun hmem => by simpa using List.mem_takeWhile_imp hmem⟩

/-- A position that is reached by counting bytes is on a line of the text, and not past its end. The
count has come so far on a line already. -/
theorem exists_isLine_of_afterBytes {p : Position} {bytes : Nat} {before seen chars : List Char}
    (hstart : before = [] ∨ ∃ front, before = front ++ ['\n']) (hseen : '\n' ∉ seen)
    (hp : Position.afterBytes ⟨before.count '\n' + 1, utf8Len seen⟩ bytes chars = p) :
    ∃ before' line, IsLine (before ++ seen ++ chars) p.line before' line ∧
      p.column ≤ utf8Len line := by
  induction chars generalizing bytes before seen with
  | nil =>
    have hstop : Position.afterBytes ⟨before.count '\n' + 1, utf8Len seen⟩ bytes [] =
        ⟨before.count '\n' + 1, utf8Len seen⟩ := by
      cases bytes <;> rfl
    rw [hstop] at hp
    subst hp
    exact ⟨_, _, isLine_of_seen [] hstart hseen, by simp⟩
  | cons x rest ih =>
    rw [Position.afterBytes_cons] at hp
    by_cases hbreak : x = '\n'
    · subst hbreak
      cases bytes with
      | zero =>
        rw [if_neg (by decide)] at hp
        subst hp
        exact ⟨_, _, isLine_of_seen _ hstart hseen, by simp⟩
      | succ bytes =>
        have hcount : (before ++ seen ++ ['\n']).count '\n' = before.count '\n' + 1 := by
          simp [List.count_eq_zero_of_not_mem hseen]
        have hsize : '\n'.utf8Size ≤ bytes + 1 := Nat.succ_le_succ (Nat.zero_le bytes)
        rw [if_pos hsize, Position.after, if_pos rfl, ← hcount] at hp
        have hline := ih (.inr ⟨before ++ seen, rfl⟩) List.not_mem_nil hp
        rwa [List.append_nil, List.append_assoc _ ['\n']] at hline
    · split at hp
      · rw [Position.after, if_neg hbreak] at hp
        have hseen' : '\n' ∉ seen ++ [x] := by
          simp [hseen, Ne.symm hbreak]
        have hlen : utf8Len (seen ++ [x]) = utf8Len seen + x.utf8Size := by simp
        rw [← hlen] at hp
        have hline := ih hstart hseen' hp
        rwa [← List.append_assoc, List.append_assoc _ [x]] at hline
      case isFalse hsize =>
        subst hp
        refine ⟨_, _, isLine_of_seen _ hstart hseen, ?_⟩
        have htake : (x :: rest).takeWhile (· ≠ '\n') = x :: rest.takeWhile (· ≠ '\n') := by
          rw [List.takeWhile_cons_of_pos (by simpa using hbreak)]
        rw [htake, String.utf8Len_append, String.utf8Len_cons]
        dsimp only
        omega

/-- The line of a position in a text. -/
theorem exists_isLine {text : String} {p : Position} (h : (Cursor.start text).Covers p) :
    ∃ before line, IsLine text.toList p.line before line ∧ p.column ≤ utf8Len line := by
  obtain ⟨bytes, rfl⟩ := h
  have hstart : ([] : List Char) = [] ∨ ∃ front, ([] : List Char) = front ++ ['\n'] := .inl rfl
  exact exists_isLine_of_afterBytes hstart List.not_mem_nil rfl

/-! ## The walk to a position -/

variable {target : Position} {line column : Nat}

/-- The walk does not stop before the line of the position. -/
theorem offsetIn_before {front rest : List Char} (h : target.line = line + front.count '\n' + 2) :
    target.offsetIn line column (front ++ '\n' :: rest) =
      utf8Len (front ++ ['\n']) + target.offsetIn (line + front.count '\n' + 1) 0 rest := by
  induction front generalizing line column with
  | nil =>
    have hgo : ¬(target.line ≤ line + 1 ∧ target.column ≤ column + 1) := by
      rw [List.count_nil] at h
      omega
    rw [List.nil_append, Position.offsetIn, if_neg hgo, if_pos rfl]
    rfl
  | cons x front ih =>
    have hgo : ¬(target.line ≤ line + 1 ∧ target.column ≤ column + 1) := by omega
    rw [List.cons_append, Position.offsetIn, if_neg hgo, List.cons_append, String.utf8Len_cons]
    by_cases hbreak : x = '\n'
    · subst hbreak
      rw [List.count_cons_self] at h ⊢
      rw [if_pos rfl, ih (by omega), show line + 1 + front.count '\n' = line +
        (front.count '\n' + 1) by omega]
      omega
    · rw [List.count_cons_of_ne hbreak] at h ⊢
      rw [if_neg hbreak, ih h]
      omega

/-- On the line of the position the walk goes on for the columns that are left, or past the
characters of the line. -/
theorem le_offsetIn {chars after : List Char} (hbreak : '\n' ∉ chars) :
    min (target.column - 1 - column) (utf8Len chars) ≤
      target.offsetIn line column (chars ++ after) := by
  induction chars generalizing column with
  | nil => simp
  | cons x chars ih =>
    have hpos := x.utf8Size_pos
    have hrest : min (target.column - 1 - (column + 1)) (utf8Len chars) ≤
        target.offsetIn line (column + 1) (chars ++ after) :=
      ih (List.not_mem_of_not_mem_cons hbreak)
    rw [List.cons_append, Position.offsetIn]
    split
    case isTrue hstop => omega
    case isFalse =>
      rw [if_neg (Ne.symm (List.ne_of_not_mem_cons hbreak)), String.utf8Len_cons]
      omega

/-- On the line of the position the walk ends at the column, in bytes, just if it has passed
characters of one byte. -/
theorem offsetIn_eq_iff {chars after : List Char} (hline : target.line = line + 1)
    (hbreak : '\n' ∉ chars) (hcolumn : target.column ≤ column + utf8Len chars) :
    target.offsetIn line column (chars ++ after) = target.column - 1 - column ↔
      PlainWithin (target.column - 1 - column) chars := by
  induction chars generalizing column with
  | nil =>
    have hstop : target.line ≤ line + 1 ∧ target.column ≤ column + 1 := by
      rw [String.utf8Len_nil] at hcolumn
      omega
    have hoffset : target.offsetIn line column ([] ++ after) = 0 := by
      cases after with
      | nil => rfl
      | cons x after => rw [List.nil_append, Position.offsetIn, if_pos hstop]
    rw [hoffset, show target.column - 1 - column = 0 by omega]
    exact iff_of_true rfl (plainWithin_zero [])
  | cons x chars ih =>
    have hpos := x.utf8Size_pos
    have hbreak' := List.not_mem_of_not_mem_cons hbreak
    rw [String.utf8Len_cons] at hcolumn
    rw [List.cons_append, Position.offsetIn]
    split
    case isTrue hstop =>
      rw [show target.column - 1 - column = 0 by omega]
      exact iff_of_true rfl (plainWithin_zero _)
    case isFalse hgo =>
      have hleft : target.column - 1 - column = target.column - 1 - (column + 1) + 1 := by omega
      rw [if_neg (Ne.symm (List.ne_of_not_mem_cons hbreak)), hleft, plainWithin_cons_iff]
      by_cases hsize : x.utf8Size = 1
      · rw [hsize, ← ih hbreak' (by omega)]
        omega
      -- A longer character counts as one column, so the walk ends past the byte from there on.
      · have hpast : min (target.column - 1 - (column + 1)) (utf8Len chars) ≤
            target.offsetIn line (column + 1) (chars ++ after) :=
          le_offsetIn hbreak'
        refine iff_of_false (fun heq => ?_) fun h => hsize h.1
        omega

/-! ## The offset of an error -/

variable {text : String} {e : ReadError}

/-- An error in stored text names a line of the text. Its offset is that of the failing byte just if
the characters of the line that begin before that byte are one byte long. -/
theorem Json.ReadError.offset_eq_iff
    (h : Tree.ofText text = .error e ∨ Records.ofText text = .error e) :
    (∃ before line, IsLine text.toList e.position.line before line) ∧
      ∀ before line, IsLine text.toList e.position.line before line →
        (e.offset text = utf8Len before + (max e.position.column 1 - 1) ↔
          PlainWithin (e.position.column - 1) line) := by
  have hcovers : (Cursor.start text).Covers e.position :=
    h.elim Tree.covers_of_ofText Records.covers_of_ofText
  obtain ⟨before, line, hline, hcolumn⟩ := exists_isLine hcovers
  refine ⟨⟨before, line, hline⟩, fun before' line' hline' => ?_⟩
  obtain ⟨rfl, rfl⟩ := hline.unique hline'
  obtain ⟨after, htext, -⟩ := hline.parts
  have hmax : max e.position.column 1 - 1 = e.position.column - 1 - 0 := by omega
  rw [hmax, ReadError.offset, htext, List.append_assoc]
  -- The first line has nothing before it, and any other a line break that the walk passes.
  obtain rfl | ⟨front, rfl⟩ := hline.start
  · rw [List.nil_append, String.utf8Len_nil, Nat.zero_add]
    exact offsetIn_eq_iff hline.number hline.unbroken (by omega)
  · have hcount : e.position.line = 0 + front.count '\n' + 2 := by
      have hnumber := hline.number
      rw [List.count_append, List.count_singleton_self] at hnumber
      omega
    rw [List.append_assoc, List.singleton_append, offsetIn_before hcount, Nat.add_left_cancel_iff]
    exact offsetIn_eq_iff hcount hline.unbroken (by omega)

/-- A text with an error after a character of two bytes. -/
def accentedText : String :=
  "\x7b\"é\": x\x7d"

/-- The error that is met there. -/
def misplaced : ReadError :=
  ⟨.fault .expectedValue, ⟨1, 8⟩⟩

theorem ofText_accentedText : Tree.ofText accentedText = .error misplaced := by
  have hread : (match Tree.ofText accentedText with
      | .ok _ => none
      | .error e => some e) = some misplaced := by
    decide +kernel
  split at hread
  case h_1 => cases hread
  case h_2 e he => rw [he, Option.some.inj hread]

theorem isLine_accentedText : IsLine accentedText.toList 1 [] accentedText.toList where
  parts := ⟨[], by rw [List.nil_append, List.append_nil], .inl rfl⟩
  number := rfl
  start := .inl rfl
  unbroken := by decide

theorem Json.ReadError.offset_eq_iff_accentedText :
    Tree.ofText accentedText = .error misplaced ∧
      IsLine accentedText.toList 1 [] accentedText.toList ∧
      (misplaced.offset accentedText = utf8Len [] + (max 8 1 - 1) ↔
        PlainWithin (8 - 1) accentedText.toList) :=
  have hoffset := ReadError.offset_eq_iff (.inl ofText_accentedText)
  ⟨ofText_accentedText, isLine_accentedText, hoffset.2 [] _ isLine_accentedText⟩

/-- After a character of two bytes the offset is too far by one. -/
theorem Json.ReadError.not_offset_eq :
    ¬ ∀ (text : String) (e : ReadError) (before line : List Char),
      Tree.ofText text = .error e ∨ Records.ofText text = .error e →
      IsLine text.toList e.position.line before line →
      e.offset text = utf8Len before + (max e.position.column 1 - 1) := by
  intro hall
  have heq := hall accentedText misplaced [] accentedText.toList (.inl ofText_accentedText)
    isLine_accentedText
  revert heq
  decide +kernel

end MailTemplate
