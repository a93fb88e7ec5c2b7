/-!
# Reading From the Front

A KDL text is read from the front. What was read comes with the rest of the text, which is shorter,
so that reading ends.

* `Taken` is what was read together with the rest, and `Rest` is a rest alone.
* `Found` is what comes of a reader that can tell that no reader will do.
* `skip?` and `skipAll` pass over one or any number of pieces that a reader finds.
-/

namespace MailTemplate.Kdl

/-- The rest of a text. -/
abbrev Rest (text : List Char) : Type :=
  { rest : List Char // rest.length ≤ text.length }

/-- What was read at the front of a text, and what remains. -/
structure Taken (α : Type) (text : List Char) where
  /-- What was read. -/
  value : α
  /-- What remains. -/
  rest : List Char
  shorter : rest.length < text.length

/-- Why a text is no document. -/
inductive Fault where
  /-- It breaks the grammar. -/
  | malformed
  /-- It breaks the grammar, and the mark that shows where does not fit the text. -/
  | unmarkable
deriving DecidableEq, Repr

/-- What is found at the front of a text: nothing, if another reader may be tried, or a fault, if
none will do. -/
abbrev Found (α : Type) (text : List Char) : Type :=
  Except Fault (Option (Taken α text))

variable {text : List Char} {c : Char}

namespace Rest

/-- The whole text. -/
def whole (text : List Char) : Rest text :=
  ⟨text, Nat.le_refl _⟩

/-- The rest of a rest. -/
def trans (rest : Rest text) (last : Rest rest.val) : Rest text :=
  ⟨last.val, Nat.le_trans last.property rest.property⟩

/-- The rest after one more character at the front. -/
def cons (rest : Rest text) : Rest (c :: text) :=
  ⟨rest.val, Nat.le_succ_of_le rest.property⟩

/-- What remains after the characters that pass a test. -/
def dropWhile (test : Char → Bool) (text : List Char) : Rest text :=
  ⟨text.dropWhile test, (List.dropWhile_sublist _).length_le⟩

/-- What remains after a number of characters. -/
def drop (n : Nat) (text : List Char) : Rest text :=
  ⟨text.drop n, by simp only [List.length_drop]; omega⟩

/-- A value read with the first character, up to a rest. -/
def taking (rest : Rest text) (value : α) : Taken α (c :: text) :=
  ⟨value, rest.val, Nat.lt_succ_of_le rest.property⟩

/-- What was read at the front of a rest. -/
def before (rest : Rest text) (taken : Taken α rest.val) : Taken α text :=
  ⟨taken.value, taken.rest, Nat.lt_of_lt_of_le taken.shorter rest.property⟩

end Rest

namespace Taken

/-- A value read as the first character. -/
def one (value : α) : Taken α (c :: text) :=
  (Rest.whole text).taking value

/-- What was read after one more character at the front. -/
def cons (taken : Taken α text) : Taken α (c :: text) :=
  ⟨taken.value, taken.rest, Nat.lt_succ_of_lt taken.shorter⟩

/-- What was read with its value changed. -/
def map (taken : Taken α text) (f : α → β) : Taken β text :=
  ⟨f taken.value, taken.rest, taken.shorter⟩

/-- What remains. -/
def toRest (taken : Taken α text) : Rest text :=
  ⟨taken.rest, Nat.le_of_lt taken.shorter⟩

/-- What was read after something else. -/
def after (first : Taken α text) (second : Taken β first.rest) : Taken β text :=
  first.toRest.before second

/-- A value read after something else, up to a rest. -/
def upTo (first : Taken α text) (value : β) (rest : Rest first.rest) : Taken β text :=
  ⟨value, rest.val, Nat.lt_of_le_of_lt rest.property first.shorter⟩

end Taken

/-- What the first of two readers finds, or else what the second finds. -/
def firstOf (first second : Found α text) : Found α text := do
  match ← first with
  | some taken => return some taken
  | none => second

/-- Passes over one given character. -/
def char? (c : Char) : (text : List Char) → Option (Taken Unit text)
  | [] => none
  | d :: _ => if d = c then some (.one ()) else none

/-- Passes over a piece of text, if it is there. -/
def skip? (piece? : (text : List Char) → Option (Taken Unit text)) (text : List Char) : Rest text :=
  match piece? text with
  | some taken => taken.toRest
  | none => .whole text

/-- Passes over as many pieces of text as there are. -/
def skipAll (piece? : (text : List Char) → Option (Taken Unit text)) (text : List Char) :
    Rest text :=
  match piece? text with
  | none => .whole text
  | some taken =>
    have := taken.shorter
    taken.toRest.trans (skipAll piece? taken.rest)
termination_by text.length

end MailTemplate.Kdl
