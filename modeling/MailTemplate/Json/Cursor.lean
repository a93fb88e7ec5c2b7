import MailTemplate.Json.Mismatch

/-!
# Places in a Text

A `Cursor` is a place in a JSON text with what remains to be read there. Positions count lines from
one, and columns as the bytes since the last line break. An error names the position up to which
the text was read; an error about the next byte counts that byte as read.

* `Reader` is a reader that consumes at least one character when it succeeds.
-/

namespace MailTemplate.Json

/-- A position in a text. -/
structure Position where
  /-- The line, counted from one. -/
  line : Nat
  /-- The bytes since the last line break. -/
  column : Nat
deriving DecidableEq, Repr

/-- The position after a character. -/
def Position.after (p : Position) (c : Char) : Position :=
  if c = '\n' then ⟨p.line + 1, 0⟩ else ⟨p.line, p.column + c.utf8Size⟩

/-- The position after the first byte of a character. -/
def Position.afterByte (p : Position) (c : Char) : Position :=
  if c = '\n' then ⟨p.line + 1, 0⟩ else ⟨p.line, p.column + 1⟩

/-- The position after some bytes of a text, or at its end if it has fewer. -/
def Position.afterBytes (p : Position) : Nat → List Char → Position
  | 0, _ => p
  | _, [] => p
  | bytes, c :: rest =>
    if c.utf8Size ≤ bytes then (p.after c).afterBytes (bytes - c.utf8Size) rest
    else ⟨p.line, p.column + bytes⟩

/-- How a text breaks the grammar. -/
inductive Fault where
  | endInValue
  | endInList
  | endInObject
  | endInString
  | expectedValue
  | expectedIdent
  | expectedColon
  | expectedCommaOrListEnd
  | expectedCommaOrObjectEnd
  | keyNotString
  | trailingComma
  | trailingCharacters
  | invalidNumber
  | numberOutOfRange
  | invalidEscape
  | controlCharacter
  | loneSurrogate
  | endInEscape
  | tooDeep
deriving DecidableEq, Repr

/-- The words for a fault. -/
def Fault.message : Fault → String
  | .endInValue => "EOF while parsing a value"
  | .endInList => "EOF while parsing a list"
  | .endInObject => "EOF while parsing an object"
  | .endInString => "EOF while parsing a string"
  | .expectedValue => "expected value"
  | .expectedIdent => "expected ident"
  | .expectedColon => "expected `:`"
  | .expectedCommaOrListEnd => "expected `,` or `]`"
  | .expectedCommaOrObjectEnd => "expected `,` or `\x7d`"
  | .keyNotString => "key must be a string"
  | .trailingComma => "trailing comma"
  | .trailingCharacters => "trailing characters"
  | .invalidNumber => "invalid number"
  | .numberOutOfRange => "number out of range"
  | .invalidEscape => "invalid escape"
  | .controlCharacter => "control character (\\u0000-\\u001F) found while parsing a string"
  | .loneSurrogate => "lone leading surrogate in hex escape"
  | .endInEscape => "unexpected end of hex escape"
  | .tooDeep => "recursion limit exceeded"

/-- The kind of a read error. -/
inductive Category where
  /-- The text breaks the grammar. -/
  | grammar
  /-- The text ends too early. -/
  | early
  /-- The text is JSON but not the value asked for. -/
  | data
deriving DecidableEq, Repr

/-- What is wrong with a text. -/
inductive Cause where
  /-- It breaks the grammar. -/
  | fault (f : Fault)
  /-- A value in it does not fit. -/
  | mismatch (m : Mismatch)
deriving DecidableEq

/-- The kind of a cause. -/
def Cause.category : Cause → Category
  | .fault .endInValue | .fault .endInList | .fault .endInObject | .fault .endInString => .early
  | .fault _ => .grammar
  | .mismatch _ => .data

/-- An error and the position up to which the text was read. -/
structure ReadError where
  /-- What is wrong. -/
  cause : Cause
  /-- Where it is. -/
  position : Position
deriving DecidableEq

/-- The message, with its place. -/
def ReadError.message (e : ReadError) : String :=
  let words := match e.cause with
    | .fault f => f.message
    | .mismatch m => m.message
  words ++ " at line " ++ String.ofList (Binary.digitChars e.position.line) ++
    " column " ++ String.ofList (Binary.digitChars e.position.column)

/-- A place in a text. -/
structure Cursor where
  /-- How far the text was read. -/
  position : Position
  /-- The text that remains. -/
  rest : List Char
deriving DecidableEq

namespace Cursor

/-- The start of a text. -/
def start (text : String) : Cursor :=
  ⟨⟨1, 0⟩, text.toList⟩

/-- The number of characters that remain. -/
def size (c : Cursor) : Nat :=
  c.rest.length

/-- The position that counts the next byte as read, if there is one. -/
def peeked (c : Cursor) : Position :=
  match c.rest with
  | [] => c.position
  | x :: _ => c.position.afterByte x

/-- The error of a fault at this place. -/
def fail (c : Cursor) (f : Fault) : ReadError :=
  ⟨.fault f, c.position⟩

/-- The error of a fault in the next byte. -/
def failNext (c : Cursor) (f : Fault) : ReadError :=
  ⟨.fault f, c.peeked⟩

/-- The error of a value that does not fit, found at this place. -/
def misfit (c : Cursor) (m : Mismatch) : ReadError :=
  ⟨.mismatch m, c.position⟩

/-- Passes over one character. -/
def step (c : Cursor) : Cursor :=
  match c.rest with
  | [] => c
  | x :: rest => ⟨c.position.after x, rest⟩

/-- Whether JSON takes a character for a blank. -/
def isBlank (x : Char) : Bool :=
  x == ' ' || x == '\n' || x == '\t' || x == '\r'

/-- The place after some characters that satisfy a test. -/
def passWhile (test : Char → Bool) (position : Position) : List Char → Cursor
  | [] => ⟨position, []⟩
  | x :: rest => if test x then passWhile test (position.after x) rest else ⟨position, x :: rest⟩

/-- Passes over blanks. -/
def skipBlanks (c : Cursor) : Cursor :=
  passWhile isBlank c.position c.rest

theorem size_passWhile_le (test : Char → Bool) (position : Position) (rest : List Char) :
    (passWhile test position rest).size ≤ rest.length := by
  induction rest generalizing position with
  | nil => simp [passWhile, size]
  | cons x rest ih =>
    unfold passWhile
    split
    · exact Nat.le_succ_of_le (ih _)
    · simp [size]

theorem size_skipBlanks_le (c : Cursor) : c.skipBlanks.size ≤ c.size :=
  size_passWhile_le ..

theorem size_step_le (c : Cursor) : c.step.size ≤ c.size := by
  unfold step size
  split <;> simp_all

theorem size_step_lt {c : Cursor} {x : Char} {rest : List Char} (h : c.rest = x :: rest) :
    c.step.size < c.size := by
  unfold step size
  split <;> simp_all

end Cursor

/-- A place not before another one. -/
abbrev Cursor.Onward (c : Cursor) : Type :=
  { d : Cursor // d.size ≤ c.size }

namespace Cursor

/-- This very place. -/
def here (c : Cursor) : c.Onward :=
  ⟨c, Nat.le_refl _⟩

/-- The place after the next character. -/
def onward (c : Cursor) : c.Onward :=
  ⟨c.step, c.size_step_le⟩

/-- The place after blanks. -/
def blanks (c : Cursor) : c.Onward :=
  ⟨c.skipBlanks, c.size_skipBlanks_le⟩

/-- A place not before a place that is not before this one. -/
def Onward.trans {c : Cursor} (d : c.Onward) (e : d.val.Onward) : c.Onward :=
  ⟨e.val, Nat.le_trans e.property d.property⟩

end Cursor

/-- The outcome of a reader that has consumed something: the value, and a place further on. -/
structure Step (α : Type) (c : Cursor) where
  /-- The value that was read. -/
  value : α
  /-- The place after it. -/
  next : Cursor
  shorter : next.size < c.size

/-- A reader that consumes at least one character when it succeeds. -/
abbrev Reader (α : Type) : Type :=
  (c : Cursor) → Except ReadError (Step α c)

namespace Step

variable {c : Cursor}

/-- The outcome with its value changed. -/
def map (s : Step α c) (f : α → β) : Step β c :=
  ⟨f s.value, s.next, s.shorter⟩

/-- The place after what was read. -/
def toOnward (s : Step α c) : c.Onward :=
  ⟨s.next, Nat.le_of_lt s.shorter⟩

/-- What was read at a place, as read from a place not after it. -/
def since (d : c.Onward) (s : Step α d.val) : Step α c :=
  ⟨s.value, s.next, Nat.lt_of_lt_of_le s.shorter d.property⟩

/-- What was read after something else. -/
def after (first : Step α c) (second : Step β first.next) : Step β c :=
  second.since first.toOnward

/-- A value read after something else, up to some place. -/
def upTo (first : Step α c) (value : β) (d : first.next.Onward) : Step β c :=
  ⟨value, d.val, Nat.lt_of_le_of_lt d.property first.shorter⟩

end Step

/-- Reads one character, whatever it is. -/
def readChar : Reader Char := fun c =>
  match h : c.rest with
  | [] => .error (c.fail .endInValue)
  | x :: _ => .ok ⟨x, c.step, Cursor.size_step_lt h⟩

/-- Passes over blanks before a reader begins. -/
def afterBlanks (reader : Reader α) : Reader α := fun c => do
  return .since c.blanks (← reader c.skipBlanks)

end MailTemplate.Json
