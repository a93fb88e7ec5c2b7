import MailTemplate.Kdl.Taken

/-!
# Space in KDL

What separates the words of a KDL text: blanks, comments, and the ends of lines.

* `skipBlanks` stays inside a line, `skipSpace` goes on to the next line after a backslash, and
  `skipLines` passes over any number of lines.
-/

namespace MailTemplate.Kdl

/-- Whether a character is a blank. -/
def isBlank (c : Char) : Bool :=
  c == ' ' || c == '\t' || c == '\u00a0' || c == '\u1680' || ('\u2000' ≤ c && c ≤ '\u200a') ||
    c == '\u202f' || c == '\u205f' || c == '\u3000' || c == '\ufeff'

/-- Whether a character ends a line. -/
def isLineBreak (c : Char) : Bool :=
  c == '\n' || c == '\r' || c == '\x0c' || c == '\u0085' || c == '\u2028' || c == '\u2029'

/-- The text after a block comment that is open inside some others; they nest. -/
def commentRest : (outer : Nat) → (text : List Char) → Option (Rest text)
  | _, [] => none
  | 0, '*' :: '/' :: rest => some (Rest.whole rest).cons.cons
  | outer + 1, '*' :: '/' :: rest => do return (← commentRest outer rest).cons.cons
  | outer, '/' :: '*' :: rest => do return (← commentRest (outer + 1) rest).cons.cons
  | outer, _ :: rest => do return (← commentRest outer rest).cons

/-- Passes over a blank or a block comment. -/
def blank? : (text : List Char) → Option (Taken Unit text)
  | [] => none
  | '/' :: '*' :: rest => do return ((← commentRest 0 rest).taking ()).cons
  | c :: _ => if isBlank c then some (.one ()) else none

/-- Passes over a line break. -/
def lineBreak? : (text : List Char) → Option (Taken Unit text)
  | [] => none
  | '\r' :: '\n' :: _ => some (Taken.one ()).cons
  | c :: _ => if isLineBreak c then some (.one ()) else none

/-- The rest of a text after its line. -/
def afterLine (text : List Char) : Rest text :=
  let line := Rest.dropWhile (!isLineBreak ·) text
  line.trans (skip? lineBreak? line.val)

/-- Passes over the end of a line, which may be a comment. -/
def lineEnd? : (text : List Char) → Option (Taken Unit text)
  | '/' :: '/' :: rest => some ((afterLine rest).taking ()).cons
  | text => lineBreak? text

/-- Passes over blanks and block comments. -/
def skipBlanks (text : List Char) : Rest text :=
  skipAll blank? text

/-- Passes over a backslash and the end of its line. -/
def continuation? : (text : List Char) → Option (Taken Unit text)
  | '\\' :: rest => do
    let blanks := skipBlanks rest
    return (blanks.before (← lineEnd? blanks.val)).cons
  | _ => none

/-- Passes over the space inside a node. -/
def skipSpace (text : List Char) : Rest text :=
  skipAll (fun text => blank? text <|> continuation? text) text

/-- Passes over the space between nodes. -/
def skipLines (text : List Char) : Rest text :=
  skipAll (fun text => blank? text <|> lineEnd? text) text

end MailTemplate.Kdl
