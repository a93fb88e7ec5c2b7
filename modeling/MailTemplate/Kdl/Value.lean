import MailTemplate.Json.Scalar
import MailTemplate.Kdl.Space
import MailTemplate.Text.Numeric

/-!
# KDL Names and Values

Readers for the words of a node: names, and the values of its arguments and properties.

* `name?` reads a name, which is a bare word or a string.
* `entryValue?` reads an argument or a property as its value.
-/

namespace MailTemplate.Kdl

open Json (hexValue? simpleEscape?)

/-- A value. Of a number only that it is one is kept. -/
inductive Value where
  | null
  | flag (isTrue : Bool)
  | number
  | text (content : String)
deriving DecidableEq, Repr

/-! ## Strings -/

/-- The character of a code point in hexadecimal digits, one to six of them. -/
def codePoint? (digits : List Char) : Option Char := do
  guard (digits.length ≤ 6 ∧ digits ≠ [])
  let n := (← digits.mapM hexValue?).foldl (fun n digit => n * 16 + digit) 0
  if h : n.isValidChar then some (Char.ofNatAux n h) else none

/-- Reads what follows the backslash of an escape. -/
def escape? : (text : List Char) → Option (Taken Char text)
  | 'u' :: '{' :: rest => do
    let digits := Rest.dropWhile (· != '}') rest
    let closing ← char? '}' digits.val
    let c ← codePoint? (rest.takeWhile (· != '}'))
    return (digits.before (closing.map fun _ => c)).cons.cons
  | c :: _ => do return .one (← simpleEscape? c)
  | [] => none

/-- Reads the characters of a string after its opening quote, and the closing quote. -/
def stringRest? (text : List Char) : Option (Taken (List Char) text) :=
  match text with
  | [] => none
  | '"' :: _ => some (.one [])
  | '\\' :: rest => do
    let c ← escape? rest
    have := c.shorter
    return (c.after ((← stringRest? c.rest).map (c.value :: ·))).cons
  | c :: rest => do return ((← stringRest? rest).map (c :: ·)).cons
termination_by text.length
decreasing_by all_goals (simp only [List.length_cons]; omega)

/-- Reads the characters of a raw string after its opening quote, and the closing mark. -/
def rawRest? (closing : List Char) : (text : List Char) → Option (List Char × Rest text)
  | [] => none
  | c :: rest =>
    if closing.isPrefixOf (c :: rest) then some ([], .drop closing.length (c :: rest))
    else do
      let (content, last) ← rawRest? closing rest
      return (c :: content, last.cons)

/-- Reads what follows the letter of a raw string. -/
def raw? (text : List Char) : Option (Taken (List Char) text) := do
  let marks := Rest.dropWhile (· == '#') text
  let opening ← char? '"' marks.val
  let (content, last) ← rawRest? ('"' :: text.takeWhile (· == '#')) opening.rest
  return marks.before (opening.upTo content last)

/-- Reads a string, plain or raw. -/
def string? : (text : List Char) → Option (Taken String text)
  | '"' :: rest => do return ((← stringRest? rest).map String.ofList).cons
  | 'r' :: rest => do return ((← raw? rest).map String.ofList).cons
  | _ => none

/-! ## Names -/

/-- Whether a character is a mark of the grammar. -/
def isMark (c : Char) : Bool :=
  ['\\', '/', '(', ')', '{', '}', '<', '>', ';', '[', ']', '=', ',', '"'].contains c

/-- Whether a character may stand in a bare word. -/
def isWordChar (c : Char) : Bool :=
  0x20 < c.toNat && !isBlank c && !isLineBreak c && !isMark c

/-- Whether a word is set apart for a value. -/
def isKeyword (word : List Char) : Bool :=
  word == ['t', 'r', 'u', 'e'] || word == ['f', 'a', 'l', 's', 'e'] || word == ['n', 'u', 'l', 'l']

/-- Reads a bare word. It does not begin with a number sign, but a plus or minus may come before
digits. -/
def word? : (text : List Char) → Option (Taken String text)
  | [] => none
  | c :: rest =>
    let word := c :: rest.takeWhile isWordChar
    if isWordChar c ∧ !Text.isNumeric c ∧ !isKeyword word then
      some ((Rest.dropWhile isWordChar rest).taking (String.ofList word))
    else none

/-- Reads a name. -/
def name? (text : List Char) : Option (Taken String text) :=
  string? text <|> word? text

/-! ## Numbers -/

/-- The largest number that a run of digits may stand for. -/
def maxWhole : Nat := 9223372036854775807

/-- Reads digits of a base, among which underscores may stand, as the number that they make. -/
def digits? (base : Nat) : (text : List Char) → Option (Taken Nat text)
  | [] => none
  | c :: rest =>
    let isDigit := fun c => (hexValue? c).any (· < base)
    let isPart := fun c => isDigit c || c == '_'
    let number := ((c :: rest.takeWhile isPart).filterMap hexValue?).foldl (· * base + ·) 0
    if isDigit c then some ((Rest.dropWhile isPart rest).taking number) else none

/-- A run of digits, unless the number that they make is too large. -/
def bounded? (taken : Taken Nat text) : Option (Taken Unit text) :=
  if taken.value ≤ maxWhole then some (taken.map fun _ => ()) else none

/-- Reads a whole number in base ten. -/
def whole? (text : List Char) : Option (Taken Unit text) := do
  bounded? (← digits? 10 text)

/-- Passes over a sign. -/
def sign? (text : List Char) : Option (Taken Unit text) :=
  char? '+' text <|> char? '-' text

/-- Reads a whole number that has to be there. It may have a sign, and the value tells if it has
none. -/
def required (text : List Char) : Except Fault (Taken Bool text) :=
  let sign := skip? sign? text
  match whole? sign.val with
  | some taken => .ok (sign.before (taken.map fun _ => (sign? text).isNone))
  | none => .error .malformed

/-- Reads a fraction, which tells if it is free of a sign. After the point, a number has to
follow. -/
def fraction? : (text : List Char) → Found Bool text
  | '.' :: rest => do return some (← required rest).cons
  | _ => .ok none

/-- Reads an exponent, which tells if it has at most one sign. After the letter, a number has to
follow. -/
def exponent? (text : List Char) : Found Bool text :=
  match char? 'e' text <|> char? 'E' text with
  | none => .ok none
  | some mark => do
    let sign := skip? sign? mark.rest
    return some (mark.after (sign.before (← required sign.val)))

/-- The text up to the end of a part, if the part is sound. -/
def Taken.ifSound (first : Taken Unit text) (isSound : Bool) (last : Rest first.rest) :
    Option (Taken Unit text) :=
  if isSound then some (first.upTo () last) else none

/-- Reads a number with a fraction or an exponent. -/
def float? (text : List Char) : Found Unit text :=
  match whole? text with
  | none => .ok none
  | some whole => do
    match ← fraction? whole.rest with
    | none =>
      match ← exponent? whole.rest with
      | none => return none
      | some exponent => return whole.ifSound exponent.value exponent.toRest
    | some fraction =>
      match ← exponent? fraction.rest with
      | none => return whole.ifSound fraction.value fraction.toRest
      | some exponent =>
        return whole.ifSound (fraction.value && exponent.value) (fraction.after exponent).toRest

/-- The base that a letter after a zero stands for. -/
def base? : Char → Option Nat
  | 'x' | 'X' => some 16
  | 'o' | 'O' => some 8
  | 'b' | 'B' => some 2
  | _ => none

/-- Reads a whole number with a mark for its base. After the mark, digits have to follow. -/
def based? : (text : List Char) → Found Unit text
  | '0' :: mark :: rest =>
    match base? mark with
    | none => .ok none
    | some base =>
      match digits? base rest with
      | none => .error .malformed
      | some taken => .ok ((bounded? taken).map (·.cons.cons))
  | _ => .ok none

/-- Reads a number. -/
def number? (text : List Char) : Found Unit text :=
  let sign := skip? sign? text
  return (← firstOf (based? sign.val) (firstOf (float? sign.val) (.ok (whole? sign.val)))).map
    sign.before

/-! ## Entries -/

/-- Reads a value that is a word of its own. -/
def keyword? : (text : List Char) → Option (Taken Value text)
  | 't' :: 'r' :: 'u' :: 'e' :: _ => some (Taken.one (.flag true)).cons.cons.cons
  | 'f' :: 'a' :: 'l' :: 's' :: 'e' :: _ => some (Taken.one (.flag false)).cons.cons.cons.cons
  | 'n' :: 'u' :: 'l' :: 'l' :: _ => some (Taken.one .null).cons.cons.cons
  | _ => none

/-- Whether a text begins with characters that take up a number of bytes. -/
def fills : (bytes : Nat) → (text : List Char) → Bool
  | 0, _ => true
  | _, [] => false
  | bytes, c :: rest => c.utf8Size ≤ bytes && fills (bytes - c.utf8Size) rest

/-- What is wrong after the parenthesis of an annotation. A word that is set apart is marked by as
many bytes as it takes up, from its end on. -/
def annotationFault (text : List Char) : Fault :=
  let word := text.takeWhile isWordChar
  if isKeyword word && !fills word.length (text.dropWhile isWordChar) then .unmarkable
  else .malformed

/-- Reads a type annotation. After its parenthesis, the rest of it has to follow. -/
def annotation? : (text : List Char) → Found Unit text
  | '(' :: rest =>
    match name? rest with
    | none => .error (annotationFault rest)
    | some name =>
      match char? ')' name.rest with
      | none => .error .malformed
      | some closing => .ok (some (name.after closing).cons)
  | _ => .ok none

/-- Passes over a type annotation, if it is there. -/
def skipAnnotation (text : List Char) : Except Fault (Rest text) := do
  match ← annotation? text with
  | none => return .whole text
  | some annotation => return annotation.toRest

/-- Reads a value without a type annotation. -/
def bare? (text : List Char) : Found Value text :=
  match keyword? text <|> (string? text).map (Taken.map · .text) with
  | some value => .ok (some value)
  | none => return (← number? text).map (Taken.map · fun _ => .number)

/-- Reads a value, which may have a type annotation. -/
def value? (text : List Char) : Found Value text := do
  let rest ← skipAnnotation text
  return (← bare? rest.val).map rest.before

/-- Reads a property as its value. -/
def property? (text : List Char) : Found Value text :=
  match name? text with
  | none => .ok none
  | some name =>
    match char? '=' name.rest with
    | none => .ok none
    | some mark => return (← value? mark.rest).map fun value => name.after (mark.after value)

/-- Reads an argument or a property as its value. -/
def entryValue? (text : List Char) : Found Value text :=
  firstOf (property? text) (value? text)

end MailTemplate.Kdl
