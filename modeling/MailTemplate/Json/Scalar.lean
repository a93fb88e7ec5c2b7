import MailTemplate.Json.Cursor

/-!
# Reading Strings, Numbers and Words

Readers for the values of a JSON text that hold no other values. Each consumes exactly the
characters of its value, or names the first place where the text stops being one.
-/

namespace MailTemplate.Json

open Binary

/-- The value of a hexadecimal digit. -/
def hexValue? (x : Char) : Option Nat :=
  if '0' ≤ x ∧ x ≤ '9' then some (x.toNat - '0'.toNat)
  else if 'a' ≤ x ∧ x ≤ 'f' then some (x.toNat - 'a'.toNat + 10)
  else if 'A' ≤ x ∧ x ≤ 'F' then some (x.toNat - 'A'.toNat + 10)
  else none

/-- The value of four hexadecimal digits. -/
def hexNumber? (a b c d : Char) : Option Nat := do
  return (((← hexValue? a) * 16 + (← hexValue? b)) * 16 + (← hexValue? c)) * 16 + (← hexValue? d)

/-- Reads four hexadecimal digits. Whatever stands there, four bytes count as read. -/
def hexEscape : Reader Nat := fun c =>
  match h : c.rest with
  | w :: x :: y :: z :: rest =>
    match hexNumber? w x y z with
    | some n =>
      let position := (((c.position.after w).after x).after y).after z
      .ok ⟨n, ⟨position, rest⟩, by simp only [Cursor.size, h, List.length_cons]; omega⟩
    | none => .error ⟨.fault .invalidEscape, c.position.afterBytes 4 c.rest⟩
  | few =>
    let bytes := few.foldl (fun n x => n + x.utf8Size) 0
    let fault := if bytes < 4 then .endInString else .invalidEscape
    .error ⟨.fault fault, c.position.afterBytes 4 c.rest⟩

/-- Whether a code unit is the first half of a pair. -/
def isLeading (n : Nat) : Bool :=
  0xD800 ≤ n && n ≤ 0xDBFF

/-- Whether a code unit is the second half of a pair. -/
def isTrailing (n : Nat) : Bool :=
  0xDC00 ≤ n && n ≤ 0xDFFF

/-- The character of a pair of code units. -/
def pairChar (leading trailing : Nat) : Char :=
  Char.ofNat ((leading - 0xD800) * 0x400 + (trailing - 0xDC00) + 0x10000)

/-- Passes over one given character of an escaped pair. -/
def pairPart (x : Char) : Reader Unit := fun c =>
  match h : c.rest with
  | [] => .error (c.fail .endInString)
  | y :: _ =>
    if y = x then .ok ⟨(), c.step, Cursor.size_step_lt h⟩
    else .error (c.failNext .endInEscape)

/-- Reads what follows the letter of an escape by code units: one unit, or an escaped pair. -/
def unicodeEscape : Reader Char := fun c => do
  let first ← hexEscape c
  if isTrailing first.value then throw (first.next.fail .loneSurrogate)
  if isLeading first.value then
    let slash ← pairPart '\\' first.next
    let letter ← pairPart 'u' slash.next
    let second ← hexEscape letter.next
    if isTrailing second.value then
      return first.after (slash.after (letter.after (second.map (pairChar first.value))))
    else throw (second.next.fail .loneSurrogate)
  else return first.map Char.ofNat

/-- The character of an escape by one letter. -/
def simpleEscape? : Char → Option Char
  | '"' => some '"'
  | '\\' => some '\\'
  | '/' => some '/'
  | 'b' => some '\x08'
  | 'f' => some '\x0c'
  | 'n' => some '\n'
  | 'r' => some '\r'
  | 't' => some '\t'
  | _ => none

/-- Reads what follows the backslash of an escape, given the reader for code units. -/
def escapeWith (unicode : Reader Char) : Reader Char := fun c =>
  match h : c.rest with
  | [] => .error (c.fail .endInString)
  | x :: _ =>
    have shorter : c.step.size < c.size := Cursor.size_step_lt h
    match simpleEscape? x with
    | some y => .ok ⟨y, c.step, shorter⟩
    | none =>
      if x = 'u' then do
        return .since c.onward (← unicode c.step)
      else .error (c.failNext .invalidEscape)

/-- Reads the characters of a string after its opening quote, and the closing quote. -/
def stringRest : Reader (List Char) := fun c =>
  match h : c.rest with
  | [] => .error (c.fail .endInString)
  | x :: _ =>
    have shorter : c.step.size < c.size := Cursor.size_step_lt h
    if x = '"' then .ok ⟨[], c.step, shorter⟩
    else if x = '\\' then do
      let y ← escapeWith unicodeEscape c.step
      have := y.shorter
      let s ← stringRest y.next
      return .since c.onward (y.after (s.map (y.value :: ·)))
    else if x.toNat < 32 then .error (c.failNext .controlCharacter)
    else do return .since c.onward ((← stringRest c.step).map (x :: ·))
termination_by c => c.size

/-- Reads a string after its opening quote. -/
def readString : Reader String := fun c => do
  return (← stringRest c).map String.ofList

/-- The place after a run of digits. -/
def Cursor.skipDigits (c : Cursor) : c.Onward :=
  ⟨passWhile Char.isDigit c.position c.rest, size_passWhile_le ..⟩

/-- The run of digits at a place. -/
def Cursor.digits (c : Cursor) : List Char :=
  c.rest.takeWhile Char.isDigit

/-- Whether the next character opens an exponent. -/
def Cursor.atExponent (c : Cursor) : Bool :=
  match c.rest with
  | x :: _ => x == 'e' || x == 'E'
  | [] => false

/-- The value of a run of digits. -/
def digitsValue (digits : List Char) : Nat :=
  digits.foldl (fun n x => n * 10 + (x.toNat - '0'.toNat)) 0

/-- How many digits it takes to pass a limit, going on from a value, if the run does. -/
def digitsPast? (limit : Nat) : (value : Nat) → List Char → Option Nat
  | _, [] => none
  | value, x :: rest =>
    let value := value * 10 + (x.toNat - '0'.toNat)
    if limit < value then some 1 else (digitsPast? limit value rest).map (· + 1)

/-- The largest exponent that is read; a larger one overflows. -/
def maxExponent : Nat := 2147483647

/-- The floating-point number of the parts read so far, ending at a place. -/
def floatAt (negative : Bool) (significand : Nat) (exponent : Int) (c : Cursor) :
    Except ReadError Number :=
  match Number.ofParts? negative significand exponent with
  | some x => .ok (.float x)
  | none => .error (c.fail .numberOutOfRange)

/-- Passes over a sign; the flag tells whether it was a minus. -/
def exponentSign (c : Cursor) : Bool × c.Onward :=
  match c.rest with
  | '+' :: _ => (false, c.onward)
  | '-' :: _ => (true, c.onward)
  | _ => (false, c.here)

/-- Reads an exponent after its letter, and makes the number from it and the parts before it. -/
def exponentPart (negative : Bool) (significand : Nat) (exponent : Int) (c : Cursor) :
    Except ReadError (Number × c.Onward) :=
  let sign := exponentSign c
  let d := sign.2.val
  let digits := d.digits
  let next := sign.2.trans d.skipDigits
  if digits.isEmpty then
    .error (d.failNext (if d.rest.isEmpty then .endInValue else .invalidNumber))
  else
    match digitsPast? maxExponent 0 digits with
    | some n =>
      if significand ≠ 0 ∧ !sign.1 then
        .error ⟨.fault .numberOutOfRange, ⟨d.position.line, d.position.column + n⟩⟩
      else .ok (.zero negative, next)
    | none => do
      let written : Int := if sign.1 then -digitsValue digits else digitsValue digits
      return (← floatAt negative significand (exponent + written) next.val, next)

/-- Ends a floating-point number, with its exponent if one follows. -/
def afterDigits (negative : Bool) (significand : Nat) (exponent : Int) (c : Cursor) :
    Except ReadError (Number × c.Onward) :=
  if c.atExponent then do
    let (x, d) ← exponentPart negative significand exponent c.step
    return (x, c.onward.trans d)
  else do return (← floatAt negative significand exponent c, c.here)

/-- Reads a fraction after its point, then ends the number. -/
def fractionPart (negative : Bool) (whole : Number.Digits) (c : Cursor) :
    Except ReadError (Number × c.Onward) :=
  let digits := c.digits
  if digits.isEmpty then
    .error (c.failNext (if c.rest.isEmpty then .endInValue else .invalidNumber))
  else do
    let fraction := Number.Digits.extend ⟨whole.significand, 0, 0⟩ digits
    let d := c.skipDigits
    let (x, e) ←
      afterDigits negative fraction.significand ((whole.dropped : Int) - fraction.kept) d.val
    return (x, d.trans e)

/-- Ends a number after its whole part. -/
def afterWhole (negative : Bool) (whole : Number.Digits) (c : Cursor) :
    Except ReadError (Number × c.Onward) :=
  match c.rest with
  | '.' :: _ => do
    let (x, d) ← fractionPart negative whole c.step
    return (x, c.onward.trans d)
  | _ =>
    if c.atExponent ∨ whole.dropped ≠ 0 then
      afterDigits negative whole.significand whole.dropped c
    else
      match Number.ofSigned? negative whole.significand with
      | some x => .ok (x, c.here)
      | none => .error (c.fail .numberOutOfRange)

/-- Reads a number after its sign. -/
def readNumber (negative : Bool) : Reader Number := fun c => do
  let first ← readChar c
  let d := first.next
  if first.value = '0' then
    if d.digits.isEmpty then
      let (x, e) ← afterWhole negative (Number.Digits.extend {} ['0']) d
      return first.upTo x e
    else throw (d.failNext .invalidNumber)
  else if first.value.isDigit then
    let more := d.skipDigits
    let (x, e) ← afterWhole negative (Number.Digits.extend {} c.digits) more.val
    return first.upTo x (more.trans e)
  else throw (c.failNext .invalidNumber)

/-- Passes over the given letters. -/
def letters : List Char → (c : Cursor) → Except ReadError c.Onward
  | [], c => .ok c.here
  | x :: xs, c =>
    match c.rest with
    | [] => .error (c.fail .endInValue)
    | y :: _ =>
      if y = x then do return c.onward.trans (← letters xs c.step)
      else .error (c.failNext .expectedIdent)

/-- Reads a scalar at its first character, and passes brackets on to the given reader. -/
def readScalarAt (container : Reader Json) : Reader Json := fun c => do
  let first ← readChar c
  match first.value with
  | 'n' => return first.upTo .null (← letters ['u', 'l', 'l'] first.next)
  | 't' => return first.upTo (.bool true) (← letters ['r', 'u', 'e'] first.next)
  | 'f' => return first.upTo (.bool false) (← letters ['a', 'l', 's', 'e'] first.next)
  | '"' => return first.after ((← readString first.next).map .string)
  | '-' => return first.after ((← readNumber true first.next).map .number)
  | '[' | '{' => container c
  | x =>
    if x.isDigit then return (← readNumber false c).map .number
    else throw (c.failNext .expectedValue)

/-- Reads a scalar after blanks, and passes brackets on to the given reader. -/
def readScalarOr (container : Reader Json) : Reader Json :=
  afterBlanks (readScalarAt container)

end MailTemplate.Json
