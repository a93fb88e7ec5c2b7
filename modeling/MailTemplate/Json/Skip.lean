import MailTemplate.Json.Reader

/-!
# Passing Over Values

A member that nobody asks for is passed over, and its value checked for form only: strings may hold
half a pair, numbers may be out of range, and containers may nest to any depth.
-/

namespace MailTemplate.Json

/-- A container that is open. -/
inductive Bracket where
  | list
  | object
deriving DecidableEq

/-- The fault of a text that ends inside a container. -/
def Bracket.endFault : Bracket → Fault
  | .list => .endInList
  | .object => .endInObject

/-- The fault of a container whose values are not separated by a comma. -/
def Bracket.commaFault : Bracket → Fault
  | .list => .expectedCommaOrListEnd
  | .object => .expectedCommaOrObjectEnd

/-- The character that closes a container. -/
def Bracket.closing : Bracket → Char
  | .list => ']'
  | .object => '}'

/-- Passes over a string after its opening quote. -/
def skipString (c : Cursor) : Except ReadError (Step Unit c) :=
  match h : c.rest with
  | [] => .error (c.fail .endInString)
  | x :: _ =>
    have shorter : c.step.size < c.size := Cursor.size_step_lt h
    if x = '"' then .ok ⟨(), c.step, shorter⟩
    else if x = '\\' then do
      let y ← escapeWith (fun d => do return (← hexEscape d).map fun _ => ' ') c.step
      have := y.shorter
      return .since c.onward (y.after (← skipString y.next))
    else if x.toNat < 32 then .error (c.fail .controlCharacter)
    else do return .since c.onward (← skipString c.step)
termination_by c.size

/-- Passes over an exponent, if one follows. -/
def skipExponent (c : Cursor) : Except ReadError c.Onward :=
  if c.atExponent then
    let sign := exponentSign c.step
    let d := sign.2.val
    if d.digits.isEmpty then .error (d.failNext .invalidNumber)
    else .ok (c.onward.trans (sign.2.trans d.skipDigits))
  else .ok c.here

/-- Passes over a fraction, if one follows, and an exponent. -/
def skipFraction (c : Cursor) : Except ReadError c.Onward :=
  match c.rest with
  | '.' :: _ =>
    if c.step.digits.isEmpty then .error (c.step.failNext .invalidNumber)
    else do
      let d := c.step.skipDigits
      return c.onward.trans (d.trans (← skipExponent d.val))
  | _ => skipExponent c

/-- Passes over a number after its sign. -/
def skipNumber : Reader Unit := fun c => do
  if c.rest.isEmpty then throw (c.fail .invalidNumber)
  let first ← readChar c
  let d := first.next
  if first.value = '0' ∧ !d.digits.isEmpty then throw (d.failNext .invalidNumber)
  else if first.value.isDigit then
    let more := d.skipDigits
    return first.upTo () (more.trans (← skipFraction more.val))
  else throw (c.failNext .invalidNumber)

/-- Passes over the key of a member and its colon. -/
def skipKey (c : Cursor) : Except ReadError c.Onward :=
  let d := c.blanks
  match d.val.rest with
  | [] => .error (d.val.fail .endInObject)
  | '"' :: _ => do
    let s ← skipString d.val.step
    return d.trans (d.val.onward.trans (s.toOnward.trans (← passColon s.next)))
  | _ => .error (d.val.failNext .keyNotString)

/-- Where the next value of an open container begins. -/
def skipToValue (bracket : Bracket) (c : Cursor) : Except ReadError c.Onward :=
  match bracket with
  | .list => .ok c.here
  | .object => skipKey c

/-- What stands where a value is due: a scalar, now passed over, or the opening of a container. -/
def skipScalar : Reader (Option Bracket) :=
  afterBlanks fun c => do
    let first ← readChar c
    match first.value with
    | 'n' => return first.upTo none (← letters ['u', 'l', 'l'] first.next)
    | 't' => return first.upTo none (← letters ['r', 'u', 'e'] first.next)
    | 'f' => return first.upTo none (← letters ['a', 'l', 's', 'e'] first.next)
    | '"' => return first.after ((← skipString first.next).map fun _ => none)
    | '-' => return first.after ((← skipNumber first.next).map fun _ => none)
    | '[' => return first.map fun _ => some .list
    | '{' => return first.map fun _ => some .object
    | x =>
      if x.isDigit then return (← skipNumber c).map fun _ => none
      else throw (c.failNext .expectedValue)

/-- How the text goes on inside an open container: after a comma, or past its end. -/
inductive Continuation where
  | value
  | closed
deriving DecidableEq

/-- Passes over what follows a value, or the opening, of a container. -/
def skipSeparator (bracket : Bracket) (afterValue : Bool) (c : Cursor) :
    Except ReadError (Continuation × c.Onward) :=
  let d := c.blanks
  match d.val.rest with
  | [] => .error (d.val.fail bracket.endFault)
  | x :: _ =>
    if x = bracket.closing then .ok (.closed, d.trans d.val.onward)
    else if !afterValue then .ok (.value, d)
    else if x = ',' then .ok (.value, d.trans d.val.onward)
    else .error (d.val.failNext bracket.commaFault)

/-- Closes containers, innermost first, until a value is due; the containers still open then. -/
def skipClosings (afterValue : Bool) :
    List Bracket → (c : Cursor) → Except ReadError (List Bracket × c.Onward)
  | [], c => .ok ([], c.here)
  | bracket :: outer, c => do
    match ← skipSeparator bracket afterValue c with
    | (.closed, d) =>
      let (stack, e) ← skipClosings true outer d.val
      return (stack, d.trans e)
    | (.value, d) => return (bracket :: outer, d.trans (← skipToValue bracket d.val))

/-- Passes over a value and what follows it up to the end of the given open containers. -/
def skipWithin (stack : List Bracket) (c : Cursor) : Except ReadError (Step Unit c) := do
  let head ← skipScalar c
  let (stack, d) ← skipClosings head.value.isNone (head.value.toList ++ stack) head.next
  let passed := head.upTo () d
  match stack with
  | [] => return passed
  | stack =>
    have := passed.shorter
    return passed.after (← skipWithin stack passed.next)
termination_by c.size

/-- Passes over one value. -/
def skipValue : Reader Unit :=
  skipWithin []

end MailTemplate.Json
