import MailTemplate.Json.Scalar

/-!
# Reading JSON

Readers for lists and objects, given a reader for what they hold, and from them the reader for any
JSON value. Containers nest at most `maxDepth` deep.

* `Json.ofText` reads a whole text as one value. Of the values of a repeated key the last counts.
-/

namespace MailTemplate.Json

/-- How deep lists and objects may nest. -/
def maxDepth : Nat := 127

/-- Looks for the next item of a list: `false` at the closing bracket, else the item's place. -/
def nextItem (isFirst : Bool) (c : Cursor) : Except ReadError (Bool × c.Onward) :=
  let d := c.blanks
  match d.val.rest with
  | [] => .error (d.val.fail .endInList)
  | ']' :: _ => .ok (false, d)
  | x :: _ =>
    if isFirst then .ok (true, d)
    else if x = ',' then
      let e := d.trans (d.val.onward.trans d.val.step.blanks)
      match e.val.rest with
      | [] => .error (e.val.fail .endInValue)
      | ']' :: _ => .error (e.val.failNext .trailingComma)
      | _ => .ok (true, e)
    else .error (d.val.failNext .expectedCommaOrListEnd)

/-- The place of the next key of an object, or of the closing brace. -/
def keyPlace (isFirst : Bool) (c : Cursor) : Except ReadError c.Onward :=
  let d := c.blanks
  match d.val.rest with
  | [] => .error (d.val.fail .endInObject)
  | '}' :: _ => .ok d
  | x :: _ =>
    if isFirst then .ok d
    else if x = ',' then
      let e := d.trans (d.val.onward.trans d.val.step.blanks)
      match e.val.rest with
      | [] => .error (e.val.fail .endInValue)
      | '}' :: _ => .error (e.val.failNext .trailingComma)
      | _ => .ok e
    else .error (d.val.failNext .expectedCommaOrObjectEnd)

/-- Reads the next key of an object; nothing, at the closing brace. -/
def nextKey (isFirst : Bool) (c : Cursor) :
    Except ReadError (c.Onward ⊕ Step String c) := do
  let d ← keyPlace isFirst c
  match d.val.rest with
  | '}' :: _ => return .inl d
  | '"' :: _ => return .inr (.since (d.trans d.val.onward) (← readString d.val.step))
  | _ => throw (d.val.failNext .keyNotString)

/-- Passes over the colon after a key. -/
def passColon (c : Cursor) : Except ReadError c.Onward :=
  let d := c.blanks
  match d.val.rest with
  | [] => .error (d.val.fail .endInObject)
  | ':' :: _ => .ok (d.trans d.val.onward)
  | _ => .error (d.val.failNext .expectedColon)

/-- Passes over the closing bracket of a list. -/
def closeList (c : Cursor) : Except ReadError c.Onward :=
  let d := c.blanks
  match d.val.rest with
  | [] => .error (d.val.fail .endInList)
  | ']' :: _ => .ok (d.trans d.val.onward)
  | ',' :: _ =>
    let e := d.val.step.skipBlanks
    match e.rest with
    | ']' :: _ => .error (e.failNext .trailingComma)
    | _ => .error (e.failNext .trailingCharacters)
  | _ => .error (d.val.failNext .trailingCharacters)

/-- Passes over the closing brace of an object. -/
def closeObject (c : Cursor) : Except ReadError c.Onward :=
  let d := c.blanks
  match d.val.rest with
  | [] => .error (d.val.fail .endInObject)
  | '}' :: _ => .ok (d.trans d.val.onward)
  | ',' :: _ => .error (d.val.failNext .trailingComma)
  | _ => .error (d.val.failNext .trailingCharacters)

/-- The place where an attempt to close a list ends. An error that concerns a list as a whole is
reported there. -/
def Cursor.pastList (c : Cursor) : Cursor :=
  let d := c.skipBlanks
  match d.rest with
  | ']' :: _ => d.step
  | ',' :: _ => d.step.skipBlanks
  | _ => d

/-- The place where an attempt to close an object ends. -/
def Cursor.pastObject (c : Cursor) : Cursor :=
  let d := c.skipBlanks
  match d.rest with
  | '}' :: _ => d.step
  | _ => d

/-- Reads the items of a list up to its closing bracket. -/
def readItems (item : Reader α) (isFirst : Bool) (c : Cursor) :
    Except ReadError (List α × c.Onward) := do
  match ← nextItem isFirst c with
  | (false, d) => return ([], d)
  | (true, d) =>
    let x ← item d.val
    have : x.next.size < c.size := Nat.lt_of_lt_of_le x.shorter d.property
    let (xs, e) ← readItems item false x.next
    return (x.value :: xs, d.trans (x.toOnward.trans e))
termination_by c.size

/-- Reads the members of an object up to its closing brace. Each is given to `member` with its key,
at the place after the key. -/
def readMembers (member : σ → String → (c : Cursor) → Except ReadError (σ × c.Onward))
    (isFirst : Bool) (state : σ) (c : Cursor) : Except ReadError (σ × c.Onward) := do
  match ← nextKey isFirst c with
  | .inl d => return (state, d)
  | .inr key =>
    let (state, d) ← member state key.value key.next
    have : d.val.size < c.size := Nat.lt_of_le_of_lt d.property key.shorter
    let (state, e) ← readMembers member false state d.val
    return (state, key.toOnward.trans (d.trans e))
termination_by c.size

/-- Reads a list at its opening bracket. -/
def readList (item : Reader α) : Reader (List α) := fun c => do
  let opening ← readChar c
  let (xs, d) ← readItems item true opening.next
  return opening.upTo xs (d.trans (← closeList d.val))

/-- Reads an object at its opening brace, from a state to begin with. -/
def readObject (member : σ → String → (c : Cursor) → Except ReadError (σ × c.Onward))
    (state : σ) : Reader σ := fun c => do
  let opening ← readChar c
  let (state, d) ← readMembers member true state opening.next
  return opening.upTo state (d.trans (← closeObject d.val))

/-- Reads the value of a member, after its key. -/
def memberValue (value : Reader α) (c : Cursor) : Except ReadError (α × c.Onward) := do
  let d ← passColon c
  let x ← value d.val
  return (x.value, d.trans x.toOnward)

/-- Reads a list or an object whose values the given reader reads. -/
def readContainer (value : Reader Json) : Reader Json := fun c =>
  match c.rest with
  | '[' :: _ => do return (← readList value c).map .array
  | _ => do
    let member := fun (ms : List (String × Json)) key d => do
      let (x, e) ← memberValue value d
      return ((key, x) :: ms, e)
    return (← readObject member [] c).map fun ms => .object ms.reverse

/-- Reads a value whose containers nest at most `depth` deep, repeated keys and all. -/
def readValue : (depth : Nat) → Reader Json
  | 0 => readScalarOr fun c => .error (c.failNext .tooDeep)
  | depth + 1 => readScalarOr (readContainer (readValue depth))

/-- The error of a value that is of another type than expected. A scalar is read first. -/
def wrongTypeAt (expected : String) (c : Cursor) : ReadError :=
  let bracket : Reader Json := fun d =>
    let found : Found := match d.rest with
      | '[' :: _ => .array
      | _ => .object
    .error (d.misfit (.wrongType found expected))
  match readScalarOr bracket c with
  | .ok x => x.next.misfit (.wrongType x.value.found expected)
  | .error e => e

/-- Reads a string after blanks; any other value is of another type than expected. -/
def readStringAs (expected : String) : Reader String :=
  afterBlanks fun c =>
    match c.rest with
    | [] => .error (c.fail .endInValue)
    | '"' :: _ => do
      let opening ← readChar c
      return opening.after (← readString opening.next)
    | _ => .error (wrongTypeAt expected c)

/-- Reads an object or a list after blanks, each by its reader; any other value is of another type
than expected. -/
def readRecordAs (expected : String) (object list : Reader α) : Reader α :=
  afterBlanks fun c =>
    match c.rest with
    | [] => .error (c.fail .endInValue)
    | '{' :: _ => object c
    | '[' :: _ => list c
    | _ => .error (wrongTypeAt expected c)

/-- Reads a whole text by a reader. -/
def readText (reader : Reader α) (text : String) : Except ReadError α := do
  let x ← reader (Cursor.start text)
  let c := x.next.skipBlanks
  if c.rest.isEmpty then return x.value
  else throw (c.failNext .trailingCharacters)

/-- Reads a text as a JSON value. -/
def ofText (text : String) : Except ReadError Json := do
  return (← readText (readValue maxDepth) text).unique

end MailTemplate.Json
