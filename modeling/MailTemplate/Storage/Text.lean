import MailTemplate.Json.Printer
import MailTemplate.Json.Skip
import MailTemplate.Storage.Record

/-!
# Stored Text

The text form of stored records. `Records.ofText` reads it strictly: every record has to be well
formed and to name a member once, while members of no meaning are passed over. Errors name the
place in the text.

* `ReadError.offset` is the place of an error as a count of bytes.
-/

namespace MailTemplate

open Json

/-- The number of bytes before the place of an error, found by walking the text: lines count line
breaks, and columns count characters. -/
def Json.Position.offsetIn (target : Position) : (line column : Nat) → List Char → Nat
  | _, _, [] => 0
  | line, column, c :: rest =>
    if target.line ≤ line + 1 ∧ target.column ≤ column + 1 then 0
    else
      c.utf8Size +
        if c = '\n' then target.offsetIn (line + 1) 0 rest
        else target.offsetIn line (column + 1) rest

/-- The place of an error in its text, in bytes. -/
def Json.ReadError.offset (e : ReadError) (text : String) : Nat :=
  e.position.offsetIn 0 0 text.toList

/-- The message for stored text that cannot be read. -/
def Json.ReadError.storageMessage (e : ReadError) : String :=
  "could not read persisted tree: " ++ e.message

namespace Record

/-- Reads a string; anything else is an error. -/
def readId : Reader String :=
  readStringAs "a string"

/-- Reads a null as no value, and all else by the given reader. -/
def readNullable (reader : Reader α) : Reader (Option α) :=
  afterBlanks fun c => do
    match c.rest with
    | 'n' :: _ =>
      let first ← readChar c
      return first.upTo none (← letters ['u', 'l', 'l'] first.next)
    | _ => return (← reader c).map some

/-- Reads a list of ids. -/
def readIds : Reader (List NodeId) :=
  afterBlanks fun c =>
    match c.rest with
    | [] => .error (c.fail .endInValue)
    | '[' :: _ => readList readId c
    | _ => .error (wrongTypeAt "a sequence" c)

/-- Reads the properties of a record, which stand two containers deep. -/
def readProperties : Reader Json := fun c => do
  return (← readValue (maxDepth - 2) c).map unique

/-- The members of a record. -/
inductive Member where
  | id
  | kind
  | parent
  | properties
  | children
deriving DecidableEq

/-- The key of a member. -/
def Member.key : Member → String
  | .id => "id"
  | .kind => "type"
  | .parent => "parentId"
  | .properties => "properties"
  | .children => "children"

/-- The members in the order of the list form. -/
def Member.all : List Member :=
  [.id, .kind, .parent, .properties, .children]

/-- Whether a member was met. -/
def Draft.has (draft : Draft) : Member → Bool
  | .id => draft.id.isSome
  | .kind => draft.kind.isSome
  | .parent => draft.parent.isSome
  | .properties => draft.properties.isSome
  | .children => draft.children.isSome

/-- Reads the value of a member into a draft. -/
def Draft.readMember (draft : Draft) (member : Member) : Reader Draft := fun c => do
  match member with
  | .id => return (← readId c).map fun x => { draft with id := some x }
  | .kind => return (← readId c).map fun x => { draft with kind := some x }
  | .parent => return (← readNullable readId c).map fun x => { draft with parent := some x }
  | .properties => return (← readProperties c).map fun x => { draft with properties := some x }
  | .children => return (← readNullable readIds c).map fun x => { draft with children := some x }

/-- Reads one member of a record in object form, given its key. -/
def Draft.readKeyed (draft : Draft) (key : String) (c : Cursor) :
    Except ReadError (Draft × c.Onward) :=
  match Member.all.find? (·.key == key) with
  | none => do
    let (_, d) ← memberValue skipValue c
    return (draft, d)
  | some member =>
    if draft.has member then .error (c.pastObject.misfit (.duplicateField key))
    else memberValue (draft.readMember member) c

/-- Reads the members of a record in list form, up to the closing bracket or the last member. -/
def Draft.readItems (draft : Draft) (isFirst : Bool) :
    List Member → (c : Cursor) → Except ReadError (Draft × c.Onward)
  | [], c => .ok (draft, c.here)
  | member :: members, c => do
    match ← nextItem isFirst c with
    | (false, d) => return (draft, d)
    | (true, d) =>
      let x ← draft.readMember member d.val
      let (draft, e) ← x.value.readItems false members x.next
      return (draft, d.trans (x.toOnward.trans e))

/-- The record of a finished draft, or its error at the given place. -/
def finish (outcome : Except Mismatch Record) (c : Cursor) : Except ReadError Record :=
  outcome.mapError c.misfit

/-- Reads a record in object form, at its opening brace. -/
def readMembers : Reader Record := fun c => do
  let opening ← readChar c
  let (draft, d) ← Json.readMembers Draft.readKeyed true {} opening.next
  let record ← finish draft.ofMembers d.val.pastObject
  return opening.upTo record (d.trans (← closeObject d.val))

/-- Reads a record in list form, at its opening bracket. -/
def readItems : Reader Record := fun c => do
  let opening ← readChar c
  let (draft, d) ← Draft.readItems {} true Member.all opening.next
  let record ← finish draft.ofItems d.val.pastList
  return opening.upTo record (d.trans (← closeList d.val))

/-- Reads a record. -/
def read : Reader Record :=
  readRecordAs "struct NodeRecord" readMembers readItems

end Record

namespace Records

/-- Reads records; of two under one id the last counts. -/
def read : Reader Records :=
  afterBlanks fun c =>
    match c.rest with
    | [] => .error (c.fail .endInValue)
    | '{' :: _ =>
      let member := fun (records : Records) id d => do
        let (record, e) ← memberValue Record.read d
        return (records.insert id record, e)
      readObject member ∅ c
    | _ => .error (wrongTypeAt "a map" c)

/-- Reads a text as records. -/
def ofText (text : String) : Except ReadError Records :=
  readText read text

/-- The text of records, without blanks or over several lines. -/
def toText (records : Records) (isPretty : Bool) : String :=
  if isPretty then records.toJson.pretty else records.toJson.compact

end Records

end MailTemplate
