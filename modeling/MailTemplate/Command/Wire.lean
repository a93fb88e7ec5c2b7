import MailTemplate.Command.Basic
import MailTemplate.Json.Reader
import MailTemplate.Storage.Record

/-!
# Commands in JSON

A command is written as an object whose member `op` names the edit, or as a list of the name and
the arguments in order.

* `Command.encode` and `Command.decode` write and read one command.
* `Command.listOfText` reads a text as a list of commands. An error in the arguments of a command is
  reported where the list goes on after it.
-/

namespace MailTemplate

open Json

/-- The edits by name. -/
inductive Operation where
  | addComponent
  | removeComponent
  | updateComponent
  | reorderComponents
  | moveComponent
  | setColumnsCount
deriving DecidableEq

/-- The arguments of a command that were met. -/
structure Arguments where
  /-- The kind to add. -/
  kind : Option Kind := none
  /-- The parent to add to, or to reorder. -/
  parent : Option NodeId := none
  /-- The index to add at. -/
  index : Option (Option UInt64) := none
  /-- The component to edit. -/
  id : Option NodeId := none
  /-- The patch. -/
  patch : Option (List (String × Json)) := none
  /-- The index to move from. -/
  oldIndex : Option UInt64 := none
  /-- The index to move to. -/
  newIndex : Option UInt64 := none
  /-- The parent to move to. -/
  target : Option NodeId := none
  /-- The index to move to in another parent. -/
  targetIndex : Option (Option Int64) := none
  /-- The number of columns. -/
  count : Option Int64 := none

namespace Arguments

/-- The argument of a name, or the error that it is missing. -/
def require (name : String) : Option α → Except Mismatch α
  | some a => .ok a
  | none => .error (.missingField name)

/-- Kinds by name. -/
def kindCodec : Codec Kind :=
  .named (Kind.all.map fun kind => (kind.name, kind)) isNullOrEmpty Kind.name

/-- Patches, with one value for each key. -/
def patchCodec : Codec (List (String × Json)) where
  decode
    | .object members => .ok (uniqueMembers (uniqueValues members))
    | json => wrongType json "a map"
  encode := .object

/-- The argument `type`. -/
def kindField : Shape.Field Arguments :=
  .of "type" (.present kindCodec) kind fun x a => { a with kind := x }

/-- The argument `parentId`. -/
def parentField : Shape.Field Arguments :=
  .of "parentId" (.present .string) parent fun x a => { a with parent := x }

/-- The argument `index`. -/
def indexField : Shape.Field Arguments :=
  .of "index" (.present (.nullable .uint64)) index fun x a => { a with index := x }

/-- The argument `id`. -/
def idField : Shape.Field Arguments :=
  .of "id" (.present .string) id fun x a => { a with id := x }

/-- The argument `properties`. -/
def patchField : Shape.Field Arguments :=
  .of "properties" (.present patchCodec) patch fun x a => { a with patch := x }

/-- The argument `oldIndex`. -/
def oldIndexField : Shape.Field Arguments :=
  .of "oldIndex" (.present .uint64) oldIndex fun x a => { a with oldIndex := x }

/-- The argument `newIndex`. -/
def newIndexField : Shape.Field Arguments :=
  .of "newIndex" (.present .uint64) newIndex fun x a => { a with newIndex := x }

/-- The argument `targetParentId`. -/
def targetField : Shape.Field Arguments :=
  .of "targetParentId" (.present .string) target fun x a => { a with target := x }

/-- The argument `targetIndex`. -/
def targetIndexField : Shape.Field Arguments :=
  .of "targetIndex" (.present (.nullable .int64)) targetIndex
    fun x a => { a with targetIndex := x }

/-- The argument `count`. -/
def countField : Shape.Field Arguments :=
  .of "count" (.present .int64) count fun x a => { a with count := x }

end Arguments

namespace Operation

/-- The edits in the order in which they are listed. -/
def all : List Operation :=
  [.addComponent, .removeComponent, .updateComponent, .reorderComponents, .moveComponent,
    .setColumnsCount]

/-- The name of an edit. -/
def name : Operation → String
  | .addComponent => "addComponent"
  | .removeComponent => "removeComponent"
  | .updateComponent => "updateComponent"
  | .reorderComponents => "reorderComponents"
  | .moveComponent => "moveComponent"
  | .setColumnsCount => "setColumnsCount"

/-- What messages call the arguments of an edit. -/
def title : Operation → String
  | .addComponent => "struct variant Command::AddComponent"
  | .removeComponent => "struct variant Command::RemoveComponent"
  | .updateComponent => "struct variant Command::UpdateComponent"
  | .reorderComponents => "struct variant Command::ReorderComponents"
  | .moveComponent => "struct variant Command::MoveComponent"
  | .setColumnsCount => "struct variant Command::SetColumnsCount"

/-- The arguments of an edit, in order. -/
def fields : Operation → List (Shape.Field Arguments)
  | .addComponent => [Arguments.kindField, Arguments.parentField, Arguments.indexField]
  | .removeComponent => [Arguments.idField]
  | .updateComponent => [Arguments.idField, Arguments.patchField]
  | .reorderComponents =>
    [Arguments.parentField, Arguments.oldIndexField, Arguments.newIndexField]
  | .moveComponent => [Arguments.idField, Arguments.targetField, Arguments.targetIndexField]
  | .setColumnsCount => [Arguments.idField, Arguments.countField]

/-- How many of the arguments have to be there; those that may be missing come last. -/
def required : Operation → Nat
  | .addComponent => 2
  | .removeComponent => 1
  | .updateComponent => 2
  | .reorderComponents => 3
  | .moveComponent => 2
  | .setColumnsCount => 2

/-- The shape of the arguments of an edit. -/
def shape (op : Operation) : Shape Arguments :=
  ⟨op.title, {}, op.fields⟩

/-- The edit of a name. -/
def ofName (name : String) : Except Mismatch Operation :=
  Codec.variant (all.map fun op => (op.name, op)) name

/-- The command of an edit and its arguments, or the first that is missing. -/
def command (op : Operation) (a : Arguments) : Except Mismatch Command := do
  match op with
  | .addComponent =>
    let kind ← Arguments.require "type" a.kind
    let parent ← Arguments.require "parentId" a.parent
    return .addComponent kind parent (a.index.getD none)
  | .removeComponent => return .removeComponent (← Arguments.require "id" a.id)
  | .updateComponent =>
    let id ← Arguments.require "id" a.id
    return .updateComponent id (← Arguments.require "properties" a.patch)
  | .reorderComponents =>
    let parent ← Arguments.require "parentId" a.parent
    let oldIndex ← Arguments.require "oldIndex" a.oldIndex
    return .reorderComponents parent oldIndex (← Arguments.require "newIndex" a.newIndex)
  | .moveComponent =>
    let id ← Arguments.require "id" a.id
    let target ← Arguments.require "targetParentId" a.target
    return .moveComponent id target (a.targetIndex.getD none)
  | .setColumnsCount =>
    let id ← Arguments.require "id" a.id
    return .setColumnsCount id (← Arguments.require "count" a.count)

/-- A number of elements in words. -/
def elements (n : Nat) : String :=
  if n = 1 then "1 element" else natText n ++ " elements"

/-- Reads the members of an object as arguments; each may be there once. -/
def readMembers (op : Operation) (seen : List String) (a : Arguments) :
    List (String × Json) → Except Mismatch Arguments
  | [] => .ok a
  | (key, value) :: rest =>
    match op.shape.field? key with
    | none => op.readMembers seen a rest
    | some field =>
      if key ∈ seen then .error (.duplicateField key)
      else do op.readMembers (key :: seen) (← field.read value a) rest

/-- The command of an edit and an object of arguments. -/
def ofMembers (op : Operation) (members : List (String × Json)) : Except Mismatch Command := do
  op.command (← op.readMembers [] {} members)

/-- The command of an edit and a list of arguments. -/
def ofItems (op : Operation) (items : List Json) : Except Mismatch Command := do
  let (a, more) ← Shape.readItems {} op.fields items
  let count := op.fields.length
  if items.length < op.required then
    throw (.wrongLength items.length (op.title ++ " with " ++ elements count))
  if more then throw (.wrongLength items.length (elements count ++ " in sequence"))
  op.command a

end Operation

namespace Command

/-- What messages call a command. -/
def title : String := "internally tagged enum Command"

/-- Reads the name of an edit. -/
def decodeOperation : Json → Except Mismatch Operation
  | .string s => Operation.ofName s
  | json => wrongType json "variant identifier"

/-- Reads a command. -/
def decode : Json → Except Mismatch Command
  | .object members => do
    let op ← Arguments.require "op" (lookup "op" members)
    (← decodeOperation op).ofMembers (members.filter (·.1 ≠ "op"))
  | .array [] => .error (.missingField "op")
  | .array (op :: items) => do (← decodeOperation op).ofItems items
  | json => wrongType json title

/-- Reads a list of commands. -/
def decodeList : Json → Except Mismatch (List Command)
  | .array items => items.mapM decode
  | json => wrongType json "a sequence"

/-- The edit of a command. -/
def operation : Command → Operation
  | .addComponent .. => .addComponent
  | .removeComponent .. => .removeComponent
  | .updateComponent .. => .updateComponent
  | .reorderComponents .. => .reorderComponents
  | .moveComponent .. => .moveComponent
  | .setColumnsCount .. => .setColumnsCount

/-- The arguments of a command. -/
def arguments : Command → Arguments
  | .addComponent kind parent index =>
    { kind := some kind, parent := some parent, index := index.map some }
  | .removeComponent id => { id := some id }
  | .updateComponent id patch => { id := some id, patch := some patch }
  | .reorderComponents parent oldIndex newIndex =>
    { parent := some parent, oldIndex := some oldIndex, newIndex := some newIndex }
  | .moveComponent id target index =>
    { id := some id, target := some target, targetIndex := index.map some }
  | .setColumnsCount id count => { id := some id, count := some count }

/-- The members of a command besides its name; an index that is not given is left out. -/
def encodeArguments (command : Command) : List (String × Json) :=
  let written := command.operation.fields.map fun field =>
    (field.name, field.write command.arguments)
  written.filter fun (_, value) => !isNull value

/-- Writes a command. -/
def encode (command : Command) : Json :=
  .object (("op", .string command.operation.name) :: command.encodeArguments)

/-- Reads the name of an edit in a text. -/
def readOperation : Reader Operation := fun c => do
  let name ← readStringAs "variant identifier" c
  match Operation.ofName name.value with
  | .ok op => return name.map fun _ => op
  | .error m => throw (name.next.misfit m)

/-- The values of arguments stand two containers deep. -/
def readArgument : Reader Json :=
  readValue (maxDepth - 2)

/-- The members of a command in a text: its edit, and the arguments met, last first. -/
abbrev Members : Type := Option Operation × List (String × Json)

/-- Reads one member of a command, given its key. -/
def readMember (members : Members) (key : String) (c : Cursor) :
    Except ReadError (Members × c.Onward) := do
  if key = "op" then
    if members.1.isSome then throw (c.pastObject.misfit (.duplicateField "op"))
    let (op, d) ← memberValue readOperation c
    return ((some op, members.2), d)
  else
    let (value, d) ← memberValue readArgument c
    return ((members.1, (key, value) :: members.2), d)

/-- Reads a command in object form, at its opening brace. -/
def readMembers : Reader (Except Mismatch Command) := fun c => do
  let opening ← readChar c
  let ((op, members), d) ← Json.readMembers readMember true (none, []) opening.next
  match op with
  | none => throw (d.val.pastObject.misfit (.missingField "op"))
  | some op => return opening.upTo (op.ofMembers members.reverse) (d.trans (← closeObject d.val))

/-- Reads a command in list form, at its opening bracket. -/
def readItems : Reader (Except Mismatch Command) := fun c => do
  let opening ← readChar c
  match ← nextItem true opening.next with
  | (false, d) => throw (d.val.pastList.misfit (.missingField "op"))
  | (true, d) =>
    let op ← readOperation d.val
    let (items, e) ← Json.readItems readArgument false op.next
    return opening.upTo (op.value.ofItems items)
      (d.trans (op.toOnward.trans (e.trans (← closeList e.val))))

/-- Reads a command in a text as far as its name can be told; the arguments may not fit. -/
def read : Reader (Except Mismatch Command) :=
  readRecordAs title readMembers readItems

/-- Reads a command as an item of a list of commands. -/
def readItem : Reader Command := fun c => do
  let x ← read c
  match x.value with
  | .ok command => return x.map fun _ => command
  | .error m => throw (x.next.pastList.misfit m)

/-- Reads a list of commands in a text. -/
def readCommands : Reader (List Command) :=
  afterBlanks fun c =>
    match c.rest with
    | [] => .error (c.fail .endInValue)
    | '[' :: _ => readList readItem c
    | _ => .error (wrongTypeAt "a sequence" c)

/-- Reads a text as a list of commands. -/
def listOfText (text : String) : Except ReadError (List Command) :=
  readText readCommands text

end Command

end MailTemplate
