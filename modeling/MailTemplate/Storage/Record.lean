import MailTemplate.Json.Codec
import MailTemplate.Tree.Basic

/-!
# Stored Records

A tree is stored as a JSON object that gives each id the record of its node. Kinds are stored by
name, so that a record of an unknown kind can be read and dealt with later.

* `Records.ofTree` stores a tree, `Records.toJson` and `Records.decode` are the JSON form.
-/

namespace MailTemplate

open Json (Codec Shape Mismatch)

/-- One node as stored. -/
structure Record where
  /-- The id that the record itself names. -/
  id : NodeId
  /-- The name of the kind. -/
  kind : String
  /-- The parent, if one is named. -/
  parent : Option NodeId := none
  /-- The stored properties, of whatever form. -/
  properties : Json := .null
  /-- The children, if there is a list of them. -/
  children : Option (List NodeId) := none

/-- Stored records by id, in the order of ids. -/
abbrev Records : Type :=
  Std.ExtTreeMap NodeId Record

/-- A record that is being read: the members met so far. -/
structure Record.Draft where
  /-- The id. -/
  id : Option NodeId := none
  /-- The name of the kind. -/
  kind : Option String := none
  /-- The parent. -/
  parent : Option (Option NodeId) := none
  /-- The properties. -/
  properties : Option Json := none
  /-- The children. -/
  children : Option (Option (List NodeId)) := none

/-- A codec for lists of the values of another. -/
def Json.Codec.list (codec : Codec α) : Codec (List α) where
  decode
    | .array items => items.mapM codec.decode
    | json => Json.wrongType json "a sequence"
  encode items := .array (items.map codec.encode)

/-- The codec of a JSON value as it is. -/
def Json.Codec.any : Codec Json :=
  ⟨.ok, id⟩

/-- A codec for a member that counts as present once it was read. -/
def Json.Codec.present (codec : Codec α) : Codec (Option α) where
  decode json := some <$> codec.decode json
  encode value := Json.ofOption codec.encode value

namespace Record

/-- The members of a record, in the order of its list form. -/
def Draft.shape : Shape Draft where
  title := "struct NodeRecord"
  initial := {}
  fields := [
    .of "id" (.present .string) id fun x d => { d with id := x },
    .of "type" (.present .string) kind fun x d => { d with kind := x },
    .of "parentId" (.present (.nullable .string)) parent fun x d => { d with parent := x },
    .of "properties" (.present .any) properties fun x d => { d with properties := x },
    .of "children" (.present (.nullable (.list .string))) children
      fun x d => { d with children := x }]

/-- The record with given id and kind, and the other members that were read. -/
def Draft.record (draft : Draft) (id : NodeId) (kind : String) : Record where
  id := id
  kind := kind
  parent := draft.parent.getD none
  properties := draft.properties.getD .null
  children := draft.children.getD none

/-- The record of the members of an object; id and kind have to be among them. -/
def Draft.ofMembers (draft : Draft) : Except Mismatch Record :=
  match draft.id, draft.kind with
  | none, _ => .error (.missingField "id")
  | _, none => .error (.missingField "type")
  | some id, some kind => .ok (draft.record id kind)

/-- The record of the items of a list; its first two are the id and the kind. -/
def Draft.ofItems (draft : Draft) : Except Mismatch Record :=
  match draft.id, draft.kind with
  | none, _ => .error (.wrongLength 0 "struct NodeRecord with 5 elements")
  | _, none => .error (.wrongLength 1 "struct NodeRecord with 5 elements")
  | some id, some kind => .ok (draft.record id kind)

/-- Reads a record. -/
def decode (json : Json) : Except Mismatch Record := do
  let draft ← Draft.shape.decode json
  match json with
  | .array _ => draft.ofItems
  | _ => draft.ofMembers

/-- The JSON form of a record. A leaf has no list of children. -/
def toJson (record : Record) : Json :=
  .object ([
    ("id", .string record.id),
    ("type", .string record.kind),
    ("parentId", Json.ofOption .string record.parent),
    ("properties", record.properties)] ++
    match record.children with
    | some children => [("children", .array (children.map .string))]
    | none => [])

/-- The record of a node. -/
def ofNode (id : NodeId) (node : Node) : Record where
  id := id
  kind := node.kind.name
  parent := node.parent
  properties := node.properties.encode
  children := node.children

end Record

namespace Records

/-- The records of a tree. -/
def ofTree (tree : Tree) : Records :=
  tree.nodes.map Record.ofNode

/-- The JSON form of records. -/
def toJson (records : Records) : Json :=
  .object (records.toList.map fun (id, record) => (id, record.toJson))

/-- Reads records; each of them has to be well formed. -/
def decode : Json → Except Mismatch Records
  | .object members =>
    members.foldlM (fun records (id, json) => do return records.insert id (← Record.decode json)) ∅
  | json => Json.wrongType json "a map"

/-- Reads those members of a value that are well-formed records. -/
def salvage : Json → Records
  | .object members =>
    members.foldl (fun records (id, json) =>
      match Record.decode json with
      | .ok record => records.insert id record
      | .error _ => records) ∅
  | _ => ∅

end Records

end MailTemplate
