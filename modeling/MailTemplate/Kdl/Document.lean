import MailTemplate.Kdl.Value

/-!
# KDL Documents

A document is a list of nodes. A node has a name, entries, and a block of child nodes; of these the
name and the values of the entries are kept, and the children are only checked. A slash and a minus
drop the node, the entry or the block that follows them.

* `Document.ofText` reads a text as a document.
-/

namespace MailTemplate.Kdl

/-- A node. -/
structure Node where
  /-- Its name. -/
  name : String
  /-- The values of its arguments and properties, in order. -/
  entries : List Value
deriving DecidableEq, Repr

/-- The top-level nodes of a text. -/
abbrev Document : Type := List Node

/-- Passes over the two characters that drop what follows. -/
def drop? (text : List Char) : Option (Taken Unit text) := do
  let slash ← char? '/' text
  return slash.after (← char? '-' slash.rest)

/-- Passes over the end of a node: a semicolon, the end of a line, or the end of the text. -/
def nodeEnd? (text : List Char) : Option (Rest text) :=
  if text.isEmpty then some (.whole text)
  else (char? ';' text <|> lineEnd? text).map Taken.toRest

/-- Reads an entry after some space; without any, there is none. -/
def setApart? (space : Rest text) : Found Value space.val :=
  if space.val.length < text.length then entryValue? space.val else .ok none

/-- What is read of a part that is dropped. A fault in it is never one of its mark. -/
def inDropped (outcome : Except Fault α) : Except Fault α :=
  outcome.mapError fun _ => .malformed

/-- Whether no node begins at a place: the text or a block ends there. -/
def isEnd : (text : List Char) → Bool
  | [] | '}' :: _ => true
  | _ => false

mutual

/-- Reads nodes up to a place where none begins. -/
def nodes (text : List Char) : Except Fault (List Node × Rest text) := do
  let start ← skipToNode text
  have := start.property
  if isEnd start.val then return ([], start)
  else
    let node ← node start.val
    have := node.shorter
    let (more, last) ← nodes node.rest
    return (node.value :: more, start.trans (node.toRest.trans last))
termination_by 4 * text.length + 1
decreasing_by all_goals omega

/-- Passes over the space before a node, and the nodes that are dropped there. -/
def skipToNode (text : List Char) : Except Fault (Rest text) := do
  let start := skipLines text
  have := start.property
  match drop? start.val with
  | none => return start
  | some mark =>
    have := mark.shorter
    let next ← inDropped (skipToNode mark.rest)
    have := next.property
    let dropped ← inDropped (node next.val)
    have := dropped.shorter
    let last ← skipToNode dropped.rest
    return start.trans (mark.toRest.trans (next.trans (dropped.toRest.trans last)))
termination_by 4 * text.length
decreasing_by all_goals omega

/-- Reads a node at its name or type annotation. -/
def node (text : List Char) : Except Fault (Taken Node text) := do
  let start ← skipAnnotation text
  have := start.property
  match name? start.val with
  | none => throw .malformed
  | some name =>
    have := name.shorter
    let (entries, last) ← entries true name.rest
    return start.before (name.upTo ⟨name.value, entries⟩ last)
termination_by 4 * text.length
decreasing_by all_goals omega

/-- Reads the rest of a node: entries and a block, unless it has had its block, and the end. -/
def entries (isOpen : Bool) (text : List Char) : Except Fault (List Value × Rest text) := do
  let start ← skipToEntry text
  have := start.property
  match nodeEnd? start.val, isOpen with
  | some last, _ => return ([], start.trans last)
  | none, false => throw .malformed
  | none, true =>
    match ← setApart? start with
    | some entry =>
      have := entry.shorter
      let (more, last) ← entries true entry.rest
      return (entry.value :: more, start.trans (entry.toRest.trans last))
    | none =>
      let block ← block start.val
      have := block.shorter
      let (more, last) ← entries false block.rest
      return (more, start.trans (block.toRest.trans last))
termination_by 4 * text.length + 3
decreasing_by all_goals omega

/-- Passes over the space inside a node, and the entries and blocks that are dropped there. -/
def skipToEntry (text : List Char) : Except Fault (Rest text) := do
  let start := skipSpace text
  have := start.property
  match drop? start.val with
  | none => return start
  | some mark =>
    have := mark.shorter
    let next ← inDropped (skipToEntry mark.rest)
    have := next.property
    match ← inDropped (entryValue? next.val) with
    | some entry =>
      have := entry.shorter
      let last ← skipToEntry entry.rest
      return start.trans (mark.toRest.trans (next.trans (entry.toRest.trans last)))
    | none =>
      let block ← inDropped (block next.val)
      have := block.shorter
      let last ← skipToEntry block.rest
      return start.trans (mark.toRest.trans (next.trans (block.toRest.trans last)))
termination_by 4 * text.length
decreasing_by all_goals omega

/-- Passes over a block of child nodes. -/
def block (text : List Char) : Except Fault (Taken Unit text) :=
  match char? '{' text with
  | none => throw .malformed
  | some opening => do
    have := opening.shorter
    let (_, inner) ← nodes opening.rest
    match char? '}' inner.val with
    | none => throw .malformed
    | some closing => return opening.after (inner.before closing)
termination_by 4 * text.length + 2
decreasing_by all_goals omega

end

/-- Reads a text as a document. -/
def Document.ofText (text : String) : Except Fault Document := do
  let (document, rest) ← nodes text.toList
  if rest.val.isEmpty then return document else throw .malformed

/-- The first node of a name. -/
def Document.node? (document : Document) (name : String) : Option Node :=
  document.find? (·.name == name)

end MailTemplate.Kdl
