import MailTemplate.Tree.EditError
import MailTemplate.Tree.Rows

/-!
# Editing a Tree

The six edits of a component tree. Each gives a new tree, or the reason why it does not apply; there
is nothing in between. Those that make new ids may also never end.
-/

namespace MailTemplate.Tree

/-- A list with an entry put in at a position, or at the end if the list is shorter. -/
def insertAt (list : List α) (position : Nat) (a : α) : List α :=
  list.take position ++ a :: list.drop position

/-- A list with one entry moved to another position. The entry is taken out first. -/
def moveEntry (list : List α) (source target : Nat) : List α :=
  match list[source]? with
  | some a => insertAt (list.eraseIdx source) target a
  | none => list

/-- A list without the entries that are an id. -/
def without (id : NodeId) (list : List NodeId) : List NodeId :=
  list.filter (· ≠ id)

/-- The nodes left when those on a stack are taken out, and all that hangs from them. -/
def eraseAll (nodes : Nodes) : (stack : List NodeId) → Nodes
  | [] => nodes
  | id :: stack =>
    match h : nodes[id]? with
    | none => eraseAll nodes stack
    | some node =>
      have := size_erase_lt h
      eraseAll (nodes.erase id) (node.childList ++ stack)
termination_by stack => (nodes.size, stack.length)

/-- The tree without a node and all that hangs from it. -/
def eraseSubtree (tree : Tree) (id : NodeId) : Tree :=
  { tree with nodes := eraseAll tree.nodes [id] }

/-- The node of an id that an edit needs. -/
def require (tree : Tree) (id : NodeId) : Except EditError Node :=
  match tree.get? id with
  | some node => .ok node
  | none => .error (.missingNode id)

/-- The tree with the children of a node changed, which has to have a list of them. -/
def requireChildren (tree : Tree) (id : NodeId) (change : List NodeId → List NodeId) :
    Except EditError Tree :=
  match (tree.get? id).bind Node.children with
  | some _ => .ok (tree.modifyChildren id change)
  | none => .error (.missingNode id)

/-- Makes a node of a kind with its defaults, not listed by its parent yet. A row comes with its
columns. -/
def plant (tree : Tree) (kind : Kind) (parent : NodeId) : Option (Tree × NodeId) := do
  let (id, tree) ← tree.mint kind
  let tree := tree.insert id (.fresh (some parent) kind.defaults)
  match kind.defaults with
  | .columns row =>
    let count := clampColumns row.columns.toNat
    return ((← tree.appendColumns id count).writeColumnCount id count, id)
  | _ => return (tree, id)

/-- Adds a component with default properties to a parent, at an index or at the end; the new tree
and the new id. -/
def addComponent (tree : Tree) (kind : Kind) (parent : NodeId) (index : Option Nat) :
    Except EditFailure (Tree × NodeId) := do
  let node ← tree.require parent
  if kind = .column then throw (.refused .columnManaged)
  if !node.kind.accepts kind then throw (.refused (.illegalChild node.kind kind))
  let length := node.childList.length
  let (planted, id) ← tree.plant kind parent
  let next ← planted.requireChildren parent fun list =>
    insertAt list (if index.getD length < length then index.getD length else length) id
  return (next, id)

/-- The tree with a node taken off the list of its parent. A column leaves the row with a smaller
count. -/
def detach (tree : Tree) (id parent : NodeId) (kind : Kind) : Tree :=
  let next := tree.modifyChildren parent (without id)
  if kind = .column then next.writeColumnCount parent (next.childrenOf parent).length else next

/-- Removes a component and all that it holds. -/
def removeComponent (tree : Tree) (id : NodeId) : Except EditError Tree := do
  let node ← tree.require id
  if id = rootId then throw .rootRemoved
  match node.parent with
  | none => return tree.eraseSubtree id
  | some parent =>
    if node.kind = .column ∧ (tree.childrenOf parent).length ≤ minColumns then
      throw .tooFewColumns
    return (tree.detach id parent node.kind).eraseSubtree id

/-- Gives a row with some columns another number of them: empty ones are added at the end, or the
last ones removed with all that they hold. -/
def resize (tree : Tree) (row : NodeId) (columns : List NodeId) (count : Nat) : Option Tree :=
  if columns.length < count then tree.appendColumns row (count - columns.length)
  else some ((columns.drop count).foldl eraseSubtree (tree.modifyChildren row (·.take count)))

/-- Gives a row a number of columns, pulled into range. -/
def setColumnsCount (tree : Tree) (row : NodeId) (count : Nat) : Except EditFailure Tree := do
  let node ← tree.require row
  if node.kind ≠ .columns then throw (.refused (.wrongKind row node.kind .columns))
  let target := clampColumns count
  return (← tree.resize row node.childList target).writeColumnCount row target

/-- The properties of a node with a patch laid over them, pulled into range. -/
def patched (properties : Properties) (patch : List (String × Json)) :
    Except EditError Properties :=
  match Properties.decode properties.kind (properties.encode.merge (.object patch)) with
  | .ok next => .ok next.clamp
  | .error mismatch => .error (.invalidPatch properties.kind mismatch)

/-- Lays a patch over the properties of a node. A row that is to have another number of columns is
resized. -/
def updateComponent (tree : Tree) (id : NodeId) (patch : List (String × Json)) :
    Except EditFailure Tree := do
  let node ← tree.require id
  let count := node.childList.length
  match ← patched node.properties patch with
  | .columns row =>
    let kept := Properties.columns { row with columns := .ofNat count }
    let next := tree.modify id fun node => { node with properties := kept }
    if row.columns.toNat = count then return next
    else next.setColumnsCount id row.columns.toNat
  | properties => return tree.modify id fun node => { node with properties := properties }

/-- Moves a child of a parent from one index to another. -/
def reorderComponents (tree : Tree) (parent : NodeId) (source target : Nat) :
    Except EditError Tree := do
  let length := (← tree.require parent).childList.length
  if length ≤ source then throw (.indexOutOfRange source length)
  if length ≤ target then throw (.indexOutOfRange target length)
  return tree.modifyChildren parent (moveEntry · source target)

/-- Moves a component to another parent, at an index or at the end. -/
def moveComponent (tree : Tree) (id target : NodeId) (index : Option Nat) :
    Except EditError Tree := do
  let node ← tree.require id
  if id = rootId then throw .rootMoved
  if node.kind = .column then throw .columnManaged
  let holder ← tree.require target
  if !holder.kind.accepts node.kind then throw (.illegalChild holder.kind node.kind)
  if target = id ∨ tree.isAncestor id target then throw (.cycle id target)
  let detached := match node.parent with
    | some parent => tree.modifyChildren parent (without id)
    | none => tree
  let next ← detached.requireChildren target fun list =>
    insertAt list (index.getD list.length) id
  return next.modify id fun node => { node with parent := some target }

end MailTemplate.Tree
