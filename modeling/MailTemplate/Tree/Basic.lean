import MailTemplate.Component.Properties
import Std.Data.ExtTreeMap

/-!
# Component Trees

A tree of components as nodes by id: a node names its parent and lists its children by id, so a
subtree moves by rewriting ids. A `Tree` need not be sound; what makes it sound is the subject of
the module on violations.

* `Tree.agrees` compares the nodes of two trees; the counter for new ids does not count.
* `Tree.mint` makes an id that is not in use, or finds none if there is no number left for it.
-/

namespace MailTemplate

/-- The id of a node. -/
abbrev NodeId : Type := String

/-- The id of the node that the whole tree hangs from. -/
def rootId : NodeId := "root"

/-- A placed component. -/
structure Node where
  /-- The node that holds it, which only the root lacks. -/
  parent : Option NodeId
  /-- What the component records. -/
  properties : Properties
  /-- The nodes that it holds, in order; only containers have such a list. -/
  children : Option (List NodeId)
deriving DecidableEq

namespace Node

/-- A component of a kind without children yet. -/
def fresh (parent : Option NodeId) (properties : Properties) : Node where
  parent := parent
  properties := properties
  children := if properties.kind.isContainer then some [] else none

/-- The kind of the component. -/
def kind (node : Node) : Kind :=
  node.properties.kind

/-- The children in order, none for a leaf. -/
def childList (node : Node) : List NodeId :=
  node.children.getD []

/-- Whether two nodes are the same, line heights being compared as numbers. -/
def agrees (a b : Node) : Bool :=
  a.parent == b.parent && a.properties.agrees b.properties && a.children == b.children

end Node

/-- Nodes by id, in the order of ids. -/
abbrev Nodes : Type :=
  Std.ExtTreeMap NodeId Node

/-- A tree of components, with the number that the next new id takes. -/
structure Tree where
  /-- The nodes by id. -/
  nodes : Nodes
  /-- The number of the next id. -/
  nextNumber : Nat

/-- The largest number of an id. -/
def maxNumber : Nat := 18446744073709551615

/-- The number after a number, but not past the largest. -/
def numberAfter (n : Nat) : Nat :=
  if n < maxNumber then n + 1 else n

/-- The characters after the last hyphen, if there is a hyphen. -/
def afterLastHyphen : List Char → Option (List Char)
  | [] => none
  | c :: cs =>
    match afterLastHyphen cs with
    | some tail => some tail
    | none => if c = '-' then some cs else none

/-- The number that some characters write: digits, after a plus if there is one, up to the largest
number. -/
def numberOf? (cs : List Char) : Option Nat :=
  let digits := match cs with
    | '+' :: rest => rest
    | _ => cs
  if digits.isEmpty || !digits.all Char.isDigit then none
  else
    let n := digits.foldl (fun n c => n * 10 + (c.toNat - '0'.toNat)) 0
    if n ≤ maxNumber then some n else none

/-- The number at the end of an id, after its last hyphen. -/
def NodeId.number? (id : NodeId) : Option Nat :=
  (afterLastHyphen id.toList).bind numberOf?

/-- The id with a number for a component of a kind. -/
def Kind.numbered (kind : Kind) (n : Nat) : NodeId :=
  kind.name ++ "-" ++ String.ofList (Binary.digitChars n)

namespace Tree

/-- The number after the largest at the end of an id, or one. -/
def firstNumber (ids : List NodeId) : Nat :=
  match (ids.filterMap NodeId.number?).max? with
  | some n => numberAfter n
  | none => 1

/-- The tree of some nodes, ready to make new ids. -/
def ofNodes (nodes : Nodes) : Tree :=
  ⟨nodes, firstNumber nodes.keys⟩

/-- The tree of the root alone. -/
def empty : Tree :=
  ofNodes ((∅ : Nodes).insert rootId (.fresh none Kind.root.defaults))

/-- The node of an id. -/
def get? (tree : Tree) (id : NodeId) : Option Node :=
  tree.nodes[id]?

/-- Whether there is a node of an id. -/
def contains (tree : Tree) (id : NodeId) : Bool :=
  tree.nodes.contains id

/-- The number of nodes. -/
def size (tree : Tree) : Nat :=
  tree.nodes.size

/-- The record of the root, if the root is of the kind for it. -/
def page? (tree : Tree) : Option Page :=
  match (tree.get? rootId).map Node.properties with
  | some (.root page) => some page
  | _ => none

/-- The children of an id, none if there is no such node. -/
def childrenOf (tree : Tree) (id : NodeId) : List NodeId :=
  match tree.get? id with
  | some node => node.childList
  | none => []

/-- The tree with a node put at an id. -/
def insert (tree : Tree) (id : NodeId) (node : Node) : Tree :=
  { tree with nodes := tree.nodes.insert id node }

/-- The tree without the node of an id. -/
def erase (tree : Tree) (id : NodeId) : Tree :=
  { tree with nodes := tree.nodes.erase id }

/-- The tree with the node of an id changed, if there is one. -/
def modify (tree : Tree) (id : NodeId) (change : Node → Node) : Tree :=
  { tree with nodes := tree.nodes.modify id change }

/-- The tree with the children of a container changed. -/
def modifyChildren (tree : Tree) (id : NodeId) (change : List NodeId → List NodeId) : Tree :=
  tree.modify id fun node => { node with children := node.children.map change }

/-- Whether two trees have the same nodes, line heights being compared as numbers. -/
def agrees (a b : Tree) : Bool :=
  a.nodes.keys == b.nodes.keys &&
    (a.nodes.values.zip b.nodes.values).all fun (m, n) => m.agrees n

/-- The first number from `n` on whose id is free, if some tries come to one. -/
def freeNumber? (tree : Tree) (kind : Kind) : (tries : Nat) → (n : Nat) → Option Nat
  | 0, _ => none
  | tries + 1, n =>
    if tree.contains (kind.numbered n) then tree.freeNumber? kind tries (numberAfter n) else some n

/-- Makes an id that is not in use, and moves the counter past it. More tries than there are nodes
find nothing only if the counter has stopped at the largest number, whose id is taken; a search
without end would stay there for ever. -/
def mint (tree : Tree) (kind : Kind) : Option (NodeId × Tree) := do
  let n ← tree.freeNumber? kind (tree.size + 1) tree.nextNumber
  return (kind.numbered n, { tree with nextNumber := numberAfter n })

end Tree

end MailTemplate
