import MailTemplate.Component.Limits
import MailTemplate.Text.Quoted
import MailTemplate.Tree.Traversal

/-!
# Violations

What can be wrong with a tree of components, and `Tree.violations`, the list of all that is. A tree
is sound if the list is empty.
-/

namespace MailTemplate

/-- A way in which a tree is not sound. -/
inductive Violation where
  /-- There is no root. -/
  | missingRoot
  /-- The root is not of the kind for it. -/
  | rootKind (kind : Kind)
  /-- The root names a parent. -/
  | rootHasParent (parent : NodeId)
  /-- A listed child does not exist. -/
  | danglingChild (parent child : NodeId)
  /-- A listed child names another parent, or none. -/
  | parentMismatch (child listedBy : NodeId) (parent : Option NodeId)
  /-- A named parent does not exist. -/
  | missingParent (id parent : NodeId)
  /-- The named parent does not list the node exactly once. -/
  | notListedOnce (id parent : NodeId)
  /-- A node other than the root names no parent. -/
  | orphan (id : NodeId)
  /-- A node of a kind that holds nothing has a list of children. -/
  | leafWithChildren (id : NodeId) (kind : Kind)
  /-- A container has no list of children. -/
  | containerWithoutChildren (id : NodeId)
  /-- A child is of a kind that its parent does not hold. -/
  | illegalChild (parent : NodeId) (parentKind : Kind) (child : NodeId) (childKind : Kind)
  /-- A row has too few or too many columns. -/
  | columnCount (id : NodeId) (count : Nat)
  /-- A row records another number of columns than it has. -/
  | columnsMismatch (id : NodeId) (recorded : UInt32) (actual : Nat)
  /-- The content width is out of range. -/
  | widthOutOfRange (width : UInt32)
  /-- A node is on its own chain of parents. -/
  | cycle (id : NodeId)
  /-- A stored record is of an unknown kind. -/
  | unknownKind (id : NodeId) (kind : String)
deriving DecidableEq

/-- The decimal digits of a number. -/
def natText (n : Nat) : String :=
  String.ofList (Binary.digitChars n)

namespace Violation

open Json (backquoted)

/-- A parent as messages print it. -/
def parentText : Option NodeId → String
  | none => "None"
  | some id => "Some(NodeId(" ++ Text.quoted id ++ "))"

/-- The words for a violation. -/
def message : Violation → String
  | .missingRoot => "tree has no root node"
  | .rootKind kind => "node `root` is a " ++ kind.name ++ " node"
  | .rootHasParent parent => "root node has parent " ++ backquoted parent
  | .danglingChild parent child =>
    backquoted parent ++ " lists missing child " ++ backquoted child
  | .parentMismatch child listedBy parent =>
    backquoted child ++ " is listed by " ++ backquoted listedBy ++ " but names " ++
      parentText parent ++ " as parent"
  | .missingParent id parent => backquoted id ++ " names missing parent " ++ backquoted parent
  | .notListedOnce id parent =>
    backquoted id ++ " is not listed exactly once by its parent " ++ backquoted parent
  | .orphan id => backquoted id ++ " has no parent"
  | .leafWithChildren id kind => kind.name ++ " node " ++ backquoted id ++ " has a children list"
  | .containerWithoutChildren id => "container " ++ backquoted id ++ " has no children list"
  | .illegalChild parent parentKind child childKind =>
    parentKind.name ++ " node " ++ backquoted parent ++ " holds " ++ childKind.name ++ " node " ++
      backquoted child
  | .columnCount id count =>
    "columns node " ++ backquoted id ++ " owns " ++ natText count ++ " columns"
  | .columnsMismatch id recorded actual =>
    "columns node " ++ backquoted id ++ " records " ++ natText recorded.toNat ++
      " columns but owns " ++ natText actual
  | .widthOutOfRange width =>
    "root max width " ++ natText width.toNat ++ " is outside [320, 1200]"
  | .cycle id => backquoted id ++ " is its own ancestor"
  | .unknownKind id kind => "record " ++ backquoted id ++ " has unknown type " ++ backquoted kind

/-- The stable code of a violation. -/
def code : Violation → String
  | .missingRoot => "weaver_mail::invariant::missing_root"
  | .rootKind .. => "weaver_mail::invariant::root_kind"
  | .rootHasParent .. => "weaver_mail::invariant::root_parent"
  | .danglingChild .. => "weaver_mail::invariant::dangling_child"
  | .parentMismatch .. => "weaver_mail::invariant::parent_mismatch"
  | .missingParent .. => "weaver_mail::invariant::missing_parent"
  | .notListedOnce .. => "weaver_mail::invariant::not_listed"
  | .orphan .. => "weaver_mail::invariant::orphan"
  | .leafWithChildren .. => "weaver_mail::invariant::leaf_children"
  | .containerWithoutChildren .. => "weaver_mail::invariant::container_children"
  | .illegalChild .. => "weaver_mail::invariant::illegal_child"
  | .columnCount .. => "weaver_mail::invariant::column_count"
  | .columnsMismatch .. => "weaver_mail::invariant::column_property"
  | .widthOutOfRange .. => "weaver_mail::invariant::max_width"
  | .cycle .. => "weaver_mail::invariant::cycle"
  | .unknownKind .. => "weaver_mail::invariant::unknown_kind"

end Violation

namespace Tree

/-- What is wrong with the root itself. -/
def rootViolations (root : Node) : List Violation :=
  (if root.kind ≠ .root then [.rootKind root.kind] else []) ++
  (match root.parent with
    | some parent => [.rootHasParent parent]
    | none => []) ++
  (match root.properties with
    | .root page =>
      if clampWidth page.maxWidth ≠ page.maxWidth then [.widthOutOfRange page.maxWidth] else []
    | _ => [])

/-- Whether a node has a list of children just if its kind holds any. -/
def listViolations (id : NodeId) (node : Node) : List Violation :=
  match node.children, node.kind.isContainer with
  | some _, false => [.leafWithChildren id node.kind]
  | none, true => [.containerWithoutChildren id]
  | _, _ => []

/-- What is wrong with one listed child. -/
def childViolations (tree : Tree) (id : NodeId) (node : Node) (childId : NodeId) :
    List Violation :=
  match tree.get? childId with
  | none => [.danglingChild id childId]
  | some child =>
    (if child.parent ≠ some id then [.parentMismatch childId id child.parent] else []) ++
    (if node.kind.accepts child.kind then []
      else [.illegalChild id node.kind childId child.kind])

/-- What is wrong with the number of columns of a row. -/
def columnViolations (id : NodeId) (node : Node) : List Violation :=
  match node.properties with
  | .columns row =>
    let count := node.childList.length
    (if minColumns ≤ count ∧ count ≤ maxColumns then [] else [.columnCount id count]) ++
    (if row.columns.toNat = count then [] else [.columnsMismatch id row.columns count])
  | _ => []

/-- What is wrong with how a node other than the root hangs in the tree. -/
def placeViolations (tree : Tree) (id : NodeId) (node : Node) : List Violation :=
  (match node.parent with
    | none => [.orphan id]
    | some parentId =>
      match tree.get? parentId with
      | none => [.missingParent id parentId]
      | some parent =>
        if parent.childList.count id = 1 then [] else [.notListedOnce id parentId]) ++
  (if tree.isAncestor id id then [.cycle id] else [])

/-- What is wrong with a node. -/
def nodeViolations (tree : Tree) (id : NodeId) (node : Node) : List Violation :=
  listViolations id node ++
  node.childList.flatMap (tree.childViolations id node) ++
  columnViolations id node ++
  (if id = rootId then [] else tree.placeViolations id node)

/-- All that is wrong with a tree: with the root first, then with each node in the order of ids. -/
def violations (tree : Tree) : List Violation :=
  match tree.get? rootId with
  | none => [.missingRoot]
  | some root =>
    rootViolations root ++
      tree.nodes.toList.flatMap fun (id, node) => tree.nodeViolations id node

end Tree

end MailTemplate
