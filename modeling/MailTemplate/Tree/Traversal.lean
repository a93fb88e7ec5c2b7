import MailTemplate.Tree.Basic

/-!
# Walking a Tree

Preorder of what hangs from the root, the descendants of a node, and the chain of its parents. All
three come to an end on any tree, also where children or parents run in a circle.
-/

namespace MailTemplate.Tree

/-- Taking out a node that is there leaves fewer nodes. -/
theorem size_erase_lt {nodes : Nodes} {id : NodeId} {node : Node} (h : nodes[id]? = some node) :
    (nodes.erase id).size < nodes.size := by
  have present : id ∈ nodes := by
    rw [Std.ExtTreeMap.mem_iff_isSome_getElem?, h]; rfl
  have positive : nodes.size ≠ 0 := fun hz =>
    Std.ExtTreeMap.ne_empty_of_mem present (Std.ExtTreeMap.eq_empty_iff_size_eq_zero.2 hz)
  rw [Std.ExtTreeMap.size_erase, if_pos (Std.ExtTreeMap.mem_iff_contains.1 present)]
  omega

/-- The ids met in preorder from a stack of ids, each node once. -/
def preorder (unseen : Nodes) : (stack : List NodeId) → List NodeId
  | [] => []
  | id :: stack =>
    match h : unseen[id]? with
    | none => preorder unseen stack
    | some node =>
      have := size_erase_lt h
      id :: preorder (unseen.erase id) (node.childList ++ stack)
termination_by stack => (unseen.size, stack.length)

/-- The ids of the nodes that hang from the root, in preorder. -/
def walk (tree : Tree) : List NodeId :=
  preorder tree.nodes [rootId]

/-- The ids met from a stack of ids, each with its children put on top in order, up to a number of
ids. -/
def unfold (tree : Tree) : (limit : Nat) → (stack : List NodeId) → List NodeId
  | 0, _ => []
  | _, [] => []
  | limit + 1, id :: stack => id :: tree.unfold limit ((tree.childrenOf id).reverse ++ stack)

/-- The ids of all that hangs from a node, later children first. -/
def descendants (tree : Tree) (id : NodeId) : List NodeId :=
  tree.unfold (tree.size + 1) (tree.childrenOf id).reverse

/-- The parent that a node names. -/
def parentOf (tree : Tree) (id : NodeId) : Option NodeId :=
  (tree.get? id).bind Node.parent

/-- Whether an id comes up within some steps up the parents from an id. -/
def inChain (tree : Tree) (ancestor : NodeId) : (steps : Nat) → Option NodeId → Bool
  | 0, _ => false
  | _, none => false
  | steps + 1, some id => id == ancestor || tree.inChain ancestor steps (tree.parentOf id)

/-- Whether the first id is on the chain of parents of the second. A chain longer than the tree
runs in a circle, so as many steps as there are nodes suffice. -/
def isAncestor (tree : Tree) (ancestor id : NodeId) : Bool :=
  tree.inChain ancestor tree.size (tree.parentOf id)

end MailTemplate.Tree
