import MailTemplate.Proofs.Tree.Lookup
import MailTemplate.Tree.Violation
import Mathlib.Data.List.Basic

/-!
# Changing All Nodes at Once

What the checks of a tree see of its nodes: the parents, the lists of children, the kinds, and the
records of the template and of the rows. If all nodes are changed in a way that leaves these as they
are, the list of violations is as it was, whether the tree is sound or not.

* `Tree.MappedTo.isAncestor_eq` says that chains of parents depend on the parents alone.
* `Unseen` says that a change is not seen by the checks.
* `Unseen.violations_eq` is the conclusion.
-/

namespace MailTemplate

/-- No check of a tree sees a change of its nodes. -/
structure Unseen (change : Node → Node) : Prop where
  parent : ∀ node, (change node).parent = node.parent
  children : ∀ node, (change node).children = node.children
  kind : ∀ node, (change node).kind = node.kind
  /-- The template and the rows record what they did. -/
  properties : ∀ node, node.kind = .root ∨ node.kind = .columns →
    (change node).properties = node.properties

/-- The second tree has the nodes of the first one, each of them changed. -/
def Tree.MappedTo (change : Node → Node) (tree mapped : Tree) : Prop :=
  mapped.nodes = tree.nodes.map fun _ node => change node

namespace Tree.MappedTo

variable {change : Node → Node} {tree mapped : Tree} (h : MappedTo change tree mapped)
include h

/-! ## Looking up -/

theorem get?_eq (id : NodeId) : mapped.get? id = (tree.get? id).map change := by
  rw [get?, get?, h]
  exact Std.ExtTreeMap.getElem?_map

theorem size_eq : mapped.size = tree.size := by
  rw [size, size, h]
  exact Std.ExtTreeMap.size_map

theorem toList_eq :
    mapped.nodes.toList = tree.nodes.toList.map fun entry => (entry.1, change entry.2) := by
  rw [h]
  exact Std.ExtTreeMap.toList_map

variable (hparent : ∀ node, (change node).parent = node.parent)
include hparent

theorem parentOf_eq (id : NodeId) : mapped.parentOf id = tree.parentOf id := by
  rw [parentOf, parentOf, h.get?_eq]
  cases tree.get? id with
  | none => rfl
  | some node => exact hparent node

theorem inChain_eq (ancestor : NodeId) (steps : Nat) (start : Option NodeId) :
    mapped.inChain ancestor steps start = tree.inChain ancestor steps start := by
  induction steps generalizing start with
  | zero => rfl
  | succ steps ih =>
    cases start with
    | none => rfl
    | some id => rw [inChain, inChain, h.parentOf_eq hparent, ih]

/-- As long as the parents stay, so do the chains of parents. -/
theorem isAncestor_eq (ancestor id : NodeId) :
    mapped.isAncestor ancestor id = tree.isAncestor ancestor id := by
  rw [isAncestor, isAncestor, h.size_eq, h.parentOf_eq hparent, h.inChain_eq hparent]

end Tree.MappedTo

/-! ## The checks -/

namespace Unseen

variable {change : Node → Node} (h : Unseen change)
include h

theorem childList_eq (node : Node) : (change node).childList = node.childList := by
  rw [Node.childList, Node.childList, h.children]

theorem rootViolations_eq (root : Node) :
    Tree.rootViolations (change root) = Tree.rootViolations root := by
  unfold Tree.rootViolations
  rw [h.kind, h.parent]
  congr 1
  -- Only the record of a template has a width.
  by_cases hkind : root.kind = .root
  · rw [h.properties root (.inl hkind)]
  · have hchanged : (change root).kind ≠ .root := h.kind root ▸ hkind
    unfold Node.kind at hkind hchanged
    cases hp : root.properties <;> cases hp' : (change root).properties <;>
      simp_all [Properties.kind]

theorem listViolations_eq (id : NodeId) (node : Node) :
    Tree.listViolations id (change node) = Tree.listViolations id node := by
  rw [Tree.listViolations, Tree.listViolations, h.children, h.kind]

theorem columnViolations_eq (id : NodeId) (node : Node) :
    Tree.columnViolations id (change node) = Tree.columnViolations id node := by
  unfold Tree.columnViolations
  rw [h.childList_eq]
  -- Only the record of a row has a number of columns.
  by_cases hkind : node.kind = .columns
  · rw [h.properties node (.inr hkind)]
  · have hchanged : (change node).kind ≠ .columns := h.kind node ▸ hkind
    unfold Node.kind at hkind hchanged
    cases hp : node.properties <;> cases hp' : (change node).properties <;>
      simp_all [Properties.kind]

variable {tree mapped : Tree} (hmapped : tree.MappedTo change mapped)
include hmapped

theorem childViolations_eq (id : NodeId) (node : Node) (childId : NodeId) :
    mapped.childViolations id (change node) childId = tree.childViolations id node childId := by
  unfold Tree.childViolations
  rw [hmapped.get?_eq]
  cases tree.get? childId with
  | none => rfl
  | some child => simp only [Option.map_some, h.parent, h.kind]

theorem placeViolations_eq (id : NodeId) (node : Node) :
    mapped.placeViolations id (change node) = tree.placeViolations id node := by
  unfold Tree.placeViolations
  rw [h.parent, hmapped.isAncestor_eq h.parent]
  cases node.parent with
  | none => rfl
  | some parentId =>
    dsimp only
    rw [hmapped.get?_eq]
    cases tree.get? parentId with
    | none => rfl
    | some parent => simp only [Option.map_some, h.childList_eq]

theorem nodeViolations_eq (id : NodeId) (node : Node) :
    mapped.nodeViolations id (change node) = tree.nodeViolations id node := by
  unfold Tree.nodeViolations
  rw [h.listViolations_eq, h.childList_eq, h.columnViolations_eq, h.placeViolations_eq hmapped]
  congr 3
  exact List.flatMap_congr fun childId _ => h.childViolations_eq hmapped id node childId

/-- A change that no check sees leaves the list of violations as it is. -/
theorem violations_eq : mapped.violations = tree.violations := by
  unfold Tree.violations
  rw [hmapped.get?_eq]
  cases tree.get? rootId with
  | none => rfl
  | some root =>
    rw [Option.map_some]
    dsimp only
    rw [h.rootViolations_eq, hmapped.toList_eq, List.flatMap_map]
    congr 1
    exact List.flatMap_congr fun entry _ => h.nodeViolations_eq hmapped entry.1 entry.2

end Unseen

end MailTemplate
