import MailTemplate.Proofs.Tree.Editing

/-!
# What the Later Steps of an Edit Need

Before it changes anything, an edit finds that a node takes a child. When the child is put on the
list of the node some steps later, the list has to be still there. `Tree.Lists` says that it is, and
no step takes it away.
-/

namespace MailTemplate.Tree

/-- The node of an id has a list of children. -/
def Lists (tree : Tree) (id : NodeId) : Prop :=
  ∃ node, tree.nodes[id]? = some node ∧ node.children.isSome = true

variable {tree next : Tree} {id other : NodeId} {node : Node}

theorem requireChildren_of_lists (h : tree.Lists id) (change : List NodeId → List NodeId) :
    tree.requireChildren id change = .ok (tree.modifyChildren id change) :=
  requireChildren_eq_ok_iff.2 ⟨h, rfl⟩

theorem Sound.lists (h : tree.Sound) (hget : tree.nodes[id]? = some node) {kind : Kind}
    (haccepts : node.kind.accepts kind = true) : tree.Lists id :=
  ⟨node, hget, h.forest.isSome_children hget (Kind.isContainer_of_accepts haccepts)⟩

namespace Lists

theorem modify (h : tree.Lists id) {change : Node → Node}
    (hchange : ∀ node, (change node).children.isSome = node.children.isSome) :
    (tree.modify other change).Lists id := by
  obtain ⟨node, hget, hlist⟩ := h
  rw [Lists, nodes_modify, getElem?_modify_eq, hget]
  split
  · exact ⟨_, rfl, (hchange node).trans hlist⟩
  · exact ⟨node, rfl, hlist⟩

theorem modifyChildren (h : tree.Lists id) (change : List NodeId → List NodeId) :
    (tree.modifyChildren other change).Lists id :=
  h.modify fun _ => Option.isSome_map

theorem unlist (h : tree.Lists id) (parent : Option NodeId) :
    (tree.unlist other parent).Lists id := by
  cases parent with
  | none => exact h
  | some parent => exact h.modifyChildren _

/-- The parent of a new node still has its list of children, for the ids that are made are free. -/
theorem plant (h : tree.Lists id) {kind : Kind} {made : NodeId}
    (hok : tree.plant kind other = some (next, made)) : next.Lists id := by
  obtain ⟨node, hget, hlist⟩ := h
  exact ⟨node, (planted hok).elsewhere hget, hlist⟩

end Lists

end MailTemplate.Tree
