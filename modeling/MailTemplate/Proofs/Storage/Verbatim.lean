import MailTemplate.Proofs.Storage.Audit
import MailTemplate.Proofs.Storage.RoundTrip
import MailTemplate.Proofs.Tree.Mapped

/-!
# Auditing a Stored Tree

The records of a tree spell out the tree itself, but for a line height that was not finite and could
not be written. No check looks at that, so the audit of the records finds what the checks find in
the tree, in the same order, however broken the tree is.

* `Node.respelled` is a node as its record spells it out.
* `Records.audit_ofTree` is the conclusion.
-/

namespace MailTemplate

/-- The node that the record of a node spells out. -/
def Node.respelled (node : Node) : Node :=
  { node with properties := .ofStored node.kind node.properties.encode }

/-- What a record spells out differs from the node in the record of a text at most. -/
theorem Node.unseen_respelled : Unseen Node.respelled where
  parent _ := rfl
  children _ := rfl
  kind node := Properties.kind_ofStored node.kind node.properties.encode
  properties node hkind := by
    refine Properties.ofStored_encode ?_
    unfold Node.kind at hkind
    cases hp : node.properties with
    | text => simp [hp, Properties.kind] at hkind
    | _ => trivial

namespace Records

theorem nodeOf?_ofNode (id : NodeId) (node : Node) :
    nodeOf? (Record.ofNode id node) = some node.respelled := by
  refine nodeOf?_eq_some_iff.2 ⟨?_, rfl, ?_, rfl⟩
  · rw [Node.unseen_respelled.kind]
    rfl
  · rw [Node.unseen_respelled.kind]
    rfl

/-- The records of a tree spell out its nodes. -/
theorem mappedTo_verbatim_ofTree (tree : Tree) :
    tree.MappedTo Node.respelled (ofTree tree).verbatim := by
  refine Std.ExtTreeMap.ext_getElem? fun id => ?_
  rw [getElem?_verbatim, Tree.getElem?_ofTree, Std.ExtTreeMap.getElem?_map]
  cases tree.nodes[id]? with
  | none => rfl
  | some node => exact nodeOf?_ofNode id node

/-- All kinds of nodes have names that are known. -/
theorem unknownKinds_ofTree (tree : Tree) : (ofTree tree).unknownKinds = [] := by
  refine unknownKinds_eq_nil_iff.2 fun id record hget => ?_
  rw [Tree.getElem?_ofTree] at hget
  obtain ⟨node, -, rfl⟩ := Option.map_eq_some_iff.1 hget
  exact ⟨node.kind, Kind.ofName?_eq_some_iff.2 rfl⟩

/-- The audit of a stored tree is the list of its violations, whether it is sound or not and
whatever its nodes record. -/
theorem audit_ofTree (tree : Tree) : (ofTree tree).audit = tree.violations := by
  rw [audit, unknownKinds_ofTree, List.nil_append]
  exact Node.unseen_respelled.violations_eq (mappedTo_verbatim_ofTree tree)

end Records

end MailTemplate
