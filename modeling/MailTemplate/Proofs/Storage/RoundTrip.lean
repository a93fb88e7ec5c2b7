import MailTemplate.Proofs.Command.Soundness
import MailTemplate.Proofs.Storage.Intact
import MailTemplate.Proofs.Tree.Agreement
import MailTemplate.Proofs.Tree.Numbers

/-!
# Stored Trees Come Back

A tree that came of loading and editing comes back as it was when it is stored and loaded. Such a
tree is sound and its records are in range, so each record reads as it was written, and the records
spell out the tree.

* `Tree.Reachable` are the trees that come of loading and editing.
-/

namespace MailTemplate

/-- The record of a node in range spells out the node. -/
theorem Record.loaded?_ofNode {id : NodeId} {node : Node} (h : node.properties.InRange) :
    (Record.ofNode id node).loaded? = some node := by
  have hspelled : Records.nodeOf? (ofNode id node) = some node :=
    Records.nodeOf?_eq_some_iff.2 ⟨rfl, rfl, Properties.ofStored_encode h.finite, rfl⟩
  rw [loaded?, hspelled, Option.map_some, Node.clamp, h]

namespace Tree

variable {tree : Tree}

theorem getElem?_ofTree (tree : Tree) (id : NodeId) :
    (Records.ofTree tree)[id]? = (tree.nodes[id]?).map (Record.ofNode id) :=
  Std.ExtTreeMap.getElem?_map

/-- A sound tree with records in range comes back. -/
theorem exists_ofRecords_ofTree (h : tree.Sound) (hrange : AllInRange tree.nodes) :
    ∃ again, ofRecords (Records.ofTree tree) = some again ∧ again.nodes = tree.nodes := by
  refine exists_ofRecords_of_sound (fun id => ?_) h
  rw [getElem?_ofTree]
  cases hget : tree.nodes[id]? with
  | none => rfl
  | some node => exact Record.loaded?_ofNode (hrange hget)

end Tree

/-! ## Trees that come of loading and editing -/

namespace Tree

/-- The trees that come of loading stored records, or of the tree of the root alone, and of running
commands, whether they apply or not. -/
inductive Reachable : Tree → Prop
  | fresh : Reachable .empty
  | loaded {records : Records} {tree : Tree} (hok : ofRecords records = some tree) : Reachable tree
  | edited {tree next : Tree} {command : Command} {outcome : Outcome} (h : Reachable tree)
      (hok : command.execute tree = some (next, outcome)) : Reachable next

variable {tree : Tree} {records : Records}

theorem allInRange_empty : AllInRange Tree.empty.nodes := by
  intro id node hget
  have hget' : ((∅ : Nodes).insert rootId (.fresh none Kind.root.defaults))[id]? = some node := hget
  rw [getElem?_insert_eq] at hget'
  split at hget'
  · cases hget'
    exact Properties.inRange_defaults .root
  · exact absurd hget' getElem?_empty_ne_some

/-- A loaded tree is the empty one, or comes of filling up the rows of what is kept. -/
theorem eq_empty_or_changes_of_ofRecords (hok : ofRecords records = some tree) :
    tree = .empty ∨
      ∃ record, records[rootId]? = some record ∧
        Changes (ofNodes records.kept) records.makings tree := by
  cases hroot : records[rootId]? with
  | none =>
    rw [ofRecords_of_none hroot] at hok
    exact .inl (Option.some.inj hok).symm
  | some record =>
    rw [ofRecords_of_some hroot] at hok
    exact .inr ⟨record, rfl, Changes.refl.foldlM_fillRow hok⟩

theorem allInRange_ofRecords (hok : ofRecords records = some tree) : AllInRange tree.nodes := by
  obtain rfl | ⟨record, hroot, hchanges⟩ := eq_empty_or_changes_of_ofRecords hok
  · exact allInRange_empty
  · exact hchanges.keeps.inRange (sound_kept hroot).2.1

/-- The counter of a loaded tree is ahead of its ids. -/
theorem ahead_ofRecords (hok : ofRecords records = some tree) : tree.Ahead := by
  obtain rfl | ⟨record, -, hchanges⟩ := eq_empty_or_changes_of_ofRecords hok
  · exact ahead_ofNodes _
  · exact hchanges.ahead (ahead_ofNodes _)

/-- In range, all line heights are numbers. -/
theorem numeric_of_allInRange (h : AllInRange tree.nodes) : tree.Numeric :=
  fun _ _ hget => (h hget).finite.numeric

theorem agrees_of_nodes_eq {a b : Tree} (h : a.nodes = b.nodes) (hrange : AllInRange b.nodes) :
    a.agrees b = true :=
  agrees_of_eq (numeric_of_allInRange (h ▸ hrange)) h

/-- Every tree that is reached is sound with its records in range. -/
theorem Reachable.sound (h : tree.Reachable) : tree.Sound ∧ AllInRange tree.nodes := by
  induction h with
  | fresh => exact ⟨sound_empty, allInRange_empty⟩
  | loaded hok => exact ⟨sound_ofRecords hok, allInRange_ofRecords hok⟩
  | edited _ hok ih =>
    obtain ⟨hsound, hrange⟩ := ih
    exact ⟨Command.sound_execute hsound hok, (Command.keeps_execute hok).inRange hrange⟩

/-- The counter of a tree that is reached is ahead of its ids. -/
theorem Reachable.ahead (h : tree.Reachable) : tree.Ahead := by
  induction h with
  | fresh => exact ahead_ofNodes _
  | loaded hok => exact ahead_ofRecords hok
  | edited _ hok ih => exact (Command.changes_execute hok).ahead ih

/-- A tree that was reached by loading and editing comes back when it is stored and loaded: the same
nodes at the same ids, and so a tree that agrees with it. -/
theorem ofRecords_ofTree (tree : Tree) (h : tree.Reachable) :
    ∃ again, ofRecords (Records.ofTree tree) = some again ∧ again.nodes = tree.nodes ∧
      again.agrees tree = true := by
  obtain ⟨hsound, hrange⟩ := h.sound
  obtain ⟨again, hok, hnodes⟩ := exists_ofRecords_ofTree hsound hrange
  exact ⟨again, hok, hnodes, agrees_of_nodes_eq hnodes hrange⟩

theorem ofRecords_ofTree_addRow :
    ∃ tree outcome,
      (Command.addComponent .columns rootId none).execute Tree.empty = some (tree, outcome) ∧
        tree.Reachable ∧ ∃ again, ofRecords (Records.ofTree tree) = some again ∧
          again.nodes = tree.nodes ∧ again.agrees tree = true := by
  obtain ⟨⟨tree, outcome⟩, hok⟩ :
      ∃ result, (Command.addComponent .columns rootId none).execute Tree.empty = some result :=
    Option.isSome_iff_exists.1 (by decide +kernel)
  have hreachable : tree.Reachable := .edited .fresh hok
  exact ⟨tree, outcome, hok, hreachable, ofRecords_ofTree tree hreachable⟩

end Tree

end MailTemplate
