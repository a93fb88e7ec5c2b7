import MailTemplate.Proofs.Tree.Changes

/-!
# What Every Change Keeps

No change of a tree sets the counter for new ids back, and none puts a record out of range. And the
nodes of the new tree are old nodes, with their kinds, or they are at ids that were made.
-/

namespace MailTemplate

/-- The records of all nodes are in range. -/
def AllInRange (nodes : Nodes) : Prop :=
  ∀ {id : NodeId} {node : Node}, nodes[id]? = some node → node.properties.InRange

theorem AllInRange.eraseAll {nodes : Nodes} (h : AllInRange nodes) (stack : List NodeId) :
    AllInRange (Tree.eraseAll nodes stack) :=
  fun hget => h (Forest.eraseAll_subset stack hget)

namespace Tree

/-- The counter is not set back, and records in range stay in range. -/
structure Keeps (tree next : Tree) : Prop where
  counter : tree.nextNumber ≤ next.nextNumber
  inRange : AllInRange tree.nodes → AllInRange next.nodes

variable {tree next : Tree} {made : List Making} {id : NodeId} {node : Node}

theorem Keeps.refl (tree : Tree) : Keeps tree tree :=
  ⟨Nat.le_refl _, fun h => h⟩

theorem Keeps.trans {last : Tree} (h : Keeps tree next) (h' : Keeps next last) : Keeps tree last :=
  ⟨h.counter.trans h'.counter, fun hrange => h'.inRange (h.inRange hrange)⟩

namespace Changes

theorem keeps (h : Changes tree made next) : Keeps tree next := by
  induction h with
  | refl => exact .refl tree
  | @make made next minted kind newId parent hmint h ih =>
    have hcounter : next.nextNumber ≤ minted.nextNumber := nextNumber_le_of_mint hmint
    refine ⟨ih.counter.trans hcounter, fun hrange id node hget => ?_⟩
    rw [nodes_insert, nodes_of_mint hmint, getElem?_insert_eq] at hget
    split at hget
    · cases hget
      exact Properties.inRange_defaults kind
    · exact ih.inRange hrange hget
  | @modify made next id change hchange h ih =>
    refine ⟨ih.counter, fun hrange other node hget => ?_⟩
    rw [nodes_modify, getElem?_modify_eq] at hget
    split at hget
    case isTrue heq =>
      obtain ⟨old, hold, rfl⟩ := Option.map_eq_some_iff.1 hget
      exact (hchange old (heq ▸ hold)).2 (ih.inRange hrange hold)
    case isFalse => exact ih.inRange hrange hget
  | @erase next id h ih =>
    exact ⟨ih.counter, fun hrange => AllInRange.eraseAll (ih.inRange hrange) [id]⟩

/-- A node of the new tree is an old one, with its kind, or its id was made for it. -/
theorem old_or_made (h : Changes tree made next) (hget : next.nodes[id]? = some node) :
    (∃ old, tree.nodes[id]? = some old ∧ node.kind = old.kind) ∨
      ∃ m ∈ made, m.id? = some id ∧ m.kind = node.kind := by
  induction h generalizing id node with
  | refl => exact .inl ⟨node, hget, rfl⟩
  | @make made next minted kind newId parent hmint h ih =>
    rw [nodes_insert, nodes_of_mint hmint, getElem?_insert_eq] at hget
    split at hget
    case isTrue heq =>
      cases hget
      exact .inr ⟨⟨next, kind⟩, by simp, heq ▸ Making.id?_of_mint hmint,
        kind.kind_defaults.symm⟩
    case isFalse =>
      obtain hold | ⟨m, hmem, hid⟩ := ih hget
      · exact .inl hold
      · exact .inr ⟨m, List.mem_append_left _ hmem, hid⟩
  | @modify made next id' change hchange h ih =>
    rw [nodes_modify, getElem?_modify_eq] at hget
    split at hget
    case isTrue heq =>
      -- The node has been changed, but not its kind.
      obtain ⟨old, hold, rfl⟩ := Option.map_eq_some_iff.1 hget
      rw [(hchange old (heq ▸ hold)).1]
      exact ih hold
    case isFalse => exact ih hget
  | @erase next id' h ih => exact ih (Forest.eraseAll_subset [id'] hget)

/-- Of all ids that were made, none was without end. -/
theorem not_stuck (h : Changes tree made next) : ∀ m ∈ made, ¬ m.Stuck := by
  induction h with
  | refl => exact fun m hmem => absurd hmem List.not_mem_nil
  | @make made next minted kind newId parent hmint h ih =>
    exact List.forall_mem_append.2 ⟨ih, List.forall_mem_singleton.2 (Making.not_stuck_of_mint hmint)⟩
  | modify _ _ _ ih => exact ih
  | erase _ _ ih => exact ih

/-- What is made is there. -/
theorem contains_made (h : Changes tree made next) {m : Making} (hmem : m ∈ made)
    (hid : m.id? = some id) : next.contains id = true := by
  rw [contains_eq_isSome]
  induction h with
  | refl => cases hmem
  | @make made next minted kind newId parent hmint h ih =>
    rw [nodes_insert, nodes_of_mint hmint, getElem?_insert_eq]
    split
    case isTrue => rfl
    case isFalse hne =>
      rcases List.mem_append.1 hmem with hmem | hmem
      · exact ih hmem
      · rw [List.mem_singleton.1 hmem, Making.id?_of_mint hmint] at hid
        exact absurd (Option.some.inj hid).symm hne
  | @modify made next changed change hchange h ih =>
    rw [nodes_modify, getElem?_modify_eq]
    split
    · rw [Option.isSome_map]
      exact ih hmem
    · exact ih hmem
  | erase => cases hmem

end Changes

end Tree

end MailTemplate
