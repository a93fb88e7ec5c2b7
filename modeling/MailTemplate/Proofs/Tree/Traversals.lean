import MailTemplate.Proofs.Tree.Removal

/-!
# What the Traversals Meet

Without violations the walk from the root meets every node once, and the descendants of a node are
met once each, whatever the bound on their number, so long as it has room for them.

* `Tree.unfold_eq_take` says that a smaller bound cuts off the end and does nothing else.
* `Tree.traversals_complete` puts together what the two traversals list.
-/

namespace MailTemplate.Tree

variable {tree : Tree} {id : NodeId}

/-- A smaller limit cuts off the end of what a larger one lists. -/
theorem unfold_eq_take (tree : Tree) {limit more : Nat} (h : limit ≤ more) (stack : List NodeId) :
    tree.unfold limit stack = (tree.unfold more stack).take limit := by
  induction limit generalizing more stack with
  | zero => rw [unfold, List.take_zero]
  | succ limit ih =>
    obtain ⟨more, rfl⟩ := Nat.exists_eq_add_one_of_ne_zero (Nat.ne_zero_of_lt h)
    cases stack with
    | nil => rfl
    | cons top stack => rw [unfold, unfold, List.take_succ_cons, ih (Nat.le_of_succ_le_succ h)]

/-- A limit that is not reached has no part in what is listed: any limit with room for it all lists
the same. -/
theorem unfold_eq_of_length_lt {limit limit' : Nat} {stack : List NodeId}
    (hlt : (tree.unfold limit stack).length < limit)
    (hle : (tree.unfold limit stack).length ≤ limit') :
    tree.unfold limit' stack = tree.unfold limit stack := by
  rcases Nat.le_total limit' limit with hsmall | hlarge
  · rw [unfold_eq_take tree hsmall, List.take_of_length_le hle]
  · -- The list of the larger limit is not cut, for what is left of it is too short.
    have hcut := unfold_eq_take tree hlarge stack
    rw [hcut, List.length_take, min_lt_iff, or_iff_right (Nat.lt_irrefl limit)] at hlt
    rw [hcut, List.take_of_length_le hlt.le]

/-- What is listed as the descendants of a node are different ids, fewer than there are nodes. -/
theorem nodup_descendants (h : tree.violations = []) (hthere : tree.contains id = true) :
    (tree.descendants id).Nodup ∧ (tree.descendants id).length < tree.size := by
  obtain ⟨node, hget⟩ := contains_iff_exists.1 hthere
  obtain ⟨held, children, below, hnodup, hlength⟩ := exists_unfolds_of_get h hget
  have hperm := descendants_perm hget children below hlength.le
  exact ⟨hperm.nodup_iff.2 hnodup, hperm.length_eq ▸ hlength⟩

/-- In a tree without violations the traversals miss and repeat nothing. The walk is the preorder
of the nested components, from the root on and in the order of the lists, and has each node once.
The descendants of a node are the nodes that have it on their chain of parents, each once, and
would be the same with any other bound that has room for them. -/
theorem traversals_complete (h : tree.violations = []) :
    (∃ whole : Outline, whole.id = rootId ∧ Unfolds tree.nodes whole ∧ tree.walk = whole.ids) ∧
    (tree.walk.head? = some rootId ∧ tree.walk.Nodup ∧
      ∀ id, id ∈ tree.walk ↔ tree.contains id = true) ∧
    ∀ id, tree.contains id = true →
      (tree.descendants id).Nodup ∧
      (∀ other, other ∈ tree.descendants id ↔
        tree.contains other = true ∧ tree.isAncestor id other = true) ∧
      (tree.descendants id).length < tree.size ∧
      ∀ limit, (tree.descendants id).length ≤ limit →
        tree.unfold limit (tree.childrenOf id).reverse = tree.descendants id := by
  obtain ⟨whole, hid, -, hunfolds, hnodup, hids⟩ := exists_unfolds h
  have hwalk := walk_eq_ids hid hunfolds hnodup
  refine ⟨⟨whole, hid, hunfolds, hwalk⟩, ⟨?_, hwalk ▸ hnodup, fun id => ?_⟩, fun id hthere => ?_⟩
  · obtain ⟨top, properties, held⟩ := whole
    rw [hwalk, Outline.ids_node, List.head?_cons]
    exact congrArg some hid
  · rw [hwalk, hids, contains_iff_exists]
  · obtain ⟨node, hget⟩ := contains_iff_exists.1 hthere
    obtain ⟨hdistinct, hlength⟩ := nodup_descendants h hthere
    refine ⟨hdistinct, fun other => ?_, hlength,
      fun limit => unfold_eq_of_length_lt (hlength.trans (Nat.lt_succ_self _))⟩
    -- Whatever has a chain of parents is there.
    rw [mem_descendants_iff h hget, iff_and_self, isAncestor_iff, Relation.TransGen.tail'_iff]
    rintro ⟨parent, -, node, hnode, -⟩
    exact contains_iff_exists.2 ⟨node, hnode⟩

/-- The note three levels below the last column is in both lists, and room for the four nodes below
the column is enough. -/
theorem traversals_complete_nestedRows :
    nestedRows.violations = [] ∧ "note" ∈ nestedRows.walk ∧
      "note" ∈ nestedRows.descendants "right" ∧
      nestedRows.unfold 4 ["inner"] = nestedRows.descendants "right" := by
  obtain ⟨-, ⟨-, -, hwalk⟩, hbelow⟩ := traversals_complete violations_nestedRows
  obtain ⟨-, hmem, -, hlimit⟩ := hbelow "right" (by decide +kernel)
  refine ⟨violations_nestedRows, (hwalk _).2 (by decide +kernel), (hmem _).2 ?_, ?_⟩
  · exact ⟨by decide +kernel, by decide +kernel⟩
  · have hlist : nestedRows.childrenOf "right" = ["inner"] := by decide +kernel
    rw [← hlimit 4 (by decide +kernel), hlist]
    rfl

end MailTemplate.Tree
