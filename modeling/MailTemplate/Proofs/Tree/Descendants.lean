import MailTemplate.Proofs.Tree.Unfolding

/-!
# What Hangs from a Node

Without violations the list of descendants of a node holds what the outline of the node holds, and
that is what has the node on its chain of parents. So the two ways to ask whether a node hangs from
another, down the lists of children and up the parents, agree.

* `Tree.unfold_perm` and `Tree.descendants_perm` tie the descendants to outlines.
* `Unfolds.mem_ids_iff` ties outlines to chains of parents.
* `Tree.mem_descendants_iff` is the conclusion.
-/

namespace MailTemplate

/-- A limit as large as the number of ids does not cut anything off. -/
theorem Tree.unfold_perm {tree : Tree} {limit : Nat} {outlines : List Outline}
    (hunfolds : ∀ o ∈ outlines, Unfolds tree.nodes o)
    (hlimit : (outlines.flatMap Outline.ids).length ≤ limit) :
    (tree.unfold limit (outlines.map Outline.id)).Perm (outlines.flatMap Outline.ids) := by
  -- A step takes the first outline apart.
  induction limit generalizing outlines with
  | zero =>
    rw [List.eq_nil_of_length_eq_zero (Nat.le_zero.1 hlimit)]
    exact .refl _
  | succ limit ih =>
    cases outlines with
    | nil => exact .refl _
    | cons outline rest =>
      obtain @⟨id, node, held, get, children, below⟩ := hunfolds outline List.mem_cons_self
      have hunfolds' : ∀ o ∈ held.reverse ++ rest, Unfolds tree.nodes o := by
        intro o ho
        rcases List.mem_append.1 ho with ho | ho
        · exact below o (List.mem_reverse.1 ho)
        · exact hunfolds o (List.mem_cons_of_mem _ ho)
      have hsame : ((held.reverse ++ rest).flatMap Outline.ids).Perm
          (held.flatMap Outline.ids ++ rest.flatMap Outline.ids) := by
        rw [List.flatMap_append]
        exact ((List.reverse_perm held).flatMap_right _).append_right _
      rw [List.flatMap_cons, Outline.ids_node, List.cons_append] at hlimit ⊢
      have hstep := ih hunfolds' (hsame.length_eq ▸ Nat.le_of_succ_le_succ hlimit)
      rw [List.map_append, List.map_reverse, children, ← childrenOf_eq get] at hstep
      exact .cons id (hstep.trans hsame)

/-- In a sound tree a node is the parent of what it lists, and of nothing else. -/
theorem SoundBut.isParent_iff_mem {nodes : Nodes} {opened : List NodeId} {id child : NodeId}
    {node : Node} (h : SoundBut nodes [] opened) (hget : nodes[id]? = some node) :
    IsParent nodes id child ↔ child ∈ node.childList := by
  constructor
  · rintro ⟨below, hbelow, hnames⟩
    have hne : child ≠ rootId := by
      rintro rfl
      obtain ⟨root, hroot, hparent, -⟩ := h.root
      rw [hbelow] at hroot
      cases hroot
      rw [hparent] at hnames
      cases hnames
    obtain ⟨_, parent, hnames', hlister, hcount⟩ := h.forest.placed hbelow (by simpa using hne)
    rw [hnames] at hnames'
    cases hnames'
    rw [hget] at hlister
    cases hlister
    exact List.count_pos_iff.1 (hcount ▸ Nat.one_pos)
  · intro hmem
    obtain ⟨below, hbelow, hnames, -⟩ := h.forest.child hget hmem
    exact ⟨below, hbelow, hnames⟩

/-- An outline holds the ids that have its id on the chain of parents, besides its own. -/
theorem Unfolds.mem_ids_iff {nodes : Nodes} {outline : Outline} {other : NodeId}
    (h : Unfolds nodes outline) (hsound : SoundBut nodes [] []) :
    other ∈ outline.ids ↔ Relation.ReflTransGen (IsParent nodes) outline.id other := by
  induction h with
  | @node id node held get children below ih =>
    have hheld : (∃ o ∈ held, other ∈ o.ids) ↔
        ∃ child, IsParent nodes id child ∧ Relation.ReflTransGen (IsParent nodes) child other := by
      simp only [hsound.isParent_iff_mem get, ← children, List.mem_map]
      constructor
      · rintro ⟨o, ho, hother⟩
        exact ⟨o.id, ⟨o, ho, rfl⟩, (ih o ho).1 hother⟩
      · rintro ⟨_, ⟨o, ho, rfl⟩, hother⟩
        exact ⟨o, ho, (ih o ho).2 hother⟩
    rw [Outline.ids_node, List.mem_cons, List.mem_flatMap, hheld,
      Relation.ReflTransGen.cases_head_iff, eq_comm]
    rfl

namespace Tree

variable {tree : Tree} {id other : NodeId}

/-- What a node lists unfolds to outlines, which share no ids and leave out that of the node. -/
theorem exists_unfolds_of_get (h : tree.violations = []) {node : Node}
    (hget : tree.nodes[id]? = some node) :
    ∃ held : List Outline, held.map Outline.id = node.childList ∧
      (∀ o ∈ held, Unfolds tree.nodes o) ∧ (held.flatMap Outline.ids).Nodup ∧
        (held.flatMap Outline.ids).length < tree.size := by
  obtain ⟨whole, -, -, hunfolds, hnodup, hids⟩ := exists_unfolds h
  obtain ⟨part, hpart, rfl⟩ := List.mem_map.1 ((hids id).2 ⟨node, hget⟩)
  have hinfix : part.ids.Sublist whole.ids := ((Outline.infix_parts hpart).map Outline.id).sublist
  have hsize : whole.ids.length ≤ tree.size := by
    have hkeys : whole.ids ⊆ tree.nodes.keys := by
      intro other hmem
      obtain ⟨n, hn⟩ := (hids other).1 hmem
      exact mem_keys_of_eq_some hn
    exact (hnodup.subperm hkeys).length_le.trans Std.ExtTreeMap.length_keys.le
  obtain @⟨id, node', held, get, children, below⟩ := hunfolds.of_mem_parts hpart
  cases get.symm.trans hget
  rw [Outline.ids_node] at hinfix
  exact ⟨held, children, below, (hnodup.sublist hinfix).of_cons, hinfix.length_le.trans hsize⟩

/-- The descendants of a node are the ids of the outlines that what it lists unfolds to. -/
theorem descendants_perm {node : Node} {held : List Outline} (hget : tree.nodes[id]? = some node)
    (children : held.map Outline.id = node.childList) (below : ∀ o ∈ held, Unfolds tree.nodes o)
    (hlength : (held.flatMap Outline.ids).length ≤ tree.size) :
    (tree.descendants id).Perm (held.flatMap Outline.ids) := by
  have hreverse : (held.reverse.flatMap Outline.ids).Perm (held.flatMap Outline.ids) :=
    (List.reverse_perm held).flatMap_right _
  have hperm : (tree.unfold (tree.size + 1) (held.reverse.map Outline.id)).Perm
      (held.reverse.flatMap Outline.ids) :=
    unfold_perm (fun o ho => below o (List.mem_reverse.1 ho))
      (hreverse.length_eq.trans_le (Nat.le_succ_of_le hlength))
  rw [List.map_reverse, children, ← childrenOf_eq hget] at hperm
  exact hperm.trans hreverse

/-- In a tree without violations, the descendants of a node are the ids that have it on their chain
of parents. -/
theorem mem_descendants_iff (h : tree.violations = []) {node : Node}
    (hget : tree.nodes[id]? = some node) :
    other ∈ tree.descendants id ↔ tree.isAncestor id other = true := by
  have hsound : SoundBut tree.nodes [] [] := violations_eq_nil_iff_sound.1 h
  obtain ⟨held, children, below, -, hlength⟩ := exists_unfolds_of_get h hget
  rw [(descendants_perm hget children below hlength.le).mem_iff, List.mem_flatMap, isAncestor_iff,
    Relation.TransGen.head'_iff]
  simp only [hsound.isParent_iff_mem hget, ← children, List.mem_map]
  constructor
  · rintro ⟨o, ho, hother⟩
    exact ⟨o.id, ⟨o, ho, rfl⟩, ((below o ho).mem_ids_iff hsound).1 hother⟩
  · rintro ⟨_, ⟨o, ho, rfl⟩, hother⟩
    exact ⟨o, ho, ((below o ho).mem_ids_iff hsound).2 hother⟩

end Tree

end MailTemplate
