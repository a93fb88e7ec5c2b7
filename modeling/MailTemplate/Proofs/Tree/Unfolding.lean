import MailTemplate.Proofs.Tree.Outline

/-!
# Unfolding a Tree

The outline that is read off from a node by following the lists of children. Without violations
there is one for each node, all of them parts of the one of the root, and the walk through the tree
meets the parts of that outline in their order.

* `Unfolds` relates the outline to the nodes.
* `Tree.exists_unfolds` finds the outline of the root.
* `preorder_eq` ties the walk to the order of the parts.
-/

namespace MailTemplate

namespace Outline

/-- The component and all that hangs from it, each before what it holds. -/
def parts : Outline → List Outline
  | node id properties held => node id properties held :: held.flatMap parts

/-- The ids of the parts. -/
def ids (outline : Outline) : List NodeId :=
  outline.parts.map id

variable {outline part : Outline}

theorem ids_node (id : NodeId) (properties : Properties) (held : List Outline) :
    (node id properties held).ids = id :: held.flatMap ids := by
  rw [ids, parts, List.map_cons, List.map_flatMap]
  rfl

theorem mem_parts_node {id : NodeId} {properties : Properties} {held : List Outline} :
    part ∈ (node id properties held).parts ↔
      part = node id properties held ∨ ∃ o ∈ held, part ∈ o.parts := by
  rw [parts, List.mem_cons, List.mem_flatMap]

/-- The parts of a part stand together. -/
theorem infix_parts (h : part ∈ outline.parts) : part.parts <:+: outline.parts := by
  induction outline with
  | node id properties held ih =>
    rcases mem_parts_node.1 h with rfl | ⟨o, ho, hpart⟩
    · exact List.infix_rfl
    · -- The parts of the components before and after the one with the part stand around it.
      obtain ⟨front, back, rfl⟩ := List.append_of_mem ho
      refine (ih o ho hpart).trans ⟨node id properties (front ++ o :: back) :: front.flatMap parts,
        back.flatMap parts, ?_⟩
      simp [parts]

theorem map_fst_entries (outline : Outline) (parent : Option NodeId) :
    (outline.entries parent).map Prod.fst = outline.ids := by
  induction outline generalizing parent with
  | node id properties held ih =>
    rw [entries, ids_node, List.map_cons, List.map_flatMap,
      List.flatMap_congr fun o ho => ih o ho (some id)]

theorem Lawful.of_mem_parts (h : outline.Lawful) (hpart : part ∈ outline.parts) :
    part.Lawful := by
  induction h with
  | node accepts columns lawful ih =>
    rcases mem_parts_node.1 hpart with rfl | ⟨o, ho, hpart⟩
    · exact .node accepts columns lawful
    · exact ih o ho hpart

end Outline

/-- An outline is what nodes unfold to from its id: the component has the record of the node of
that id, and holds what the children of the node unfold to. -/
inductive Unfolds (nodes : Nodes) : Outline → Prop
  | node {id : NodeId} {node : Node} {held : List Outline} (get : nodes[id]? = some node)
    (children : held.map Outline.id = node.childList) (below : ∀ o ∈ held, Unfolds nodes o) :
    Unfolds nodes (.node id node.properties held)

namespace Unfolds

variable {nodes : Nodes} {outline part : Outline} {id : NodeId}

theorem of_mem_parts (h : Unfolds nodes outline) (hpart : part ∈ outline.parts) :
    Unfolds nodes part := by
  induction h with
  | node get children below ih =>
    rcases Outline.mem_parts_node.1 hpart with rfl | ⟨o, ho, hpart⟩
    · exact .node get children below
    · exact ih o ho hpart

/-- The nodes of the other ids do not matter. -/
theorem erase (h : Unfolds nodes outline) (hnot : id ∉ outline.ids) :
    Unfolds (nodes.erase id) outline := by
  induction h with
  | node get children below ih =>
    rw [Outline.ids_node, List.mem_cons, not_or] at hnot
    refine .node (getElem?_erase_eq_some_iff.2 ⟨Ne.symm hnot.1, get⟩) children fun o ho => ?_
    exact ih o ho fun hmem => hnot.2 (List.mem_flatMap.2 ⟨o, ho, hmem⟩)

/-- A node unfolds to one outline only. -/
theorem unique {other : Outline} (h : Unfolds nodes outline) (hother : Unfolds nodes other)
    (hid : outline.id = other.id) : outline = other := by
  induction h generalizing other with
  | @node id node held get children below ih =>
    obtain @⟨id', node', held', get', children', below'⟩ := hother
    change id = id' at hid
    subst hid
    rw [get] at get'
    cases get'
    -- The two hold outlines of the same ids in the same order.
    have hids : held.map Outline.id = held'.map Outline.id := children.trans children'.symm
    have hlength : held.length = held'.length := by
      rw [← List.length_map Outline.id, hids, List.length_map]
    congr 1
    refine List.ext_getElem hlength fun i hi hi' => ?_
    refine ih _ (List.getElem_mem hi) (below' _ (List.getElem_mem hi')) ?_
    rw [← List.getElem_map Outline.id (h := by simpa using hi),
      ← List.getElem_map Outline.id (h := by simpa using hi')]
    simp only [hids]

end Unfolds

/-- Nodes unfold to a lawful outline whose entries are among them. -/
theorem Outline.Lawful.unfolds {nodes : Nodes} {outline : Outline} {parent : Option NodeId}
    (h : outline.Lawful) (hget : ∀ e ∈ outline.entries parent, nodes[e.1]? = some e.2) :
    Unfolds nodes outline := by
  induction h generalizing parent with
  | @node id properties held accepts columns lawful ih =>
    refine .node (hget _ (mem_entries_self _ parent))
      (Lawful.node accepts columns lawful).childList_place.symm fun o ho => ?_
    exact ih o ho fun e he => hget e (mem_entries_node.2 (.inr ⟨o, ho, he⟩))

/-! ## The order of the walk -/

/-- The walk meets what hangs from the ids of some outlines in the order of their parts. -/
theorem preorder_eq {unseen : Nodes} {outlines : List Outline}
    (hunfolds : ∀ o ∈ outlines, Unfolds unseen o) (hnodup : (outlines.flatMap Outline.ids).Nodup) :
    Tree.preorder unseen (outlines.map Outline.id) = outlines.flatMap Outline.ids := by
  -- A step takes the first outline apart, and its node away.
  induction hsize : unseen.size using Nat.strong_induction_on generalizing unseen outlines with
  | _ n ih =>
    cases outlines with
    | nil => rw [List.map_nil, Tree.preorder, List.flatMap_nil]
    | cons outline rest =>
      obtain @⟨id, node, held, get, children, below⟩ := hunfolds outline List.mem_cons_self
      rw [List.flatMap_cons, Outline.ids_node, List.cons_append, ← List.flatMap_append] at hnodup ⊢
      obtain ⟨hnot, hnodup⟩ := List.nodup_cons.1 hnodup
      -- No id comes up twice, so the outlines that are left do without that node.
      have hunfolds' : ∀ o ∈ held ++ rest, Unfolds (unseen.erase id) o := by
        intro o ho
        refine Unfolds.erase ?_ fun hmem => hnot (List.mem_flatMap.2 ⟨o, ho, hmem⟩)
        rcases List.mem_append.1 ho with ho | ho
        · exact below o ho
        · exact hunfolds o (List.mem_cons_of_mem _ ho)
      have hstep := ih _ (hsize ▸ Tree.size_erase_lt get) hunfolds' hnodup rfl
      rw [List.map_append, children] at hstep
      rw [List.map_cons, Outline.id, Tree.preorder]
      split
      case h_1 hnone =>
        rw [get] at hnone
        cases hnone
      case h_2 node' hsome =>
        rw [get] at hsome
        cases hsome
        exact congrArg (id :: ·) hstep

namespace Tree

variable {tree : Tree}

/-- The tree unfolds from its root to a lawful outline with all its nodes. -/
theorem exists_unfolds (h : tree.violations = []) :
    ∃ whole : Outline, whole.id = rootId ∧ whole.Lawful ∧ Unfolds tree.nodes whole ∧
      whole.ids.Nodup ∧ ∀ id, id ∈ whole.ids ↔ ∃ node, tree.nodes[id]? = some node := by
  have hsound : SoundBut tree.nodes [] [] := violations_eq_nil_iff_sound.1 h
  obtain ⟨root, hroot, -⟩ := hsound.root
  obtain ⟨outlines, hids, hlawful, hperm⟩ := hsound.forest.exists_folds
    (List.nodup_singleton rootId) (fun top htop => ⟨root, List.mem_singleton.1 htop ▸ hroot⟩)
    fun hget => hsound.fits hget List.not_mem_nil
  -- The root is the only top, so there is one outline.
  obtain ⟨whole, rfl, hid⟩ := List.map_eq_singleton_iff.1 hids
  rw [List.flatMap_singleton] at hperm
  have hlawful := hlawful whole List.mem_cons_self
  have hget : ∀ e ∈ whole.entries _, tree.nodes[e.1]? = some e.2 :=
    fun e he => mem_toList_iff.1 (hperm.mem_iff.1 he)
  have hids : whole.ids.Perm (tree.nodes.toList.map Prod.fst) :=
    whole.map_fst_entries _ ▸ hperm.map Prod.fst
  refine ⟨whole, hid, hlawful, hlawful.unfolds hget, hids.nodup_iff.2 nodup_ids, fun id => ?_⟩
  rw [hids.mem_iff, List.mem_map]
  simp only [Prod.exists, mem_toList_iff, exists_and_right, exists_eq_right]

/-- The walk meets the parts of the whole in their order. -/
theorem walk_eq_ids {whole : Outline} (hid : whole.id = rootId)
    (hunfolds : Unfolds tree.nodes whole) (hnodup : whole.ids.Nodup) : tree.walk = whole.ids := by
  have hwalk := @preorder_eq _ [whole] (by simpa using hunfolds) (by simpa using hnodup)
  rw [List.map_singleton, List.flatMap_singleton, hid] at hwalk
  exact hwalk

end Tree

end MailTemplate
