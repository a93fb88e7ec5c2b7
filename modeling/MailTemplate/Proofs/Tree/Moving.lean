import MailTemplate.Proofs.Tree.Listing
import MailTemplate.Proofs.Tree.Outline
import MailTemplate.Proofs.Tree.Removal
import Mathlib.Data.List.InsertIdx

/-!
# Moving a Component

A move takes a component off one list of children, puts it on another or on the same one again, and
has the component name its new parent.

* `Tree.relocate` is what these three changes make of a tree, and `Tree.getElem?_relocate` what they
  make of each node.
* `Tree.Sound.moveComponent_iff` says when a component may be moved.
* `Tree.Moved` lists all that is found after a move.
-/

namespace MailTemplate

variable {nodes : Nodes} {id old target other : NodeId} {node : Node} {index : Option Nat}

/-- No node is its own parent. -/
theorem Forest.ne_parent {tops : List NodeId} (h : Forest nodes tops)
    (hget : nodes[id]? = some node) (hparent : node.parent = some old) : id ≠ old := by
  rintro rfl
  exact not_transGen_self h.wellFounded id (.single ⟨node, hget, hparent⟩)

namespace Tree

variable {tree next : Tree}

/-! ## Off one list and onto another -/

/-- An entry is put in at the position, if the list is as long. -/
theorem insertAt_eq_insertIdx {α : Type} (list : List α) (position : Nat) (a : α) :
    insertAt list position a = list.insertIdx (min position list.length) a := by
  induction list generalizing position with
  | nil => simp [insertAt]
  | cons b list ih =>
    cases position with
    | zero => rfl
    | succ position =>
      rw [List.length_cons, Nat.succ_min_succ, List.insertIdx_succ_cons, ← ih]
      rfl

/-- The place of an entry that is put into a list of a length: at an index or at the end. -/
def slot (index : Option Nat) (length : Nat) : Nat :=
  match index with
  | some i => min i length
  | none => length

theorem insertAt_getD (list : List NodeId) (index : Option Nat) (id : NodeId) :
    insertAt list (index.getD list.length) id = list.insertIdx (slot index list.length) id := by
  rw [insertAt_eq_insertIdx]
  cases index with
  | some i => rfl
  | none => exact congrArg (list.insertIdx · id) (Nat.min_self _)

/-- An id that is not listed cannot be taken off. -/
theorem without_of_not_mem {list : List NodeId} (h : id ∉ list) : without id list = list := by
  refine List.filter_eq_self.2 fun other hmem => decide_eq_true ?_
  rintro rfl
  exact h hmem

/-- What another node lists when an id is taken off the list of its old parent. -/
def delisted (id old other : NodeId) (list : List NodeId) : List NodeId :=
  if other = old then without id list else list

/-- Only the old parent lists the id. -/
theorem delisted_eq_without {list : List NodeId} (h : old ≠ other → id ∉ list) :
    delisted id old other list = without id list := by
  unfold delisted
  split
  case isTrue => rfl
  case isFalse hne => exact (without_of_not_mem (h (Ne.symm hne))).symm

/-- What another node lists when the id is put on the list of the target then. -/
def relisted (id old target : NodeId) (index : Option Nat) (other : NodeId)
    (list : List NodeId) : List NodeId :=
  let kept := delisted id old other list
  if other = target then insertAt kept (index.getD kept.length) id else kept

theorem relisted_eq_delisted (htarget : other ≠ target) (list : List NodeId) :
    relisted id old target index other list = delisted id old other list :=
  if_neg htarget

theorem relisted_of_ne (hold : other ≠ old) (htarget : other ≠ target) (list : List NodeId) :
    relisted id old target index other list = list :=
  (relisted_eq_delisted htarget list).trans (if_neg hold)

theorem relisted_target {list : List NodeId} (h : old ≠ target → id ∉ list) :
    relisted id old target index target list =
      insertAt (without id list) (index.getD (without id list).length) id := by
  rw [relisted, if_pos rfl, delisted_eq_without h]

/-- The tree in which an id has been taken off the list of its old parent and put on that of the
target, at an index or at the end, and names the target as its parent. -/
def relocate (tree : Tree) (id old target : NodeId) (index : Option Nat) : Tree :=
  ((tree.modifyChildren old (without id)).modifyChildren target fun list =>
    insertAt list (index.getD list.length) id).modify id fun node =>
      { node with parent := some target }

/-- The three changes are found in different places, so they do not get in each other's way even if
they are made to the same node. -/
theorem getElem?_relocate (tree : Tree) (id old target : NodeId) (index : Option Nat)
    (other : NodeId) :
    (tree.relocate id old target index).nodes[other]? = tree.nodes[other]?.map fun node =>
      { node with
        parent := if other = id then some target else node.parent
        children := node.children.map (relisted id old target index other) } := by
  rw [relocate, nodes_modify, nodes_modifyChildren, nodes_modifyChildren]
  simp only [getElem?_modify_eq_map, Option.map_map]
  refine congrArg (tree.nodes[other]?.map ·) (funext fun node => ?_)
  obtain ⟨parent, properties, children⟩ := node
  simp only [Function.comp_apply]
  cases children with
  | none => split_ifs <;> rfl
  | some list =>
    simp only [Option.map_some, relisted, delisted]
    split_ifs <;> rfl

/-- No component is replaced by one of another kind. -/
theorem getElem?_relocate_of_some (hget : tree.nodes[other]? = some node) :
    ∃ node', (tree.relocate id old target index).nodes[other]? = some node' ∧
      node'.kind = node.kind := by
  rw [getElem?_relocate, hget]
  exact ⟨_, rfl, rfl⟩

/-- The id itself lists what it has listed. -/
theorem getElem?_relocate_self (hget : tree.nodes[id]? = some node) (hold : id ≠ old)
    (htarget : id ≠ target) :
    (tree.relocate id old target index).nodes[id]? = some { node with parent := some target } := by
  rw [getElem?_relocate, hget, Option.map_some, if_pos rfl, funext (relisted_of_ne hold htarget),
    Option.map_id']

/-- The old parent has the id taken off its list. -/
theorem getElem?_relocate_old {list : List NodeId} (hget : tree.nodes[old]? = some node)
    (hlist : node.children = some list) (hid : old ≠ id) (htarget : old ≠ target) :
    (tree.relocate id old target index).nodes[old]? =
      some { node with children := some (without id list) } := by
  rw [getElem?_relocate, hget, Option.map_some, if_neg hid, hlist, Option.map_some,
    relisted_eq_delisted htarget, delisted, if_pos rfl]

/-- The target has the id put among its other children. -/
theorem getElem?_relocate_target {list : List NodeId} (hget : tree.nodes[target]? = some node)
    (hlist : node.children = some list) (hid : target ≠ id) (hfree : old ≠ target → id ∉ list) :
    (tree.relocate id old target index).nodes[target]? =
      some { node with
        children := some
          ((without id list).insertIdx (slot index (without id list).length) id) } := by
  rw [getElem?_relocate, hget, Option.map_some, if_neg hid, hlist, Option.map_some,
    relisted_target hfree, insertAt_getD]

theorem getElem?_relocate_of_ne (hid : other ≠ id) (hold : other ≠ old) (htarget : other ≠ target) :
    (tree.relocate id old target index).nodes[other]? = tree.nodes[other]? := by
  rw [getElem?_relocate, funext (relisted_of_ne hold htarget)]
  simp only [if_neg hid, Option.map_id']

/-! ## When a component may be moved -/

namespace Sound

/-- A component other than a column may be moved to a node that holds its kind and does not hang
from it. -/
theorem moveComponent_iff (h : tree.Sound) (hget : tree.nodes[id]? = some node)
    (hparent : node.parent = some old) :
    tree.moveComponent id target index = .ok next ↔
      node.kind ≠ .column ∧
      (∃ holder, tree.nodes[target]? = some holder ∧ holder.kind.accepts node.kind = true) ∧
      ¬ Relation.ReflTransGen (IsParent tree.nodes) id target ∧
      tree.relocate id old target index = next := by
  have hunlist : tree.unlist id node.parent = tree.modifyChildren old (without id) := by
    rw [hparent]
    rfl
  rw [moveComponent_eq_ok_iff, Relation.reflTransGen_iff_eq_or_transGen]
  simp only [← isAncestor_iff, requireChildren_eq_ok_iff]
  constructor
  · rintro ⟨_, hsome, -, hcolumn, holder, hholder, haccepts, hcycle, _, ⟨-, rfl⟩, rfl⟩
    cases hget.symm.trans hsome
    rw [hunlist]
    exact ⟨hcolumn, ⟨holder, hholder, haccepts⟩, hcycle, rfl⟩
  · rintro ⟨hcolumn, ⟨holder, hholder, haccepts⟩, hcycle, rfl⟩
    have hne : id ≠ rootId := by
      rintro rfl
      rw [(SoundBut.root_of_get h hget rfl).1] at hparent
      cases hparent
    -- What the target lists may have changed, but not that it has a list.
    have hlists : (tree.unlist id node.parent).Lists target :=
      (h.lists hholder haccepts).unlist node.parent
    refine ⟨node, hget, hne, hcolumn, holder, hholder, haccepts, hcycle, _, ⟨hlists, rfl⟩, ?_⟩
    rw [hunlist]
    rfl

/-- Of the nodes of a sound tree, just one lists a node that is not the root, and just once. -/
theorem count_listed (h : tree.Sound) (hget : tree.nodes[id]? = some node) (hne : id ≠ rootId) :
    (tree.nodes.values.flatMap Node.childList).count id = 1 := by
  have hforest := SoundBut.forest h
  obtain ⟨parent, lister, -, hlister, hmem, -⟩ := SoundBut.placed h hget hne
  -- Any other node that lists it would be the parent.
  have hothers : id ∉ ((tree.nodes.erase parent).toList.map Prod.snd).flatMap Node.childList := by
    rw [List.mem_flatMap]
    rintro ⟨n, hn, hlisted⟩
    obtain ⟨⟨other, _⟩, hentry, rfl⟩ := List.mem_map.1 hn
    obtain ⟨hother, hsome⟩ := getElem?_erase_eq_some_iff.1 (mem_toList_iff.1 hentry)
    exact hother (hforest.lister_unique hsome hlister hlisted hmem)
  rw [values_eq_map_toList,
    (((toList_perm_cons_erase hlister).symm.map Prod.snd).flatMap_right _).count_eq, List.map_cons,
    List.flatMap_cons, List.count_append, hforest.count_childList hlister hmem,
    List.count_eq_zero_of_not_mem hothers]

end Sound

/-! ## What is found after a move -/

/-- A node has been moved from its old parent to a target, to an index or to the end, and nothing
else has changed. -/
structure Moved (tree next : Tree) (id old target : NodeId) (index : Option Nat) : Prop where
  ids : ∀ other, next.contains other = tree.contains other
  /-- The node names the target as its parent, and is as before otherwise. -/
  atId : ∃ node, tree.get? id = some node ∧ node.parent = some old ∧
    next.get? id = some { node with parent := some target }
  /-- The old parent has lost the node, and its other children are still in order. -/
  atOld : old ≠ target → ∃ lister before after, tree.get? old = some lister ∧
    lister.children = some (before ++ id :: after) ∧
    next.get? old = some { lister with children := some (before ++ after) }
  /-- The target lists its children other than the node in order, and among them the node at the
  index, which counts them alone. -/
  atTarget : ∃ holder list, tree.get? target = some holder ∧ holder.children = some list ∧
    next.get? target = some { holder with
      children := some ((without id list).insertIdx (slot index (without id list).length) id) }
  /-- No other node has changed. -/
  elsewhere : ∀ other, other ≠ id → other ≠ old → other ≠ target →
    next.get? other = tree.get? other
  /-- The node is listed once in the whole tree. -/
  listedOnce : (next.nodes.values.flatMap Node.childList).count id = 1

/-- In a tree without violations, a move takes the component from its parent to the target and
leaves the rest alone. -/
theorem moveComponent_moves (h : tree.violations = [])
    (hok : tree.moveComponent id target index = .ok next) :
    ∃ old, tree.Moved next id old target index := by
  have hsound := violations_eq_nil_iff_sound.1 h
  have hforest := SoundBut.forest hsound
  have hnext := hsound.moveComponent hok
  obtain ⟨node, hget, hne, -⟩ := moveComponent_eq_ok_iff.1 hok
  obtain ⟨old, lister, hparent, hlister, hmem, -⟩ := SoundBut.placed hsound hget hne
  obtain ⟨-, ⟨holder, hholder, haccepts⟩, hcycle, rfl⟩ :=
    (hsound.moveComponent_iff hget hparent).1 hok
  -- The node is neither of the two whose lists are changed, so it keeps its own.
  have hold := hforest.ne_parent hget hparent
  have htarget : id ≠ target := by
    rintro rfl
    exact hcycle .refl
  have hid : (tree.relocate id old target index).nodes[id]? =
      some { node with parent := some target } :=
    getElem?_relocate_self hget hold htarget
  refine ⟨old, ⟨fun other => ?_, ⟨node, hget, hparent, hid⟩, fun hapart => ?_, ?_,
    fun _ hother hother' hother'' => getElem?_relocate_of_ne hother hother' hother'',
    hnext.count_listed hid hne⟩⟩
  · rw [contains_eq_isSome, contains_eq_isSome, getElem?_relocate, Option.isSome_map]
  · have hlist := Node.children_eq_some (Node.isSome_children_of_mem hmem)
    have hnodup := hforest.nodup_childList hlister
    obtain ⟨before, after, hchildren⟩ := List.append_of_mem hmem
    rw [hchildren] at hlist hnodup
    have hleft : (tree.relocate id old target index).nodes[old]? =
        some { lister with children := some (before ++ after) } := by
      rw [getElem?_relocate_old hlister hlist hold.symm hapart, without_append_cons hnodup]
    exact ⟨lister, before, after, hlister, hlist, hleft⟩
  · have hlist := Node.children_eq_some
      (hforest.isSome_children hholder (Kind.isContainer_of_accepts haccepts))
    -- A target other than the old parent has not listed the node, so there is nothing to take off.
    have hfree : old ≠ target → id ∉ holder.childList := fun hapart hlisted =>
      hapart (hforest.lister_unique hlister hholder hmem hlisted)
    exact ⟨holder, _, hholder, hlist,
      getElem?_relocate_target hholder hlist htarget.symm hfree⟩

/-- A row that is the first of two children goes to the end if it is put at index one, for the index
is one of the other child alone. -/
theorem moveComponent_moves_withinRoot :
    nestedRows.violations = [] ∧
      ∃ next, nestedRows.moveComponent "row" rootId (some 1) = .ok next ∧
        next.childrenOf rootId = ["footer", "row"] ∧
        next.get? "title" = nestedRows.get? "title" := by
  obtain ⟨next, hok⟩ : ∃ next, nestedRows.moveComponent "row" rootId (some 1) = .ok next :=
    isOk_iff_exists.1 (by decide +kernel)
  obtain ⟨old, hmoved⟩ := moveComponent_moves violations_nestedRows hok
  obtain ⟨row, hrow, hparent, -⟩ := hmoved.atId
  obtain ⟨holder, list, hholder, hlist, hnext⟩ := hmoved.atTarget
  have hold : old = rootId := by
    have hnames : (nestedRows.get? "row").bind Node.parent = some rootId := by decide +kernel
    rw [hrow, Option.bind_some, hparent] at hnames
    exact Option.some.inj hnames
  have hchildren : list = ["row", "footer"] := by
    have hroot : (nestedRows.get? rootId).bind Node.children = some ["row", "footer"] := by
      decide +kernel
    rw [hholder, Option.bind_some, hlist] at hroot
    exact Option.some.inj hroot
  refine ⟨violations_nestedRows, next, hok, ?_, ?_⟩
  · rw [childrenOf_eq hnext, hchildren]
    rfl
  · exact hmoved.elsewhere _ (by decide) (by rw [hold]; decide) (by decide)

end Tree

end MailTemplate
