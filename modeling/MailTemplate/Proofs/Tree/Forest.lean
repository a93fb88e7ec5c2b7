import MailTemplate.Proofs.Tree.Ancestry
import Mathlib.Data.List.Perm.Basic

/-!
# Forests of Nodes

`Forest nodes tops` says that all nodes hang together as trees below some ids, the tops: every other
node is listed exactly once, by the node that it names as its parent. A sound tree is a forest with
the root as its only top. While a tree is edited, and while one is rebuilt, a few more nodes are
tops: those that are not listed yet, or not any more.

* `Forest.uproot` takes a top away, so that its children become tops.
* `Forest.insert` puts a new node above tops that name it, as `Gathers` has it.
* `Forest.relist` gives a node another list of children: those that it drops become tops, and those
  that it gains were tops, as `Relists` has it.
* `Forest.repoint` makes a top name another parent.
* `Forest.eraseAll` takes away all that hangs from some tops.
-/

namespace MailTemplate

/-- All nodes hang below the tops, which no node lists. -/
structure Forest (nodes : Nodes) (tops : List NodeId) : Prop where
  /-- Just the containers have a list of children. -/
  container : ∀ {id : NodeId} {node : Node}, nodes[id]? = some node →
    node.children.isSome = node.kind.isContainer
  /-- A listed child exists, names the node that lists it, and is of a kind that it holds. -/
  child : ∀ {id childId : NodeId} {node : Node}, nodes[id]? = some node →
    childId ∈ node.childList →
    ∃ child, nodes[childId]? = some child ∧ child.parent = some id ∧
      node.kind.accepts child.kind = true
  /-- No node lists a top. -/
  unlisted : ∀ {id top : NodeId} {node : Node}, nodes[id]? = some node → top ∈ tops →
    top ∉ node.childList
  /-- Any other node is listed once, by the node that it names. -/
  placed : ∀ {id : NodeId} {node : Node}, nodes[id]? = some node → id ∉ tops →
    ∃ parentId parent, node.parent = some parentId ∧ nodes[parentId]? = some parent ∧
      parent.childList.count id = 1
  /-- Chains of parents come to an end. -/
  wellFounded : WellFounded (IsParent nodes)

/-- Every parent that a node names exists. -/
def ParentsExist (nodes : Nodes) : Prop :=
  ∀ {id parent : NodeId} {node : Node}, nodes[id]? = some node → node.parent = some parent →
    ∃ above, nodes[parent]? = some above

/-- What a node is to the others: the parent that it names, its kind and its list of children. -/
def Node.form (node : Node) : Option NodeId × Kind × Option (List NodeId) :=
  (node.parent, node.kind, node.children)

/-- Two maps have nodes at the same ids, and of the same form. -/
def SameForm (nodes nodes' : Nodes) : Prop :=
  ∀ id : NodeId, (nodes[id]?).map Node.form = (nodes'[id]?).map Node.form

/-- A node that has a list of children has the one that is read off it. -/
theorem Node.children_eq_some {node : Node} (h : node.children.isSome = true) :
    node.children = some node.childList := by
  obtain ⟨list, hlist⟩ := Option.isSome_iff_exists.1 h
  rw [childList, hlist, Option.getD_some]

theorem Node.childList_eq {node : Node} {list : List NodeId} (h : node.children = some list) :
    node.childList = list := by
  rw [childList, h, Option.getD_some]

/-- If just the containers have a list of children, the kind tells whether there is one. -/
theorem Node.children_eq {node : Node} (h : node.children.isSome = node.kind.isContainer) :
    node.children = if node.kind.isContainer then some node.childList else none := by
  rw [← h, Node.childList]
  cases node.children <;> rfl

namespace SameForm

variable {nodes nodes' : Nodes} {id : NodeId} {node : Node}

theorem symm (h : SameForm nodes nodes') : SameForm nodes' nodes :=
  fun id => (h id).symm

theorem exists_of_get (h : SameForm nodes nodes') (hget : nodes[id]? = some node) :
    ∃ node', nodes'[id]? = some node' ∧ node'.parent = node.parent ∧ node'.kind = node.kind ∧
      node'.children = node.children := by
  have hform := h id
  rw [hget, Option.map_some] at hform
  obtain ⟨node', hget', heq⟩ := Option.map_eq_some_iff.1 hform.symm
  simp only [Node.form, Prod.mk.injEq] at heq
  exact ⟨node', hget', heq⟩

end SameForm

/-! ## Putting a node in place -/

section Insert

variable {nodes : Nodes} {id : NodeId} {node : Node}

theorem isParent_insert_iff {parent other : NodeId} :
    IsParent (nodes.insert id node) parent other ↔
      if other = id then node.parent = some parent else IsParent nodes parent other := by
  unfold IsParent
  rw [getElem?_insert_eq]
  by_cases h : other = id <;> simp [h]

/-- A change of the node of an id puts the changed node there. -/
theorem modify_eq_insert (change : Node → Node) (hget : nodes[id]? = some node) :
    nodes.modify id change = nodes.insert id (change node) := by
  refine Std.ExtTreeMap.ext_getElem? fun key => ?_
  rw [getElem?_modify_eq, getElem?_insert_eq]
  by_cases h : key = id
  · rw [if_pos h, if_pos h, h, hget, Option.map_some]
  · rw [if_neg h, if_neg h]

/-- A change of the node of an id that is not there changes nothing. -/
theorem modify_eq_self {change : Node → Node} (hget : nodes[id]? = none) :
    nodes.modify id change = nodes := by
  refine Std.ExtTreeMap.ext_getElem? fun key => ?_
  rw [getElem?_modify_eq]
  by_cases h : key = id
  · rw [if_pos h, h, hget, Option.map_none]
  · rw [if_neg h]

/-- Putting in what is there already changes nothing. -/
theorem insert_eq_self (hget : nodes[id]? = some node) : nodes.insert id node = nodes := by
  refine Std.ExtTreeMap.ext_getElem? fun key => ?_
  rw [getElem?_insert_eq]
  by_cases h : key = id
  · rw [if_pos h, h, hget]
  · rw [if_neg h]

/-- An id that is free and not named as a parent is above no node. -/
theorem not_reflTransGen_of_free {parent : NodeId} (hfree : nodes[id]? = none)
    (hparents : ParentsExist nodes) (hparent : nodes[parent]? = some node) :
    ¬ Relation.ReflTransGen (IsParent nodes) id parent := by
  intro h
  rcases Relation.ReflTransGen.cases_head h with heq | ⟨other, hother, -⟩
  · rw [heq, hparent] at hfree
    cases hfree
  · obtain ⟨below, hbelow, hnames⟩ := hother
    obtain ⟨above, habove⟩ := hparents hbelow hnames
    rw [habove] at hfree
    cases hfree

end Insert

namespace Forest

variable {nodes : Nodes} {tops : List NodeId} {id : NodeId} {node node' : Node}

theorem empty (tops : List NodeId) : Forest ∅ tops where
  container hget := absurd hget getElem?_empty_ne_some
  child hget := absurd hget getElem?_empty_ne_some
  unlisted hget := absurd hget getElem?_empty_ne_some
  placed hget := absurd hget getElem?_empty_ne_some
  wellFounded := ⟨fun id => ⟨id, fun _ hparent => by
    obtain ⟨node, hget, -⟩ := hparent
    exact absurd hget getElem?_empty_ne_some⟩⟩

/-- It does not matter in which order the tops are given. -/
theorem congr {tops' : List NodeId} (h : Forest nodes tops)
    (hmem : ∀ top, top ∈ tops ↔ top ∈ tops') : Forest nodes tops' where
  container := h.container
  child := h.child
  unlisted hget htop := h.unlisted hget ((hmem _).2 htop)
  placed hget htop := h.placed hget fun hmem' => htop ((hmem _).1 hmem')
  wellFounded := h.wellFounded

/-- It does not matter what else the nodes record. -/
theorem of_sameForm {nodes' : Nodes} (h : Forest nodes tops) (hsame : SameForm nodes nodes') :
    Forest nodes' tops where
  container hget := by
    obtain ⟨node, hold, -, hkind, hchildren⟩ := hsame.symm.exists_of_get hget
    rw [← hkind, ← hchildren]
    exact h.container hold
  child {id childId node'} hget hmem := by
    obtain ⟨node, hold, -, hkind, hchildren⟩ := hsame.symm.exists_of_get hget
    rw [Node.childList, ← hchildren] at hmem
    obtain ⟨child, hchild, hnames, haccepts⟩ := h.child hold hmem
    obtain ⟨child', hchild', hnames', hkind', -⟩ := hsame.exists_of_get hchild
    exact ⟨child', hchild', hnames'.trans hnames, hkind ▸ hkind' ▸ haccepts⟩
  unlisted hget htop := by
    obtain ⟨node, hold, -, -, hchildren⟩ := hsame.symm.exists_of_get hget
    rw [Node.childList, ← hchildren]
    exact h.unlisted hold htop
  placed hget htop := by
    obtain ⟨node, hold, hparent, -, -⟩ := hsame.symm.exists_of_get hget
    obtain ⟨parentId, parent, hnames, hlister, hcount⟩ := h.placed hold htop
    obtain ⟨parent', hlister', -, -, hchildren'⟩ := hsame.exists_of_get hlister
    rw [Node.childList, ← hchildren'] at hcount
    exact ⟨parentId, parent', hparent ▸ hnames, hlister', hcount⟩
  wellFounded := by
    refine wellFounded_of_subset h.wellFounded fun parent id hnames => ?_
    obtain ⟨node', hget, hnames⟩ := hnames
    obtain ⟨node, hold, hparent, -⟩ := hsame.symm.exists_of_get hget
    exact ⟨node, hold, hparent.trans hnames⟩

theorem isSome_children (h : Forest nodes tops) (hget : nodes[id]? = some node)
    (hkind : node.kind.isContainer = true) : node.children.isSome = true :=
  (h.container hget).trans hkind

/-- A row has a list of children. -/
theorem isSome_children_row (h : Forest nodes tops) (hget : nodes[id]? = some node)
    (hkind : node.kind = .columns) : node.children.isSome = true :=
  h.isSome_children hget (hkind ▸ rfl)

/-- A top that does not exist may be left out. -/
theorem drop_missing (h : Forest nodes (id :: tops)) (hget : nodes[id]? = none) :
    Forest nodes tops where
  container := h.container
  child := h.child
  unlisted hget htop := h.unlisted hget (List.mem_cons_of_mem _ htop)
  placed {other _} hother htop := by
    refine h.placed hother fun hmem => ?_
    rcases List.mem_cons.1 hmem with heq | hmem
    · exact ne_of_free hother hget heq
    · exact htop hmem
  wellFounded := h.wellFounded

/-- A listed child is listed once. -/
theorem count_childList (h : Forest nodes tops) (hget : nodes[id]? = some node) {childId : NodeId}
    (hmem : childId ∈ node.childList) : node.childList.count childId = 1 := by
  obtain ⟨child, hchild, hparent, -⟩ := h.child hget hmem
  obtain ⟨parentId, parent, hnames, hlister, hcount⟩ :=
    h.placed hchild fun htop => h.unlisted hget htop hmem
  rw [hparent] at hnames
  cases hnames
  rw [hget] at hlister
  cases hlister
  exact hcount

/-- A list of children has no id twice. -/
theorem nodup_childList (h : Forest nodes tops) (hget : nodes[id]? = some node) :
    node.childList.Nodup := by
  rw [List.nodup_iff_count_le_one]
  intro childId
  by_cases hmem : childId ∈ node.childList
  · exact (h.count_childList hget hmem).le
  · rw [List.count_eq_zero_of_not_mem hmem]
    exact Nat.zero_le _

/-- Two nodes that list the same child are the same. -/
theorem lister_unique (h : Forest nodes tops) {id' childId : NodeId} {node' : Node}
    (hget : nodes[id]? = some node) (hget' : nodes[id']? = some node')
    (hmem : childId ∈ node.childList) (hmem' : childId ∈ node'.childList) : id = id' := by
  obtain ⟨child, hchild, hparent, -⟩ := h.child hget hmem
  obtain ⟨child', hchild', hparent', -⟩ := h.child hget' hmem'
  rw [hchild] at hchild'
  cases hchild'
  exact Option.some.inj (hparent.symm.trans hparent')

/-- Without a top its children are tops. -/
theorem uproot (h : Forest nodes (id :: tops)) (hget : nodes[id]? = some node) :
    Forest (nodes.erase id) (node.childList ++ tops) where
  container hother := h.container (getElem?_erase_eq_some_iff.1 hother).2
  child {other childId lister} hother hmem := by
    obtain ⟨-, hother⟩ := getElem?_erase_eq_some_iff.1 hother
    obtain ⟨child, hchild, hrest⟩ := h.child hother hmem
    have hne : childId ≠ id := fun heq =>
      h.unlisted hother List.mem_cons_self (heq ▸ hmem)
    exact ⟨child, getElem?_erase_eq_some_iff.2 ⟨hne, hchild⟩, hrest⟩
  unlisted {other top lister} hother htop hmem := by
    obtain ⟨hne, hother⟩ := getElem?_erase_eq_some_iff.1 hother
    rcases List.mem_append.1 htop with hchild | htop
    · exact hne (h.lister_unique hother hget hmem hchild)
    · exact h.unlisted hother (List.mem_cons_of_mem _ htop) hmem
  placed {other lister} hother htop := by
    obtain ⟨hne, hother⟩ := getElem?_erase_eq_some_iff.1 hother
    rw [List.mem_append, not_or] at htop
    have hnot : other ∉ id :: tops := by
      rw [List.mem_cons, not_or]
      exact ⟨hne, htop.2⟩
    obtain ⟨parentId, parent, hparent, hlister, hcount⟩ := h.placed hother hnot
    refine ⟨parentId, parent, hparent, getElem?_erase_eq_some_iff.2 ⟨?_, hlister⟩, hcount⟩
    -- What the top lists is a top now.
    rintro rfl
    rw [hget] at hlister
    cases hlister
    exact htop.1 (List.count_pos_iff.1 (hcount ▸ Nat.one_pos))
  wellFounded := by
    refine wellFounded_of_subset h.wellFounded fun parent other hparent => ?_
    obtain ⟨below, hbelow, hnames⟩ := hparent
    exact ⟨below, (getElem?_erase_eq_some_iff.1 hbelow).2, hnames⟩

end Forest

/-! ## A new node -/

/-- A new node gathers some tops that name it, and does not hang from itself. -/
structure Gathers (nodes : Nodes) (tops : List NodeId) (id : NodeId) (node : Node) : Prop where
  free : nodes[id]? = none
  container : node.children.isSome = node.kind.isContainer
  nodup : node.childList.Nodup
  fitting : ∀ childId ∈ node.childList, childId ∉ tops ∧
    ∃ child, nodes[childId]? = some child ∧ child.parent = some id ∧
      node.kind.accepts child.kind = true
  parent : ∀ parent, node.parent = some parent →
    ¬ Relation.ReflTransGen (IsParent nodes) id parent

namespace Gathers

variable {nodes : Nodes} {tops : List NodeId} {id other : NodeId} {node n : Node}

theorem getElem?_insert_old (h : Gathers nodes tops id node) (hother : nodes[other]? = some n) :
    (nodes.insert id node)[other]? = some n :=
  (getElem?_insert_of_ne _ (ne_of_free hother h.free)).trans hother

theorem child (h : Gathers nodes tops id node) (hforest : Forest nodes (node.childList ++ tops))
    {childId : NodeId} (hother : (nodes.insert id node)[other]? = some n)
    (hmem : childId ∈ n.childList) :
    ∃ child, (nodes.insert id node)[childId]? = some child ∧ child.parent = some other ∧
      n.kind.accepts child.kind = true := by
  rw [getElem?_insert_eq] at hother
  split at hother
  case isTrue heq =>
    cases hother
    obtain ⟨child, hget, hrest⟩ := (h.fitting childId hmem).2
    exact ⟨child, h.getElem?_insert_old hget, heq ▸ hrest⟩
  case isFalse =>
    obtain ⟨child, hget, hrest⟩ := hforest.child hother hmem
    exact ⟨child, h.getElem?_insert_old hget, hrest⟩

theorem unlisted (h : Gathers nodes tops id node) (hforest : Forest nodes (node.childList ++ tops))
    {top : NodeId} (hother : (nodes.insert id node)[other]? = some n) (htop : top ∈ id :: tops) :
    top ∉ n.childList := by
  intro hmem
  rw [getElem?_insert_eq] at hother
  split at hother
  case isTrue =>
    cases hother
    obtain ⟨hnot, child, hget, -⟩ := h.fitting top hmem
    rcases List.mem_cons.1 htop with heq | htop
    · exact ne_of_free hget h.free heq
    · exact hnot htop
  case isFalse =>
    rcases List.mem_cons.1 htop with heq | htop
    · -- The id was free, and what a node lists exists.
      obtain ⟨child, hget, -⟩ := hforest.child hother hmem
      exact ne_of_free hget h.free heq
    · exact hforest.unlisted hother (List.mem_append_right _ htop) hmem

theorem placed (h : Gathers nodes tops id node) (hforest : Forest nodes (node.childList ++ tops))
    (hother : (nodes.insert id node)[other]? = some n) (htop : other ∉ id :: tops) :
    ∃ parentId parent, n.parent = some parentId ∧
      (nodes.insert id node)[parentId]? = some parent ∧ parent.childList.count other = 1 := by
  rw [List.mem_cons, not_or] at htop
  rw [getElem?_insert_of_ne _ htop.1] at hother
  by_cases hmem : other ∈ node.childList
  · -- It was a top, and the new node lists it.
    obtain ⟨-, child, hget, hnames, -⟩ := h.fitting other hmem
    rw [hother] at hget
    cases hget
    exact ⟨id, node, hnames, Std.ExtTreeMap.getElem?_insert_self,
      List.count_eq_one_of_mem h.nodup hmem⟩
  · obtain ⟨parentId, parent, hnames, hlister, hcount⟩ := hforest.placed hother
      fun hmem' => (List.mem_append.1 hmem').elim hmem htop.2
    exact ⟨parentId, parent, hnames, h.getElem?_insert_old hlister, hcount⟩

end Gathers

namespace Forest

variable {nodes : Nodes} {tops : List NodeId} {id : NodeId} {node : Node}

/-- A new node may be put above tops that name it. -/
theorem insert (h : Forest nodes (node.childList ++ tops)) (hgathers : Gathers nodes tops id node) :
    Forest (nodes.insert id node) (id :: tops) where
  container {other n} hother := by
    rw [getElem?_insert_eq] at hother
    split at hother
    · cases hother
      exact hgathers.container
    · exact h.container hother
  child hother hmem := hgathers.child h hother hmem
  unlisted hother htop := hgathers.unlisted h hother htop
  placed hother htop := hgathers.placed h hother htop
  wellFounded := by
    -- Only the new node has got a parent, and it is not above that parent.
    refine wellFounded_of_reparent id h.wellFounded ?_ ?_
    · intro parent other hother hnames
      rwa [isParent_insert_iff, if_neg hother] at hnames
    · intro parent hnames
      rw [isParent_insert_iff, if_pos rfl] at hnames
      exact hgathers.parent parent hnames

end Forest

/-! ## Another list of children -/

/-- A node gets another list of children: it drops some, and it gains some that name it. -/
structure Relists (nodes : Nodes) (tops gained dropped : List NodeId) (id : NodeId)
    (node node' : Node) : Prop where
  get : nodes[id]? = some node
  parent : node'.parent = node.parent
  kind : node'.kind = node.kind
  container : node'.children.isSome = node.children.isSome
  perm : (dropped ++ node'.childList).Perm (gained ++ node.childList)
  nodup : gained.Nodup
  fitting : ∀ childId ∈ gained, childId ∉ tops ∧
    ∃ child, nodes[childId]? = some child ∧ child.parent = some id ∧
      node.kind.accepts child.kind = true

namespace Relists

variable {nodes : Nodes} {tops gained dropped : List NodeId} {id other : NodeId}
  {node node' n : Node}

/-- Every node has its old parent and kind. -/
theorem exists_after (h : Relists nodes tops gained dropped id node node')
    (hother : nodes[other]? = some n) :
    ∃ n', (nodes.insert id node')[other]? = some n' ∧ n'.parent = n.parent ∧ n'.kind = n.kind := by
  rw [getElem?_insert_eq]
  by_cases heq : other = id
  · rw [heq, h.get] at hother
    cases hother
    exact ⟨node', if_pos heq, h.parent, h.kind⟩
  · exact ⟨n, (if_neg heq).trans hother, rfl, rfl⟩

theorem exists_before (h : Relists nodes tops gained dropped id node node')
    (hother : (nodes.insert id node')[other]? = some n) :
    ∃ old, nodes[other]? = some old ∧ n.parent = old.parent ∧ n.kind = old.kind := by
  rw [getElem?_insert_eq] at hother
  split at hother
  case isTrue heq =>
    cases hother
    exact ⟨node, heq ▸ h.get, h.parent, h.kind⟩
  case isFalse => exact ⟨n, hother, rfl, rfl⟩

/-- The new list and what was dropped have no id twice. -/
theorem nodup_lists (h : Relists nodes tops gained dropped id node node')
    (hforest : Forest nodes (gained ++ tops)) : (dropped ++ node'.childList).Nodup := by
  refine h.perm.nodup_iff.2 (h.nodup.append (hforest.nodup_childList h.get) fun childId hmem => ?_)
  exact hforest.unlisted h.get (List.mem_append_left _ hmem)

/-- What is listed afterwards was listed or gained. -/
theorem mem_gained_or_mem (h : Relists nodes tops gained dropped id node node') {childId : NodeId}
    (hmem : childId ∈ node'.childList) : childId ∈ gained ∨ childId ∈ node.childList :=
  List.mem_append.1 (h.perm.subset (List.mem_append_right _ hmem))

theorem child (h : Relists nodes tops gained dropped id node node')
    (hforest : Forest nodes (gained ++ tops)) {childId : NodeId}
    (hother : (nodes.insert id node')[other]? = some n) (hmem : childId ∈ n.childList) :
    ∃ child, (nodes.insert id node')[childId]? = some child ∧ child.parent = some other ∧
      n.kind.accepts child.kind = true := by
  have hchild : ∃ child, nodes[childId]? = some child ∧ child.parent = some other ∧
      n.kind.accepts child.kind = true := by
    rw [getElem?_insert_eq] at hother
    split at hother
    case isTrue heq =>
      cases hother
      rw [heq, h.kind]
      rcases h.mem_gained_or_mem hmem with hmem | hmem
      · exact (h.fitting childId hmem).2
      · exact hforest.child h.get hmem
    case isFalse => exact hforest.child hother hmem
  obtain ⟨child, hchild, hnames, haccepts⟩ := hchild
  obtain ⟨child', hchild', hparent', hkind'⟩ := h.exists_after hchild
  exact ⟨child', hchild', hparent'.trans hnames, hkind' ▸ haccepts⟩

theorem unlisted (h : Relists nodes tops gained dropped id node node')
    (hforest : Forest nodes (gained ++ tops)) {top : NodeId}
    (hother : (nodes.insert id node')[other]? = some n) (htop : top ∈ dropped ++ tops) :
    top ∉ n.childList := by
  intro hmem
  rw [getElem?_insert_eq] at hother
  split at hother
  case isTrue =>
    cases hother
    rcases List.mem_append.1 htop with htop | htop
    · exact List.disjoint_of_nodup_append (h.nodup_lists hforest) htop hmem
    · rcases h.mem_gained_or_mem hmem with hmem | hmem
      · exact (h.fitting top hmem).1 htop
      · exact hforest.unlisted h.get (List.mem_append_right _ htop) hmem
  case isFalse hne =>
    rcases List.mem_append.1 htop with htop | htop
    · -- What was dropped had been gained or listed by the changed node, so not by this one.
      rcases List.mem_append.1 (h.perm.subset (List.mem_append_left _ htop)) with htop | htop
      · exact hforest.unlisted hother (List.mem_append_left _ htop) hmem
      · exact hne (hforest.lister_unique hother h.get hmem htop)
    · exact hforest.unlisted hother (List.mem_append_right _ htop) hmem

/-- What is not dropped is listed by the changed node afterwards, if it was listed or gained. -/
theorem count_eq_one (h : Relists nodes tops gained dropped id node node')
    (hforest : Forest nodes (gained ++ tops)) (hmem : other ∈ gained ++ node.childList)
    (hnot : other ∉ dropped) : node'.childList.count other = 1 := by
  have hmem' := (List.mem_append.1 (h.perm.symm.subset hmem)).resolve_left hnot
  exact List.count_eq_one_of_mem (List.nodup_append.1 (h.nodup_lists hforest)).2.1 hmem'

theorem placed (h : Relists nodes tops gained dropped id node node')
    (hforest : Forest nodes (gained ++ tops))
    (hother : (nodes.insert id node')[other]? = some n) (htop : other ∉ dropped ++ tops) :
    ∃ parentId parent, n.parent = some parentId ∧
      (nodes.insert id node')[parentId]? = some parent ∧ parent.childList.count other = 1 := by
  rw [List.mem_append, not_or] at htop
  obtain ⟨old, hold, hnames, -⟩ := h.exists_before hother
  by_cases hmem : other ∈ gained
  · -- It was a top, and the changed node lists it now.
    obtain ⟨-, child, hchild, hparent, -⟩ := h.fitting other hmem
    rw [hold] at hchild
    cases hchild
    exact ⟨id, node', hnames.trans hparent, Std.ExtTreeMap.getElem?_insert_self,
      h.count_eq_one hforest (List.mem_append_left _ hmem) htop.1⟩
  · obtain ⟨parentId, parent, hparent, hlister, hcount⟩ := hforest.placed hold
      fun hmem' => (List.mem_append.1 hmem').elim hmem htop.2
    by_cases heq : parentId = id
    · -- The changed node listed it, and has not dropped it.
      rw [heq, h.get] at hlister
      cases hlister
      have hlisted : other ∈ node.childList := List.count_pos_iff.1 (hcount ▸ Nat.one_pos)
      exact ⟨id, node', hnames.trans (heq ▸ hparent), Std.ExtTreeMap.getElem?_insert_self,
        h.count_eq_one hforest (List.mem_append_right _ hlisted) htop.1⟩
    · exact ⟨parentId, parent, hnames.trans hparent,
        (getElem?_insert_of_ne _ heq).trans hlister, hcount⟩

end Relists

namespace Forest

variable {nodes : Nodes} {tops : List NodeId} {id : NodeId} {node node' : Node}

/-- A node may get another list of children: those that it drops become tops, and those that it
gains were tops and name it. -/
theorem relist {gained dropped : List NodeId} (h : Forest nodes (gained ++ tops))
    (hlists : Relists nodes tops gained dropped id node node') :
    Forest (nodes.insert id node') (dropped ++ tops) where
  container {other n} hother := by
    rw [getElem?_insert_eq] at hother
    split at hother
    · cases hother
      rw [hlists.container, hlists.kind]
      exact h.container hlists.get
    · exact h.container hother
  child hother hmem := hlists.child h hother hmem
  unlisted hother htop := hlists.unlisted h hother htop
  placed hother htop := hlists.placed h hother htop
  wellFounded := by
    -- Nobody has got another parent.
    refine wellFounded_of_subset h.wellFounded fun parent other hnames => ?_
    obtain ⟨n, hother, hparent⟩ := hnames
    obtain ⟨old, hold, hsame, -⟩ := hlists.exists_before hother
    exact ⟨old, hold, hsame ▸ hparent⟩

/-- A node may get another record of the same kind. -/
theorem replace (h : Forest nodes tops) (hget : nodes[id]? = some node)
    (hparent : node'.parent = node.parent) (hkind : node'.kind = node.kind)
    (hchildren : node'.children = node.children) : Forest (nodes.insert id node') tops := by
  have hlist : node'.childList = node.childList := by rw [Node.childList, hchildren]; rfl
  have hlists : Relists nodes tops [] [] id node node' := by
    refine ⟨hget, hparent, hkind, ?_, ?_, List.nodup_nil, ?_⟩
    · rw [hchildren]
    · rw [hlist]
    · exact fun _ hmem => absurd hmem List.not_mem_nil
  exact relist h hlists

/-- A top may name another parent that is neither itself nor below it. -/
theorem repoint (h : Forest nodes tops) (htop : id ∈ tops) (hget : nodes[id]? = some node)
    {parentId : NodeId} (hnot : ¬ Relation.ReflTransGen (IsParent nodes) id parentId) :
    Forest (nodes.insert id { node with parent := some parentId }) tops := by
  refine ⟨?_, ?_, ?_, ?_, ?_⟩
  · intro other n' hother
    rw [getElem?_insert_eq] at hother
    split at hother
    · cases hother
      change node.children.isSome = node.kind.isContainer
      exact h.container hget
    · exact h.container hother
  · intro other childId n' hother hmem
    rw [getElem?_insert_eq] at hother
    -- No list of children has changed, and the top is on none of them.
    have hchild : ∃ child, nodes[childId]? = some child ∧ child.parent = some other ∧
        n'.kind.accepts child.kind = true ∧ childId ≠ id := by
      split at hother
      case isTrue heq =>
        cases hother
        obtain ⟨child, hchild, hrest⟩ := h.child hget hmem
        exact ⟨child, hchild, heq ▸ hrest.1, hrest.2, fun heq' =>
          h.unlisted hget htop (heq' ▸ hmem)⟩
      case isFalse =>
        obtain ⟨child, hchild, hrest⟩ := h.child hother hmem
        exact ⟨child, hchild, hrest.1, hrest.2, fun heq' => h.unlisted hother htop (heq' ▸ hmem)⟩
    obtain ⟨child, hchild, hnames, haccepts, hne⟩ := hchild
    exact ⟨child, (getElem?_insert_of_ne _ hne).trans hchild, hnames, haccepts⟩
  · intro other top n' hother hmem
    rw [getElem?_insert_eq] at hother
    split at hother
    · cases hother
      change top ∉ node.childList
      exact h.unlisted hget hmem
    · exact h.unlisted hother hmem
  · intro other n' hother hmem
    have hne : other ≠ id := fun heq => hmem (heq ▸ htop)
    rw [getElem?_insert_of_ne _ hne] at hother
    obtain ⟨above, parent, hnames, hlister, hcount⟩ := h.placed hother hmem
    by_cases heq : above = id
    · rw [heq, hget] at hlister
      cases hlister
      exact ⟨id, _, heq ▸ hnames, Std.ExtTreeMap.getElem?_insert_self, hcount⟩
    · exact ⟨above, parent, hnames, (getElem?_insert_of_ne _ heq).trans hlister, hcount⟩
  · -- Only the top has got a new parent, which does not hang from it.
    refine wellFounded_of_reparent id h.wellFounded ?_ ?_
    · intro parent other hother hnames
      rwa [isParent_insert_iff, if_neg hother] at hnames
    · intro parent hnames
      rw [isParent_insert_iff, if_pos rfl] at hnames
      cases hnames
      exact hnot

/-- Without tops there are no nodes, for every chain of parents leads to a top. -/
theorem eq_empty (h : Forest nodes []) : nodes = ∅ := by
  refine Std.ExtTreeMap.ext_getElem? fun id => ?_
  rw [Std.ExtTreeMap.getElem?_empty]
  induction id using h.wellFounded.induction with
  | _ id ih =>
    cases hget : nodes[id]? with
    | none => rfl
    | some node =>
      obtain ⟨parentId, parent, hnames, hparent, -⟩ := h.placed hget List.not_mem_nil
      rw [ih parentId ⟨node, hget, hnames⟩] at hparent
      cases hparent

/-! ## Taking trees away -/

theorem eraseAll_subset (stack : List NodeId) {n : Node}
    (hget : (Tree.eraseAll nodes stack)[id]? = some n) : nodes[id]? = some n := by
  fun_induction Tree.eraseAll nodes stack with
  | case1 nodes => exact hget
  | case2 nodes other stack hnone ih => exact ih hget
  | case3 nodes other stack node hother hlt ih =>
    exact (getElem?_erase_eq_some_iff.1 (ih hget)).2

/-- Without some tops and all that hangs from them, the other tops are left. -/
theorem eraseAll {stack : List NodeId} (h : Forest nodes (stack ++ tops))
    (hdisjoint : List.Disjoint stack tops) :
    Forest (Tree.eraseAll nodes stack) tops ∧
      ∀ top ∈ tops, (Tree.eraseAll nodes stack)[top]? = nodes[top]? := by
  fun_induction Tree.eraseAll nodes stack with
  | case1 nodes => exact ⟨h, fun _ _ => rfl⟩
  | case2 nodes other stack hnone ih =>
    exact ih (h.drop_missing hnone) (List.disjoint_of_disjoint_cons_left hdisjoint)
  | case3 nodes other stack node hother hlt ih =>
    have hforest : Forest (nodes.erase other) ((node.childList ++ stack) ++ tops) := by
      rw [List.append_assoc]
      exact h.uproot hother
    -- The children of a top that is taken away take its place on the stack.
    have hapart : List.Disjoint (node.childList ++ stack) tops := by
      rw [List.disjoint_append_left]
      refine ⟨fun top hmem htop => ?_, List.disjoint_of_disjoint_cons_left hdisjoint⟩
      exact h.unlisted hother (List.mem_append_right _ htop) hmem
    obtain ⟨hleft, hkept⟩ := ih hforest hapart
    refine ⟨hleft, fun top htop => (hkept top htop).trans ?_⟩
    refine getElem?_erase_of_ne ?_
    rintro rfl
    exact hdisjoint List.mem_cons_self htop

end Forest

end MailTemplate
