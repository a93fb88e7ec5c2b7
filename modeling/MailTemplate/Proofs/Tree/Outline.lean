import MailTemplate.Proofs.Tree.Soundness
import Mathlib.Data.List.Nodup

/-!
# Outlines

An outline is a component with the components that it holds, as one finite value: there are no ids
to follow and nothing can be missing or listed twice. A tree of nodes has no violations just if it
is the unfolding of a lawful outline.

* `Outline.entries` unfolds an outline into nodes by id.
* `Forest.exists_folds` folds a forest into outlines, one for each of its tops.
* `violations_eq_nil_iff_outline` is the characterisation.
-/

namespace MailTemplate

/-- A component with its id and the components that it holds, in order. -/
inductive Outline where
  | node (id : NodeId) (properties : Properties) (held : List Outline)

namespace Outline

/-- Induction over an outline, with a hypothesis for each component that it holds. -/
@[elab_as_elim, induction_eliminator]
theorem induct {motive : Outline → Prop}
    (node : ∀ id properties held, (∀ o ∈ held, motive o) → motive (.node id properties held)) :
    ∀ outline, motive outline
  | .node id properties held => node id properties held fun o _ => induct node o

/-- The id of the component. -/
def id : Outline → NodeId
  | node id _ _ => id

/-- What the component records. -/
def properties : Outline → Properties
  | node _ properties _ => properties

/-- The components that it holds. -/
def held : Outline → List Outline
  | node _ _ held => held

/-- The node of the component itself, which lists what it holds if its kind holds anything. -/
def place (parent : Option NodeId) (outline : Outline) : Node where
  parent := parent
  properties := outline.properties
  children := if outline.properties.kind.isContainer then some (outline.held.map id) else none

/-- The nodes of an outline by id, each before those that it holds. -/
def entries (parent : Option NodeId) : Outline → List (NodeId × Node)
  | node id properties held =>
    (id, (node id properties held).place parent) :: held.flatMap (entries (some id))

/-- Every component holds what its kind accepts, and a row two to four columns, whose number it
records. -/
inductive Lawful : Outline → Prop
  | node {id : NodeId} {properties : Properties} {held : List Outline}
    (accepts : ∀ o ∈ held, properties.kind.accepts o.properties.kind = true)
    (columns : ∀ row, properties = .columns row → minColumns ≤ held.length ∧
      held.length ≤ maxColumns ∧ row.columns.toNat = held.length)
    (lawful : ∀ o ∈ held, o.Lawful) : Lawful (.node id properties held)

variable {outline : Outline} {parent : Option NodeId}

theorem mem_entries_self (outline : Outline) (parent : Option NodeId) :
    (outline.id, outline.place parent) ∈ outline.entries parent := by
  cases outline with
  | node id properties held =>
    rw [entries]
    exact List.mem_cons_self

/-- A lawful component lists what it holds. -/
theorem Lawful.childList_place (h : outline.Lawful) :
    (outline.place parent).childList = outline.held.map id := by
  unfold place Node.childList
  split
  · rfl
  case isFalse hleaf =>
    cases h with
    | node accepts columns lawful =>
      rename_i id properties held
      cases held with
      | nil => rfl
      | cons o held =>
        exact absurd (Kind.isContainer_of_accepts (accepts o List.mem_cons_self)) hleaf

theorem mem_entries_node {id : NodeId} {properties : Properties} {held : List Outline}
    {entry : NodeId × Node} :
    entry ∈ (node id properties held).entries parent ↔
      entry = (id, (node id properties held).place parent) ∨
        ∃ o ∈ held, entry ∈ o.entries (some id) := by
  rw [entries, List.mem_cons, List.mem_flatMap]

/-! ## From an outline to nodes -/

variable {entry : NodeId × Node}

theorem container_of_mem (hmem : entry ∈ outline.entries parent) :
    entry.2.children.isSome = entry.2.kind.isContainer := by
  induction outline generalizing parent with
  | node id properties held ih =>
    rcases mem_entries_node.1 hmem with rfl | ⟨o, ho, hmem⟩
    · unfold place Node.kind
      cases (node id properties held).properties.kind.isContainer <;> rfl
    · exact ih o ho hmem

theorem Lawful.child_of_mem (h : outline.Lawful) (hmem : entry ∈ outline.entries parent)
    {childId : NodeId} (hchild : childId ∈ entry.2.childList) :
    ∃ child, (childId, child) ∈ outline.entries parent ∧ child.parent = some entry.1 ∧
      entry.2.kind.accepts child.kind = true := by
  induction h generalizing parent with
  | @node id properties held accepts columns lawful ih =>
    rcases mem_entries_node.1 hmem with rfl | ⟨o, ho, hmem⟩
    · rw [(Lawful.node accepts columns lawful).childList_place] at hchild
      obtain ⟨o, ho, rfl⟩ := List.mem_map.1 hchild
      exact ⟨o.place (some id), mem_entries_node.2 (.inr ⟨o, ho, o.mem_entries_self _⟩), rfl,
        accepts o ho⟩
    · obtain ⟨child, hget, hrest⟩ := ih o ho hmem
      exact ⟨child, mem_entries_node.2 (.inr ⟨o, ho, hget⟩), hrest⟩

/-- Every component but the whole is listed by the one that it names. -/
theorem Lawful.lister_of_mem (h : outline.Lawful) (hmem : entry ∈ outline.entries parent) :
    entry = (outline.id, outline.place parent) ∨
      ∃ lister ∈ outline.entries parent, entry.2.parent = some lister.1 ∧
        entry.1 ∈ lister.2.childList := by
  induction h generalizing parent with
  | @node id properties held accepts columns lawful ih =>
    rcases mem_entries_node.1 hmem with rfl | ⟨o, ho, hmem⟩
    · exact .inl rfl
    · rcases ih o ho hmem with rfl | ⟨lister, hlister, hrest⟩
      · refine .inr ⟨_, mem_entries_node.2 (.inl rfl), rfl, ?_⟩
        rw [(Lawful.node accepts columns lawful).childList_place]
        exact List.mem_map_of_mem ho
      · exact .inr ⟨lister, mem_entries_node.2 (.inr ⟨o, ho, hlister⟩), hrest⟩

theorem Lawful.columns_of_mem (h : outline.Lawful) (hmem : entry ∈ outline.entries parent)
    {row : Columns} (hrow : entry.2.properties = .columns row) : entry.2.Fits := by
  induction h generalizing parent with
  | @node id properties held accepts columns lawful ih =>
    rcases mem_entries_node.1 hmem with rfl | ⟨o, ho, hmem⟩
    · unfold Node.Fits
      rw [hrow, (Lawful.node accepts columns lawful).childList_place, List.length_map]
      exact columns row hrow
    · exact ih o ho hmem

/-- The ids of what a component holds are among the ids of all that hangs from it. -/
theorem sublist_ids (held : List Outline) (parent : Option NodeId) :
    (held.map id).Sublist ((held.flatMap (entries parent)).map Prod.fst) := by
  induction held with
  | nil => exact List.Sublist.slnil
  | cons o held ih =>
    rw [List.flatMap_cons, List.map_append, List.map_cons]
    cases o with
    | node id properties inner =>
      rw [entries, List.map_cons, List.cons_append]
      exact (ih.trans (List.sublist_append_right _ _)).cons_cons id

theorem Lawful.nodup_childList_of_mem (h : outline.Lawful)
    (hnodup : ((outline.entries parent).map Prod.fst).Nodup)
    (hmem : entry ∈ outline.entries parent) : entry.2.childList.Nodup := by
  induction h generalizing parent with
  | @node id properties held accepts columns lawful ih =>
    rw [entries, List.map_cons, List.nodup_cons] at hnodup
    rcases mem_entries_node.1 hmem with rfl | ⟨o, ho, hmem⟩
    · rw [(Lawful.node accepts columns lawful).childList_place]
      exact hnodup.2.sublist (sublist_ids held (some id))
    · -- The ids of one of the held are a part of the ids of all of them.
      refine ih o ho (hnodup.2.sublist ?_) hmem
      rw [List.map_flatMap, List.flatMap_def]
      exact List.sublist_flatten_of_mem (List.mem_map_of_mem ho)

/-- The chain of parents of a component goes through the components that hold it. -/
theorem acc_of_mem {nodes : Nodes}
    (hget : ∀ e ∈ outline.entries parent, nodes[e.1]? = some e.2)
    (hparent : ∀ above, parent = some above → Acc (IsParent nodes) above)
    (hmem : entry ∈ outline.entries parent) : Acc (IsParent nodes) entry.1 := by
  induction outline generalizing parent with
  | node id properties held ih =>
    -- A component names just the one that holds it, whose chain ends.
    have hself : Acc (IsParent nodes) id := by
      refine ⟨_, fun above habove => hparent above ?_⟩
      exact (isParent_iff (hget _ (mem_entries_self _ _))).1 habove
    rcases mem_entries_node.1 hmem with rfl | ⟨o, ho, hmem⟩
    · exact hself
    · refine ih o ho (fun e he => hget e (mem_entries_node.2 (.inr ⟨o, ho, he⟩))) ?_ hmem
      rintro above ⟨⟩
      exact hself

/-- The nodes of a lawful outline hang together below its id. -/
theorem Lawful.forest {nodes : Nodes} (h : outline.Lawful)
    (hperm : (outline.entries none).Perm nodes.toList) : Forest nodes [outline.id] := by
  have hmem : ∀ {id : NodeId} {node : Node}, nodes[id]? = some node →
      (id, node) ∈ outline.entries none :=
    fun hget => hperm.mem_iff.2 (mem_toList_iff.2 hget)
  have hget : ∀ e ∈ outline.entries none, nodes[e.1]? = some e.2 :=
    fun e he => mem_toList_iff.1 (hperm.mem_iff.1 he)
  have hnodup : ((outline.entries none).map Prod.fst).Nodup :=
    (hperm.map Prod.fst).nodup_iff.2 nodup_ids
  have hchild : ∀ {id childId : NodeId} {node : Node}, nodes[id]? = some node →
      childId ∈ node.childList → ∃ child, nodes[childId]? = some child ∧ child.parent = some id ∧
        node.kind.accepts child.kind = true := by
    intro id childId node hnode hlisted
    obtain ⟨child, hentry, hrest⟩ := h.child_of_mem (hmem hnode) hlisted
    exact ⟨child, hget _ hentry, hrest⟩
  refine ⟨fun hnode => container_of_mem (hmem hnode), hchild, ?_, ?_, ⟨fun id => ?_⟩⟩
  · -- The whole names no parent, so it is not listed.
    intro id top node hnode htop hlisted
    obtain ⟨child, htop', hparent, -⟩ := hchild hnode hlisted
    rw [List.mem_singleton.1 htop, hget _ (mem_entries_self outline none)] at htop'
    cases htop'
    cases hparent
  · intro id node hnode htop
    rcases h.lister_of_mem (hmem hnode) with heq | ⟨lister, hlister, hnames, hlisted⟩
    · exact absurd (List.mem_singleton.2 (congrArg Prod.fst heq)) htop
    · exact ⟨lister.1, lister.2, hnames, hget _ hlister,
        List.count_eq_one_of_mem (h.nodup_childList_of_mem hnodup hlister) hlisted⟩
  · cases hnode : nodes[id]? with
    | some node => exact acc_of_mem hget (fun _ habove => nomatch habove) (hmem hnode)
    | none =>
      refine ⟨_, fun above habove => ?_⟩
      obtain ⟨node, hsome, -⟩ := habove
      rw [hnode] at hsome
      cases hsome

end Outline

/-! ## From nodes to outlines -/

variable {nodes : Nodes} {id : NodeId} {node : Node}

theorem toList_perm_cons_erase (hget : nodes[id]? = some node) :
    ((id, node) :: (nodes.erase id).toList).Perm nodes.toList := by
  have hnodup : ∀ nodes : Nodes, nodes.toList.Nodup := fun _ => List.Nodup.of_map _ nodup_ids
  refine (List.perm_ext_iff_of_nodup (List.nodup_cons.2 ⟨?_, hnodup _⟩) (hnodup _)).2 ?_
  · rw [mem_toList_iff, getElem?_erase_eq_some_iff]
    exact fun h => h.1 rfl
  · rintro ⟨other, n⟩
    rw [List.mem_cons, mem_toList_iff, mem_toList_iff, getElem?_erase_eq_some_iff, Prod.mk.injEq]
    by_cases heq : other = id
    · subst heq
      simp [hget, eq_comm]
    · simp [heq]

theorem Outline.place_eq {held : List Outline}
    (hcontainer : node.children.isSome = node.kind.isContainer)
    (hheld : held.map Outline.id = node.childList) :
    (Outline.node id node.properties held).place node.parent = node := by
  have hchildren := Node.children_eq hcontainer
  rw [← hheld] at hchildren
  exact congrArg (Node.mk node.parent node.properties) hchildren.symm

/-- Nodes are the unfolding of lawful outlines, one for each top. -/
structure Folds (nodes : Nodes) (tops : List NodeId) (outlines : List Outline) : Prop where
  ids : outlines.map Outline.id = tops
  lawful : ∀ o ∈ outlines, o.Lawful
  perm : (outlines.flatMap fun o => o.entries ((nodes[o.id]?).bind Node.parent)).Perm nodes.toList

section Uproot

variable {top : NodeId} {tops : List NodeId}

/-- The tops that are left without a top, and those that come of it, are as they were. -/
theorem Forest.getElem?_erase_top (h : Forest nodes (top :: tops)) (hget : nodes[top]? = some node)
    (hnot : top ∉ tops) (hmem : id ∈ node.childList ++ tops) :
    (nodes.erase top)[id]? = nodes[id]? := by
  refine getElem?_erase_of_ne ?_
  rintro rfl
  rcases List.mem_append.1 hmem with hmem | hmem
  · exact h.unlisted hget List.mem_cons_self hmem
  · exact hnot hmem

/-- What a top lists are not tops. -/
theorem Forest.nodup_uproot (h : Forest nodes (top :: tops)) (hget : nodes[top]? = some node)
    (hnodup : tops.Nodup) : (node.childList ++ tops).Nodup :=
  (h.nodup_childList hget).append hnodup fun _ hmem htop =>
    h.unlisted hget (List.mem_cons_of_mem _ htop) hmem

/-- The outlines of what a top lists are put together to the outline of the top. -/
theorem Folds.cons {held rest : List Outline} (h : Forest nodes (top :: tops))
    (hget : nodes[top]? = some node) (hnot : top ∉ tops) (hfits : node.Fits)
    (hfolds : Folds (nodes.erase top) (node.childList ++ tops) (held ++ rest))
    (hheld : held.map Outline.id = node.childList) (hrest : rest.map Outline.id = tops) :
    Folds nodes (top :: tops) (.node top node.properties held :: rest) := by
  have herase : ∀ id ∈ node.childList ++ tops, (nodes.erase top)[id]? = nodes[id]? :=
    fun id hmem => h.getElem?_erase_top hget hnot hmem
  have hlisted : ∀ o ∈ held, o.id ∈ node.childList := fun o ho =>
    hheld ▸ List.mem_map_of_mem ho
  -- What the top lists names it as the parent, and the other tops name what they did.
  have hbelow : held.flatMap (fun o =>
      o.entries (((nodes.erase top)[o.id]?).bind Node.parent)) =
      held.flatMap (Outline.entries (some top)) := by
    refine List.flatMap_congr fun o ho => ?_
    obtain ⟨child, hchild, hnames, -⟩ := h.child hget (hlisted o ho)
    rw [herase o.id (List.mem_append_left _ (hlisted o ho)), hchild, Option.bind_some, hnames]
  have hother : rest.flatMap (fun o =>
      o.entries (((nodes.erase top)[o.id]?).bind Node.parent)) =
      rest.flatMap (fun o => o.entries ((nodes[o.id]?).bind Node.parent)) := by
    refine List.flatMap_congr fun o ho => ?_
    rw [herase o.id (List.mem_append_right _ (hrest ▸ List.mem_map_of_mem ho))]
  have hperm := hfolds.perm
  rw [List.flatMap_append, hbelow, hother] at hperm
  refine ⟨congrArg (top :: ·) hrest, fun o ho => ?_, ?_⟩
  · rcases List.mem_cons.1 ho with rfl | ho
    · refine .node (fun o ho => ?_) (fun row hrow => ?_) fun o ho =>
        hfolds.lawful o (List.mem_append_left _ ho)
      · -- The outline of a child has the child at its top, so it is of the kind of the child.
        obtain ⟨child, hchild, -, haccepts⟩ := h.child hget (hlisted o ho)
        have hplace : (o.id, o.place (some top)) ∈ (nodes.erase top).toList :=
          hperm.subset (List.mem_append_left _
            (List.mem_flatMap.2 ⟨o, ho, o.mem_entries_self (some top)⟩))
        rw [mem_toList_iff, herase o.id (List.mem_append_left _ (hlisted o ho)), hchild] at hplace
        cases hplace
        exact haccepts
      · unfold Node.Fits at hfits
        rw [hrow, ← hheld, List.length_map] at hfits
        exact hfits
    · exact hfolds.lawful o (List.mem_append_right _ ho)
  · -- The entries of the top and of what it holds, and then those of the other tops.
    rw [List.flatMap_cons, Outline.id, hget, Option.bind_some, Outline.entries,
      Outline.place_eq (h.container hget) hheld, List.cons_append]
    exact (hperm.cons _).trans (toList_perm_cons_erase hget)

end Uproot

/-- A forest is the unfolding of outlines, one for each top. -/
theorem Forest.exists_folds {tops : List NodeId} (h : Forest nodes tops) (hnodup : tops.Nodup)
    (hpresent : ∀ top ∈ tops, ∃ node, nodes[top]? = some node)
    (hfits : ∀ {id : NodeId} {node : Node}, nodes[id]? = some node → node.Fits) :
    ∃ outlines, Folds nodes tops outlines := by
  -- The induction takes one top away at a time, so there is one node less.
  induction hsize : nodes.size using Nat.strong_induction_on generalizing nodes tops with
  | _ n ih =>
    cases tops with
    | nil =>
      refine ⟨[], rfl, fun _ ho => absurd ho List.not_mem_nil, ?_⟩
      rw [h.eq_empty]
      exact List.Perm.refl _
    | cons top tops =>
      obtain ⟨node, hget⟩ := hpresent top List.mem_cons_self
      rw [List.nodup_cons] at hnodup
      have hpresent' : ∀ id ∈ node.childList ++ tops, ∃ n, (nodes.erase top)[id]? = some n := by
        intro id hmem
        rw [h.getElem?_erase_top hget hnodup.1 hmem]
        rcases List.mem_append.1 hmem with hmem | hmem
        · obtain ⟨child, hchild, -⟩ := h.child hget hmem
          exact ⟨child, hchild⟩
        · exact hpresent id (List.mem_cons_of_mem _ hmem)
      obtain ⟨outlines, hfolds⟩ := ih _ (hsize ▸ Tree.size_erase_lt hget) (h.uproot hget)
        (h.nodup_uproot hget hnodup.2) hpresent'
        (fun hother => hfits (getElem?_erase_eq_some_iff.1 hother).2) rfl
      -- The outlines come in the order of the tops, so those of the children come first.
      obtain ⟨held, rest, rfl, hheld, hrest⟩ := List.map_eq_append_iff.1 hfolds.ids
      exact ⟨_, hfolds.cons h hget hnodup.1 (hfits hget) hheld hrest⟩

theorem clampWidth_eq_self_iff (width : UInt32) :
    clampWidth width = width ↔ minWidth ≤ width ∧ width ≤ maxWidth := by
  unfold clampWidth
  by_cases hmin : width < minWidth
  · rw [if_pos hmin]
    exact ⟨fun h => absurd (h ▸ hmin) (UInt32.lt_irrefl _),
      fun h => absurd hmin (UInt32.not_lt.2 h.1)⟩
  · rw [if_neg hmin]
    by_cases hmax : maxWidth < width
    · rw [if_pos hmax]
      exact ⟨fun h => absurd (h ▸ hmax) (UInt32.lt_irrefl _),
        fun h => absurd hmax (UInt32.not_lt.2 h.2)⟩
    · rw [if_neg hmax]
      exact ⟨fun _ => ⟨UInt32.not_lt.1 hmin, UInt32.not_lt.1 hmax⟩, fun _ => rfl⟩

/-- A tree has no violations just if it is the unfolding of one lawful outline: the whole is the
root, which names no parent and is as wide as it may be, and each node of the tree is one of the
nodes of the outline, once. -/
theorem Tree.violations_eq_nil_iff_outline (tree : Tree) :
    tree.violations = [] ↔
      ∃ (page : Page) (held : List Outline),
        minWidth ≤ page.maxWidth ∧ page.maxWidth ≤ maxWidth ∧
        (Outline.node rootId (.root page) held).Lawful ∧
        ((Outline.node rootId (.root page) held).entries none).Perm tree.nodes.toList := by
  rw [violations_eq_nil_iff_sound]
  constructor
  · intro h
    obtain ⟨root, hroot, hparent, hkind⟩ := h.root
    obtain ⟨page, hpage⟩ := Node.kind_eq_root hkind
    obtain ⟨outlines, hids, hlawful, hperm⟩ := h.forest.exists_folds (List.nodup_singleton rootId)
      (fun top htop => ⟨root, List.mem_singleton.1 htop ▸ hroot⟩)
      fun hget => h.fits hget List.not_mem_nil
    -- There is one top, so there is one outline, and at its top is the root.
    obtain ⟨⟨top, properties, held⟩, rfl, htop⟩ := List.map_eq_singleton_iff.1 hids
    change top = rootId at htop
    subst htop
    have hentries : (Outline.node rootId properties held).entries
        ((tree.nodes[rootId]?).bind Node.parent) = (Outline.node rootId properties held).entries
          none := by
      rw [hroot, Option.bind_some, hparent]
    rw [List.flatMap_singleton, Outline.id, hentries] at hperm
    have hplace : tree.nodes[rootId]? =
        some ((Outline.node rootId properties held).place none) :=
      mem_toList_iff.1 (hperm.subset (Outline.mem_entries_self _ none))
    rw [hroot] at hplace
    cases hplace
    change properties = .root page at hpage
    subst hpage
    have hfits : (Outline.place none (.node rootId (.root page) held)).Fits :=
      h.fits hroot List.not_mem_nil
    have hwidth := (clampWidth_eq_self_iff page.maxWidth).1 hfits
    exact ⟨page, held, hwidth.1, hwidth.2, hlawful _ List.mem_cons_self, hperm⟩
  · rintro ⟨page, held, hmin, hmax, hlawful, hperm⟩
    have hforest := hlawful.forest hperm
    have hroot : tree.nodes[rootId]? =
        some ((Outline.node rootId (.root page) held).place none) :=
      mem_toList_iff.1 (hperm.subset (Outline.mem_entries_self _ none))
    refine ⟨⟨_, hroot, rfl, rfl⟩, hforest, fun {id node} hget _ => ?_⟩
    -- The root is bound by the width of its page, and of the others only the rows by anything.
    by_cases heq : id = rootId
    · rw [heq, hroot] at hget
      cases hget
      exact (clampWidth_eq_self_iff _).2 ⟨hmin, hmax⟩
    · exact Node.fits_of_columns (hforest.kind_ne_root hget heq) fun row hrow =>
        hlawful.columns_of_mem (hperm.mem_iff.2 (mem_toList_iff.2 hget)) hrow

end MailTemplate
