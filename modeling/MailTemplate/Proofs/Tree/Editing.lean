import MailTemplate.Proofs.Tree.Applied
import MailTemplate.Proofs.Tree.Columns
import Mathlib.Data.List.Perm.Lattice

/-!
# Edits Keep Trees Sound

Each edit that applies to a sound tree gives a sound tree.
-/

namespace MailTemplate

theorem minColumns_le_clampColumns (count : Nat) : minColumns ≤ clampColumns count := by
  unfold clampColumns minColumns maxColumns
  split <;> [skip; split] <;> omega

theorem clampColumns_le_maxColumns (count : Nat) : clampColumns count ≤ maxColumns := by
  unfold clampColumns minColumns maxColumns
  split <;> [skip; split] <;> omega

theorem Node.isSome_children_of_mem {node : Node} {id : NodeId} (h : id ∈ node.childList) :
    node.children.isSome = true := by
  unfold childList at h
  cases hchildren : node.children with
  | none =>
    rw [hchildren] at h
    cases h
  | some list => rfl

namespace Tree

/-! ## Lists of children -/

theorem insertAt_perm {α : Type} (list : List α) (position : Nat) (a : α) :
    (insertAt list position a).Perm (a :: list) := by
  have hmiddle : (list.take position ++ a :: list.drop position).Perm
      (a :: (list.take position ++ list.drop position)) := List.perm_middle
  rwa [List.take_append_drop] at hmiddle

theorem moveEntry_perm {α : Type} (list : List α) (source target : Nat) :
    (moveEntry list source target).Perm list := by
  unfold moveEntry
  split
  case h_1 a ha =>
    obtain ⟨hlt, rfl⟩ := List.getElem?_eq_some_iff.1 ha
    exact (insertAt_perm _ target _).trans (List.getElem_cons_eraseIdx_perm hlt)
  case h_2 => exact List.Perm.refl list

/-- In a list without repetitions there is one entry to take off. -/
theorem without_eq_erase {list : List NodeId} (id : NodeId) (hnodup : list.Nodup) :
    without id list = list.erase id := by
  rw [hnodup.erase_eq_filter, without]
  exact List.filter_congr fun other _ => by rw [decide_not]; rfl

theorem cons_without_perm {list : List NodeId} {id : NodeId} (hnodup : list.Nodup)
    (hmem : id ∈ list) : (id :: without id list).Perm list := by
  rw [without_eq_erase id hnodup]
  exact (List.perm_cons_erase hmem).symm

theorem length_without {list : List NodeId} {id : NodeId} (hnodup : list.Nodup)
    (hmem : id ∈ list) : (without id list).length + 1 = list.length :=
  (cons_without_perm hnodup hmem).length_eq

variable {tree next : Tree} {id : NodeId} {node : Node}

theorem nodes_modifyChildren_of_some (hget : tree.nodes[id]? = some node)
    (hcontainer : node.children.isSome = true) (change : List NodeId → List NodeId) :
    (tree.modifyChildren id change).nodes =
      tree.nodes.insert id { node with children := some (change node.childList) } := by
  rw [nodes_modifyChildren, modify_eq_insert _ hget, Node.children_eq_some hcontainer,
    Option.map_some]

/-- A changed list of children leaves the parents and the records as they are. -/
theorem getElem?_modifyChildren_of_some {other : NodeId} {n : Node} (id : NodeId)
    (change : List NodeId → List NodeId) (hget : tree.nodes[other]? = some n) :
    ∃ n', (tree.modifyChildren id change).nodes[other]? = some n' ∧ n'.parent = n.parent ∧
      n'.properties = n.properties := by
  rw [nodes_modifyChildren, getElem?_modify_eq, hget]
  split
  · exact ⟨_, rfl, rfl, rfl⟩
  · exact ⟨n, rfl, rfl, rfl⟩

theorem getElem?_writeColumnCount_of_some {other : NodeId} {n : Node} (id : NodeId) (count : Nat)
    (hget : tree.nodes[other]? = some n) :
    ∃ n', (tree.writeColumnCount id count).nodes[other]? = some n' ∧ n'.parent = n.parent ∧
      n'.kind = n.kind ∧ n'.children = n.children := by
  rw [nodes_writeColumnCount, getElem?_modify_eq, hget]
  split
  · exact ⟨_, rfl, parent_recordCount _ _, kind_recordCount _ _, children_recordCount _ _⟩
  · exact ⟨n, rfl, rfl, rfl, rfl⟩

theorem isParent_modifyChildren (id : NodeId) (change : List NodeId → List NodeId) :
    IsParent (tree.modifyChildren id change).nodes = IsParent tree.nodes := by
  funext parent other
  unfold IsParent
  rw [nodes_modifyChildren, getElem?_modify_eq]
  by_cases heq : other = id
  · cases hget : tree.nodes[other]? <;> simp [heq]
  · rw [if_neg heq]

end Tree

namespace SoundBut

open MailTemplate.Tree

variable {tree next : Tree} {loose opened : List NodeId} {id : NodeId} {node : Node}

/-- The list of children of a node is changed. -/
theorem modifyChildren (gained dropped : List NodeId) {change : List NodeId → List NodeId}
    (h : SoundBut tree.nodes (gained ++ loose) opened) (hget : tree.nodes[id]? = some node)
    (hcontainer : node.children.isSome = true)
    (hperm : (dropped ++ change node.childList).Perm (gained ++ node.childList))
    (hnodup : gained.Nodup)
    (hgained : ∀ childId ∈ gained, childId ∉ loose ∧
      ∃ child, tree.nodes[childId]? = some child ∧ child.parent = some id ∧
        node.kind.accepts child.kind = true)
    (hopen : id ∈ opened ∨
      (node.kind = .columns → (change node.childList).length = node.childList.length)) :
    SoundBut (tree.modifyChildren id change).nodes (dropped ++ loose) opened := by
  rw [nodes_modifyChildren_of_some hget hcontainer]
  exact h.relist gained dropped hget hperm hnodup hgained hcontainer hopen

/-- What the node of an id is that is not the root. -/
theorem placed (h : SoundBut tree.nodes [] opened) (hget : tree.nodes[id]? = some node)
    (hne : id ≠ rootId) :
    ∃ parentId parent, node.parent = some parentId ∧ tree.nodes[parentId]? = some parent ∧
      id ∈ parent.childList ∧ parent.kind.accepts node.kind = true := by
  obtain ⟨parentId, parent, hnames, hparent, hcount⟩ := h.forest.placed hget (by simpa using hne)
  have hmem : id ∈ parent.childList := List.count_pos_iff.1 (hcount ▸ Nat.one_pos)
  obtain ⟨child, hchild, -, haccepts⟩ := h.forest.child hparent hmem
  rw [hget] at hchild
  cases hchild
  exact ⟨parentId, parent, hnames, hparent, hmem, haccepts⟩

/-- A node is taken off the list of its parent. A row of which it is a column is open. -/
theorem unlist (h : SoundBut tree.nodes [] opened) (hget : tree.nodes[id]? = some node)
    (hne : id ≠ rootId) {parentId : NodeId} (hparent : node.parent = some parentId)
    (hopen : node.kind = .column → parentId ∈ opened) :
    SoundBut (tree.modifyChildren parentId (without id)).nodes [id] opened := by
  obtain ⟨_, parent, hnames, hlister, hmem, haccepts⟩ := h.placed hget hne
  rw [hparent] at hnames
  cases hnames
  refine modifyChildren [] [id] h hlister
    (Node.isSome_children_of_mem hmem) ?_ List.nodup_nil ?_ ?_
  · exact cons_without_perm (h.forest.nodup_childList hlister) hmem
  · intro childId hnot
    cases hnot
  · -- Only a row minds how many children it has, and what it lists are columns.
    by_cases hkind : parent.kind = .columns
    · exact .inl (hopen ((Kind.accepts_column_iff haccepts).1 hkind))
    · exact .inr fun h => absurd h hkind

end SoundBut

namespace Tree.Sound

variable {tree next : Tree} {id : NodeId} {node : Node}

theorem reorderComponents {source target : Nat} (h : tree.Sound)
    (hok : tree.reorderComponents id source target = .ok next) : next.Sound := by
  obtain ⟨node, hget, hsource, -, rfl⟩ := reorderComponents_eq_ok_iff.1 hok
  have hcontainer : node.children.isSome = true :=
    Node.isSome_children_of_mem (List.getElem_mem hsource)
  have hperm := moveEntry_perm node.childList source target
  refine SoundBut.modifyChildren [] [] h hget hcontainer hperm
    List.nodup_nil ?_ (.inr fun _ => hperm.length_eq)
  intro childId hmem
  cases hmem

end Tree.Sound

/-! ## Rows with another number of columns -/

theorem Tree.foldl_eraseSubtree_subset {tree : Tree} {ids : List NodeId} {id : NodeId} {node : Node}
    (hget : (ids.foldl eraseSubtree tree).nodes[id]? = some node) :
    tree.nodes[id]? = some node := by
  induction ids generalizing tree with
  | nil => exact hget
  | cons other ids ih => exact Forest.eraseAll_subset [other] (ih hget)

namespace SoundBut

open MailTemplate.Tree

variable {tree next : Tree} {opened : List NodeId} {id : NodeId} {node : Node} {count : Nat}

/-- An open row gets more columns. -/
theorem growRow (h : SoundBut tree.nodes [] (id :: opened)) (hget : tree.nodes[id]? = some node)
    (hkind : node.kind = .columns) (hok : tree.appendColumns id count = some next)
    (hmin : minColumns ≤ node.childList.length + count)
    (hmax : node.childList.length + count ≤ maxColumns) :
    SoundBut (next.writeColumnCount id (node.childList.length + count)).nodes [] opened := by
  have hcontainer := h.forest.isSome_children_row hget hkind
  have hgrown := h.appendColumns h.parentsExist hget hkind List.mem_cons_self
    (fun _ hmem => absurd hmem List.not_mem_nil) hok
  refine hgrown.writeColumnCount (fun {n} hrow => ?_) hmin hmax
  obtain ⟨ids, hlength, hrest⟩ := grownBy_appendColumns hget hcontainer hok
  rw [hrest.atRow] at hrow
  cases hrow
  refine ⟨hkind, ?_⟩
  change (node.childList ++ ids).length = _
  rw [List.length_append, hlength]

/-- An open row loses its last columns. -/
theorem shrinkRow (h : SoundBut tree.nodes [] [id]) (hget : tree.nodes[id]? = some node)
    (hkind : node.kind = .columns) (hle : count ≤ node.childList.length)
    (hmin : minColumns ≤ count) (hmax : count ≤ maxColumns) :
    (((node.childList.drop count).foldl eraseSubtree
      (tree.modifyChildren id (·.take count))).writeColumnCount id count).Sound := by
  have hcontainer := h.forest.isSome_children_row hget hkind
  have hlist := h.forest.nodup_childList hget
  have hperm : (node.childList.drop count ++ node.childList.take count).Perm node.childList := by
    refine List.perm_append_comm.trans ?_
    rw [List.take_append_drop]
  -- The last columns are loose before they are taken away.
  have hcut : SoundBut (tree.modifyChildren id (·.take count)).nodes (node.childList.drop count)
      [id] := by
    rw [← List.append_nil (node.childList.drop count)]
    exact SoundBut.modifyChildren [] _ h hget hcontainer hperm List.nodup_nil
      (fun _ hmem => absurd hmem List.not_mem_nil) (.inl List.mem_cons_self)
  have hroot : List.Disjoint (node.childList.drop count) ([] ++ [rootId]) := by
    rw [List.nil_append, List.disjoint_singleton]
    exact fun hmem => h.forest.unlisted hget List.mem_cons_self (List.mem_of_mem_drop hmem)
  rw [← List.append_nil (node.childList.drop count)] at hcut
  have hleft := hcut.foldl_eraseSubtree (hlist.sublist (List.drop_sublist count _)) hroot
  refine hleft.writeColumnCount (fun {n} hrow => ?_) hmin hmax
  have hrow' := foldl_eraseSubtree_subset hrow
  rw [nodes_modifyChildren_of_some hget hcontainer, Std.ExtTreeMap.getElem?_insert_self] at hrow'
  cases hrow'
  exact ⟨hkind, List.length_take_of_le hle⟩

/-- A row may be open when it gets a number of columns. -/
theorem setColumnsCount (h : SoundBut tree.nodes [] [id])
    (hok : tree.setColumnsCount id count = .ok next) : next.Sound := by
  obtain ⟨node, hget, hkind, resized, hresized, rfl⟩ := setColumnsCount_eq_ok_iff.1 hok
  have hmin := minColumns_le_clampColumns count
  have hmax := clampColumns_le_maxColumns count
  by_cases hlt : node.childList.length < clampColumns count
  case pos =>
    have hsum : node.childList.length + (clampColumns count - node.childList.length) =
        clampColumns count := by omega
    rw [resize_of_lt hlt] at hresized
    have hgrown := h.growRow hget hkind hresized (hsum.symm ▸ hmin) (hsum.symm ▸ hmax)
    rw [hsum] at hgrown
    exact hgrown
  case neg =>
    have hle := Nat.le_of_not_lt hlt
    rw [resize_of_ge hle] at hresized
    cases hresized
    exact h.shrinkRow hget hkind hle hmin hmax

end SoundBut

namespace Tree.Sound

variable {tree next : Tree} {id target : NodeId} {node : Node}

theorem fits (h : tree.Sound) (hget : tree.nodes[id]? = some node) : node.Fits :=
  SoundBut.fits h hget List.not_mem_nil

theorem setColumnsCount {count : Nat} (h : tree.Sound)
    (hok : tree.setColumnsCount id count = .ok next) : next.Sound :=
  (SoundBut.open_more h (List.nil_subset [id])).setColumnsCount hok

theorem recordRow (row : Columns) (h : tree.Sound) (hget : tree.nodes[id]? = some node)
    (hkind : node.kind = .columns) : (tree.recordRow id row node.childList.length).Sound := by
  unfold Tree.recordRow Tree.Sound
  rw [nodes_modify, modify_eq_insert _ hget]
  refine SoundBut.setProperties _ h hget hkind.symm fun _ => ?_
  obtain ⟨hmin, hmax⟩ := (h.fits hget).length_bounds hkind
  exact ⟨hmin, hmax, toNat_ofNat_of_le_maxColumns hmax⟩

theorem childrenOf_recordRow {row : Columns} {count : Nat} (hget : tree.nodes[id]? = some node) :
    (tree.recordRow id row count).childrenOf id = node.childList := by
  rw [childrenOf_eq (getElem?_recordRow hget row count)]
  rfl

theorem updateComponent {patch : List (String × Json)} (h : tree.Sound)
    (hok : tree.updateComponent id patch = .ok next) : next.Sound := by
  obtain ⟨node, properties, hget, hpatched, hnext⟩ := updateComponent_eq_ok_iff.1 hok
  obtain ⟨hkind, hrange⟩ := patched_eq_ok hpatched
  have hother : node.kind ≠ .columns →
      tree.modify id (fun node => { node with properties := properties }) = next →
      next.Sound := by
    rintro hne rfl
    unfold Tree.Sound
    rw [nodes_modify, modify_eq_insert _ hget]
    exact SoundBut.setProperties _ h hget hkind fun _ =>
      Node.fits_of_inRange hrange fun hcolumns => hne (hkind.symm.trans hcolumns)
  cases properties with
  | columns row =>
    -- The row is recorded with the columns that it has, and only then gets as many as it asks for.
    have hrecord := h.recordRow row hget hkind.symm
    dsimp only at hnext
    split at hnext
    case isTrue => exact hnext ▸ hrecord
    case isFalse => exact hrecord.setColumnsCount hnext
  | _ => exact hother (fun hcolumns => nomatch hkind.trans hcolumns) hnext

/-! ## Components that leave their place -/

theorem detach {parent : NodeId} (h : tree.Sound) (hget : tree.nodes[id]? = some node)
    (hne : id ≠ rootId) (hparent : node.parent = some parent)
    (hcount : ¬ (node.kind = .column ∧ (tree.childrenOf parent).length ≤ minColumns)) :
    SoundBut (tree.detach id parent node.kind).nodes [id] [] := by
  unfold Tree.detach
  obtain ⟨_, lister, hnames, hlister, hmem, haccepts⟩ := SoundBut.placed h hget hne
  rw [hparent] at hnames
  cases hnames
  by_cases hcolumn : node.kind = .column
  · -- The row has one column less, but not less than two.
    have hrow : lister.kind = .columns := (Kind.accepts_column_iff haccepts).2 hcolumn
    have hcontainer := Node.isSome_children_of_mem hmem
    have hopen := (SoundBut.open_more h (List.nil_subset [parent])).unlist hget hne hparent
      fun _ => List.mem_cons_self
    have hafter : (tree.modifyChildren parent (without id)).nodes[parent]? =
        some { lister with children := some (without id lister.childList) } := by
      rw [nodes_modifyChildren_of_some hlister hcontainer, Std.ExtTreeMap.getElem?_insert_self]
    have hlength := length_without (SoundBut.forest h |>.nodup_childList hlister) hmem
    rw [childrenOf_eq hlister, not_and, Nat.not_le] at hcount
    have hmin := hcount hcolumn
    have hmax := ((h.fits hlister).length_bounds hrow).2
    rw [if_pos hcolumn, childrenOf_eq hafter]
    change SoundBut (Tree.writeColumnCount _ parent (without id lister.childList).length).nodes _ _
    refine hopen.writeColumnCount (fun {n} hn => ?_) (by omega) (by omega)
    rw [hafter] at hn
    cases hn
    exact ⟨hrow, rfl⟩
  · rw [if_neg hcolumn]
    exact SoundBut.unlist h hget hne hparent fun heq => absurd heq hcolumn

theorem removeComponent (h : tree.Sound) (hok : tree.removeComponent id = .ok next) :
    next.Sound := by
  obtain ⟨node, hget, hne, hnext⟩ := removeComponent_eq_ok_iff.1 hok
  obtain ⟨parent, -, hparent, -⟩ := SoundBut.placed h hget hne
  rw [hparent] at hnext
  obtain ⟨hcount, rfl⟩ := hnext
  refine SoundBut.eraseAll [id] (h.detach hget hne hparent hcount) ?_
  rw [List.nil_append, List.disjoint_singleton, List.mem_singleton]
  exact Ne.symm hne

theorem moveComponent {index : Option Nat} (h : tree.Sound)
    (hok : tree.moveComponent id target index = .ok next) : next.Sound := by
  obtain ⟨node, hget, hne, hcolumn, holder, hholder, haccepts, hcycle, placed, hplaced, rfl⟩ :=
    moveComponent_eq_ok_iff.1 hok
  obtain ⟨parent, -, hparent, -⟩ := SoundBut.placed h hget hne
  obtain ⟨-, rfl⟩ := requireChildren_eq_ok_iff.1 hplaced
  have hunlist : tree.unlist id node.parent = tree.modifyChildren parent (without id) := by
    rw [hparent]
    rfl
  rw [not_or, isAncestor_iff] at hcycle
  rw [hunlist]
  have hloose := SoundBut.unlist h hget hne hparent fun heq => absurd heq hcolumn
  obtain ⟨node', hget', -, hkind⟩ := getElem?_modifyChildren_of_some parent (without id) hget
  obtain ⟨holder', hholder', -, hholds⟩ :=
    getElem?_modifyChildren_of_some parent (without id) hholder
  -- The node names its new parent before it is listed there; the two steps may be swapped.
  have hapart : ¬ Relation.ReflTransGen (IsParent (tree.modifyChildren parent (without id)).nodes)
      id target := by
    rw [isParent_modifyChildren, Relation.reflTransGen_iff_eq_or_transGen, not_or]
    exact hcycle
  have hpointed := hloose.repoint List.mem_cons_self hne hget' hapart
  rw [← modify_eq_insert (fun node => { node with parent := some target }) hget'] at hpointed
  unfold Tree.Sound
  rw [nodes_modify, nodes_modifyChildren, modify_modify_comm hcycle.1]
  let pointed := (tree.modifyChildren parent (without id)).modify id
    fun node => { node with parent := some target }
  have hat : pointed.nodes[target]? = some holder' := by
    rw [nodes_modify, getElem?_modify_eq, if_neg hcycle.1]
    exact hholder'
  -- What is listed under the new parent is no column, so no row gets another count.
  refine SoundBut.modifyChildren [id] [] hpointed hat ?_ (insertAt_perm _ _ _)
    (List.nodup_singleton id) ?_ ?_
  · refine hloose.forest.isSome_children hholder' ?_
    rw [Node.kind, hholds]
    exact Kind.isContainer_of_accepts haccepts
  · intro childId hmem
    rw [List.mem_singleton.1 hmem]
    refine ⟨List.not_mem_nil, { node' with parent := some target }, ?_, rfl, ?_⟩
    · rw [nodes_modify, getElem?_modify_eq, if_pos rfl, hget']
      rfl
    · simpa only [Node.kind, hkind, hholds] using haccepts
  · refine .inr fun hrow => absurd ((Kind.accepts_column_iff haccepts).1 ?_) hcolumn
    rwa [Node.kind, hholds] at hrow

end Tree.Sound

/-! ## New components -/

/-- A new node of a kind names a parent, and the nodes that were there are as before. -/
structure Planted (nodes nodes' : Nodes) (kind : Kind) (parent id : NodeId) : Prop where
  /-- The id was free. -/
  free : nodes[id]? = none
  /-- The new node is of the kind and names the parent. -/
  atId : ∃ node, nodes'[id]? = some node ∧ node.parent = some parent ∧ node.kind = kind
  /-- All else is as before. -/
  elsewhere : ∀ {other : NodeId} {node : Node}, nodes[other]? = some node →
    nodes'[other]? = some node

namespace Tree

variable {tree minted filled next : Tree} {kind : Kind} {id parent : NodeId}

theorem getElem?_bareRow :
    (tree.bareRow id parent).nodes[id]? = some (.fresh (some parent) Kind.columns.defaults) :=
  Std.ExtTreeMap.getElem?_insert_self

/-- A new row has its columns. -/
theorem grownBy_bareRow
    (hfilled : (tree.bareRow id parent).appendColumns id minColumns = some filled) :
    ∃ ids, ids.length = minColumns ∧ GrownBy (tree.bareRow id parent).nodes filled.nodes id
      (.fresh (some parent) Kind.columns.defaults) ids :=
  grownBy_appendColumns getElem?_bareRow rfl hfilled

theorem planted (hok : tree.plant kind parent = some (next, id)) :
    Planted tree.nodes next.nodes kind parent id := by
  by_cases hkind : kind = .columns
  · subst hkind
    obtain ⟨minted, filled, hmint, hfilled, rfl⟩ := plant_columns_eq_some_iff.1 hok
    have hfree := free_of_mint hmint
    obtain ⟨ids, -, hgrown⟩ := grownBy_bareRow hfilled
    refine ⟨hfree, ?_, fun {other node} hother => ?_⟩
    · -- The row is there with its columns, and the count is written last.
      obtain ⟨n, hn, hparent, hkind, -⟩ :=
        getElem?_writeColumnCount_of_some _ minColumns hgrown.atRow
      exact ⟨n, hn, hparent, hkind⟩
    · have hne : other ≠ id := ne_of_free hother hfree
      have hold : (minted.bareRow id parent).nodes[other]? = some node := by
        rw [bareRow, nodes_insert, getElem?_insert_of_ne _ hne, nodes_of_mint hmint, hother]
      rw [nodes_writeColumnCount, getElem?_modify_eq, if_neg hne,
        hgrown.elsewhere other hne ?_, hold]
      intro hmem
      rw [hgrown.free other hmem] at hold
      cases hold
  · obtain ⟨minted, hmint, rfl⟩ := (plant_eq_some_iff_of_ne hkind).1 hok
    have hfree := free_of_mint hmint
    refine ⟨hfree, ⟨_, Std.ExtTreeMap.getElem?_insert_self, rfl, kind.kind_defaults⟩,
      fun {other node} hother => ?_⟩
    rw [nodes_insert, getElem?_insert_of_ne _ (ne_of_free hother hfree), nodes_of_mint hmint,
      hother]

namespace Sound

variable {holder : Node}

/-- A new component is loose, and sound by itself. -/
theorem plant (h : tree.Sound) (hparent : tree.nodes[parent]? = some holder)
    (hok : tree.plant kind parent = some (next, id)) : SoundBut next.nodes [id] [] := by
  have hparents : ParentsExist tree.nodes := SoundBut.parentsExist h
  by_cases hkind : kind = .columns
  · subst hkind
    obtain ⟨minted, filled, hmint, hfilled, rfl⟩ := plant_columns_eq_some_iff.1 hok
    have hfree := free_of_mint hmint
    obtain ⟨ids, hlength, hgrown⟩ := grownBy_bareRow hfilled
    have hnodes : (minted.bareRow id parent).nodes =
        tree.nodes.insert id (.fresh (some parent) Kind.columns.defaults) := by
      rw [bareRow, nodes_insert, nodes_of_mint hmint]
    -- The row is open until it has its columns and their count.
    have hbare : SoundBut (minted.bareRow id parent).nodes [id] [id] := by
      rw [hnodes]
      exact (SoundBut.open_more h (List.nil_subset _)).plant hparents hfree rfl rfl rfl hparent
        fun hnot => absurd List.mem_cons_self hnot
    have hbare' : ParentsExist (minted.bareRow id parent).nodes := by
      rw [hnodes]
      exact hparents.insert fun _ hnames => ⟨holder, by cases hnames; exact hparent⟩
    have hfull : SoundBut filled.nodes [id] [id] :=
      hbare.appendColumns hbare' getElem?_bareRow rfl List.mem_cons_self
        (List.forall_mem_singleton.2 ⟨_, getElem?_bareRow⟩) hfilled
    refine hfull.writeColumnCount (fun {n} hn => ?_) (by decide) (by decide)
    rw [hgrown.atRow] at hn
    cases hn
    exact ⟨rfl, hlength⟩
  · obtain ⟨minted, hmint, rfl⟩ := (plant_eq_some_iff_of_ne hkind).1 hok
    rw [nodes_insert, nodes_of_mint hmint]
    exact SoundBut.plant h hparents (free_of_mint hmint) (Node.isSome_children_fresh _ _)
      (Node.childList_fresh _ _) rfl hparent fun _ => Node.fits_fresh _ hkind

theorem addComponent {index : Option Nat} {made : NodeId} (h : tree.Sound)
    (hok : tree.addComponent kind parent index = .ok (next, made)) : next.Sound := by
  obtain ⟨holder, hholder, hcolumn, haccepts, planted, hplant, hplaced⟩ :=
    addComponent_eq_ok_iff.1 hok
  obtain ⟨-, rfl⟩ := requireChildren_eq_ok_iff.1 hplaced
  have hplanted := Tree.planted hplant
  obtain ⟨child, hchild, hnames, hkind⟩ := hplanted.atId
  have hholder' := hplanted.elsewhere hholder
  have hloose := h.plant hholder hplant
  refine SoundBut.modifyChildren [made] [] hloose
    hholder' ?_ (insertAt_perm _ _ _) (List.nodup_singleton _) ?_ ?_
  · exact hloose.forest.isSome_children hholder' (Kind.isContainer_of_accepts haccepts)
  · intro childId hmem
    rw [List.mem_singleton.1 hmem]
    exact ⟨List.not_mem_nil, child, hchild, hnames, hkind ▸ haccepts⟩
  · exact .inr fun hrow => absurd ((Kind.accepts_column_iff haccepts).1 hrow) hcolumn

end Sound

end Tree

end MailTemplate
