import MailTemplate.Proofs.Tree.Removal
import MailTemplate.Proofs.Tree.Upkeep

/-!
# Resizing a Row

What a row and the nodes around it look like when the row has been given a number of columns, and
that a row may as well lose its last columns one by one.

* `Node.cut` is a row with its first columns only. `Tree.Sound.pruned_setColumnsCount` says what is
  left when a row is cut at once, `Tree.Sound.pruned_removeLast` when its last columns are removed.
* `Pruned.trans` makes one step of two, and `Pruned.unique` says that no more has to be known.
* `Tree.Resized` lists all that is found in the resized tree.
-/

namespace MailTemplate

variable {nodes nodes' nodes'' : Nodes} {id parent child top other : NodeId}
  {node node' node'' n : Node} {dropped dropped' : List NodeId}

/-! ## Pruning twice -/

namespace Pruned

/-- What is still there has its old parent. -/
theorem isParent_iff (h : Pruned nodes nodes' id node' dropped) (hget : nodes[id]? = some node)
    (hsame : node'.parent = node.parent) (hthere : nodes'[child]? = some n) :
    IsParent nodes' parent child ↔ IsParent nodes parent child := by
  by_cases heq : child = id
  · subst heq
    rw [MailTemplate.isParent_iff h.atNode, MailTemplate.isParent_iff hget, hsame]
  · unfold IsParent
    rw [h.eq_of_get heq hthere]

/-- What is still there has its old chain of parents. -/
theorem reflTransGen_iff (h : Pruned nodes nodes' id node' dropped) (hget : nodes[id]? = some node)
    (hsame : node'.parent = node.parent) (hparents : ParentsExist nodes')
    (hthere : nodes'[other]? = some n) :
    Relation.ReflTransGen (IsParent nodes') top other ↔
      Relation.ReflTransGen (IsParent nodes) top other := by
  constructor
  · refine Relation.ReflTransGen.mono (fun above below hnames => ?_) top other
    obtain ⟨m, hm, hparent⟩ := hnames
    exact (h.isParent_iff hget hsame hm).1 ⟨m, hm, hparent⟩
  · intro hway
    -- The parent of what is still there is still there.
    induction hway generalizing n with
    | refl => exact .refl
    | tail _ hparent ih =>
      have hnames := (h.isParent_iff hget hsame hthere).2 hparent
      obtain ⟨above, habove⟩ := hparents hthere ((MailTemplate.isParent_iff hthere).1 hnames)
      exact (ih habove).tail hnames

/-- Two steps that replace the same node are one. -/
theorem trans (h : Pruned nodes nodes' id node' dropped)
    (h' : Pruned nodes' nodes'' id node'' dropped') (hget : nodes[id]? = some node)
    (hsame : node'.parent = node.parent) (hparents : ParentsExist nodes') :
    Pruned nodes nodes'' id node'' (dropped' ++ dropped) where
  atNode := h'.atNode
  gone {top other} htop hway := by
    rw [Option.eq_none_iff_forall_ne_some]
    intro n hn
    -- What both steps have left was left by the first one, with its old chain of parents.
    obtain ⟨⟨m, hm⟩, hnot⟩ := (h'.exists_iff h.atNode).1 ⟨n, hn⟩
    rcases List.mem_append.1 htop with htop | htop
    · exact hnot top htop ((h.reflTransGen_iff hget hsame hparents hm).2 hway)
    · rw [h.gone htop hway] at hm
      cases hm
  elsewhere {other} hne hnot := by
    have hfirst : nodes'[other]? = nodes[other]? :=
      h.elsewhere hne fun top htop => hnot top (List.mem_append_right _ htop)
    cases hthere : nodes'[other]? with
    | none =>
      rw [← hfirst, hthere, Option.eq_none_iff_forall_ne_some]
      intro n hn
      obtain ⟨⟨m, hm⟩, -⟩ := (h'.exists_iff h.atNode).1 ⟨n, hn⟩
      rw [hthere] at hm
      cases hm
    | some m =>
      rw [← hfirst]
      refine h'.elsewhere hne fun top htop hway => ?_
      exact hnot top (List.mem_append_left _ htop)
        ((h.reflTransGen_iff hget hsame hparents hthere).1 hway)

/-- There is one way to prune nodes. -/
theorem unique (h : Pruned nodes nodes' id node' dropped)
    (h' : Pruned nodes nodes'' id node' dropped) : nodes' = nodes'' := by
  refine Std.ExtTreeMap.ext_getElem? fun other => ?_
  by_cases heq : other = id
  · rw [heq, h.atNode, h'.atNode]
  · by_cases hnot : ∀ top ∈ dropped, ¬ Relation.ReflTransGen (IsParent nodes) top other
    · rw [h.elsewhere heq hnot, h'.elsewhere heq hnot]
    · push Not at hnot
      obtain ⟨top, htop, hway⟩ := hnot
      rw [h.gone htop hway, h'.gone htop hway]

end Pruned

/-! ## A row with fewer columns -/

namespace Node

/-- A row with its first columns only, whose number it records. -/
def cut (node : Node) (count : Nat) : Node :=
  Tree.recordCount count { node with children := some (node.childList.take count) }

variable {count more : Nat} {row : Columns}

@[simp]
theorem parent_cut (node : Node) (count : Nat) : (node.cut count).parent = node.parent :=
  Tree.parent_recordCount _ _

@[simp]
theorem kind_cut (node : Node) (count : Nat) : (node.cut count).kind = node.kind :=
  Tree.kind_recordCount _ _

@[simp]
theorem childList_cut (node : Node) (count : Nat) :
    (node.cut count).childList = node.childList.take count := by
  rw [childList, cut, Tree.children_recordCount]
  rfl

theorem cut_of_columns (hrow : node.properties = .columns row) (count : Nat) :
    node.cut count = ⟨node.parent, .columns { row with columns := .ofNat count },
      some (node.childList.take count)⟩ := by
  rw [cut, Tree.recordCount, hrow]

/-- The last cut counts. -/
theorem cut_cut (hkind : node.kind = .columns) (hle : count ≤ more) :
    (node.cut more).cut count = node.cut count := by
  obtain ⟨row, hrow⟩ := kind_eq_columns hkind
  have hrow' : (node.cut more).properties = .columns { row with columns := .ofNat more } := by
    rw [cut_of_columns hrow]
  rw [cut_of_columns hrow', parent_cut, childList_cut, List.take_take, min_eq_left hle,
    cut_of_columns hrow]

/-- A row that records how many columns it has is not changed when it is cut behind them. -/
theorem cut_length (h : node.Fits) (hkind : node.kind = .columns)
    (hcontainer : node.children.isSome = true) : node.cut node.childList.length = node := by
  obtain ⟨row, hrow⟩ := kind_eq_columns hkind
  unfold Fits at h
  rw [hrow] at h
  rw [cut_of_columns hrow, ← h.2.2, UInt32.ofNat_toNat, h.2.2, List.take_length, ← hrow,
    ← children_eq_some hcontainer]

/-- A row that loses its last column is cut before it. -/
theorem Loses.eq_cut (h : node.Loses node' id .column) (hnodup : node.childList.Nodup)
    (hlast : node.childList.getLast? = some id) :
    node' = node.cut (node.childList.length - 1) := by
  obtain ⟨before, after, hlist, hlist'⟩ := h.children
  obtain ⟨row, number, hrow, hrow', hnumber⟩ := h.ofColumn rfl
  have hchildren : node.childList = before ++ id :: after := childList_eq hlist
  -- The list without the last entry is the list without the id.
  have hinit : before ++ after = node.childList.take (node.childList.length - 1) := by
    obtain ⟨init, hinit⟩ := List.getLast?_eq_some_iff.1 hlast
    rw [hchildren] at hnodup
    rw [← Tree.without_append_cons hnodup, ← hchildren, hinit]
    rw [← hchildren, hinit] at hnodup
    rw [Tree.without_append_cons hnodup]
    simp
  have hlength : number = .ofNat (node.childList.length - 1) := by
    rw [← UInt32.ofNat_toNat (x := number), hnumber, childList_eq hlist', hchildren]
    simp
  obtain ⟨parent', properties', children'⟩ := node'
  obtain rfl : parent' = node.parent := h.parent
  obtain rfl : properties' = _ := hrow'
  obtain rfl : children' = _ := hlist'
  rw [cut_of_columns hrow, hlength, hinit]

end Node

namespace Tree

variable {tree next : Tree} {count : Nat}

/-! ## Cutting a row at once -/

/-- Ids may be taken out in two goes. -/
theorem eraseAll_append (nodes : Nodes) (front back : List NodeId) :
    eraseAll nodes (front ++ back) = eraseAll (eraseAll nodes front) back := by
  fun_induction eraseAll nodes front with
  | case1 nodes => rfl
  | case2 nodes id stack hnone ih => rw [List.cons_append, eraseAll_of_none hnone, ih]
  | case3 nodes id stack node hsome hlt ih =>
    rw [List.cons_append, eraseAll_of_some hsome, ← List.append_assoc, ih]

theorem nodes_foldl_eraseSubtree (tree : Tree) (ids : List NodeId) :
    (ids.foldl eraseSubtree tree).nodes = eraseAll tree.nodes ids := by
  induction ids generalizing tree with
  | nil => rw [eraseAll, List.foldl_nil]
  | cons id ids ih =>
    rw [List.foldl_cons, ih, eraseSubtree, ← eraseAll_append, List.singleton_append]

theorem nextNumber_foldl_eraseSubtree (tree : Tree) (ids : List NodeId) :
    (ids.foldl eraseSubtree tree).nextNumber = tree.nextNumber := by
  induction ids generalizing tree with
  | nil => rfl
  | cons id ids ih => exact ih _

namespace Sound

/-- A row that is given no more columns than it has is cut. -/
theorem pruned_setColumnsCount (h : tree.Sound) (hget : tree.nodes[id]? = some node)
    (hkind : node.kind = .columns) (hle : clampColumns count ≤ node.childList.length)
    (hok : tree.setColumnsCount id count = .ok next) :
    next.nextNumber = tree.nextNumber ∧
      Pruned tree.nodes next.nodes id (node.cut (clampColumns count))
        (node.childList.drop (clampColumns count)) := by
  obtain ⟨row, hrow, -, resized, hresized, rfl⟩ := setColumnsCount_eq_ok_iff.1 hok
  cases hget.symm.trans hrow
  rw [resize_of_ge hle] at hresized
  cases hresized
  have hcontainer := (SoundBut.forest h).isSome_children_row hget hkind
  constructor
  · rw [nextNumber_writeColumnCount, nextNumber_foldl_eraseSubtree, nextNumber_modifyChildren]
  · rw [nodes_writeColumnCount, nodes_foldl_eraseSubtree,
      nodes_modifyChildren_of_some hget hcontainer]
    exact (SoundBut.pruned h hget (List.drop_subset _ _) (List.take_subset _ _)).modify _

end Sound

/-! ## Losing the last columns one by one -/

/-- The tree without the last child of a node, and then without the last one that is left, and so on
for a number of times. -/
def removeLast (tree : Tree) (id : NodeId) : (times : Nat) → Except EditError Tree
  | 0 => .ok tree
  | times + 1 =>
    match (tree.childrenOf id).getLast? with
    | some last => do (← tree.removeComponent last).removeLast id times
    | none => .error (.missingNode id)

namespace Sound

variable {last : NodeId}

/-- A row with columns to spare may lose its last one, and is cut before it. -/
theorem exists_removeComponent_last (h : tree.Sound) (hget : tree.nodes[id]? = some node)
    (hkind : node.kind = .columns) (hlast : node.childList.getLast? = some last)
    (hspare : minColumns < node.childList.length) :
    ∃ next, tree.removeComponent last = .ok next ∧ next.nextNumber = tree.nextNumber ∧
      Pruned tree.nodes next.nodes id (node.cut (node.childList.length - 1)) [last] := by
  have hforest := SoundBut.forest h
  have hmem := List.mem_of_getLast? hlast
  obtain ⟨column, hcolumn, hnames, haccepts⟩ := hforest.child hget hmem
  have hne : last ≠ rootId := fun heq => hforest.unlisted hget List.mem_cons_self (heq ▸ hmem)
  have hcolumnKind := (Kind.accepts_column_iff haccepts).1 hkind
  have hok : tree.removeComponent last =
      .ok ((tree.detach last id column.kind).eraseSubtree last) := by
    rw [removeComponent_eq_ok_iff]
    refine ⟨column, hcolumn, hne, ?_⟩
    rw [hnames]
    refine ⟨fun hfew => ?_, rfl⟩
    rw [childrenOf_eq hget] at hfew
    exact absurd hfew.2 (Nat.not_le.2 hspare)
  obtain ⟨_, _, _, holder', hcolumn', hnames', hholder, hloses, hpruned⟩ :=
    h.pruned_removeComponent hok
  cases hcolumn.symm.trans hcolumn'
  cases hnames.symm.trans hnames'
  cases hget.symm.trans hholder
  rw [hcolumnKind] at hloses
  rw [hloses.eq_cut (hforest.nodup_childList hget) hlast] at hpruned
  exact ⟨_, hok, nextNumber_detach _ _ _, hpruned⟩

/-- The last columns of a row may be removed one by one, as long as enough of them are left, and
the row is cut before them. -/
theorem pruned_removeLast (h : tree.Sound) (hget : tree.nodes[id]? = some node)
    (hkind : node.kind = .columns) (times : Nat)
    (hspare : minColumns + times ≤ node.childList.length) :
    ∃ next, tree.removeLast id times = .ok next ∧ next.nextNumber = tree.nextNumber ∧
      Pruned tree.nodes next.nodes id (node.cut (node.childList.length - times))
        (node.childList.drop (node.childList.length - times)) := by
  -- After the first removal the row is shorter by one, and may lose the others.
  induction times generalizing tree node with
  | zero =>
    have hcontainer := (SoundBut.forest h).isSome_children_row hget hkind
    refine ⟨tree, rfl, rfl, ?_⟩
    rw [Nat.sub_zero, Node.cut_length (h.fits hget) hkind hcontainer, List.drop_length]
    exact ⟨hget, fun htop => absurd htop List.not_mem_nil, fun _ _ => rfl⟩
  | succ times ih =>
    have hne : node.childList ≠ [] := List.ne_nil_of_length_pos (by omega)
    have hlast := List.getLast?_eq_some_getLast hne
    obtain ⟨first, hfirst, hnumber, hpruned⟩ :=
      h.exists_removeComponent_last hget hkind hlast (by omega)
    have hsound := h.removeComponent hfirst
    have hlength : (node.cut (node.childList.length - 1)).childList.length =
        node.childList.length - 1 := by
      rw [Node.childList_cut, List.length_take]
      omega
    obtain ⟨next, hnext, hnumber', hpruned'⟩ := ih hsound hpruned.atNode
      ((Node.kind_cut _ _).trans hkind) (by omega)
    refine ⟨next, ?_, hnumber'.trans hnumber, ?_⟩
    · rw [removeLast, childrenOf_eq hget, hlast]
      exact bind_eq_ok_iff.2 ⟨first, hfirst, hnext⟩
    · have htwice := hpruned.trans hpruned' hget (Node.parent_cut _ _)
        (SoundBut.parentsExist hsound)
      rw [hlength, Node.cut_cut hkind (by omega), Node.childList_cut, Nat.sub_sub,
        Nat.add_comm 1 times] at htwice
      -- What goes last stands behind what goes before it.
      have hdrop : node.childList.drop (node.childList.length - (times + 1)) =
          (node.childList.take (node.childList.length - 1)).drop
            (node.childList.length - (times + 1)) ++ [node.childList.getLast hne] := by
        rw [← List.drop_append_of_le_length (by rw [List.length_take]; omega),
          ← List.dropLast_eq_take, List.dropLast_append_getLast]
      rw [hdrop]
      exact htwice

end Sound

/-! ## A resized row -/

theorem clampColumns_eq (count : Nat) :
    clampColumns count = max minColumns (min count maxColumns) := by
  unfold clampColumns minColumns maxColumns
  split <;> [skip; split] <;> omega

/-- A row has been given a number of columns, for which some have been made, and nothing else has
changed. -/
structure Resized (tree next : Tree) (id : NodeId) (node : Node) (count : Nat)
    (made : List NodeId) : Prop where
  /-- The row lists its first columns in order and then the new ones, and records how many there
  are. -/
  atRow : ∃ row number, node.properties = .columns row ∧ number.toNat = count ∧
    next.get? id = some ⟨node.parent, .columns { row with columns := number },
      some (node.childList.take count ++ made)⟩
  /-- As many columns are made as were missing. -/
  length : made.length = count - node.childList.length
  nodup : made.Nodup
  /-- New columns are empty and have the default record; their ids were free. -/
  new : ∀ column ∈ made, tree.contains column = false ∧
    next.get? column = some ⟨some id, .column {}, some []⟩
  /-- What is gone are the other columns of the row, and what has one of them on its chain of
  parents. -/
  ids : ∀ other, next.contains other = true ↔ other ∈ made ∨
    tree.contains other = true ∧
      ∀ column ∈ node.childList.drop count, other ≠ column ∧ tree.isAncestor column other = false
  /-- No other node has changed. -/
  elsewhere : ∀ other, other ≠ id → tree.contains other = true → next.contains other = true →
    next.get? other = tree.get? other

/-- A row that is cut is a resized one, for which no columns are made. -/
theorem resized_of_pruned (hget : tree.nodes[id]? = some node) (hkind : node.kind = .columns)
    (hle : count ≤ node.childList.length) (hmax : count ≤ maxColumns)
    (hpruned : Pruned tree.nodes next.nodes id (node.cut count) (node.childList.drop count)) :
    tree.Resized next id node count [] := by
  obtain ⟨row, hrow⟩ := Node.kind_eq_columns hkind
  refine ⟨⟨row, .ofNat count, hrow, toNat_ofNat_of_le_maxColumns hmax, ?_⟩,
    (Nat.sub_eq_zero_of_le hle).symm, List.nodup_nil, fun _ hmem => absurd hmem List.not_mem_nil,
    fun other => ?_, fun other hne _ hthere => ?_⟩
  · rw [List.append_nil, ← Node.cut_of_columns hrow]
    exact hpruned.atNode
  · rw [contains_iff_exists, contains_iff_exists, hpruned.exists_iff hget]
    simp only [List.not_mem_nil, false_or, not_reflTransGen_isParent_iff]
  · obtain ⟨n, hn⟩ := contains_iff_exists.1 hthere
    exact hpruned.eq_of_get hne hn

/-- A row that has grown is a resized one. -/
theorem resized_of_grownBy {grown : Tree} {made : List NodeId}
    (hget : tree.nodes[id]? = some node) (hkind : node.kind = .columns)
    (hlength : node.childList.length + made.length = count) (hmax : count ≤ maxColumns)
    (hgrown : GrownBy tree.nodes grown.nodes id node made) :
    tree.Resized (grown.writeColumnCount id count) id node count made := by
  obtain ⟨row, hrow⟩ := Node.kind_eq_columns hkind
  have hother : ∀ {other}, other ≠ id →
      (grown.writeColumnCount id count).nodes[other]? = grown.nodes[other]? := by
    intro other hne
    rw [nodes_writeColumnCount, getElem?_modify_eq, if_neg hne]
  have hrowAfter : (grown.writeColumnCount id count).nodes[id]? =
      some ⟨node.parent, .columns { row with columns := .ofNat count },
        some (node.childList ++ made)⟩ := by
    rw [nodes_writeColumnCount, getElem?_modify_eq, if_pos rfl, hgrown.atRow, Option.map_some,
      recordCount, hrow]
  have hnew : ∀ column ∈ made, (grown.writeColumnCount id count).nodes[column]? =
      some (.emptyColumn id) := fun column hmem =>
    (hother (ne_of_free hget (hgrown.free column hmem)).symm).trans (hgrown.atNew column hmem)
  refine ⟨⟨row, .ofNat count, hrow, toNat_ofNat_of_le_maxColumns hmax, ?_⟩, by omega, hgrown.nodup,
    fun column hmem => ⟨contains_eq_false_iff.2 (hgrown.free column hmem), hnew column hmem⟩,
    fun other => ?_, fun other hne hthere _ => ?_⟩
  · rw [List.take_of_length_le (by omega)]
    exact hrowAfter
  · rw [List.drop_eq_nil_of_le (by omega), contains_iff_exists, contains_iff_exists]
    simp only [List.not_mem_nil, false_implies, implies_true, and_true]
    by_cases heq : other = id
    · rw [heq, hrowAfter, hget]
      exact iff_of_true ⟨_, rfl⟩ (.inr ⟨_, rfl⟩)
    · by_cases hmem : other ∈ made
      · exact iff_of_true ⟨_, hnew other hmem⟩ (.inl hmem)
      · rw [hother heq, hgrown.elsewhere other heq hmem, or_iff_right hmem]
  · obtain ⟨n, hn⟩ := contains_iff_exists.1 hthere
    refine (hother hne).trans (hgrown.elsewhere other hne fun hmem => ?_)
    rw [hgrown.free other hmem] at hn
    cases hn

/-- A row that is given a number of columns is a resized one. -/
theorem Sound.exists_resized (h : tree.Sound) (hget : tree.nodes[id]? = some node)
    (hkind : node.kind = .columns) (hok : tree.setColumnsCount id count = .ok next) :
    ∃ made, tree.Resized next id node (clampColumns count) made := by
  have hmax := clampColumns_le_maxColumns count
  -- Either columns are made or some are taken away; a row that is long enough already is cut behind
  -- its last column.
  by_cases hlt : node.childList.length < clampColumns count
  · obtain ⟨row, hrow, -, grown, happended, rfl⟩ := setColumnsCount_eq_ok_iff.1 hok
    cases hget.symm.trans hrow
    rw [resize_of_lt hlt] at happended
    have hcontainer := (SoundBut.forest h).isSome_children_row hget hkind
    obtain ⟨made, hlength, hgrown⟩ := grownBy_appendColumns hget hcontainer happended
    exact ⟨made, resized_of_grownBy hget hkind (by omega) hmax hgrown⟩
  · have hle := Nat.le_of_not_lt hlt
    obtain ⟨-, hpruned⟩ := h.pruned_setColumnsCount hget hkind hle hok
    exact ⟨[], resized_of_pruned hget hkind hle hmax hpruned⟩

/-- A row can be given any number of columns, unless one that has to be made gets no id. -/
theorem exists_setColumnsCount (hget : tree.nodes[id]? = some node) (hkind : node.kind = .columns)
    (hids : ∀ m ∈ tree.growth id (clampColumns count - node.childList.length), ¬ m.Stuck) :
    ∃ next, tree.setColumnsCount id count = .ok next := by
  obtain ⟨resized, hresized⟩ :
      ∃ resized, tree.resize id node.childList (clampColumns count) = some resized := by
    by_cases hlt : node.childList.length < clampColumns count
    · rw [resize_of_lt hlt]
      refine Option.ne_none_iff_exists'.1 fun hnone => ?_
      obtain ⟨m, hmem, hstuck⟩ := appendColumns_eq_none_iff.1 hnone
      exact hids m hmem hstuck
    · rw [resize_of_ge (Nat.le_of_not_lt hlt)]
      exact ⟨_, rfl⟩
  exact ⟨_, setColumnsCount_eq_ok_iff.2 ⟨node, hget, hkind, resized, hresized, rfl⟩⟩

/-- In a tree without violations a row can be given any number of columns, which is pulled into
range, as long as there are ids for the columns that have to be made. Its first columns are kept,
new ones are made if there are too few, and otherwise the last ones go with all that hangs from
them, just as if they were removed one by one from the end. -/
theorem setColumnsCount_resizes (h : tree.violations = []) (hget : tree.get? id = some node)
    (hkind : node.kind = .columns) (count target : Nat)
    (htarget : target = max minColumns (min count maxColumns))
    (hids : ∀ m ∈ tree.growth id (target - node.childList.length), ¬ m.Stuck) :
    ∃ next, tree.setColumnsCount id count = .ok next ∧
      (∃ made, tree.Resized next id node target made) ∧
      (target < node.childList.length →
        tree.removeLast id (node.childList.length - target) = .ok next) := by
  obtain rfl : target = clampColumns count := htarget.trans (clampColumns_eq count).symm
  have hsound := violations_eq_nil_iff_sound.1 h
  have hmin := minColumns_le_clampColumns count
  obtain ⟨next, hok⟩ := exists_setColumnsCount hget hkind hids
  refine ⟨next, hok, hsound.exists_resized hget hkind hok, fun hgt => ?_⟩
  · obtain ⟨hnumber, hpruned⟩ := hsound.pruned_setColumnsCount hget hkind hgt.le hok
    -- Both ways prune the same tree in the same way.
    obtain ⟨last, hlast, hnumber', hpruned'⟩ := hsound.pruned_removeLast hget hkind
      (node.childList.length - clampColumns count) (by omega)
    rw [Nat.sub_sub_self hgt.le] at hpruned'
    rw [hlast]
    exact congrArg Except.ok (ext_getElem? (fun other => by rw [hpruned'.unique hpruned])
      (hnumber'.trans hnumber.symm))

/-- A row of three columns is left with two if it is to have none, and gets a fourth one if it is to
have nine. -/
theorem setColumnsCount_resizes_nestedRows :
    let row : Node := ⟨some rootId, .columns { columns := 3 }, some ["left", "middle", "right"]⟩
    nestedRows.violations = [] ∧ nestedRows.get? "row" = some row ∧ row.kind = .columns ∧
      (∃ next, nestedRows.setColumnsCount "row" 0 = .ok next ∧ next.contains "note" = false ∧
        nestedRows.removeLast "row" 1 = .ok next) ∧
      (nestedRows.growth "row" 1).length = 1 ∧
      ∃ next made, nestedRows.setColumnsCount "row" 9 = .ok next ∧
        nestedRows.Resized next "row" row 4 made := by
  intro row
  have hget : nestedRows.get? "row" = some row := by decide +kernel
  refine ⟨violations_nestedRows, hget, rfl, ?_, by decide +kernel, ?_⟩
  · obtain ⟨next, hok, ⟨made, hmade⟩, hlast⟩ :=
      setColumnsCount_resizes violations_nestedRows hget rfl 0 2 rfl
        fun _ hmem => absurd hmem List.not_mem_nil
    refine ⟨next, hok, ?_, hlast (by decide)⟩
    have hnone : made = [] := List.eq_nil_of_length_eq_zero hmade.length
    rw [← Bool.not_eq_true, hmade.ids, hnone]
    decide +kernel
  · have hgrown : (nestedRows.appendColumns "row" 1).isSome = true := by decide +kernel
    obtain ⟨next, hok, ⟨made, hmade⟩, -⟩ :=
      setColumnsCount_resizes violations_nestedRows hget rfl 9 4 rfl
        (not_stuck_of_appendColumns hgrown)
    exact ⟨next, made, hok, hmade⟩

end Tree

end MailTemplate
