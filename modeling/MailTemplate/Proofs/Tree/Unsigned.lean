import MailTemplate.Proofs.Component.Patches
import MailTemplate.Proofs.Tree.Applied
import MailTemplate.Proofs.Tree.Mapped

/-!
# Edits and the Signs of Zeros

An edit does the same to two trees that differ in the signs of zero line heights only: both become
two such trees again, or the edit does not apply to either, for the same reason, or it ends on
neither.

* The lemmas say that a function commutes with `Tree.unsigned`, from looking up a node to the edits.
* `updateComponent_unsigned` says so up to the signs in the record that the patch gives.
-/

namespace MailTemplate

theorem Properties.unsigned_defaults (kind : Kind) : kind.defaults.unsigned = kind.defaults := by
  cases kind with
  | text =>
    exact congrArg (fun x => Properties.text { lineHeight := x }) Paragraph.unsigned_default
  | _ => rfl

theorem Properties.eq_columns_of_unsigned {properties : Properties} {row : Columns}
    (h : properties.unsigned = .columns row) : properties = .columns row := by
  cases properties with
  | text r => cases h
  | _ => exact h

theorem Node.unsigned_fresh (parent : Option NodeId) (kind : Kind) :
    (Node.fresh parent kind.defaults).unsigned = .fresh parent kind.defaults := by
  rw [Node.unsigned, Node.fresh, Properties.unsigned_defaults]

namespace Tree

variable (tree : Tree) (id : NodeId) (kind : Kind)

/-! ## Looking up -/

@[simp]
theorem unsigned_unsigned : tree.unsigned.unsigned = tree.unsigned := by
  ext id : 1
  · simp [Function.comp_def]
  · rfl

theorem mappedTo_unsigned : tree.MappedTo Node.unsigned tree.unsigned :=
  rfl

@[simp]
theorem get?_unsigned : tree.unsigned.get? id = (tree.get? id).map Node.unsigned :=
  tree.mappedTo_unsigned.get?_eq id

@[simp]
theorem contains_unsigned : tree.unsigned.contains id = tree.contains id := by
  simp [contains_eq_isSome]

@[simp]
theorem size_unsigned : tree.unsigned.size = tree.size :=
  tree.mappedTo_unsigned.size_eq

@[simp]
theorem childrenOf_unsigned : tree.unsigned.childrenOf id = tree.childrenOf id := by
  unfold childrenOf
  rw [get?_unsigned]
  cases tree.get? id <;> rfl

/-- Chains of parents do not depend on the records. -/
@[simp]
theorem isAncestor_unsigned (below : NodeId) :
    tree.unsigned.isAncestor id below = tree.isAncestor id below :=
  tree.mappedTo_unsigned.isAncestor_eq Node.parent_unsigned id below

/-! ## Small changes -/

theorem insert_unsigned (node : Node) :
    tree.unsigned.insert id node.unsigned = (tree.insert id node).unsigned := by
  ext other : 1
  · rw [getElem?_unsigned, nodes_insert, nodes_insert, getElem?_insert_eq, getElem?_insert_eq,
      getElem?_unsigned]
    split <;> rfl
  · rfl

/-- The defaults of a kind have no zero for a line height. -/
theorem insert_fresh_unsigned (parent : Option NodeId) :
    tree.unsigned.insert id (.fresh parent kind.defaults) =
      (tree.insert id (.fresh parent kind.defaults)).unsigned := by
  rw [← insert_unsigned, Node.unsigned_fresh]

/-- A change that commutes with dropping signs may be made before or after it. -/
theorem modify_unsigned {change change' : Node → Node}
    (h : ∀ node, change' node.unsigned = (change node).unsigned) :
    tree.unsigned.modify id change' = (tree.modify id change).unsigned := by
  ext other : 1
  · rw [getElem?_unsigned, nodes_modify, nodes_modify, getElem?_modify_eq, getElem?_modify_eq,
      getElem?_unsigned]
    split
    · rw [Option.map_map, Option.map_map]
      exact congrFun (congrArg Option.map (funext h)) _
    · rfl
  · rfl

@[simp]
theorem modifyChildren_unsigned (change : List NodeId → List NodeId) :
    tree.unsigned.modifyChildren id change = (tree.modifyChildren id change).unsigned :=
  tree.modify_unsigned id fun _ => rfl

@[simp]
theorem writeColumnCount_unsigned (count : Nat) :
    tree.unsigned.writeColumnCount id count = (tree.writeColumnCount id count).unsigned := by
  -- A row has no line height, and nothing is recorded for other kinds.
  refine tree.modify_unsigned id fun node => ?_
  obtain ⟨parent, properties, children⟩ := node
  cases properties <;> rfl

theorem freeNumber?_unsigned (tries n : Nat) :
    tree.unsigned.freeNumber? kind tries n = tree.freeNumber? kind tries n := by
  induction tries generalizing n with
  | zero => rfl
  | succ tries ih => rw [freeNumber?, freeNumber?, contains_unsigned, ih]

theorem mint_unsigned :
    tree.unsigned.mint kind = Prod.map (fun id => id) unsigned <$> tree.mint kind := by
  rw [mint, mint, freeNumber?_unsigned, size_unsigned, nextNumber_unsigned]
  cases tree.freeNumber? kind (tree.size + 1) tree.nextNumber <;> rfl

theorem appendColumn_unsigned :
    tree.unsigned.appendColumn id = unsigned <$> tree.appendColumn id := by
  rw [appendColumn, mint_unsigned, bind_map_left, appendColumn, map_bind]
  refine bind_congr fun made => ?_
  dsimp only [Prod.map]
  rw [insert_fresh_unsigned, modifyChildren_unsigned]
  rfl

theorem appendColumns_unsigned (count : Nat) :
    tree.unsigned.appendColumns id count = unsigned <$> tree.appendColumns id count := by
  induction count generalizing tree with
  | zero => rfl
  | succ count ih =>
    rw [appendColumns, appendColumn_unsigned, bind_map_left, appendColumns, map_bind]
    exact bind_congr fun first => ih first

theorem erase_map_unsigned (nodes : Nodes) (id : NodeId) :
    (nodes.map fun _ node => node.unsigned).erase id =
      (nodes.erase id).map fun _ node => node.unsigned := by
  refine Std.ExtTreeMap.ext_getElem? fun other => ?_
  rw [getElem?_erase_eq, Std.ExtTreeMap.getElem?_map, Std.ExtTreeMap.getElem?_map,
    getElem?_erase_eq]
  split <;> rfl

theorem eraseAll_unsigned (nodes : Nodes) (stack : List NodeId) :
    eraseAll (nodes.map fun _ node => node.unsigned) stack =
      (eraseAll nodes stack).map fun _ node => node.unsigned := by
  fun_induction eraseAll nodes stack with
  | case1 nodes => rw [eraseAll]
  | case2 nodes id stack hnone ih =>
    rw [eraseAll_of_none (by rw [Std.ExtTreeMap.getElem?_map, hnone]; rfl), ih]
  | case3 nodes id stack node hsome hlt ih =>
    -- What comes on the stack is read off the list of children, which has no sign.
    have hget : (nodes.map fun _ node => node.unsigned)[id]? = some node.unsigned := by
      rw [Std.ExtTreeMap.getElem?_map, hsome]
      rfl
    rw [eraseAll_of_some hget, erase_map_unsigned]
    exact ih

@[simp]
theorem eraseSubtree_unsigned :
    tree.unsigned.eraseSubtree id = (tree.eraseSubtree id).unsigned := by
  rw [eraseSubtree, unsigned, eraseAll_unsigned]
  rfl

@[simp]
theorem foldl_eraseSubtree_unsigned (ids : List NodeId) :
    ids.foldl eraseSubtree tree.unsigned = (ids.foldl eraseSubtree tree).unsigned := by
  induction ids generalizing tree with
  | nil => rfl
  | cons id ids ih => rw [List.foldl_cons, eraseSubtree_unsigned, ih, List.foldl_cons]

/-! ## Edits -/

@[simp]
theorem map_unsigned_unsigned {ε : Type} (x : Except ε Tree) :
    unsigned <$> unsigned <$> x = unsigned <$> x := by
  cases x with
  | error reason => rfl
  | ok tree => exact congrArg Except.ok tree.unsigned_unsigned

theorem require_unsigned :
    tree.unsigned.require id = Node.unsigned <$> tree.require id := by
  unfold require
  rw [get?_unsigned]
  cases tree.get? id <;> rfl

theorem requireChildren_unsigned (change : List NodeId → List NodeId) :
    tree.unsigned.requireChildren id change = unsigned <$> tree.requireChildren id change := by
  have hchildren : ((tree.get? id).map Node.unsigned).bind Node.children =
      (tree.get? id).bind Node.children := by
    cases tree.get? id <;> rfl
  unfold requireChildren
  rw [get?_unsigned, modifyChildren_unsigned, hchildren]
  cases (tree.get? id).bind Node.children <;> rfl

theorem reorderComponents_unsigned (source target : Nat) :
    tree.unsigned.reorderComponents id source target =
      unsigned <$> tree.reorderComponents id source target := by
  unfold reorderComponents
  rw [require_unsigned, bind_map_left, map_bind]
  refine bind_congr fun node => ?_
  -- Both checks count the children of the node.
  refine guard_eq_map_guard Iff.rfl (guard_eq_map_guard Iff.rfl ?_)
  rw [modifyChildren_unsigned]
  rfl

theorem detach_unsigned (parent : NodeId) :
    tree.unsigned.detach id parent kind = (tree.detach id parent kind).unsigned := by
  simp only [detach, modifyChildren_unsigned, childrenOf_unsigned, writeColumnCount_unsigned]
  split <;> rfl

theorem removeComponent_unsigned :
    tree.unsigned.removeComponent id = unsigned <$> tree.removeComponent id := by
  unfold removeComponent
  rw [require_unsigned, bind_map_left, map_bind]
  refine bind_congr fun node => guard_eq_map_guard Iff.rfl ?_
  rw [Node.parent_unsigned]
  cases node.parent with
  | none =>
    dsimp only
    rw [eraseSubtree_unsigned]
    rfl
  | some parent =>
    -- Whether a column may go depends on its kind and on the columns of the row.
    apply guard_eq_map_guard
    · rw [Node.kind_unsigned, childrenOf_unsigned]
    · rw [Node.kind_unsigned, detach_unsigned, eraseSubtree_unsigned]
      rfl

theorem resize_unsigned (columns : List NodeId) (count : Nat) :
    tree.unsigned.resize id columns count = unsigned <$> tree.resize id columns count := by
  rw [resize, appendColumns_unsigned, modifyChildren_unsigned, foldl_eraseSubtree_unsigned, resize]
  split <;> rfl

theorem setColumnsCount_unsigned (count : Nat) :
    tree.unsigned.setColumnsCount id count = unsigned <$> tree.setColumnsCount id count := by
  unfold setColumnsCount
  rw [require_unsigned, Unfinished.liftM_refused_map, bind_map_left, map_bind]
  refine bind_congr fun node => ?_
  rw [Node.kind_unsigned]
  refine guard_eq_map_guard Iff.rfl ?_
  dsimp only
  rw [Node.childList_unsigned, resize_unsigned, Unfinished.liftM_endless_map, bind_map_left,
    map_bind]
  simp only [writeColumnCount_unsigned, map_pure]

theorem plant_unsigned (parent : NodeId) :
    tree.unsigned.plant kind parent =
      Prod.map unsigned (fun made => made) <$> tree.plant kind parent := by
  rw [plant, mint_unsigned, bind_map_left, plant, map_bind]
  refine bind_congr fun made => ?_
  dsimp only [Prod.map]
  rw [insert_fresh_unsigned]
  split
  · rw [appendColumns_unsigned, bind_map_left, map_bind]
    simp only [writeColumnCount_unsigned, map_pure, Prod.map]
  · rfl

theorem addComponent_unsigned (index : Option Nat) :
    tree.unsigned.addComponent kind id index =
      Prod.map unsigned (fun made => made) <$> tree.addComponent kind id index := by
  unfold addComponent
  rw [require_unsigned, Unfinished.liftM_refused_map, bind_map_left, map_bind]
  refine bind_congr fun node => guard_eq_map_guard Iff.rfl ?_
  rw [Node.kind_unsigned]
  refine guard_eq_map_guard Iff.rfl ?_
  dsimp only
  rw [plant_unsigned, Unfinished.liftM_endless_map, bind_map_left, map_bind]
  refine bind_congr fun planted => ?_
  dsimp only [Prod.map]
  rw [requireChildren_unsigned, Unfinished.liftM_refused_map, bind_map_left, map_bind]
  rfl

theorem unlist_unsigned (parent : Option NodeId) :
    tree.unsigned.unlist id parent = (tree.unlist id parent).unsigned := by
  cases parent with
  | none => rfl
  | some parent => exact tree.modifyChildren_unsigned parent _

theorem moveComponent_unsigned (target : NodeId) (index : Option Nat) :
    tree.unsigned.moveComponent id target index =
      unsigned <$> tree.moveComponent id target index := by
  have hrepoint : ∀ tree : Tree,
      tree.unsigned.modify id (fun node => { node with parent := some target }) =
        (tree.modify id fun node => { node with parent := some target }).unsigned :=
    fun tree => tree.modify_unsigned id fun _ => rfl
  unfold moveComponent
  rw [require_unsigned, bind_map_left, map_bind]
  refine bind_congr fun node => guard_eq_map_guard Iff.rfl ?_
  rw [Node.kind_unsigned]
  refine guard_eq_map_guard Iff.rfl ?_
  rw [require_unsigned, bind_map_left, map_bind]
  refine bind_congr fun holder => ?_
  rw [Node.kind_unsigned]
  apply guard_eq_map_guard Iff.rfl
  apply guard_eq_map_guard
  · rw [isAncestor_unsigned]
  · -- The node leaves its old parent, is listed by the new one, and names it.
    show ((tree.unsigned.unlist id node.parent).requireChildren target _ >>= _) =
      unsigned <$> ((tree.unlist id node.parent).requireChildren target _ >>= _)
    rw [unlist_unsigned, requireChildren_unsigned, bind_map_left, map_bind]
    simp only [hrepoint]
    rfl

theorem recordRow_unsigned (row : Columns) (count : Nat) :
    tree.unsigned.recordRow id row count = (tree.recordRow id row count).unsigned :=
  tree.modify_unsigned id fun _ => rfl

/-- Two records that differ in the sign of a zero only make such trees of two such trees. -/
theorem setProperties_unsigned {properties properties' : Properties}
    (h : properties'.unsigned = properties.unsigned) :
    (tree.unsigned.modify id fun node => { node with properties := properties' }).unsigned =
      (tree.modify id fun node => { node with properties := properties }).unsigned := by
  have hset : ∀ (tree : Tree) (properties : Properties),
      (tree.modify id fun node => { node with properties := properties }).unsigned =
        tree.unsigned.modify id fun node => { node with properties := properties.unsigned } := by
    intro tree properties
    refine (tree.modify_unsigned id fun node => ?_).symm
    rfl
  rw [hset, hset, h, unsigned_unsigned]

theorem updateComponent_unsigned (patch : List (String × Json)) :
    unsigned <$> tree.unsigned.updateComponent id patch =
      unsigned <$> tree.updateComponent id patch := by
  unfold updateComponent
  rw [require_unsigned, Unfinished.liftM_refused_map, bind_map_left, map_bind, map_bind]
  refine bind_congr fun node => ?_
  have hpatched := congrArg (liftM (n := Except EditFailure))
    (patched_unsigned node.properties patch)
  rw [Unfinished.liftM_refused_map, Unfinished.liftM_refused_map] at hpatched
  -- From here on there are two records, which differ in the sign of a zero at most.
  refine map_bind_congr hpatched fun properties' properties h => ?_
  by_cases hrow : ∃ row, properties = .columns row
  · -- A row has no line height, so both patches give the same record.
    obtain ⟨row, rfl⟩ := hrow
    obtain rfl := Properties.eq_columns_of_unsigned h
    dsimp only [Node.childList_unsigned]
    show unsigned <$> (if row.columns.toNat = node.childList.length then
        pure (tree.unsigned.recordRow id row node.childList.length)
      else (tree.unsigned.recordRow id row node.childList.length).setColumnsCount id _) =
      unsigned <$> if row.columns.toNat = node.childList.length then
        pure (tree.recordRow id row node.childList.length)
      else (tree.recordRow id row node.childList.length).setColumnsCount id _
    rw [recordRow_unsigned]
    split
    · exact congrArg Except.ok (unsigned_unsigned _)
    · rw [setColumnsCount_unsigned]
      exact map_unsigned_unsigned _
  · have hrow' : ¬ ∃ row, properties' = .columns row := by
      rintro ⟨row, rfl⟩
      exact hrow ⟨row, Properties.eq_columns_of_unsigned h.symm⟩
    split
    · exact absurd ⟨_, rfl⟩ hrow'
    · split
      · exact absurd ⟨_, rfl⟩ hrow
      · exact congrArg Except.ok (tree.setProperties_unsigned id h)

end Tree

end MailTemplate
