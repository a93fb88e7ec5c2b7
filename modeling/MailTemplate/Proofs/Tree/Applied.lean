import MailTemplate.Proofs.Component.Records
import MailTemplate.Proofs.Fallible
import MailTemplate.Proofs.Tree.Lookup

/-!
# What an Edit Does When It Applies

For each edit, the conditions under which it applies and the tree that it gives. Later proofs start
from these and never open an edit.
-/

namespace MailTemplate

namespace Tree

variable {tree next : Tree} {id parent target : NodeId}

theorem require_eq_ok_iff {node : Node} :
    tree.require id = .ok node ↔ tree.nodes[id]? = some node := by
  unfold require get?
  cases tree.nodes[id]? <;> simp

theorem requireChildren_eq_ok_iff {change : List NodeId → List NodeId} :
    tree.requireChildren id change = .ok next ↔
      (∃ node, tree.nodes[id]? = some node ∧ node.children.isSome = true) ∧
        tree.modifyChildren id change = next := by
  unfold requireChildren get?
  cases tree.nodes[id]? with
  | none => simp
  | some node => cases hchildren : node.children <;> simp [hchildren]

theorem reorderComponents_eq_ok_iff {source place : Nat} :
    tree.reorderComponents parent source place = .ok next ↔
      ∃ node, tree.nodes[parent]? = some node ∧ source < node.childList.length ∧
        place < node.childList.length ∧
        tree.modifyChildren parent (moveEntry · source place) = next := by
  unfold reorderComponents
  simp only [bind_eq_ok_iff, require_eq_ok_iff, guard_eq_ok_iff, pure_eq_ok_iff, Nat.not_le]

theorem removeComponent_eq_ok_iff :
    tree.removeComponent id = .ok next ↔
      ∃ node, tree.nodes[id]? = some node ∧ id ≠ rootId ∧
        match node.parent with
        | none => tree.eraseSubtree id = next
        | some parent =>
          ¬ (node.kind = .column ∧ (tree.childrenOf parent).length ≤ minColumns) ∧
            (tree.detach id parent node.kind).eraseSubtree id = next := by
  unfold removeComponent
  simp only [bind_eq_ok_iff, require_eq_ok_iff, guard_eq_ok_iff]
  refine exists_congr fun node => and_congr_right fun _ => and_congr_right fun _ => ?_
  cases node.parent with
  | none => exact pure_eq_ok_iff
  | some parent => simp only [guard_eq_ok_iff, pure_eq_ok_iff]

theorem setColumnsCount_eq_ok_iff {count : Nat} :
    tree.setColumnsCount id count = .ok next ↔
      ∃ node, tree.nodes[id]? = some node ∧ node.kind = .columns ∧
        ∃ resized, tree.resize id node.childList (clampColumns count) = some resized ∧
          resized.writeColumnCount id (clampColumns count) = next := by
  unfold setColumnsCount
  simp only [bind_eq_ok_iff, Unfinished.liftM_refused_eq_ok_iff,
    Unfinished.liftM_endless_eq_ok_iff, require_eq_ok_iff, guard_eq_ok_iff, pure_eq_ok_iff, Ne,
    not_not]

theorem resize_of_lt {columns : List NodeId} {count : Nat} (h : columns.length < count) :
    tree.resize id columns count = tree.appendColumns id (count - columns.length) :=
  if_pos h

theorem resize_of_ge {columns : List NodeId} {count : Nat} (h : count ≤ columns.length) :
    tree.resize id columns count =
      some ((columns.drop count).foldl eraseSubtree (tree.modifyChildren id (·.take count))) :=
  if_neg (Nat.not_lt.2 h)

/-- A row is resized unless one of its new columns gets no id. -/
theorem setColumnsCount_of_row {node : Node} (hget : tree.nodes[id]? = some node)
    (hkind : node.kind = .columns) (count : Nat) :
    tree.setColumnsCount id count =
      Unfinished.ofEndless ((tree.resize id node.childList (clampColumns count)).map
        (·.writeColumnCount id (clampColumns count))) := by
  rw [setColumnsCount, require_eq_ok_iff.2 hget]
  change (if node.kind ≠ .columns then _ else _) = _
  rw [if_neg (not_not.2 hkind)]
  cases tree.resize id node.childList (clampColumns count) <;> rfl

/-- A patch gives properties of the same kind, which are in range. -/
theorem patched_eq_ok {old new : Properties} {patch : List (String × Json)}
    (h : patched old patch = .ok new) : new.kind = old.kind ∧ new.InRange := by
  unfold patched at h
  split at h
  case h_1 read hread =>
    cases h
    rw [Properties.kind_clamp]
    exact ⟨Properties.kind_of_decode hread, Properties.inRange_clamp read⟩
  case h_2 => cases h

/-- The tree in which a row has the record of a patch, but for the number of its columns. -/
def recordRow (tree : Tree) (id : NodeId) (row : Columns) (count : Nat) : Tree :=
  tree.modify id fun node =>
    { node with properties := .columns { row with columns := .ofNat count } }

theorem getElem?_recordRow {node : Node} (hget : tree.nodes[id]? = some node) (row : Columns)
    (count : Nat) :
    (tree.recordRow id row count).nodes[id]? =
      some { node with properties := .columns { row with columns := .ofNat count } } := by
  rw [recordRow, nodes_modify, getElem?_modify_eq, if_pos rfl, hget]
  rfl

theorem updateComponent_eq_ok_iff {patch : List (String × Json)} :
    tree.updateComponent id patch = .ok next ↔
      ∃ node properties, tree.nodes[id]? = some node ∧
        patched node.properties patch = .ok properties ∧
        match properties with
        | .columns row =>
          if row.columns.toNat = node.childList.length then
            tree.recordRow id row node.childList.length = next
          else (tree.recordRow id row node.childList.length).setColumnsCount id row.columns.toNat =
            .ok next
        | _ => tree.modify id (fun node => { node with properties := properties }) = next := by
  unfold updateComponent
  simp only [bind_eq_ok_iff, Unfinished.liftM_refused_eq_ok_iff, require_eq_ok_iff]
  refine exists_congr fun node => ?_
  rw [← exists_and_left]
  refine exists_congr fun properties => and_congr_right fun _ => and_congr_right fun _ => ?_
  cases properties with
  | columns row =>
    dsimp only
    split
    · exact pure_eq_ok_iff
    · rfl
  | _ => exact pure_eq_ok_iff

/-- The tree in which a parent does not list a node any more. -/
def unlist (tree : Tree) (id : NodeId) (parent : Option NodeId) : Tree :=
  match parent with
  | some parent => tree.modifyChildren parent (without id)
  | none => tree

theorem moveComponent_eq_ok_iff {index : Option Nat} :
    tree.moveComponent id target index = .ok next ↔
      ∃ node, tree.nodes[id]? = some node ∧ id ≠ rootId ∧ node.kind ≠ .column ∧
      ∃ holder, tree.nodes[target]? = some holder ∧ holder.kind.accepts node.kind = true ∧
        ¬ (target = id ∨ tree.isAncestor id target = true) ∧
      ∃ placed, (tree.unlist id node.parent).requireChildren target
          (fun list => insertAt list (index.getD list.length) id) = .ok placed ∧
        placed.modify id (fun node => { node with parent := some target }) = next := by
  unfold moveComponent
  simp only [bind_eq_ok_iff, require_eq_ok_iff, guard_eq_ok_iff, pure_eq_ok_iff,
    Bool.not_eq_true', Bool.not_eq_false]
  rfl

/-! ## New nodes -/

theorem appendColumn_eq_some_iff {row : NodeId} :
    tree.appendColumn row = some next ↔
      ∃ id minted, tree.mint .column = some (id, minted) ∧
        (minted.insert id (.fresh (some row) Kind.column.defaults)).modifyChildren row (· ++ [id]) =
          next := by
  unfold appendColumn
  rw [Option.bind_eq_bind, Option.bind_eq_some_iff, Prod.exists]
  exact exists_congr fun id => exists_congr fun minted => and_congr_right fun _ =>
    ⟨Option.some.inj, congrArg some⟩

theorem appendColumns_succ_eq_some_iff {row : NodeId} {count : Nat} :
    tree.appendColumns row (count + 1) = some next ↔
      ∃ first, tree.appendColumn row = some first ∧ first.appendColumns row count = some next := by
  rw [appendColumns, Option.bind_eq_bind, Option.bind_eq_some_iff]

/-- A new row before its columns are made. -/
def bareRow (tree : Tree) (id parent : NodeId) : Tree :=
  tree.insert id (.fresh (some parent) Kind.columns.defaults)

theorem plant_columns_eq_some_iff :
    tree.plant .columns parent = some (next, id) ↔
      ∃ minted filled, tree.mint .columns = some (id, minted) ∧
        (minted.bareRow id parent).appendColumns id minColumns = some filled ∧
        filled.writeColumnCount id minColumns = next := by
  unfold plant
  rw [Option.bind_eq_bind, Option.bind_eq_some_iff, Prod.exists]
  constructor
  · rintro ⟨made, minted, hmint, h⟩
    obtain ⟨filled, hfilled, heq⟩ := Option.bind_eq_some_iff.1 h
    cases heq
    exact ⟨minted, filled, hmint, hfilled, rfl⟩
  · rintro ⟨minted, filled, hmint, hfilled, rfl⟩
    exact ⟨id, minted, hmint, Option.bind_eq_some_iff.2 ⟨filled, hfilled, rfl⟩⟩

theorem plant_eq_some_iff_of_ne {kind : Kind} (h : kind ≠ .columns) :
    tree.plant kind parent = some (next, id) ↔
      ∃ minted, tree.mint kind = some (id, minted) ∧
        minted.insert id (.fresh (some parent) kind.defaults) = next := by
  have hplant : tree.plant kind parent = (tree.mint kind).bind fun made =>
      some (made.2.insert made.1 (.fresh (some parent) kind.defaults), made.1) := by
    cases kind <;> first | exact absurd rfl h | rfl
  rw [hplant, Option.bind_eq_some_iff, Prod.exists]
  constructor
  · rintro ⟨made, minted, hmint, heq⟩
    cases heq
    exact ⟨minted, hmint, rfl⟩
  · rintro ⟨minted, hmint, rfl⟩
    exact ⟨id, minted, hmint, rfl⟩

theorem addComponent_eq_ok_iff {kind : Kind} {index : Option Nat} {made : NodeId} :
    tree.addComponent kind parent index = .ok (next, made) ↔
      ∃ node, tree.nodes[parent]? = some node ∧ kind ≠ .column ∧ node.kind.accepts kind = true ∧
      ∃ planted, tree.plant kind parent = some (planted, made) ∧
        planted.requireChildren parent (fun list => insertAt list
          (if index.getD node.childList.length < node.childList.length
            then index.getD node.childList.length else node.childList.length) made) = .ok next := by
  unfold addComponent
  simp only [bind_eq_ok_iff, Unfinished.liftM_refused_eq_ok_iff,
    Unfinished.liftM_endless_eq_ok_iff, require_eq_ok_iff, guard_eq_ok_iff, pure_eq_ok_iff,
    Bool.not_eq_true', Bool.not_eq_false, Prod.mk.injEq]
  refine exists_congr fun node => and_congr_right fun _ => and_congr_right fun _ =>
    and_congr_right fun _ => ?_
  constructor
  · rintro ⟨⟨planted, id⟩, hplant, placed, hplaced, rfl, rfl⟩
    exact ⟨planted, hplant, hplaced⟩
  · rintro ⟨planted, hplant, hplaced⟩
    exact ⟨⟨planted, made⟩, hplant, next, hplaced, rfl, rfl⟩

end Tree

end MailTemplate
