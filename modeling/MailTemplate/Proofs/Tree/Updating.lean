import MailTemplate.Proofs.Component.Patching
import MailTemplate.Proofs.Json.Distinct
import MailTemplate.Proofs.Storage.RoundTrip
import MailTemplate.Proofs.Tree.Resizing

/-!
# Updating a Component

An update lays a patch over the record of a node. Only a row that is to have another number of
columns changes in more than its record: it is resized just as it can be resized directly.

* `Tree.Sound.updateComponent_row_iff` says what an update does to a row, and
  `Tree.updateComponent_iff_of_ne` what it does to any other node.
* `Tree.updateComponent_resizes`, `Tree.updateComponent_again` and `Tree.updateComponent_leaves` are
  about the trees that come of loading and editing: the two ways to resize a row, a patch that is
  laid over twice, and what a patch leaves alone.
-/

namespace MailTemplate

open Json

namespace Tree

variable {tree next : Tree} {id other : NodeId} {node : Node} {r row : Columns} {count : Nat}
  {patch : List (String × Json)} {value : Json}

/-! ## Rows -/

theorem clampColumns_eq_self (hmin : minColumns ≤ count) (hmax : count ≤ maxColumns) :
    clampColumns count = count := by
  rw [clampColumns_eq, Nat.min_eq_left hmax, Nat.max_eq_right hmin]

/-- A row is not changed when the number of columns is recorded that it records. -/
theorem recordRow_eq_self {columns : UInt32} (hget : tree.nodes[id]? = some node)
    (hrow : node.properties = .columns { row with columns }) (hcount : columns.toNat = count) :
    tree.recordRow id row count = tree := by
  refine ext_getElem? (fun other => ?_) rfl
  rw [recordRow, nodes_modify, modify_eq_insert _ hget, ← hcount, UInt32.ofNat_toNat, ← hrow,
    insert_eq_self hget]

namespace Sound

variable (h : tree.Sound) (hget : tree.nodes[id]? = some node)
include h hget

theorem columns_toNat (hrow : node.properties = .columns row) :
    row.columns.toNat = node.childList.length := by
  have hfits := h.fits hget
  rw [Node.Fits, hrow] at hfits
  exact hfits.2.2

/-- A row that is given the number of columns that it has is not changed. -/
theorem setColumnsCount_eq_self (hkind : node.kind = .columns)
    (hcount : clampColumns count = node.childList.length) :
    tree.setColumnsCount id count = .ok tree := by
  have hnone : tree.growth id (clampColumns count - node.childList.length) = [] := by
    rw [hcount, Nat.sub_self, growth]
  obtain ⟨next, hok⟩ : ∃ next, tree.setColumnsCount id count = .ok next := by
    refine exists_setColumnsCount hget hkind ?_
    rw [hnone]
    exact fun _ hmem => absurd hmem List.not_mem_nil
  obtain ⟨hnumber, hpruned⟩ := h.pruned_setColumnsCount hget hkind hcount.le hok
  have hcontainer := (SoundBut.forest h).isSome_children_row hget hkind
  -- Nothing is dropped behind the last column.
  rw [hcount, List.drop_length, Node.cut_length (h.fits hget) hkind hcontainer] at hpruned
  rw [hok]
  refine congrArg Except.ok (ext_getElem? (fun other => ?_) hnumber)
  by_cases heq : other = id
  · rw [heq, hpruned.atNode, hget]
  · exact hpruned.elsewhere heq fun top htop => absurd htop List.not_mem_nil

/-- The record of a row does not matter for the number of columns that it has. -/
theorem setColumnsCount_recordRow (hkind : node.kind = .columns) (row : Columns)
    (hcount : count = node.childList.length) :
    (tree.recordRow id row node.childList.length).setColumnsCount id count =
      .ok (tree.recordRow id row node.childList.length) := by
  obtain ⟨hmin, hmax⟩ := (h.fits hget).length_bounds hkind
  refine (h.recordRow row hget hkind).setColumnsCount_eq_self (getElem?_recordRow hget row _) rfl ?_
  rw [hcount, clampColumns_eq_self hmin hmax]
  rfl

/-- A row gets the record of the patch with the number of columns that it has, and then the number
of columns of the patch. -/
theorem updateComponent_row (hrow : node.properties = .columns r)
    (hpatched : patched (.columns r) patch = .ok (.columns row)) :
    tree.updateComponent id patch =
      (tree.recordRow id row node.childList.length).setColumnsCount id row.columns.toNat := by
  have hkind : node.kind = .columns := congrArg Properties.kind hrow
  rw [← hrow] at hpatched
  rw [Tree.updateComponent, Unfinished.liftM_refused_eq_ok_iff.2 (require_eq_ok_iff.2 hget),
    ok_bind, Unfinished.liftM_refused_eq_ok_iff.2 hpatched, ok_bind]
  dsimp only
  split
  case isTrue hcount =>
    rw [h.setColumnsCount_recordRow hget hkind row hcount]
    rfl
  case isFalse => rfl

theorem updateComponent_row_iff (hrow : node.properties = .columns r) :
    tree.updateComponent id patch = .ok next ↔
      ∃ row, patched (.columns r) patch = .ok (.columns row) ∧
        (tree.recordRow id row node.childList.length).setColumnsCount id row.columns.toNat =
          .ok next := by
  constructor
  · intro hok
    obtain ⟨node', properties, hget', hpatched, -⟩ := updateComponent_eq_ok_iff.1 hok
    cases hget.symm.trans hget'
    rw [hrow] at hpatched
    cases properties with
    | columns row =>
      rw [h.updateComponent_row hget hrow hpatched] at hok
      exact ⟨row, hpatched, hok⟩
    | _ => nomatch (patched_eq_ok hpatched).1
  · rintro ⟨row, hpatched, hnext⟩
    rwa [h.updateComponent_row hget hrow hpatched]

end Sound

/-! ## Other components -/

/-- Any other node gets the record of the patch. -/
theorem updateComponent_iff_of_ne (hget : tree.nodes[id]? = some node)
    (hkind : node.kind ≠ .columns) :
    tree.updateComponent id patch = .ok next ↔
      ∃ properties, patched node.properties patch = .ok properties ∧
        tree.modify id (fun node => { node with properties := properties }) = next := by
  have hother : ∀ {row}, patched node.properties patch ≠ .ok (.columns row) :=
    fun hpatched => hkind (patched_eq_ok hpatched).1.symm
  rw [updateComponent_eq_ok_iff]
  constructor
  · rintro ⟨node', properties, hget', hpatched, hnext⟩
    cases hget.symm.trans hget'
    refine ⟨properties, hpatched, ?_⟩
    cases properties with
    | columns row => exact absurd hpatched hother
    | _ => exact hnext
  · rintro ⟨properties, hpatched, hnext⟩
    refine ⟨node, properties, hget, hpatched, ?_⟩
    cases properties with
    | columns row => exact absurd hpatched hother
    | _ => exact hnext

/-- A patch that does not name the number of columns gives a node that fits another record, and
changes nothing else. -/
theorem updateComponent_eq_map (hget : tree.nodes[id]? = some node) (hfits : node.Fits)
    (hnamed : lookup "columns" patch = none) :
    tree.updateComponent id patch =
      (fun properties => tree.modify id fun node => { node with properties }) <$>
        (liftM (patched node.properties patch) : Except EditFailure Properties) := by
  rw [updateComponent, Unfinished.liftM_refused_eq_ok_iff.2 (require_eq_ok_iff.2 hget), ok_bind]
  cases hpatched : patched node.properties patch with
  | error reason => rfl
  | ok properties =>
    cases properties with
    | columns row =>
      obtain ⟨r, hrow⟩ := Node.kind_eq_columns (patched_eq_ok hpatched).1.symm
      -- The row records the columns that it has, before the patch and so after it.
      have hcount : row.columns.toNat = node.childList.length := by
        rw [Node.Fits, hrow] at hfits
        rw [columns_eq_of_patched hnamed (hrow ▸ hpatched)]
        exact hfits.2.2
      change (if row.columns.toNat = node.childList.length then _ else _) = _
      rw [if_pos hcount, ← hcount, UInt32.ofNat_toNat]
      rfl
    | _ => rfl

theorem getElem?_setRecord (hget : tree.nodes[id]? = some node) (properties : Properties) :
    (tree.modify id fun node => { node with properties }).nodes[id]? =
      some { node with properties } := by
  rw [nodes_modify, getElem?_modify_eq, if_pos rfl, hget, Option.map_some]

theorem exists_get_of_updateComponent (hok : tree.updateComponent id patch = .ok next) :
    ∃ node, tree.nodes[id]? = some node := by
  obtain ⟨node, -, hget, -⟩ := updateComponent_eq_ok_iff.1 hok
  exact ⟨node, hget⟩

/-! ## The two ways to resize a row -/

namespace Sound

variable (h : tree.Sound) (hget : tree.nodes[id]? = some node) (hrow : node.properties = .columns r)
include h hget hrow

/-- A patch with a number of columns does what the patch without it does, and then the resizing. -/
theorem updateComponent_resizes_row (hdistinct : (Json.object patch).Distinct)
    (hnamed : lookup "columns" patch = some value)
    (hok : tree.updateComponent id patch = .ok next) :
    ∃ count base, Codec.uint32.decode value = .ok count ∧
      tree.updateComponent id (patch.filter (·.1 ≠ "columns")) = .ok base ∧
      base.setColumnsCount id count.toNat = .ok next := by
  have hkind : node.kind = .columns := congrArg Properties.kind hrow
  have hkeys := hdistinct.nodup_keys
  obtain ⟨row, hpatched, hnext⟩ := (h.updateComponent_row_iff hget hrow).1 hok
  have hread := ((patched_columns_iff hkeys).1 hpatched).1
  rw [hnamed, Option.getD_some] at hread
  -- Without the member, the row gets the same record and is left with the columns that it has.
  have hbase := h.setColumnsCount_recordRow hget hkind row (h.columns_toNat hget hrow)
  exact ⟨row.columns, _, hread, (h.updateComponent_row_iff hget hrow).2
    ⟨_, patched_columns_filter hkeys hpatched, hbase⟩, hnext⟩

/-- A number of columns alone does no more and no less than the resizing. -/
theorem updateComponent_columns {columns : UInt32}
    (hread : Codec.uint32.decode value = .ok columns) :
    tree.updateComponent id [("columns", value)] = tree.setColumnsCount id columns.toNat := by
  have hsame : tree.recordRow id { r with columns } node.childList.length = tree :=
    recordRow_eq_self hget hrow (h.columns_toNat hget hrow)
  rw [h.updateComponent_row hget hrow (patched_columns_singleton hread), hsame]

end Sound

/-- In a tree that comes of loading and editing, a row can be resized by a patch with a number of
columns, which does the same as the patch without it and the resizing after that. The number alone
resizes the row and does nothing else, and it does so as long as there are ids for the columns that
have to be made. -/
theorem updateComponent_resizes (h : tree.Reachable) (hget : tree.get? id = some node)
    (hkind : node.kind = .columns) :
    (∀ patch value next, (Json.object patch).Distinct → lookup "columns" patch = some value →
      tree.updateComponent id patch = .ok next →
      ∃ columns base, Codec.uint32.decode value = .ok columns ∧
        tree.updateComponent id (patch.filter (·.1 ≠ "columns")) = .ok base ∧
        base.setColumnsCount id columns.toNat = .ok next) ∧
    ∀ columns : UInt32,
      tree.updateComponent id [("columns", Codec.uint32.encode columns)] =
        tree.setColumnsCount id columns.toNat ∧
      ((∀ m ∈ tree.growth id (clampColumns columns.toNat - node.childList.length), ¬ m.Stuck) →
        ∃ next, tree.setColumnsCount id columns.toNat = .ok next) := by
  obtain ⟨hsound, -⟩ := h.sound
  obtain ⟨r, hrow⟩ := Node.kind_eq_columns hkind
  exact ⟨fun _ _ _ hdistinct hnamed hok =>
      hsound.updateComponent_resizes_row hget hrow hdistinct hnamed hok,
    fun columns => ⟨hsound.updateComponent_columns hget hrow (Codec.uint32_lawful columns),
      exists_setColumnsCount hget hkind⟩⟩

/-- The tree of a root with a row that has been added to it. -/
def addedRow : Tree :=
  (((Command.addComponent .columns rootId none).execute Tree.empty).map Prod.fst).getD .empty

theorem reachable_addedRow : addedRow.Reachable := by
  obtain ⟨⟨next, outcome⟩, hok⟩ :
      ∃ result, (Command.addComponent .columns rootId none).execute Tree.empty = some result :=
    Option.isSome_iff_exists.1 (by decide +kernel)
  rw [addedRow, hok]
  exact .edited .fresh hok

/-- A row gets a gap and as many columns as it may have, or is asked to have none. -/
theorem updateComponent_resizes_addedRow :
    addedRow.Reachable ∧
      (∃ row, addedRow.get? "columns-1" = some row ∧ row.kind = .columns) ∧
      (∃ base next, addedRow.updateComponent "columns-1" [("gap", .ofNat 4)] = .ok base ∧
        base.setColumnsCount "columns-1" 9 = .ok next ∧ addedRow.updateComponent "columns-1"
          [("columns", .ofNat 9), ("gap", .ofNat 4)] = .ok next) ∧
      ∃ next,
        addedRow.updateComponent "columns-1" [("columns", Codec.uint32.encode 0)] = .ok next ∧
          addedRow.setColumnsCount "columns-1" 0 = .ok next := by
  have hget : addedRow.get? "columns-1" =
      some ⟨some rootId, .columns {}, some ["column-2", "column-3"]⟩ := by decide +kernel
  obtain ⟨hpatch, halone⟩ := updateComponent_resizes reachable_addedRow hget rfl
  obtain ⟨hsame, hresizes⟩ := halone 0
  obtain ⟨resized, hresized⟩ := hresizes fun _ hmem => absurd hmem List.not_mem_nil
  refine ⟨reachable_addedRow, ⟨_, hget, rfl⟩, ?_, resized, hsame.trans hresized, hresized⟩
  obtain ⟨next, hok⟩ : ∃ next, addedRow.updateComponent "columns-1"
      [("columns", .ofNat 9), ("gap", .ofNat 4)] = .ok next :=
    isOk_iff_exists.1 (by decide +kernel)
  obtain ⟨columns, base, hread, hbase, hnext⟩ :=
    hpatch _ _ next (isDistinct_iff.1 (by decide)) rfl hok
  obtain rfl : columns = 9 := (Except.ok.inj hread).symm
  exact ⟨base, next, hbase, hnext, hok⟩

/-! ## The updated row -/

namespace Sound

variable (h : tree.Sound) (hget : tree.nodes[id]? = some node) (hrow : node.properties = .columns r)
include h hget hrow

/-- An updated row has the record of the patch, but for the number of columns, which is pulled into
range. -/
theorem get_of_updateComponent_row
    (hok : tree.updateComponent id patch = .ok next) :
    ∃ row columns children, patched (.columns r) patch = .ok (.columns row) ∧
      next.nodes[id]? = some ⟨node.parent, .columns { row with columns }, some children⟩ ∧
      columns.toNat = clampColumns row.columns.toNat := by
  have hkind : node.kind = .columns := congrArg Properties.kind hrow
  obtain ⟨row, hpatched, hnext⟩ := (h.updateComponent_row_iff hget hrow).1 hok
  obtain ⟨made, hresized⟩ := (h.recordRow row hget hkind).exists_resized
    (getElem?_recordRow hget row _) rfl hnext
  obtain ⟨recorded, columns, hrecorded, hcolumns, hafter⟩ := hresized.atRow
  cases hrecorded
  exact ⟨row, columns, _, hpatched, hafter, hcolumns⟩

/-! ## A patch laid over twice -/

theorem updateComponent_row_again (hdistinct : (Json.object patch).Distinct)
    (hok : tree.updateComponent id patch = .ok next) :
    next.updateComponent id patch = .ok next := by
  have hkeys := hdistinct.nodup_keys
  have hkind : node.kind = .columns := congrArg Properties.kind hrow
  obtain ⟨hmin, hmax⟩ := (h.fits hget).length_bounds hkind
  have hnext := h.updateComponent hok
  obtain ⟨row, columns, children, hpatched, hafter, hcolumns⟩ :=
    h.get_of_updateComponent_row hget hrow hok
  have hlength := hnext.columns_toNat hafter rfl
  -- The record is read from the patch again, whatever number of columns it has by now.
  have hagain : patched (.columns { row with columns }) patch = .ok (.columns row) := by
    have hrange : (Properties.columns r).InRange := rfl
    have hsame := patched_patched hrange hdistinct hpatched
    cases hnamed : lookup "columns" patch with
    | some value => exact patched_columns_recount hkeys hnamed columns hsame
    | none =>
      have hkept : row.columns.toNat = node.childList.length := by
        rw [columns_eq_of_patched hnamed hpatched, h.columns_toNat hget hrow]
      have hback : columns = row.columns := by
        rw [hkept, clampColumns_eq_self hmin hmax, ← hkept] at hcolumns
        exact UInt32.toNat_inj.1 hcolumns
      rwa [hback]
  refine (hnext.updateComponent_row_iff hafter rfl).2 ⟨row, hagain, ?_⟩
  rw [recordRow_eq_self hafter rfl hlength]
  exact hnext.setColumnsCount_eq_self hafter rfl (hcolumns.symm.trans hlength)

end Sound

/-- Laying the same patch over a component again changes nothing. -/
theorem updateComponent_again (h : tree.Reachable) (hdistinct : (Json.object patch).Distinct)
    (hok : tree.updateComponent id patch = .ok next) :
    next.updateComponent id patch = .ok next := by
  obtain ⟨hsound, hrange⟩ := h.sound
  obtain ⟨node, hget⟩ := exists_get_of_updateComponent hok
  by_cases hkind : node.kind = .columns
  · obtain ⟨r, hrow⟩ := Node.kind_eq_columns hkind
    exact hsound.updateComponent_row_again hget hrow hdistinct hok
  · obtain ⟨properties, hpatched, rfl⟩ := (updateComponent_iff_of_ne hget hkind).1 hok
    have hafter := getElem?_setRecord hget properties
    have hkind' : properties.kind ≠ .columns := fun heq =>
      hkind ((patched_eq_ok hpatched).1.symm.trans heq)
    have hagain := patched_patched (hrange hget) hdistinct hpatched
    refine (updateComponent_iff_of_ne hafter hkind').2 ⟨properties, hagain, ?_⟩
    refine ext_getElem? (fun other => ?_) rfl
    rw [nodes_modify, modify_eq_insert _ hafter, insert_eq_self hafter]

/-- A row that is asked to have nine columns has four, and keeps those when it is asked again. -/
theorem updateComponent_again_addedRow :
    addedRow.Reachable ∧ (Json.object [("columns", .ofNat 9)]).Distinct ∧
      ∃ next, addedRow.updateComponent "columns-1" [("columns", .ofNat 9)] = .ok next ∧
        next.updateComponent "columns-1" [("columns", .ofNat 9)] = .ok next := by
  have hdistinct : (Json.object [("columns", .ofNat 9)]).Distinct := isDistinct_iff.1 (by decide)
  obtain ⟨next, hok⟩ :
      ∃ next, addedRow.updateComponent "columns-1" [("columns", .ofNat 9)] = .ok next :=
    isOk_iff_exists.1 (by decide +kernel)
  exact ⟨reachable_addedRow, hdistinct, next, hok,
    updateComponent_again reachable_addedRow hdistinct hok⟩

/-! ## What an update leaves alone -/

/-- A node has got the record of a patch, and what the patch does not name has not changed. -/
structure Updated (tree next : Tree) (id : NodeId) (patch : List (String × Json))
    (node node' : Node) : Prop where
  before : tree.get? id = some node
  after : next.get? id = some node'
  parent : node'.parent = node.parent
  kind : node'.kind = node.kind
  /-- A field that the patch does not name has the value that it had. -/
  fields : ∀ key, key ∉ patch.map Prod.fst →
    node'.properties.encode.get? key = node.properties.encode.get? key
  /-- So has a side of a padding for which the patch has an object that does not name it. -/
  sides : ∀ key named side, lookup key patch = some (.object named) →
    side ∉ named.map Prod.fst → (node'.properties.encode.get? key).bind (Json.get? side) =
      (node.properties.encode.get? key).bind (Json.get? side)
  /-- Only a row with a new number of columns changes in more than its record. -/
  rest : ¬ (node.kind = .columns ∧ "columns" ∈ patch.map Prod.fst) →
    node'.children = node.children ∧ ∀ other, other ≠ id → next.get? other = tree.get? other

/-- A node that has got the record of a patch and nothing else. -/
theorem updated_setRecord {properties : Properties} (hget : tree.nodes[id]? = some node)
    (hrange : node.properties.InRange) (hdistinct : (Json.object patch).Distinct)
    (hpatched : patched node.properties patch = .ok properties) :
    tree.Updated (tree.modify id fun node => { node with properties }) id patch node
      { node with properties } where
  before := hget
  after := getElem?_setRecord hget properties
  parent := rfl
  kind := (patched_eq_ok hpatched).1
  fields key hnot := patched_keeps hrange hdistinct.nodup_keys hpatched hnot
  sides key named side hobject hnot :=
    patched_keeps_side hdistinct.nodup_keys
      (hdistinct.of_mem (mem_of_lookup_eq_some hobject)).nodup_keys hpatched hobject hnot
  rest _ := ⟨rfl, fun other hne => by
    rw [get?, nodes_modify, getElem?_modify_eq, if_neg hne]
    rfl⟩

namespace Sound

variable (h : tree.Sound) (hget : tree.nodes[id]? = some node) (hrow : node.properties = .columns r)
include h hget hrow

/-- A patch that does not name the number of columns changes no more than the record. -/
theorem eq_setRecord_of_not_named (hnamed : lookup "columns" patch = none)
    (hok : tree.updateComponent id patch = .ok next) :
    ∃ row, patched (.columns r) patch = .ok (.columns row) ∧
      next = tree.modify id fun node => { node with properties := .columns row } := by
  rw [updateComponent_eq_map hget (h.fits hget) hnamed, map_eq_ok_iff, hrow] at hok
  obtain ⟨properties, hpatched, rfl⟩ := hok
  rw [Unfinished.liftM_refused_eq_ok_iff] at hpatched
  cases properties with
  | columns row => exact ⟨row, hpatched, rfl⟩
  | _ => nomatch (patched_eq_ok hpatched).1

theorem updated_row (hdistinct : (Json.object patch).Distinct)
    (hok : tree.updateComponent id patch = .ok next) :
    ∃ node', tree.Updated next id patch node node' := by
  have hkeys := hdistinct.nodup_keys
  have hrange : (Properties.columns r).InRange := rfl
  have hkind : node.kind = .columns := congrArg Properties.kind hrow
  cases hnamed : lookup "columns" patch with
  | none =>
    obtain ⟨row, hpatched, rfl⟩ := h.eq_setRecord_of_not_named hget hrow hnamed hok
    rw [← hrow] at hrange hpatched
    exact ⟨_, updated_setRecord hget hrange hdistinct hpatched⟩
  | some value =>
    obtain ⟨row, columns, children, hpatched, hafter, -⟩ :=
      h.get_of_updateComponent_row hget hrow hok
    have hmem : "columns" ∈ patch.map Prod.fst :=
      List.mem_map_of_mem (mem_of_lookup_eq_some hnamed)
    -- What the patch does not name is not the number of columns, and neither is a padding.
    refine ⟨_, hget, hafter, rfl, hkind.symm, fun key hnot => ?_,
      fun key named side hobject hnot => ?_, fun hrest => absurd ⟨hkind, hmem⟩ hrest⟩
    · have hne : key ≠ "columns" := fun heq => hnot (heq ▸ hmem)
      rw [hrow, Columns.get?_encode_others row columns hne]
      exact patched_keeps hrange hkeys hpatched hnot
    · have hne : key ≠ "columns" := by
        rintro rfl
        have hread := ((patched_columns_iff hkeys).1 hpatched).1
        rw [hobject] at hread
        cases hread
      rw [hrow, Columns.get?_encode_others row columns hne]
      exact patched_keeps_side hkeys (hdistinct.of_mem (mem_of_lookup_eq_some hobject)).nodup_keys
        hpatched hobject hnot

end Sound

/-- In a tree that comes of loading and editing, a patch changes what it names and leaves the rest
alone. -/
theorem updateComponent_leaves (h : tree.Reachable) (hdistinct : (Json.object patch).Distinct)
    (hok : tree.updateComponent id patch = .ok next) :
    ∃ node node', tree.Updated next id patch node node' := by
  obtain ⟨hsound, hrange⟩ := h.sound
  obtain ⟨node, hget⟩ := exists_get_of_updateComponent hok
  by_cases hkind : node.kind = .columns
  · obtain ⟨r, hrow⟩ := Node.kind_eq_columns hkind
    obtain ⟨node', hupdated⟩ := hsound.updated_row hget hrow hdistinct hok
    exact ⟨node, node', hupdated⟩
  · obtain ⟨properties, hpatched, rfl⟩ := (updateComponent_iff_of_ne hget hkind).1 hok
    exact ⟨node, _, updated_setRecord hget (hrange hget) hdistinct hpatched⟩

/-- A patch of a gap and of one side of the padding leaves the other sides alone, and gives the row
no other parent. -/
theorem updateComponent_leaves_addedRow :
    let patch : List (String × Json) := [("gap", .ofNat 4),
      ("padding", .object [("top", .ofNat 1)]), ("parentId", .string "column-2")]
    addedRow.Reachable ∧ (Json.object patch).Distinct ∧
      ∃ next, addedRow.updateComponent "columns-1" patch = .ok next ∧
        ∃ node node', addedRow.Updated next "columns-1" patch node node' := by
  intro patch
  have hdistinct : (Json.object patch).Distinct := isDistinct_iff.1 (by decide)
  obtain ⟨next, hok⟩ : ∃ next, addedRow.updateComponent "columns-1" patch = .ok next :=
    isOk_iff_exists.1 (by decide +kernel)
  exact ⟨reachable_addedRow, hdistinct, next, hok,
    updateComponent_leaves reachable_addedRow hdistinct hok⟩

end Tree

end MailTemplate
