import MailTemplate.Proofs.Storage.Intact
import MailTemplate.Proofs.Storage.Kept
import Mathlib.Data.Set.Defs

/-!
# Repair Is Faithful

A loaded tree holds the root, nodes that are kept of the records, and new columns in rows that had
too few; no record is left out, reordered or changed in kind without need.

* `Repaired` says where the nodes of a loaded tree come from, `KeepsListed` that a listed record is
  not lost, and `repaired_ofRecords` that both hold, whatever is stored.
* Just the root is not kept by a node that lists it, as `not_keepsListed_root` shows.
-/

namespace MailTemplate

/-- From what is kept to the loaded tree, rows are filled up and nothing else happens. -/
theorem Tree.filled_ofRecords {records : Records} {record : Record} {tree : Tree}
    (hroot : records[rootId]? = some record) (hok : ofRecords records = some tree) :
    Filled records.kept tree.nodes (rowIds records.kept) := by
  rw [ofRecords_of_some hroot] at hok
  obtain ⟨⟨-, hforest, -⟩, -, -⟩ := sound_kept hroot
  show Filled (ofNodes records.kept).nodes _ _
  refine filled_foldlM_fillRow (nodup_rowIds _) (fun row hmem => ?_) hok
  obtain ⟨node, hget, hkind⟩ := mem_rowIds_iff.1 hmem
  exact ⟨node, hget, hforest.isSome_children_row hget hkind⟩

namespace Records

variable {records : Records} {record : Record} {tree : Tree} {kept minted : Set NodeId}
  {id : NodeId} {node : Node}

/-- The children that the record of an id lists. -/
def listed (records : Records) (id : NodeId) : List NodeId :=
  ((records[id]?).bind Record.children).getD []

/-- A tree has the root, nodes that are kept of the records, and new columns, and nothing else. -/
structure Repaired (records : Records) (tree : Tree) (kept minted : Set NodeId) : Prop where
  ids : ∀ id, tree.contains id = true ↔ id = rootId ∨ id ∈ kept ∨ id ∈ minted
  apart : rootId ∉ kept ∧ rootId ∉ minted ∧ ∀ id ∈ kept, id ∉ minted
  /-- A kept node has the kind of its record, and a parent that lists it and holds its kind. -/
  ofKept : ∀ id ∈ kept, ∃ record node parentId parent, records[id]? = some record ∧
    tree.get? id = some node ∧ node.kind.name = record.kind ∧ node.parent = some parentId ∧
    (parentId = rootId ∨ parentId ∈ kept) ∧ tree.get? parentId = some parent ∧
    id ∈ records.listed parentId ∧ parent.kind.accepts node.kind = true
  /-- A new node is an empty column of a row that lists it. -/
  ofMinted : ∀ id ∈ minted, ∃ row parent, tree.get? id = some (.emptyColumn row) ∧
    tree.get? row = some parent ∧ parent.kind = .columns ∧ id ∈ parent.childList
  /-- A container has kept children in the order of its record, each once, and then as many new
  columns as it takes to fill up a row. -/
  children : ∀ id node, tree.get? id = some node → node.kind.isContainer = true →
    ∃ old new, node.children = some (old ++ new) ∧ (old ++ new).Nodup ∧
      old.Sublist (records.listed id) ∧ (∀ child ∈ old, child ∈ kept) ∧
      (∀ child ∈ new, child ∈ minted) ∧
      new.length = if node.kind = .columns then minColumns - old.length else 0

/-- No node of the tree but a new column has lost a listed id of which there is a record that it can
keep, unless it is a full row. -/
def KeepsListed (records : Records) (tree : Tree) (kept : Set NodeId) (y : NodeId) : Prop :=
  ∀ id node, id = rootId ∨ id ∈ kept → tree.get? id = some node → y ∈ records.listed id →
    records.Eligible node.kind y → y ∈ kept ∨ CutOff node (records.listed id) y

/-- The ids of the nodes that are kept besides the root. -/
def keptIds (records : Records) : Set NodeId :=
  {id | id ≠ rootId ∧ ∃ node, records.kept[id]? = some node}

/-- The ids of the new columns of a loaded tree. -/
def mintedIds (records : Records) (tree : Tree) : Set NodeId :=
  {id | records.kept[id]? = none ∧ ∃ node, tree.get? id = some node}

theorem listed_of_get (h : records[id]? = some record) :
    records.listed id = record.children.getD [] := by
  rw [listed, h, Option.bind_some]

/-- Whatever is kept retains what its record lists, and is of the kind of its record unless it is
the root. -/
theorem retains_kept (hroot : records[rootId]? = some record)
    (hget : records.kept[id]? = some node) :
    Retains (records.erase rootId) records.kept (records.listed id) node ∧
      (id ≠ rootId → ∃ other, records[id]? = some other ∧ node.kind.name = other.kind) := by
  have hsourced := sourced_rebuild (pending_root records record)
  rw [← kept_of_some hroot] at hsourced
  by_cases hid : id = rootId
  · subst hid
    obtain ⟨root, hget', -, hretains⟩ := hsourced.queued _ List.mem_cons_self
    rw [show (Placement.ofRecord rootId none .root record).id = rootId from rfl, hget] at hget'
    cases hget'
    rw [listed_of_get hroot]
    exact ⟨hretains, fun hne => absurd rfl hne⟩
  · obtain ⟨other, hother, hname, hretains⟩ :=
      hsourced.recorded hget fun hmem => hid (List.mem_singleton.1 hmem)
    rw [getElem?_erase_of_ne hid] at hother
    rw [listed_of_get hother]
    exact ⟨hretains, fun _ => ⟨other, hother, (Kind.ofName?_eq_some_iff.1 hname).symm⟩⟩

section Loaded

variable (hroot : records[rootId]? = some record) (hok : Tree.ofRecords records = some tree)

include hroot hok

/-- What is kept is still there when the rows are filled up, and has got the new columns that it
lacks behind the children that it retains. -/
theorem filled_get (hget : records.kept[id]? = some node) :
    ∃ new node', tree.get? id = some node' ∧ node'.parent = node.parent ∧
      node'.kind = node.kind ∧ node'.children = node.children.map (· ++ new) ∧
      (new.length = if node.kind = .columns then minColumns - node.childList.length else 0) ∧
      ∀ child ∈ new, records.kept[child]? = none ∧
        tree.get? child = some (.emptyColumn id) := by
  have hfilled := Tree.filled_ofRecords hroot hok
  obtain ⟨⟨-, hforest, -⟩, -, -⟩ := Tree.sound_kept hroot
  by_cases hkind : node.kind = .columns
  · obtain ⟨new, node', hget', hparent, hkind', hchildren, hlength, hnew⟩ :=
      hfilled.row id (Tree.mem_rowIds_iff.2 ⟨node, hget, hkind⟩) node hget
    refine ⟨new, node', hget', hparent, hkind', ?_, ?_, hnew⟩
    · rw [hchildren, Node.children_eq_some (hforest.isSome_children_row hget hkind),
        Option.map_some]
    · rw [if_pos hkind, hlength]
  · have hnot : id ∉ Tree.rowIds records.kept := by
      intro hmem
      obtain ⟨row, hrow, hrowKind⟩ := Tree.mem_rowIds_iff.1 hmem
      rw [hget] at hrow
      cases hrow
      exact hkind hrowKind
    refine ⟨[], node, hfilled.other hnot hget, rfl, rfl, ?_, (if_neg hkind).symm, ?_⟩
    · simp
    · exact fun _ hmem => absurd hmem List.not_mem_nil

theorem contains_ofRecords_iff :
    tree.contains id = true ↔
      id = rootId ∨ id ∈ records.keptIds ∨ id ∈ records.mintedIds tree := by
  have hfilled := Tree.filled_ofRecords hroot hok
  obtain ⟨⟨⟨root, hkeptRoot, -⟩, -, -⟩, -, -⟩ := Tree.sound_kept hroot
  rw [Tree.contains_iff_exists]
  constructor
  · rintro ⟨node, hget⟩
    cases hold : records.kept[id]? with
    | none => exact .inr (.inr ⟨hold, node, hget⟩)
    | some n => exact or_iff_not_imp_left.2 fun hne => .inl ⟨hne, n, hold⟩
  · rintro (rfl | ⟨-, n, hold⟩ | ⟨-, hnew⟩)
    · obtain ⟨node, hget, -⟩ := hfilled.exists_of_get hkeptRoot
      exact ⟨node, hget⟩
    · obtain ⟨node, hget, -⟩ := hfilled.exists_of_get hold
      exact ⟨node, hget⟩
    · exact hnew

theorem exists_of_mem_keptIds (hmem : id ∈ records.keptIds) :
    ∃ record node parentId parent, records[id]? = some record ∧
      tree.get? id = some node ∧ node.kind.name = record.kind ∧
      node.parent = some parentId ∧ (parentId = rootId ∨ parentId ∈ records.keptIds) ∧
      tree.get? parentId = some parent ∧ id ∈ records.listed parentId ∧
      parent.kind.accepts node.kind = true := by
  have hfilled := Tree.filled_ofRecords hroot hok
  obtain ⟨⟨-, hforest, -⟩, -, -⟩ := Tree.sound_kept hroot
  obtain ⟨hne, before, hold⟩ := hmem
  obtain ⟨node, hget, hnames, hkind⟩ := hfilled.exists_of_get hold
  obtain ⟨-, hrecord⟩ := retains_kept hroot hold
  obtain ⟨other, hother, hname⟩ := hrecord hne
  -- The parent of what is kept is kept itself, and retains it of what its record lists.
  obtain ⟨parentId, above, hparent, habove, hcount⟩ :=
    hforest.placed hold fun hmem => hne (List.mem_singleton.1 hmem)
  have hlisted : id ∈ above.childList := List.count_pos_iff.1 (hcount ▸ Nat.one_pos)
  obtain ⟨hretains, -⟩ := retains_kept hroot habove
  obtain ⟨n, hn, -, haccepts⟩ := hforest.child habove hlisted
  rw [hold] at hn
  cases hn
  obtain ⟨parent, hgetParent, -, hkindParent⟩ := hfilled.exists_of_get habove
  refine ⟨other, node, parentId, parent, hother, hget, hkind ▸ hname, hnames.trans hparent, ?_,
    hgetParent, hretains.sublist.subset hlisted, hkind ▸ hkindParent ▸ haccepts⟩
  exact or_iff_not_imp_left.2 fun hne => ⟨hne, above, habove⟩

theorem exists_of_mem_mintedIds (hmem : id ∈ records.mintedIds tree) :
    ∃ row parent, tree.get? id = some (.emptyColumn row) ∧
      tree.get? row = some parent ∧ parent.kind = .columns ∧
      id ∈ parent.childList := by
  have hfilled := Tree.filled_ofRecords hroot hok
  obtain ⟨⟨⟨root, hkeptRoot, -⟩, -, -⟩, -, -⟩ := Tree.sound_kept hroot
  obtain ⟨hnone, node, hget⟩ := hmem
  obtain ⟨row, hrow, -, rfl⟩ := hfilled.new hnone hget
  obtain ⟨before, hold, hkind⟩ := Tree.mem_rowIds_iff.1 hrow
  obtain ⟨parent, hgetParent, -, hkindParent⟩ := hfilled.exists_of_get hold
  refine ⟨row, parent, hget, hgetParent, hkindParent.trans hkind, ?_⟩
  -- The new column is no top of the loaded tree, so the row that it names lists it.
  obtain ⟨parentId, above, hparent, habove, hcount⟩ :=
    (Tree.sound_ofRecords hok).forest.placed hget fun hmem =>
      ne_of_free hkeptRoot hnone (List.mem_singleton.1 hmem).symm
  cases hparent
  rw [hgetParent] at habove
  cases habove
  exact List.count_pos_iff.1 (hcount ▸ Nat.one_pos)

theorem exists_children_of_isContainer (hget : tree.get? id = some node)
    (hcontainer : node.kind.isContainer = true) :
    ∃ old new, node.children = some (old ++ new) ∧ (old ++ new).Nodup ∧
      old.Sublist (records.listed id) ∧ (∀ child ∈ old, child ∈ records.keptIds) ∧
      (∀ child ∈ new, child ∈ records.mintedIds tree) ∧
      new.length = if node.kind = .columns then minColumns - old.length else 0 := by
  obtain ⟨⟨-, hforest, -⟩, -, -⟩ := Tree.sound_kept hroot
  have hnodup := (Tree.sound_ofRecords hok).forest.nodup_childList hget
  cases hold : records.kept[id]? with
  | none =>
    -- A new column is empty.
    obtain ⟨row, -, -, rfl⟩ := (Tree.filled_ofRecords hroot hok).new hold hget
    refine ⟨[], [], rfl, List.nodup_nil, List.nil_sublist _, ?_, ?_, rfl⟩
    · exact fun _ hmem => absurd hmem List.not_mem_nil
    · exact fun _ hmem => absurd hmem List.not_mem_nil
  | some before =>
    obtain ⟨new, node', hget', -, hkind, hchildren, hlength, hnew⟩ := filled_get hroot hok hold
    rw [hget] at hget'
    cases hget'
    obtain ⟨hretains, -⟩ := retains_kept hroot hold
    rw [Node.children_eq_some (hforest.isSome_children hold (hkind ▸ hcontainer)),
      Option.map_some] at hchildren
    rw [Node.childList_eq hchildren] at hnodup
    refine ⟨before.childList, new, hchildren, hnodup, hretains.sublist, ?_, ?_, ?_⟩
    · intro child hmem
      obtain ⟨n, hchild, -⟩ := hforest.child hold hmem
      refine ⟨?_, n, hchild⟩
      rintro rfl
      exact hforest.unlisted hold List.mem_cons_self hmem
    · intro child hmem
      obtain ⟨hnone, hchild⟩ := hnew child hmem
      exact ⟨hnone, _, hchild⟩
    · rw [hlength, hkind]

/-- A loaded tree is repaired faithfully. -/
theorem repaired : records.Repaired tree records.keptIds (records.mintedIds tree) where
  ids _ := contains_ofRecords_iff hroot hok
  apart := by
    obtain ⟨⟨⟨root, hkeptRoot, -⟩, -, -⟩, -, -⟩ := Tree.sound_kept hroot
    refine ⟨fun hmem => hmem.1 rfl, fun hmem => ne_of_free hkeptRoot hmem.1 rfl, ?_⟩
    rintro id ⟨-, node, hget⟩ hminted
    exact ne_of_free hget hminted.1 rfl
  ofKept _ hmem := exists_of_mem_keptIds hroot hok hmem
  ofMinted _ hmem := exists_of_mem_mintedIds hroot hok hmem
  children _ _ hget hcontainer := exists_children_of_isContainer hroot hok hget hcontainer

/-- Just the root may be listed by a node that could keep it, and not be kept by any. -/
theorem keepsListed {y : NodeId} (hy : y ≠ rootId) :
    records.KeepsListed tree records.keptIds y := by
  intro id node hid hget hmem heligible
  obtain ⟨⟨⟨root, hkeptRoot, -⟩, -, -⟩, -, -⟩ := Tree.sound_kept hroot
  obtain ⟨before, hold⟩ : ∃ before, records.kept[id]? = some before := by
    rcases hid with rfl | ⟨-, hkept⟩
    · exact ⟨root, hkeptRoot⟩
    · exact hkept
  obtain ⟨hretains, -⟩ := retains_kept hroot hold
  obtain ⟨new, node', hget', -, hkind, hchildren, hlength, -⟩ := filled_get hroot hok hold
  rw [hget] at hget'
  cases hget'
  obtain ⟨other, kind, hother, hname, haccepts⟩ := heligible
  rcases hretains.eligible y hmem
      ⟨other, kind, (getElem?_erase_of_ne hy).trans hother, hname, hkind ▸ haccepts⟩ with
    hkept | ⟨hrow, hfull, hbefore⟩
  · exact .inl ⟨hy, hkept⟩
  · -- A full row gets no new columns.
    have hnew : new = [] := by
      rw [if_pos hrow, hfull] at hlength
      exact List.eq_nil_of_length_eq_zero hlength
    have hsame : node.childList = before.childList := by
      rw [Node.childList, Node.childList, hchildren, hnew]
      cases before.children <;> simp
    exact .inr ⟨hkind.trans hrow, hsame ▸ hfull, hsame ▸ hbefore⟩

end Loaded

/-- Whatever is stored besides a root, the loaded tree has nothing but the root, nodes kept of the
records and new columns where a row lacks them, and of the ids that are listed it loses none but the
root without need. -/
theorem repaired_ofRecords (records : Records) (hroot : ∃ record, records[rootId]? = some record)
    (hids : ¬ records.Exhausts) :
    ∃ tree, Tree.ofRecords records = some tree ∧ ∃ kept minted,
      records.Repaired tree kept minted ∧
        ∀ y, y ≠ rootId → records.KeepsListed tree kept y := by
  obtain ⟨record, hroot⟩ := hroot
  obtain ⟨tree, hok⟩ := Tree.exists_ofRecords hids
  exact ⟨tree, hok, records.keptIds, records.mintedIds tree, repaired hroot hok,
    fun y hy => keepsListed hroot hok hy⟩

theorem repaired_ofRecords_tangled :
    (∃ record, (salvage tangled)[rootId]? = some record) ∧ ¬ (salvage tangled).Exhausts ∧
      ∃ tree, Tree.ofJson tangled = some tree ∧ ∃ kept minted,
        (salvage tangled).Repaired tree kept minted ∧
          ∀ y, y ≠ rootId → (salvage tangled).KeepsListed tree kept y := by
  have hroot : ∃ record, (salvage tangled)[rootId]? = some record :=
    Option.isSome_iff_exists.1 (by decide +kernel)
  have hids : ¬ (salvage tangled).Exhausts := Tree.not_exhausts_of_isSome (by decide +kernel)
  exact ⟨hroot, hids, repaired_ofRecords _ hroot hids⟩

/-- A root that is stored as a column, and a row that lists it before another column. -/
def rootAsColumn : Records :=
  salvage (.object [
    ("root", .object [("id", .string "root"), ("type", .string "column"),
      ("children", .array [.string "row-1"])]),
    ("row-1", .object [("id", .string "row-1"), ("type", .string "columns"),
      ("children", .array [.string "root", .string "column-1"])]),
    ("column-1", .object [("id", .string "column-1"), ("type", .string "column"),
      ("children", .array [])])])

/-- The root is the root, even if a row lists it that could keep it as a column. -/
theorem not_keepsListed_root :
    (∃ record, rootAsColumn[rootId]? = some record) ∧ ¬ rootAsColumn.Exhausts ∧
      ∃ tree, Tree.ofRecords rootAsColumn = some tree ∧
        ¬ ∃ kept minted, rootAsColumn.Repaired tree kept minted ∧
          ∀ y, rootAsColumn.KeepsListed tree kept y := by
  obtain ⟨record, hroot, hname⟩ :=
    Option.map_eq_some_iff.1 (show (rootAsColumn[rootId]?).map Record.kind = some "column" by
      decide +kernel)
  -- The row is left with the column that it lists, and gets a new one.
  have hloaded : (Tree.ofRecords rootAsColumn).bind (fun tree => (tree.get? "row-1").map
      fun node => (node.kind, node.childList)) = some (.columns, ["column-1", "column-2"]) := by
    decide +kernel
  obtain ⟨tree, hok, hrow⟩ := Option.bind_eq_some_iff.1 hloaded
  obtain ⟨row, hget, heq⟩ := Option.map_eq_some_iff.1 hrow
  rw [Prod.mk.injEq] at heq
  obtain ⟨hkind, hchildren⟩ := heq
  refine ⟨⟨record, hroot⟩, Tree.not_exhausts_of_isSome (hok ▸ rfl), tree, hok, ?_⟩
  rintro ⟨kept, minted, hrepaired, hlisted⟩
  -- The row is no new column, so it is kept.
  have hkept : "row-1" ∈ kept := by
    rcases (hrepaired.ids _).1 (Tree.contains_iff_exists.2 ⟨row, hget⟩) with
      hid | hmem | hminted
    · exact absurd hid (by decide)
    · exact hmem
    · obtain ⟨other, -, hnew, -⟩ := hrepaired.ofMinted _ hminted
      rw [hget] at hnew
      cases hnew
      cases hkind
  rcases hlisted rootId "row-1" row (.inr hkept) hget (by decide +kernel)
      ⟨record, .column, hroot, hname ▸ rfl, hkind ▸ rfl⟩ with hmem | hfull
  · exact hrepaired.apart.1 hmem
  · have hlength := hfull.full
    rw [hchildren] at hlength
    exact absurd hlength (by decide)

end Records

end MailTemplate
