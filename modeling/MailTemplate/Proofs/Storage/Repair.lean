import MailTemplate.Proofs.Storage.Filling
import MailTemplate.Proofs.Storage.Rebuild

/-!
# Loaded Trees Are Sound

Whatever is stored, the tree that is loaded from it has no violations. What is rebuilt is sound but
for the rows, which may have too few columns; each of them is filled up in turn, as long as there is
a number left for each id that is made for a column.
-/

namespace MailTemplate

namespace Records

/-- The nodes that are kept of stored records, before their rows are filled up. -/
def kept (records : Records) : Nodes :=
  match records[rootId]? with
  | none => ∅
  | some record => rebuild (records.erase rootId) [.ofRecord rootId none .root record]

theorem kept_of_some {records : Records} {record : Record} (h : records[rootId]? = some record) :
    records.kept = rebuild (records.erase rootId) [.ofRecord rootId none .root record] := by
  rw [kept, h]

/-- The ids that are made for columns when the records are loaded. -/
def makings (records : Records) : List Making :=
  (Tree.ofNodes records.kept).filling (Tree.rowIds records.kept)

/-- A column has to be made for which there is no number left. -/
def Exhausts (records : Records) : Prop :=
  ∃ m ∈ records.makings, m.Stuck

end Records

/-- The root record alone may be put in line. -/
theorem pending_root (records : Records) (record : Record) :
    Pending (records.erase rootId) [.ofRecord rootId none .root record] := by
  refine ⟨List.nodup_singleton _, ?_, ?_, ?_⟩
  · intro p hp
    rw [List.mem_singleton.1 hp]
    exact (getElem?_erase_eq _ _ _).trans (if_pos rfl)
  · intro p hp parent hparent
    rw [List.mem_singleton.1 hp] at hparent
    cases hparent
  · intro p hp
    rw [List.mem_singleton.1 hp]
    exact Properties.inRange_clamp _

namespace Tree

variable {tree next : Tree} {records : Records} {row : NodeId} {rows : List NodeId} {node : Node}

/-- A row that is filled up is open no more. -/
theorem sound_fillRow (h : SoundBut tree.nodes [] (row :: rows))
    (hget : tree.nodes[row]? = some node) (hkind : node.kind = .columns)
    (hmax : node.childList.length ≤ maxColumns) (hok : tree.fillRow row = some next) :
    SoundBut next.nodes [] rows := by
  obtain ⟨filled, hfilled, rfl⟩ := fillRow_eq_some_iff.1 hok
  rw [childrenOf_eq hget] at hfilled ⊢
  have hlimits : minColumns ≤ maxColumns := by decide
  exact h.growRow hget hkind hfilled (by omega) (by omega)

/-- Open rows are filled up one after the other. -/
theorem sound_foldlM_fillRow (h : SoundBut tree.nodes [] rows) (hnodup : rows.Nodup)
    (hrows : ∀ row ∈ rows, ∃ node, tree.nodes[row]? = some node ∧ node.kind = .columns ∧
      node.childList.length ≤ maxColumns)
    (hok : rows.foldlM fillRow tree = some next) : next.Sound := by
  induction rows generalizing tree with
  | nil =>
    cases hok
    exact h
  | cons row rows ih =>
    rw [List.nodup_cons] at hnodup
    obtain ⟨⟨node, hget, hkind, hmax⟩, hrows⟩ := List.forall_mem_cons.1 hrows
    obtain ⟨first, hone, hlater⟩ := foldlM_cons_eq_some_iff.1 hok
    have hcontainer := h.forest.isSome_children_row hget hkind
    have hfirst := filled_fillRow hget hcontainer hone
    exact ih (sound_fillRow h hget hkind hmax hone) hnodup.2 (hfirst.of_later hnodup.1 hrows) hlater

theorem mem_rowIds_iff {nodes : Nodes} {id : NodeId} :
    id ∈ rowIds nodes ↔ ∃ node, nodes[id]? = some node ∧ node.kind = .columns := by
  unfold rowIds
  constructor
  · intro hmem
    obtain ⟨⟨other, node⟩, hentry, rfl⟩ := List.mem_map.1 hmem
    obtain ⟨hentry, hkind⟩ := List.mem_filter.1 hentry
    exact ⟨node, mem_toList_iff.1 hentry, of_decide_eq_true hkind⟩
  · rintro ⟨node, hget, hkind⟩
    exact List.mem_map.2 ⟨(id, node), List.mem_filter.2
      ⟨mem_toList_iff.2 hget, decide_eq_true hkind⟩, rfl⟩

theorem nodup_rowIds (nodes : Nodes) : (rowIds nodes).Nodup :=
  nodup_ids.sublist (List.filter_sublist.map Prod.fst)

theorem sound_empty : Tree.empty.Sound :=
  violations_eq_nil_iff_sound.1 (by decide +kernel)

theorem ofRecords_of_none (h : records[rootId]? = none) : ofRecords records = some .empty := by
  rw [ofRecords, h]

/-- No records load as the root alone. -/
theorem ofRecords_empty : ofRecords ∅ = some .empty :=
  ofRecords_of_none Std.ExtTreeMap.getElem?_empty

theorem ofRecords_of_some {record : Record} (h : records[rootId]? = some record) :
    ofRecords records = (rowIds records.kept).foldlM fillRow (ofNodes records.kept) := by
  rw [ofRecords, Records.kept_of_some h, h]

/-- Loading comes to an end unless a column that has to be made gets no id. -/
theorem ofRecords_eq_none_iff : ofRecords records = none ↔ records.Exhausts := by
  cases hroot : records[rootId]? with
  | none =>
    -- Without a root nothing is kept, and no column is made.
    have hrows : rowIds (∅ : Nodes) = [] := by
      refine List.eq_nil_iff_forall_not_mem.2 fun id hmem => ?_
      obtain ⟨node, hget, -⟩ := mem_rowIds_iff.1 hmem
      exact getElem?_empty_ne_some hget
    rw [ofRecords_of_none hroot, Records.Exhausts, Records.makings, Records.kept, hroot, hrows]
    exact iff_of_false nofun fun ⟨_, hmem, _⟩ => nomatch hmem
  | some record => rw [ofRecords_of_some hroot, foldlM_fillRow_eq_none_iff]; rfl

theorem not_exhausts_of_isSome (h : (ofRecords records).isSome = true) : ¬ records.Exhausts := by
  rwa [← ofRecords_eq_none_iff, ← ne_eq, ← Option.isSome_iff_ne_none]

theorem exists_ofRecords (hids : ¬ records.Exhausts) : ∃ tree, ofRecords records = some tree := by
  rwa [← ofRecords_eq_none_iff, ← ne_eq, Option.ne_none_iff_exists'] at hids

/-- What is kept has nothing wrong but the number of columns of its rows. -/
theorem sound_kept {record : Record} (h : records[rootId]? = some record) :
    SoundBut records.kept [] (rowIds records.kept) ∧ AllInRange records.kept ∧
      ∀ row ∈ rowIds records.kept, ∃ node, records.kept[row]? = some node ∧ node.kind = .columns ∧
        node.childList.length ≤ maxColumns := by
  have hrebuilt := rebuilt_rebuild (pending_root records record)
  rw [← Records.kept_of_some h] at hrebuilt
  refine ⟨⟨?_, hrebuilt.forest, ?_⟩, hrebuilt.inRange, ?_⟩
  · -- The root is placed as the root, whatever its record says.
    obtain ⟨root, hroot, hparent, hproperties⟩ := hrebuilt.placed _ List.mem_cons_self
    refine ⟨root, hroot, hparent, ?_⟩
    rw [Node.kind, hproperties]
    exact Placement.kind_ofRecord none
  · -- All rows are open, and any other record that is in range fits.
    intro id node hget hnot
    refine Node.fits_of_inRange (hrebuilt.inRange hget) fun hkind => hnot ?_
    exact mem_rowIds_iff.2 ⟨node, hget, hkind⟩
  · intro row hmem
    obtain ⟨node, hget, hkind⟩ := mem_rowIds_iff.1 hmem
    exact ⟨node, hget, hkind, hrebuilt.rows hget hkind⟩

theorem sound_ofRecords (hok : ofRecords records = some tree) : tree.Sound := by
  cases hroot : records[rootId]? with
  | none =>
    rw [ofRecords_of_none hroot] at hok
    cases hok
    exact sound_empty
  | some record =>
    rw [ofRecords_of_some hroot] at hok
    obtain ⟨hsound, -, hrows⟩ := sound_kept hroot
    exact sound_foldlM_fillRow hsound (nodup_rowIds _) hrows hok

end Tree

/-- A loaded tree has no violations, whatever is stored, be it records or any JSON value. -/
theorem violations_loaded :
    (∀ records : Records, ¬ records.Exhausts →
      ∃ tree, Tree.ofRecords records = some tree ∧ tree.violations = []) ∧
    ∀ json : Json, ¬ (Records.salvage json).Exhausts →
      ∃ tree, Tree.ofJson json = some tree ∧ tree.violations = [] := by
  have hrecords : ∀ records : Records, ¬ records.Exhausts →
      ∃ tree, Tree.ofRecords records = some tree ∧ tree.violations = [] := by
    intro records hids
    obtain ⟨tree, hok⟩ := Tree.exists_ofRecords hids
    exact ⟨tree, hok, Tree.violations_eq_nil_iff_sound.2 (Tree.sound_ofRecords hok)⟩
  exact ⟨hrecords, fun json hids => hrecords (Records.salvage json) hids⟩

/-- A root that is stored as a text, that lists a row twice and a node that is not there, and a row
that lists the root. -/
def tangled : Json :=
  .object [
    ("root", .object [("id", .string "root"), ("type", .string "text"),
      ("parentId", .string "row-1"),
      ("children", .array [.string "row-1", .string "row-1", .string "gone"])]),
    ("row-1", .object [("id", .string "row-1"), ("type", .string "columns"),
      ("children", .array [.string "root"])])]

theorem violations_loaded_tangled :
    (Records.salvage tangled).makings.length = 2 ∧ ¬ (Records.salvage tangled).Exhausts ∧
      (∃ tree, Tree.ofRecords (Records.salvage tangled) = some tree ∧ tree.violations = []) ∧
      ∃ tree, Tree.ofJson tangled = some tree ∧ tree.violations = [] := by
  have hids : ¬ (Records.salvage tangled).Exhausts :=
    Tree.not_exhausts_of_isSome (by decide +kernel)
  exact ⟨by decide +kernel, hids, violations_loaded.1 _ hids, violations_loaded.2 _ hids⟩

end MailTemplate
