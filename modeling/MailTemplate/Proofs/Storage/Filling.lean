import MailTemplate.Proofs.Fallible
import MailTemplate.Proofs.Tree.Upkeep
import MailTemplate.Storage.Repair

/-!
# Filling Up Rows

A row with too few columns gets new empty ones behind those that it has. Nothing else changes, but
for the number of columns that each row records.

* `Filled` says what filling up some rows changes.
* `Tree.filled_fillRow` and `Tree.filled_foldlM_fillRow` say that it changes just that.
* `Tree.foldlM_fillRow_eq_none_iff` says that it comes to its end unless one of the ids that are
  made (`Tree.filling`) cannot be found.
-/

namespace MailTemplate

/-- Some rows have got the new empty columns that they lack, and nothing else has changed but the
numbers of columns that they record. -/
structure Filled (nodes nodes' : Nodes) (rows : List NodeId) : Prop where
  row : ∀ row ∈ rows, ∀ node, nodes[row]? = some node → ∃ ids node', nodes'[row]? = some node' ∧
    node'.parent = node.parent ∧ node'.kind = node.kind ∧
    node'.children = some (node.childList ++ ids) ∧
    ids.length = minColumns - node.childList.length ∧
    ∀ id ∈ ids, nodes[id]? = none ∧ nodes'[id]? = some (.emptyColumn row)
  other : ∀ {id : NodeId} {node : Node}, id ∉ rows → nodes[id]? = some node →
    nodes'[id]? = some node
  new : ∀ {id : NodeId} {node' : Node}, nodes[id]? = none → nodes'[id]? = some node' →
    ∃ row ∈ rows, (∃ node, nodes[row]? = some node) ∧ node' = .emptyColumn row

namespace Filled

variable {nodes nodes' nodes'' : Nodes} {row : NodeId} {rows : List NodeId}

theorem refl (nodes : Nodes) : Filled nodes nodes [] where
  row _ hmem := absurd hmem List.not_mem_nil
  other _ hget := hget
  new hnone hsome := by
    rw [hnone] at hsome
    cases hsome

/-- The rows that are still to be filled up have not changed. -/
theorem of_later (h : Filled nodes nodes' [row]) (hrow : row ∉ rows) {p : Node → Prop}
    (hrows : ∀ other ∈ rows, ∃ node, nodes[other]? = some node ∧ p node) :
    ∀ other ∈ rows, ∃ node, nodes'[other]? = some node ∧ p node := by
  intro other hmem
  obtain ⟨node, hother, hnode⟩ := hrows other hmem
  have hne : other ∉ [row] := by
    rw [List.mem_singleton]
    exact fun heq => hrow (heq ▸ hmem)
  exact ⟨node, h.other hne hother, hnode⟩

/-- What was there is still there. -/
theorem exists_of_get (h : Filled nodes nodes' rows) {id : NodeId} {node : Node}
    (hget : nodes[id]? = some node) :
    ∃ node', nodes'[id]? = some node' ∧ node'.parent = node.parent ∧ node'.kind = node.kind := by
  by_cases hmem : id ∈ rows
  · obtain ⟨-, node', hget', hparent, hkind, -⟩ := h.row id hmem node hget
    exact ⟨node', hget', hparent, hkind⟩
  · exact ⟨node, h.other hmem hget, rfl, rfl⟩

/-- One row is filled up before the others. -/
theorem cons (h : Filled nodes nodes' [row]) (h' : Filled nodes' nodes'' rows)
    (hrow : row ∉ rows) (hrows : ∀ row ∈ rows, ∃ node, nodes[row]? = some node) :
    Filled nodes nodes'' (row :: rows) where
  row other hmem node hget := by
    by_cases heq : other = row
    · subst heq
      obtain ⟨ids, node', hget', hparent, hkind, hchildren, hlength, hids⟩ :=
        h.row other List.mem_cons_self node hget
      refine ⟨ids, node', h'.other hrow hget', hparent, hkind, hchildren, hlength, ?_⟩
      -- The new columns are no rows, so they are left as they are.
      intro id hid
      obtain ⟨hnone, hnew⟩ := hids id hid
      refine ⟨hnone, h'.other (fun hmem => ?_) hnew⟩
      obtain ⟨n, hn⟩ := hrows id hmem
      exact ne_of_free hn hnone rfl
    · have hmem' := List.mem_of_ne_of_mem heq hmem
      obtain ⟨ids, node', hget', hparent, hkind, hchildren, hlength, hids⟩ :=
        h'.row other hmem' node (h.other (by simpa using heq) hget)
      refine ⟨ids, node', hget', hparent, hkind, hchildren, hlength, fun id hid => ?_⟩
      obtain ⟨hnone, hnew⟩ := hids id hid
      refine ⟨?_, hnew⟩
      cases hold : nodes[id]? with
      | none => rfl
      | some n =>
        obtain ⟨n', hn', -⟩ := h.exists_of_get hold
        rw [hnone] at hn'
        cases hn'
  other hnot hget := by
    rw [List.mem_cons, not_or] at hnot
    exact h'.other hnot.2 (h.other (by simpa using hnot.1) hget)
  new {id node''} hnone hget := by
    cases hmiddle : nodes'[id]? with
    | none =>
      obtain ⟨other, hmem, -, rfl⟩ := h'.new hmiddle hget
      exact ⟨other, List.mem_cons_of_mem _ hmem, hrows other hmem, rfl⟩
    | some node' =>
      obtain ⟨other, hmem, hthere, rfl⟩ := h.new hnone hmiddle
      have hsame := h'.other (fun hmem => ?_) hmiddle
      · rw [hget] at hsame
        cases hsame
        exact ⟨other, List.mem_singleton.1 hmem ▸ List.mem_cons_self, hthere, rfl⟩
      · obtain ⟨n, hn⟩ := hrows id hmem
        exact ne_of_free hn hnone rfl

end Filled

namespace Tree

variable {tree next : Tree} {row : NodeId} {rows : List NodeId} {node : Node}

theorem fillRow_eq_some_iff :
    tree.fillRow row = some next ↔
      ∃ filled, tree.appendColumns row (minColumns - (tree.childrenOf row).length) = some filled ∧
        filled.writeColumnCount row ((tree.childrenOf row).length +
          (minColumns - (tree.childrenOf row).length)) = next := by
  have hcount : (if (tree.childrenOf row).length < minColumns then minColumns
      else (tree.childrenOf row).length) =
      (tree.childrenOf row).length + (minColumns - (tree.childrenOf row).length) := by
    split <;> omega
  rw [fillRow, hcount, Option.bind_eq_bind, Option.bind_eq_some_iff]
  exact exists_congr fun filled => and_congr_right fun _ => Option.some_inj

/-- The ids that are made when rows are filled up one after the other, as far as it comes. -/
def filling (tree : Tree) : (rows : List NodeId) → List Making
  | [] => []
  | row :: rows =>
    tree.growth row (minColumns - (tree.childrenOf row).length) ++
      match tree.fillRow row with
      | some next => next.filling rows
      | none => []

theorem filling_cons (h : tree.fillRow row = some next) :
    tree.filling (row :: rows) =
      tree.growth row (minColumns - (tree.childrenOf row).length) ++ next.filling rows := by
  rw [filling, h]

theorem Changes.foldlM_fillRow {start : Tree} {made : List Making} (h : Changes start made tree)
    (hok : rows.foldlM fillRow tree = some next) :
    Changes start (made ++ tree.filling rows) next := by
  induction rows generalizing made tree with
  | nil =>
    cases hok
    rw [filling, List.append_nil]
    exact h
  | cons row rows ih =>
    obtain ⟨first, hfirst, hlater⟩ := foldlM_cons_eq_some_iff.1 hok
    rw [filling_cons hfirst, ← List.append_assoc]
    obtain ⟨filled, hfilled, rfl⟩ := fillRow_eq_some_iff.1 hfirst
    exact ih ((h.appendColumns hfilled).writeColumnCount row _) hlater

theorem fillRow_eq_none_iff :
    tree.fillRow row = none ↔
      ∃ m ∈ tree.growth row (minColumns - (tree.childrenOf row).length), m.Stuck := by
  rw [← appendColumns_eq_none_iff, fillRow]
  cases tree.appendColumns row (minColumns - (tree.childrenOf row).length) with
  | none => exact iff_of_true rfl rfl
  | some filled => exact iff_of_false (fun h => nomatch h) fun h => nomatch h

/-- All rows are filled up unless a column of one of them gets no id. -/
theorem foldlM_fillRow_eq_none_iff :
    rows.foldlM fillRow tree = none ↔ ∃ m ∈ tree.filling rows, m.Stuck := by
  induction rows generalizing tree with
  | nil => exact iff_of_false (fun h => nomatch h) fun ⟨_, hmem, _⟩ => nomatch hmem
  | cons row rows ih =>
    rw [List.foldlM_cons]
    cases hfirst : tree.fillRow row with
    | none =>
      obtain ⟨m, hmem, hstuck⟩ := fillRow_eq_none_iff.1 hfirst
      exact iff_of_true rfl ⟨m, List.mem_append_left _ hmem, hstuck⟩
    | some next =>
      have hends :
          ¬ ∃ m ∈ tree.growth row (minColumns - (tree.childrenOf row).length), m.Stuck := by
        rw [← fillRow_eq_none_iff, hfirst]
        exact fun h => nomatch h
      have hsplit : (∃ m ∈ tree.filling (row :: rows), m.Stuck) ↔
          ∃ m ∈ next.filling rows, m.Stuck := by
        simp only [filling_cons hfirst, List.mem_append, or_and_right, exists_or]
        exact or_iff_right hends
      rw [hsplit]
      exact ih

theorem filled_fillRow (hget : tree.nodes[row]? = some node)
    (hcontainer : node.children.isSome = true) (hok : tree.fillRow row = some next) :
    Filled tree.nodes next.nodes [row] := by
  obtain ⟨filled, hfilled, rfl⟩ := fillRow_eq_some_iff.1 hok
  rw [childrenOf_eq hget] at hfilled ⊢
  obtain ⟨ids, hlength, hgrown⟩ := grownBy_appendColumns hget hcontainer hfilled
  rw [nodes_writeColumnCount]
  refine ⟨?_, ?_, ?_⟩
  · -- The row has got the new columns, and records how many it has now.
    intro other hmem n hother
    rw [List.mem_singleton] at hmem
    subst hmem
    rw [hget] at hother
    cases hother
    refine ⟨ids, recordCount (node.childList.length + (minColumns - node.childList.length))
      { node with children := some (node.childList ++ ids) }, ?_, ?_, ?_, ?_, hlength,
      fun id hid => ⟨hgrown.free id hid, ?_⟩⟩
    · rw [getElem?_modify_eq, if_pos rfl, hgrown.atRow, Option.map_some]
    · exact parent_recordCount _ _
    · exact kind_recordCount _ _
    · exact children_recordCount _ _
    · have hne : id ≠ other := (ne_of_free hget (hgrown.free id hid)).symm
      rw [getElem?_modify_eq, if_neg hne]
      exact hgrown.atNew id hid
  · -- Any other node that was there is neither the row nor new.
    intro id n hnot hother
    have hnot' : id ∉ ids := fun hid => ne_of_free hother (hgrown.free id hid) rfl
    rw [List.mem_singleton] at hnot
    rw [getElem?_modify_eq, if_neg hnot, hgrown.elsewhere id hnot hnot', hother]
  · -- What was not there before is one of the new columns.
    intro id n hnone hother
    have hne : id ≠ row := (ne_of_free hget hnone).symm
    rw [getElem?_modify_eq, if_neg hne] at hother
    by_cases hid : id ∈ ids
    · rw [hgrown.atNew id hid] at hother
      cases hother
      exact ⟨row, List.mem_cons_self, ⟨node, hget⟩, rfl⟩
    · rw [hgrown.elsewhere id hne hid, hnone] at hother
      cases hother

/-- Rows are filled up one after the other. -/
theorem filled_foldlM_fillRow (hnodup : rows.Nodup)
    (hrows : ∀ row ∈ rows, ∃ node, tree.nodes[row]? = some node ∧ node.children.isSome = true)
    (hok : rows.foldlM fillRow tree = some next) : Filled tree.nodes next.nodes rows := by
  induction rows generalizing tree with
  | nil =>
    cases hok
    exact .refl _
  | cons row rows ih =>
    rw [List.nodup_cons] at hnodup
    obtain ⟨⟨node, hget, hcontainer⟩, hrows⟩ := List.forall_mem_cons.1 hrows
    obtain ⟨first, hone, hlater⟩ := foldlM_cons_eq_some_iff.1 hok
    have hfirst := filled_fillRow hget hcontainer hone
    refine hfirst.cons (ih hnodup.2 (hfirst.of_later hnodup.1 hrows) hlater) hnodup.1 ?_
    intro other hmem
    obtain ⟨n, hother, -⟩ := hrows other hmem
    exact ⟨n, hother⟩

end Tree

end MailTemplate
