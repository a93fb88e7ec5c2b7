import MailTemplate.Proofs.Tree.Applied
import MailTemplate.Proofs.Tree.Steps

/-!
# Growing a Row

What a row and the nodes around it look like after some empty columns were added, and that nothing
but the number of columns can be wrong then.

* `GrownBy` lists all that is found afterwards; `grownBy_appendColumns` says that it is so.
* `SoundBut.appendColumns` keeps soundness while the row is open.
-/

namespace MailTemplate

/-- An empty column of a row. -/
def Node.emptyColumn (row : NodeId) : Node :=
  .fresh (some row) Kind.column.defaults

/-- A row has some new empty columns at its end, and nothing else has changed. -/
structure GrownBy (nodes nodes' : Nodes) (row : NodeId) (node : Node) (ids : List NodeId) :
    Prop where
  /-- The new ids are different. -/
  nodup : ids.Nodup
  /-- The new ids were free. -/
  free : ∀ id ∈ ids, nodes[id]? = none
  /-- The row lists the new columns after its old ones. -/
  atRow : nodes'[row]? = some { node with children := some (node.childList ++ ids) }
  /-- The new columns are empty and name the row. -/
  atNew : ∀ id ∈ ids, nodes'[id]? = some (.emptyColumn row)
  /-- All else is as before. -/
  elsewhere : ∀ id, id ≠ row → id ∉ ids → nodes'[id]? = nodes[id]?

theorem ParentsExist.insert {nodes : Nodes} {id : NodeId} {node : Node} (h : ParentsExist nodes)
    (hnode : ∀ parent, node.parent = some parent → ∃ above, nodes[parent]? = some above) :
    ParentsExist (nodes.insert id node) := by
  intro other parent n hget hparent
  have habove : ∃ above, nodes[parent]? = some above := by
    rw [getElem?_insert_eq] at hget
    split at hget
    · cases hget
      exact hnode parent hparent
    · exact h hget hparent
  rw [getElem?_insert_eq]
  split
  · exact ⟨node, rfl⟩
  · exact habove

namespace Tree

variable {tree next : Tree} {row : NodeId} {node : Node}

/-- One more column is a new node, and one more child of the row. -/
theorem nodes_appendColumn (hrow : tree.nodes[row]? = some node)
    (hcontainer : node.children.isSome = true) (hok : tree.appendColumn row = some next) :
    ∃ id, tree.nodes[id]? = none ∧ next.nodes =
      (tree.nodes.insert id (.emptyColumn row)).insert row
        { node with children := some (node.childList ++ [id]) } := by
  obtain ⟨id, minted, hmint, rfl⟩ := appendColumn_eq_some_iff.1 hok
  have hfree := free_of_mint hmint
  have hne : row ≠ id := ne_of_free hrow hfree
  refine ⟨id, hfree, ?_⟩
  rw [nodes_modifyChildren, nodes_insert, nodes_of_mint hmint,
    modify_eq_insert _ ((getElem?_insert_of_ne _ hne).trans hrow),
    Node.children_eq_some hcontainer]
  rfl

theorem grownBy_appendColumn (hrow : tree.nodes[row]? = some node)
    (hcontainer : node.children.isSome = true) (hok : tree.appendColumn row = some next) :
    ∃ id, GrownBy tree.nodes next.nodes row node [id] := by
  obtain ⟨id, hfree, hnodes⟩ := nodes_appendColumn hrow hcontainer hok
  have hne : id ≠ row := (ne_of_free hrow hfree).symm
  refine ⟨id, List.nodup_singleton id, ?_, ?_, ?_, ?_⟩
  · intro other hmem
    rw [List.mem_singleton.1 hmem]
    exact hfree
  · rw [hnodes, Std.ExtTreeMap.getElem?_insert_self]
  · intro other hmem
    rw [List.mem_singleton.1 hmem, hnodes, getElem?_insert_of_ne _ hne,
      Std.ExtTreeMap.getElem?_insert_self]
  · intro other hother hmem
    rw [hnodes, getElem?_insert_of_ne _ hother,
      getElem?_insert_of_ne _ (by simpa using hmem)]

/-- Two growths of a row are one. -/
theorem grownBy_trans {nodes nodes' nodes'' : Nodes} {ids ids' : List NodeId}
    (hrow : nodes[row]? = some node) (h : GrownBy nodes nodes' row node ids)
    (h' : GrownBy nodes' nodes'' row { node with children := some (node.childList ++ ids) } ids') :
    GrownBy nodes nodes'' row node (ids ++ ids') := by
  have hne : ∀ id ∈ ids, id ≠ row := fun id hmem => (ne_of_free hrow (h.free id hmem)).symm
  have hapart : List.Disjoint ids ids' := by
    intro id hmem hmem'
    exact ne_of_free (h.atNew id hmem) (h'.free id hmem') rfl
  have hne' : ∀ id ∈ ids', id ≠ row := fun id hmem =>
    (ne_of_free h.atRow (h'.free id hmem)).symm
  refine ⟨h.nodup.append h'.nodup hapart, ?_, ?_, ?_, ?_⟩
  · intro id hmem
    rcases List.mem_append.1 hmem with hmem | hmem
    · exact h.free id hmem
    · rw [← h.elsewhere id (hne' id hmem) fun hmem' => hapart hmem' hmem]
      exact h'.free id hmem
  · rw [h'.atRow, ← List.append_assoc]
    rfl
  · intro id hmem
    rcases List.mem_append.1 hmem with hmem | hmem
    · rw [h'.elsewhere id (hne id hmem) (hapart hmem)]
      exact h.atNew id hmem
    · exact h'.atNew id hmem
  · intro id hother hmem
    rw [List.mem_append, not_or] at hmem
    rw [h'.elsewhere id hother hmem.2, h.elsewhere id hother hmem.1]

/-- Adding columns adds just those. -/
theorem grownBy_appendColumns {count : Nat} (hrow : tree.nodes[row]? = some node)
    (hcontainer : node.children.isSome = true)
    (hok : tree.appendColumns row count = some next) :
    ∃ ids, ids.length = count ∧ GrownBy tree.nodes next.nodes row node ids := by
  induction count generalizing tree node with
  | zero =>
    cases hok
    refine ⟨[], rfl, List.nodup_nil, ?_, ?_, ?_, fun _ _ _ => rfl⟩
    · intro id hmem
      cases hmem
    · rw [hrow, List.append_nil, ← Node.children_eq_some hcontainer]
    · intro id hmem
      cases hmem
  | succ count ih =>
    obtain ⟨first, hfirst, hlater⟩ := appendColumns_succ_eq_some_iff.1 hok
    obtain ⟨id, hone⟩ := grownBy_appendColumn hrow hcontainer hfirst
    obtain ⟨ids, hlength, hrest⟩ := ih hone.atRow rfl hlater
    exact ⟨id :: ids, by rw [List.length_cons, hlength], grownBy_trans hrow hone hrest⟩

end Tree

namespace SoundBut

variable {tree next : Tree} {loose opened : List NodeId} {row : NodeId} {node : Node}

/-- A new column is loose at first, and then a child of its row. -/
theorem appendColumn (h : SoundBut tree.nodes loose opened) (hparents : ParentsExist tree.nodes)
    (hrow : tree.nodes[row]? = some node) (hkind : node.kind = .columns) (hopen : row ∈ opened)
    (hloose : ∀ id ∈ loose, ∃ n, tree.nodes[id]? = some n)
    (hok : tree.appendColumn row = some next) :
    SoundBut next.nodes loose opened ∧ ParentsExist next.nodes := by
  have hcontainer := h.forest.isSome_children_row hrow hkind
  obtain ⟨id, hfree, hnodes⟩ := Tree.nodes_appendColumn hrow hcontainer hok
  have hne : row ≠ id := ne_of_free hrow hfree
  have hplanted : SoundBut (tree.nodes.insert id (.emptyColumn row)) (id :: loose) opened :=
    h.plant hparents hfree (Node.isSome_children_fresh _ _) (Node.childList_fresh _ _) rfl hrow
      fun _ => Node.fits_fresh _ (by decide)
  have hplanted' : ParentsExist (tree.nodes.insert id (.emptyColumn row)) :=
    hparents.insert fun parent hparent => by
      cases hparent
      exact ⟨node, hrow⟩
  have hrow' : (tree.nodes.insert id (.emptyColumn row))[row]? = some node :=
    (getElem?_insert_of_ne _ hne).trans hrow
  rw [hnodes]
  constructor
  · -- The new column was loose, and the row gains it.
    have hperm : ([] ++ (node.childList ++ [id])).Perm ([id] ++ node.childList) := by
      rw [List.nil_append]
      exact List.perm_append_comm
    refine SoundBut.relist [id] [] hplanted hrow' hperm (List.nodup_singleton id) ?_ hcontainer
      (.inl hopen)
    intro childId hmem
    rw [List.mem_singleton.1 hmem]
    refine ⟨fun hmem' => ?_, _, Std.ExtTreeMap.getElem?_insert_self, rfl, ?_⟩
    · obtain ⟨n, hn⟩ := hloose id hmem'
      exact ne_of_free hn hfree rfl
    · rw [hkind]
      rfl
  · refine hplanted'.insert fun parent hparent => ?_
    exact hplanted' hrow' hparent

theorem appendColumns {count : Nat} (h : SoundBut tree.nodes loose opened)
    (hparents : ParentsExist tree.nodes) (hrow : tree.nodes[row]? = some node)
    (hkind : node.kind = .columns) (hopen : row ∈ opened)
    (hloose : ∀ id ∈ loose, ∃ n, tree.nodes[id]? = some n)
    (hok : tree.appendColumns row count = some next) : SoundBut next.nodes loose opened := by
  induction count generalizing tree node with
  | zero =>
    cases hok
    exact h
  | succ count ih =>
    obtain ⟨first, hfirst, hlater⟩ := Tree.appendColumns_succ_eq_some_iff.1 hok
    have hcontainer := h.forest.isSome_children_row hrow hkind
    obtain ⟨id, hone⟩ := Tree.grownBy_appendColumn hrow hcontainer hfirst
    obtain ⟨hsound, hparents'⟩ := h.appendColumn hparents hrow hkind hopen hloose hfirst
    refine ih hsound hparents' hone.atRow hkind ?_ hlater
    intro other hmem
    by_cases heq : other = row
    · rw [heq]
      exact ⟨_, hone.atRow⟩
    · obtain ⟨n, hn⟩ := hloose other hmem
      refine ⟨n, (hone.elsewhere other heq ?_).trans hn⟩
      rw [List.mem_singleton]
      exact ne_of_free hn (hone.free id List.mem_cons_self)

end SoundBut

end MailTemplate
