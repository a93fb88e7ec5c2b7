import MailTemplate.Proofs.Tree.Agreement
import MailTemplate.Proofs.Tree.Inverses
import MailTemplate.Proofs.Tree.Upkeep

/-!
# Adding a Component

A new component is made first, together with its columns if it is a row, and then put on the list of
its parent.

* `Seeded` says what is found once it is made, and `Tree.Added` what is found once it is in place.
* `Tree.addComponent_adds` ties both to the edit, and says that a removal takes back all of it but
  the counter for new ids.
-/

namespace MailTemplate

variable {nodes nodes' : Nodes} {kind : Kind} {parent id other : NodeId} {columns : List NodeId}

/-- A new component of a kind. -/
def Node.seed (kind : Kind) (parent : NodeId) (columns : List NodeId) : Node where
  parent := some parent
  properties := kind.defaults
  children := if kind.isContainer then some columns else none

@[simp]
theorem Node.kind_seed (kind : Kind) (parent : NodeId) (columns : List NodeId) :
    (Node.seed kind parent columns).kind = kind :=
  kind.kind_defaults

/-- A component of a kind has been made, and nothing else has changed. No node lists it yet. -/
structure Seeded (nodes nodes' : Nodes) (kind : Kind) (parent id : NodeId)
    (columns : List NodeId) : Prop where
  nodup : (id :: columns).Nodup
  free : ∀ new ∈ id :: columns, nodes[new]? = none
  /-- A row has as many columns as it has to have, and nothing else has any. -/
  length : columns.length = if kind = .columns then minColumns else 0
  atId : nodes'[id]? = some (.seed kind parent columns)
  atNew : ∀ column ∈ columns, nodes'[column]? = some (.emptyColumn id)
  elsewhere : ∀ other, other ∉ id :: columns → nodes'[other]? = nodes[other]?

theorem Seeded.not_mem_of_get {node : Node} (h : Seeded nodes nodes' kind parent id columns)
    (hget : nodes[other]? = some node) : other ∉ id :: columns :=
  fun hmem => ne_of_free hget (h.free other hmem) rfl

namespace Tree

variable {tree next : Tree} {index : Option Nat}

/-- A component is made with what it starts out with. -/
theorem exists_seeded {planted : Tree} (hplant : tree.plant kind parent = some (planted, id)) :
    ∃ columns, Seeded tree.nodes planted.nodes kind parent id columns := by
  by_cases hkind : kind = .columns
  · subst hkind
    obtain ⟨minted, filled, hmint, hfilled, rfl⟩ := plant_columns_eq_some_iff.1 hplant
    obtain ⟨columns, hlength, hgrown⟩ := grownBy_bareRow hfilled
    have hbare : ∀ other, other ≠ id →
        (minted.bareRow id parent).nodes[other]? = tree.nodes[other]? := fun other hne => by
      rw [bareRow, nodes_insert, getElem?_insert_of_ne _ hne, nodes_of_mint hmint]
    have hne : ∀ column ∈ columns, column ≠ id := fun column hmem =>
      (ne_of_free getElem?_bareRow (hgrown.free column hmem)).symm
    -- The number of columns is written last, and it is the one that the record starts out with.
    refine ⟨columns, List.nodup_cons.2 ⟨fun hmem => hne _ hmem rfl, hgrown.nodup⟩,
      fun new hmem => ?_, hlength, ?_, fun column hmem => ?_, fun other hmem => ?_⟩
    · rcases List.mem_cons.1 hmem with rfl | hmem
      · exact free_of_mint hmint
      · rw [← hbare new (hne new hmem)]
        exact hgrown.free new hmem
    · rw [nodes_writeColumnCount, getElem?_modify_eq, if_pos rfl, hgrown.atRow]
      rfl
    · rw [nodes_writeColumnCount, getElem?_modify_eq, if_neg (hne column hmem),
        hgrown.atNew column hmem]
    · rw [List.mem_cons, not_or] at hmem
      rw [nodes_writeColumnCount, getElem?_modify_eq, if_neg hmem.1,
        hgrown.elsewhere other hmem.1 hmem.2, hbare other hmem.1]
  · obtain ⟨minted, hmint, rfl⟩ := (plant_eq_some_iff_of_ne hkind).1 hplant
    refine ⟨[], List.nodup_singleton _, fun new hmem => ?_, (if_neg hkind).symm, ?_,
      fun _ hmem => absurd hmem List.not_mem_nil, fun other hmem => ?_⟩
    · rw [List.mem_singleton.1 hmem]
      exact free_of_mint hmint
    · refine Std.ExtTreeMap.getElem?_insert_self.trans (congrArg some ?_)
      rw [Node.fresh, Node.seed, kind.kind_defaults]
    · rw [nodes_insert, getElem?_insert_of_ne _ (by simpa using hmem), nodes_of_mint hmint]

/-- A component of a kind has been added to a parent, at an index or at the end, and nothing else
has changed. -/
structure Added (tree next : Tree) (kind : Kind) (parent : NodeId) (index : Option Nat)
    (id : NodeId) (columns : List NodeId) : Prop where
  nodup : (id :: columns).Nodup
  /-- The new ids were free. -/
  free : ∀ new ∈ id :: columns, tree.contains new = false
  /-- A row comes with two columns, and nothing else with any. -/
  length : columns.length = if kind = .columns then 2 else 0
  /-- The component has the defaults of its kind, and holds nothing but its columns. -/
  atId : next.get? id = some (.seed kind parent columns)
  /-- The columns are empty and have the defaults of their kind. -/
  atNew : ∀ column ∈ columns, next.get? column = some ⟨some id, Kind.column.defaults, some []⟩
  /-- The parent lists the component at the index, or behind its other children. -/
  atParent : ∃ holder list, tree.get? parent = some holder ∧ holder.children = some list ∧
    next.get? parent = some { holder with
      children := some (list.insertIdx (slot index list.length) id) }
  /-- No other node has changed, and no other is new. -/
  elsewhere : ∀ other, other ≠ parent → other ∉ id :: columns → next.get? other = tree.get? other

/-- The place of a new component is counted among the children that the parent has had. -/
theorem insertAt_slot (list : List NodeId) (index : Option Nat) (id : NodeId) :
    insertAt list (if index.getD list.length < list.length then index.getD list.length
      else list.length) id = list.insertIdx (slot index list.length) id := by
  rw [insertAt_eq_insertIdx]
  refine congrArg (list.insertIdx · id) ?_
  cases index with
  | none => exact (Nat.min_le_right _ _).antisymm (by simp)
  | some i =>
    rw [slot, Option.getD_some]
    split <;> omega

namespace Sound

/-- What an addition does to the nodes: the parent of what is made lists it. -/
theorem nodes_addComponent (h : tree.Sound)
    (hok : tree.addComponent kind parent index = .ok (next, id)) :
    ∃ columns holder list made, Seeded tree.nodes made kind parent id columns ∧
      tree.nodes[parent]? = some holder ∧ holder.children = some list ∧ next.nodes =
        made.insert parent { holder with
          children := some (list.insertIdx (slot index list.length) id) } := by
  obtain ⟨holder, hholder, -, haccepts, planted, hplant, hplaced⟩ := addComponent_eq_ok_iff.1 hok
  obtain ⟨-, rfl⟩ := requireChildren_eq_ok_iff.1 hplaced
  obtain ⟨columns, hseeded⟩ := exists_seeded hplant
  have hcontainer : holder.children.isSome = true :=
    (SoundBut.forest h).isSome_children hholder (Kind.isContainer_of_accepts haccepts)
  have hholder' : planted.nodes[parent]? = some holder :=
    (hseeded.elsewhere parent (hseeded.not_mem_of_get hholder)).trans hholder
  refine ⟨columns, holder, holder.childList, _, hseeded, hholder, Node.children_eq_some hcontainer,
    ?_⟩
  rw [nodes_modifyChildren_of_some hholder' hcontainer, insertAt_slot]

theorem added (h : tree.Sound) (hok : tree.addComponent kind parent index = .ok (next, id)) :
    ∃ columns, tree.Added next kind parent index id columns := by
  obtain ⟨columns, holder, list, made, hseeded, hholder, hlist, hnodes⟩ :=
    h.nodes_addComponent hok
  have hother : ∀ other, other ≠ parent → next.nodes[other]? = made[other]? := fun other hne => by
    rw [hnodes, getElem?_insert_of_ne _ hne]
  have hnew : ∀ new ∈ id :: columns, new ≠ parent := fun new hmem =>
    (ne_of_free hholder (hseeded.free new hmem)).symm
  have hparent : next.nodes[parent]? = some { holder with
      children := some (list.insertIdx (slot index list.length) id) } := by
    rw [hnodes, Std.ExtTreeMap.getElem?_insert_self]
  refine ⟨columns, hseeded.nodup, fun new hmem => contains_eq_false_iff.2 (hseeded.free new hmem),
    hseeded.length, ?_, fun column hmem => ?_, ⟨holder, list, hholder, hlist, hparent⟩,
    fun other hne hmem => ?_⟩
  · exact (hother id (hnew id List.mem_cons_self)).trans hseeded.atId
  · exact (hother column (hnew column (List.mem_cons_of_mem id hmem))).trans
      (hseeded.atNew column hmem)
  · exact (hother other hne).trans (hseeded.elsewhere other hmem)

end Sound

/-! ## Taking it back -/

/-- What hangs from a new component are its columns. -/
theorem Added.mem_of_reflTransGen (h : tree.Added next kind parent index id columns)
    (hsound : next.Sound) (hway : Relation.ReflTransGen (IsParent next.nodes) id other) :
    other ∈ id :: columns := by
  have hlist : ∀ child, IsParent next.nodes id child → child ∈ columns := by
    intro child hparent
    have hmem := (SoundBut.isParent_iff_mem hsound h.atId).1 hparent
    unfold Node.seed Node.childList at hmem
    split at hmem
    · exact hmem
    · cases hmem
  have hempty : ∀ column ∈ columns, ∀ child, ¬ IsParent next.nodes column child :=
    fun column hmem child hparent =>
      List.not_mem_nil ((SoundBut.isParent_iff_mem hsound (h.atNew column hmem)).1 hparent)
  induction hway with
  | refl => exact List.mem_cons_self
  | tail _ hparent ih =>
    rcases List.mem_cons.1 ih with rfl | hmem
    · exact List.mem_cons_of_mem _ (hlist _ hparent)
    · exact absurd hparent (hempty _ hmem _)

/-- A parent that loses the component is what it was before it listed the component. -/
theorem eq_of_loses {holder lister : Node} {list : List NodeId}
    (hlist : holder.children = some list)
    (hnodup : (list.insertIdx (slot index list.length) id).Nodup) (hkind : kind ≠ .column)
    (h : Node.Loses { holder with
      children := some (list.insertIdx (slot index list.length) id) } lister id kind) :
    lister = holder := by
  obtain ⟨before, after, hsplit, hleft⟩ := h.children
  have hsplit' : list.insertIdx (slot index list.length) id = before ++ id :: after :=
    Option.some.inj hsplit
  have hunlisted : id ∉ list := by
    rw [← insertAt_getD] at hnodup
    exact (List.nodup_cons.1 ((insertAt_perm _ _ _).nodup_iff.1 hnodup)).1
  have hrest : before ++ after = list := by
    calc before ++ after
      _ = without id (before ++ id :: after) := (without_append_cons (hsplit' ▸ hnodup)).symm
      _ = without id (insertAt list (index.getD list.length) id) := by
        rw [insertAt_getD, hsplit']
      _ = list := without_insertAt hunlisted _
  have hparent := h.parent
  have hproperties := h.ofOther hkind
  cases lister
  cases holder
  simp_all only

namespace Sound

/-- What is added may be removed again. -/
theorem exists_removeComponent_of_added (h : tree.Sound) (hkind : kind ≠ .column)
    (hadded : tree.Added next kind parent index id columns) :
    ∃ back, next.removeComponent id = .ok back := by
  obtain ⟨root, hroot, -⟩ := SoundBut.root h
  have hfree := contains_eq_false_iff.1 (hadded.free id List.mem_cons_self)
  refine ⟨_, removeComponent_eq_ok_iff.2
    ⟨_, hadded.atId, (ne_of_free hroot hfree).symm, fun hfew => hkind ?_, rfl⟩⟩
  exact (Node.kind_seed kind parent columns).symm.trans hfew.1

/-- The removal of what was added restores the nodes. -/
theorem nodes_removeComponent_of_added (h : next.Sound) {back : Tree} (hkind : kind ≠ .column)
    (hadded : tree.Added next kind parent index id columns)
    (hback : next.removeComponent id = .ok back) : back.nodes = tree.nodes := by
  obtain ⟨node, above, lister, lister', hnode, hnames, hlister, hloses, hpruned⟩ :=
    h.pruned_removeComponent hback
  obtain ⟨holder, list, hholder, hlist, hholder'⟩ := hadded.atParent
  cases hnode.symm.trans hadded.atId
  cases hnames
  cases hlister.symm.trans hholder'
  refine Std.ExtTreeMap.ext_getElem? fun other => ?_
  by_cases heq : other = parent
  · have hnodup := (SoundBut.forest h).nodup_childList hlister
    rw [Node.kind_seed] at hloses
    rw [heq, hpruned.atNode, eq_of_loses hlist hnodup hkind hloses]
    exact hholder.symm
  · by_cases hmem : other ∈ id :: columns
    · have hway : Relation.ReflTransGen (IsParent next.nodes) id other := by
        rcases List.mem_cons.1 hmem with rfl | hmem
        · exact .refl
        · exact .single ⟨_, hadded.atNew other hmem, rfl⟩
      rw [hpruned.gone (List.mem_singleton_self id) hway]
      exact (contains_eq_false_iff.1 (hadded.free other hmem)).symm
    · have hkept : back.nodes[other]? = next.nodes[other]? :=
        hpruned.elsewhere heq fun top htop hway => by
          rw [List.mem_singleton.1 htop] at hway
          exact hmem (hadded.mem_of_reflTransGen h hway)
      rw [hkept]
      exact hadded.elsewhere other heq hmem

end Sound

/-- In a tree without violations, an addition puts a new component with the defaults of its kind at
the index, and makes nothing else but the two columns of a row. Its removal takes it back: the tree
has the same nodes again, and is equal to the old one if line heights are numbers. -/
theorem addComponent_adds (h : tree.violations = [])
    (hok : tree.addComponent kind parent index = .ok (next, id)) :
    (∃ columns, tree.Added next kind parent index id columns) ∧
      ∃ back, next.removeComponent id = .ok back ∧ back.nodes = tree.nodes ∧
        (tree.Numeric → back.agrees tree = true) := by
  have hsound := violations_eq_nil_iff_sound.1 h
  have hnext := hsound.addComponent hok
  obtain ⟨holder, -, hkind, -⟩ := addComponent_eq_ok_iff.1 hok
  obtain ⟨columns, hadded⟩ := hsound.added hok
  obtain ⟨back, hback⟩ := hsound.exists_removeComponent_of_added hkind hadded
  have hnodes := hnext.nodes_removeComponent_of_added hkind hadded hback
  refine ⟨⟨columns, hadded⟩, back, hback, hnodes, fun hnumeric => agrees_of_eq ?_ hnodes⟩
  intro other node hget
  exact hnumeric (hnodes ▸ hget)

/-- A row is put before the text of a column, and taken away again. -/
theorem addComponent_adds_row :
    nestedRows.violations = [] ∧ ∃ next id back,
      nestedRows.addComponent .columns "left" (some 0) = .ok (next, id) ∧
        next.childrenOf "left" = [id, "title"] ∧
        next.removeComponent id = .ok back ∧ back.nodes = nestedRows.nodes := by
  obtain ⟨⟨next, id⟩, hok⟩ :
      ∃ added, nestedRows.addComponent .columns "left" (some 0) = .ok added :=
    isOk_iff_exists.1 (by decide +kernel)
  obtain ⟨⟨columns, hadded⟩, back, hback, hnodes, -⟩ :=
    addComponent_adds violations_nestedRows hok
  obtain ⟨holder, list, hholder, hlist, hnext⟩ := hadded.atParent
  have hchildren : list = ["title"] := by
    have hleft : (nestedRows.get? "left").bind Node.children = some ["title"] := by
      decide +kernel
    rw [hholder, Option.bind_some, hlist] at hleft
    exact Option.some.inj hleft
  refine ⟨violations_nestedRows, next, id, back, hok, ?_, hback, hnodes⟩
  rw [childrenOf_eq hnext, hchildren]
  rfl

end Tree

end MailTemplate
