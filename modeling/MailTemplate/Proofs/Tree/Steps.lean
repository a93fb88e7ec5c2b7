import MailTemplate.Proofs.Component.Records
import MailTemplate.Proofs.Tree.Minting
import MailTemplate.Proofs.Tree.Soundness

/-!
# Steps of an Edit

Every edit is a few steps: a new node is put in, a node gets another list of children or other
properties, a loose node gets another parent or goes with all that hangs from it, and a row records
how many columns it has. What each step keeps of soundness is said here, in terms of `SoundBut`.

* `SoundBut.plant`, `SoundBut.relist`, `SoundBut.setProperties`, `SoundBut.repoint` and
  `SoundBut.eraseAll` are the steps.
* `SoundBut.appendColumns` and `SoundBut.writeColumnCount` make and close a row.
-/

namespace MailTemplate

/-! ## Nodes and what they record -/

/-- A new node lists nothing. -/
theorem Node.childList_fresh (parent : Option NodeId) (properties : Properties) :
    (Node.fresh parent properties).childList = [] := by
  unfold Node.fresh Node.childList
  cases properties.kind.isContainer <;> rfl

theorem Node.isSome_children_fresh (parent : Option NodeId) (properties : Properties) :
    (Node.fresh parent properties).children.isSome =
      (Node.fresh parent properties).kind.isContainer := by
  unfold Node.fresh Node.kind
  cases properties.kind.isContainer <;> rfl

/-- Whether a node fits depends on its properties, and for a row on how many children it has. -/
theorem Node.Fits.congr {node node' : Node} (h : node.Fits)
    (hproperties : node'.properties = node.properties)
    (hlength : node.kind = .columns → node'.childList.length = node.childList.length) :
    node'.Fits := by
  unfold Node.Fits Node.kind at *
  rw [hproperties]
  cases hp : node.properties with
  | columns row =>
    rw [hp] at h hlength
    rw [hlength rfl]
    exact h
  | root page =>
    rw [hp] at h
    exact h
  | _ => trivial

/-- The default record of any kind but a row fits. -/
theorem Node.fits_fresh {kind : Kind} (parent : Option NodeId) (h : kind ≠ .columns) :
    (Node.fresh parent kind.defaults).Fits := by
  cases kind <;> first | exact absurd rfl h | trivial

/-- Records that are in range fit, but for the number of columns of a row. -/
theorem Node.fits_of_inRange {node : Node} (h : node.properties.InRange)
    (hkind : node.kind ≠ .columns) : node.Fits := by
  unfold Node.Fits
  cases hp : node.properties with
  | root page =>
    rw [hp] at h
    exact congrArg Page.maxWidth (Properties.root.inj h)
  | columns row =>
    rw [Node.kind, hp] at hkind
    exact absurd rfl hkind
  | _ => trivial

theorem toNat_ofNat_of_le_maxColumns {count : Nat} (h : count ≤ maxColumns) :
    (UInt32.ofNat count).toNat = count := by
  rw [maxColumns] at h
  exact UInt32.toNat_ofNat_of_lt' (Nat.lt_of_le_of_lt h (by decide))

@[simp]
theorem Tree.parent_recordCount (count : Nat) (node : Node) :
    (recordCount count node).parent = node.parent := by
  unfold recordCount
  split <;> rfl

@[simp]
theorem Tree.children_recordCount (count : Nat) (node : Node) :
    (recordCount count node).children = node.children := by
  unfold recordCount
  split <;> rfl

@[simp]
theorem Tree.kind_recordCount (count : Nat) (node : Node) :
    (recordCount count node).kind = node.kind := by
  unfold recordCount Node.kind
  split
  case h_1 row hrow => rw [hrow]; rfl
  case h_2 => rfl

/-! ## Sound but for a few nodes -/

namespace SoundBut

variable {nodes : Nodes} {loose opened : List NodeId} {id : NodeId}
  {node node' : Node}

/-- Open rows may be more. -/
theorem open_more {opened' : List NodeId} (h : SoundBut nodes loose opened)
    (hsub : opened ⊆ opened') : SoundBut nodes loose opened' :=
  ⟨h.root, h.forest, fun hget hnot => h.fits hget fun hmem => hnot (hsub hmem)⟩

/-- One node is put: the root stays what it is, and the node fits unless it is an open row. -/
theorem put {loose' : List NodeId} (h : SoundBut nodes loose opened)
    (hforest : Forest (nodes.insert id node') (loose' ++ [rootId]))
    (hroot : id = rootId → node'.parent = none ∧ node'.kind = .root)
    (hfits : id ∉ opened → node'.Fits) : SoundBut (nodes.insert id node') loose' opened where
  root := by
    obtain ⟨root, hget, hrest⟩ := h.root
    by_cases heq : id = rootId
    · exact ⟨node', heq ▸ Std.ExtTreeMap.getElem?_insert_self, hroot heq⟩
    · exact ⟨root, (getElem?_insert_of_ne _ (Ne.symm heq)).trans hget, hrest⟩
  forest := hforest
  fits {other n} hother hnot := by
    rw [getElem?_insert_eq] at hother
    split at hother
    case isTrue heq =>
      cases hother
      exact hfits (heq ▸ hnot)
    case isFalse => exact h.fits hother hnot

/-- What is at the root names no parent and is of the kind for it. -/
theorem root_of_get (h : SoundBut nodes loose opened) (hget : nodes[id]? = some node)
    (heq : id = rootId) : node.parent = none ∧ node.kind = .root := by
  obtain ⟨root, hroot, hrest⟩ := h.root
  rw [heq, hroot] at hget
  cases hget
  exact hrest

/-- Where nothing is loose, every parent exists. -/
theorem parentsExist (h : SoundBut nodes [] opened) : ParentsExist nodes := by
  intro other parent n hget hparent
  by_cases heq : other = rootId
  · rw [(h.root_of_get hget heq).1] at hparent
    cases hparent
  · obtain ⟨parentId, above, hnames, habove, -⟩ := h.forest.placed hget (by simpa using heq)
    rw [hparent] at hnames
    cases hnames
    exact ⟨above, habove⟩

/-- A new node that lists nothing is loose. -/
theorem plant (h : SoundBut nodes loose opened) (hparents : ParentsExist nodes)
    (hfree : nodes[id]? = none) (hcontainer : node.children.isSome = node.kind.isContainer)
    (hlist : node.childList = []) {parentId : NodeId} {parent : Node}
    (hparent : node.parent = some parentId) (habove : nodes[parentId]? = some parent)
    (hfits : id ∉ opened → node.Fits) :
    SoundBut (nodes.insert id node) (id :: loose) opened := by
  refine h.put ?_ ?_ hfits
  · refine Forest.insert (hlist.symm ▸ h.forest) ⟨hfree, hcontainer, ?_, ?_, ?_⟩
    · rw [hlist]
      exact List.nodup_nil
    · rw [hlist]
      intro childId hmem
      cases hmem
    · intro p hnames
      rw [hparent] at hnames
      cases hnames
      exact not_reflTransGen_of_free hfree hparents habove
  · intro heq
    obtain ⟨root, hroot, -⟩ := h.root
    exact absurd heq.symm (ne_of_free hroot hfree)

/-- A node gets another list of children. -/
theorem relist (gained dropped : List NodeId) (h : SoundBut nodes (gained ++ loose) opened)
    (hget : nodes[id]? = some node)
    {list : List NodeId} (hperm : (dropped ++ list).Perm (gained ++ node.childList))
    (hnodup : gained.Nodup)
    (hgained : ∀ childId ∈ gained, childId ∉ loose ∧
      ∃ child, nodes[childId]? = some child ∧ child.parent = some id ∧
        node.kind.accepts child.kind = true)
    (hcontainer : node.children.isSome = true)
    (hopen : id ∈ opened ∨ (node.kind = .columns → list.length = node.childList.length)) :
    SoundBut (nodes.insert id { node with children := some list }) (dropped ++ loose) opened := by
  have hforest : Forest nodes (gained ++ (loose ++ [rootId])) := by
    rw [← List.append_assoc]
    exact h.forest
  refine h.put ?_ (fun heq => ?_) ?_
  · rw [List.append_assoc]
    refine hforest.relist ⟨hget, rfl, rfl, hcontainer.symm, hperm, hnodup, ?_⟩
    intro childId hmem
    obtain ⟨hnot, child, hchild, hrest⟩ := hgained childId hmem
    refine ⟨?_, child, hchild, hrest⟩
    -- The root is not gained, for nothing holds its kind.
    rw [List.mem_append, List.mem_singleton, not_or]
    refine ⟨hnot, ?_⟩
    rintro rfl
    rw [(h.root_of_get hchild rfl).2, Kind.accepts_root] at hrest
    cases hrest.2
  · have hroot := h.root_of_get hget heq
    exact hroot
  · intro hnot
    exact (h.fits hget hnot).congr rfl (hopen.resolve_left hnot)

/-- A node gets other properties of its kind, which fit. -/
theorem setProperties (properties : Properties) (h : SoundBut nodes loose opened)
    (hget : nodes[id]? = some node) (hkind : properties.kind = node.kind)
    (hfits : id ∉ opened → Node.Fits { node with properties := properties }) :
    SoundBut (nodes.insert id { node with properties := properties }) loose opened := by
  refine h.put (h.forest.replace hget rfl hkind rfl) ?_ hfits
  intro heq
  obtain ⟨hparent, hroot⟩ := h.root_of_get hget heq
  exact ⟨hparent, hkind.trans hroot⟩

/-- A loose node names another parent, which is not below it. -/
theorem repoint (h : SoundBut nodes loose opened) (hloose : id ∈ loose)
    (hne : id ≠ rootId) (hget : nodes[id]? = some node) {parentId : NodeId}
    (hnot : ¬ Relation.ReflTransGen (IsParent nodes) id parentId) :
    SoundBut (nodes.insert id { node with parent := some parentId }) loose opened := by
  refine h.put (h.forest.repoint (List.mem_append_left _ hloose) hget hnot) ?_ ?_
  · exact fun heq => absurd heq hne
  · exact fun hfits => (h.fits hget hfits).congr rfl fun _ => rfl

/-- Loose nodes go, with all that hangs from them. -/
theorem eraseAll (stack : List NodeId) (h : SoundBut nodes (stack ++ loose) opened)
    (hdisjoint : List.Disjoint stack (loose ++ [rootId])) :
    SoundBut (Tree.eraseAll nodes stack) loose opened := by
  have hforest := h.forest
  rw [List.append_assoc] at hforest
  obtain ⟨hleft, hkept⟩ := hforest.eraseAll hdisjoint
  refine ⟨?_, hleft, fun hget hnot => h.fits (Forest.eraseAll_subset stack hget) hnot⟩
  obtain ⟨root, hroot, hrest⟩ := h.root
  exact ⟨root, (hkept rootId (by simp)).trans hroot, hrest⟩

/-- Loose nodes go one after the other. -/
theorem foldl_eraseSubtree {tree : Tree} {ids : List NodeId}
    (h : SoundBut tree.nodes (ids ++ loose) opened) (hnodup : ids.Nodup)
    (hdisjoint : List.Disjoint ids (loose ++ [rootId])) :
    SoundBut (ids.foldl Tree.eraseSubtree tree).nodes loose opened := by
  induction ids generalizing tree with
  | nil => exact h
  | cons id ids ih =>
    rw [List.nodup_cons] at hnodup
    rw [List.disjoint_cons_left] at hdisjoint
    refine ih ?_ hnodup.2 hdisjoint.2
    refine eraseAll [id] h ?_
    rw [List.singleton_disjoint, List.append_assoc, List.mem_append, not_or]
    exact ⟨hnodup.1, hdisjoint.1⟩

/-- A row that records how many columns it has is open no more. -/
theorem writeColumnCount {tree : Tree} {row : NodeId} {count : Nat}
    (h : SoundBut tree.nodes loose (row :: opened))
    (hrow : ∀ {n : Node}, tree.nodes[row]? = some n →
      n.kind = .columns ∧ n.childList.length = count)
    (hmin : minColumns ≤ count) (hmax : count ≤ maxColumns) :
    SoundBut (tree.writeColumnCount row count).nodes loose opened := by
  rw [Tree.nodes_writeColumnCount]
  -- The other rows are as they were.
  have hrest : ∀ {other : NodeId} {n : Node}, other ≠ row → tree.nodes[other]? = some n →
      other ∉ opened → n.Fits := by
    intro other n hne hget hnot
    exact h.fits hget (by simpa using ⟨hne, hnot⟩)
  cases hget : tree.nodes[row]? with
  | none =>
    rw [modify_eq_self hget]
    exact ⟨h.root, h.forest, fun hother hnot => hrest (ne_of_free hother hget) hother hnot⟩
  | some n =>
    obtain ⟨hkind, hlength⟩ := hrow hget
    obtain ⟨r, hproperties⟩ := Node.kind_eq_columns hkind
    have hrecord : Tree.recordCount count n =
        { n with properties := .columns { r with columns := .ofNat count } } := by
      rw [Tree.recordCount, hproperties]
    rw [modify_eq_insert _ hget, hrecord]
    have hkept := h.setProperties (.columns { r with columns := .ofNat count }) hget hkind.symm
      fun hnot => absurd List.mem_cons_self hnot
    refine ⟨hkept.root, hkept.forest, fun {other n'} hother hnot => ?_⟩
    rw [getElem?_insert_eq] at hother
    split at hother
    case isTrue =>
      cases hother
      refine ⟨?_, ?_, ?_⟩
      · exact hlength.symm ▸ hmin
      · exact hlength.symm ▸ hmax
      · exact (toNat_ofNat_of_le_maxColumns hmax).trans hlength.symm
    case isFalse hne => exact hrest hne hother hnot

end SoundBut

end MailTemplate
