import MailTemplate.Proofs.Tree.Forest

/-!
# Sound Trees

A tree has no violations just if it is a forest below the root, the root is of the kind for it and
names no parent, and every node records what fits. `SoundBut` leaves room for the steps of an edit:
some nodes may be loose, so that none lists them, and some rows open, so that their columns do not
have to be counted.

* `violations_eq_nil_iff_sound` ties the list of violations to `Tree.Sound`.
-/

namespace MailTemplate

/-- A page is as wide as it may be, and a row has as many columns as it may and records their
number. -/
def Node.Fits (node : Node) : Prop :=
  match node.properties with
  | .root page => clampWidth page.maxWidth = page.maxWidth
  | .columns row =>
    minColumns ≤ node.childList.length ∧ node.childList.length ≤ maxColumns ∧
      row.columns.toNat = node.childList.length
  | _ => True

/-- Nodes are sound but for the loose ones, which no node lists, and for the open rows, whose
columns are not counted. -/
structure SoundBut (nodes : Nodes) (loose opened : List NodeId) : Prop where
  /-- The root is of the kind for it and names no parent. -/
  root : ∃ node, nodes[rootId]? = some node ∧ node.parent = none ∧ node.kind = .root
  /-- The other nodes hang from the root and from the loose ones. -/
  forest : Forest nodes (loose ++ [rootId])
  /-- Where no row is open, the nodes record what fits. -/
  fits : ∀ {id : NodeId} {node : Node}, nodes[id]? = some node → id ∉ opened → node.Fits

/-- Nothing is loose or open. -/
def Tree.Sound (tree : Tree) : Prop :=
  SoundBut tree.nodes [] []

theorem Kind.accepts_root (kind : Kind) : kind.accepts .root = false := by
  cases kind <;> rfl

/-- Only a container holds anything. -/
theorem Kind.isContainer_of_accepts {kind child : Kind} (h : kind.accepts child = true) :
    kind.isContainer = true := by
  cases kind <;> first | rfl | cases h

/-- A row holds just columns, and only a row does. -/
theorem Kind.accepts_column_iff {kind child : Kind} (h : kind.accepts child = true) :
    kind = .columns ↔ child = .column := by
  cases kind <;> cases child <;> simp_all [Kind.accepts]

theorem Node.kind_eq_root {node : Node} (h : node.kind = .root) :
    ∃ page, node.properties = .root page := by
  rw [Node.kind] at h
  cases hp : node.properties <;> simp_all [Properties.kind]

theorem Node.kind_eq_columns {node : Node} (h : node.kind = .columns) :
    ∃ row, node.properties = .columns row := by
  rw [Node.kind] at h
  cases hp : node.properties <;> simp_all [Properties.kind]

/-- A row that fits has as many columns as it may. -/
theorem Node.Fits.length_bounds {node : Node} (h : node.Fits) (hkind : node.kind = .columns) :
    minColumns ≤ node.childList.length ∧ node.childList.length ≤ maxColumns := by
  obtain ⟨row, hrow⟩ := Node.kind_eq_columns hkind
  unfold Node.Fits at h
  rw [hrow] at h
  exact ⟨h.1, h.2.1⟩

/-- No node but the root is of its kind, for none holds it. -/
theorem Forest.kind_ne_root {nodes : Nodes} {id : NodeId} {node : Node}
    (h : Forest nodes [rootId]) (hget : nodes[id]? = some node) (hne : id ≠ rootId) :
    node.kind ≠ .root := by
  obtain ⟨parentId, parent, -, hlister, hcount⟩ := h.placed hget (by simpa using hne)
  obtain ⟨child, hchild, -, haccepts⟩ :=
    h.child hlister (List.count_pos_iff.1 (hcount ▸ Nat.one_pos))
  rw [hget] at hchild
  cases hchild
  intro hkind
  rw [hkind, Kind.accepts_root] at haccepts
  cases haccepts

/-- The root of sound nodes has the page of the tree. -/
theorem SoundBut.exists_page {tree : Tree} {loose opened : List NodeId}
    (h : SoundBut tree.nodes loose opened) : ∃ root page, tree.get? rootId = some root ∧
      root.parent = none ∧ root.properties = .root page ∧ tree.page? = some page := by
  obtain ⟨root, hroot, hparent, hkind⟩ := h.root
  obtain ⟨page, hproperties⟩ := Node.kind_eq_root hkind
  have hget : tree.get? rootId = some root := hroot
  refine ⟨root, page, hget, hparent, hproperties, ?_⟩
  rw [Tree.page?, hget, Option.map_some, hproperties]

theorem Node.fits_of_columns {node : Node} (hroot : node.kind ≠ .root)
    (hcolumns : ∀ row, node.properties = .columns row → node.Fits) : node.Fits := by
  cases hp : node.properties with
  | root page =>
    rw [Node.kind, hp] at hroot
    exact absurd rfl hroot
  | columns row => exact hcolumns row hp
  | _ => simp [Node.Fits, hp]

namespace Tree

variable {tree : Tree} {id : NodeId} {node : Node}

/-! ## What each check says -/

theorem listViolations_eq_nil_iff :
    listViolations id node = [] ↔ node.children.isSome = node.kind.isContainer := by
  unfold listViolations
  cases node.children <;> cases node.kind.isContainer <;> simp

theorem childViolations_eq_nil_iff {childId : NodeId} :
    tree.childViolations id node childId = [] ↔
      ∃ child, tree.nodes[childId]? = some child ∧ child.parent = some id ∧
        node.kind.accepts child.kind = true := by
  unfold childViolations get?
  cases tree.nodes[childId]? with
  | none => simp
  | some child => simp [List.append_eq_nil_iff]

theorem columnViolations_eq_nil_iff :
    columnViolations id node = [] ↔
      ∀ row, node.properties = .columns row → node.Fits := by
  unfold columnViolations Node.Fits
  cases node.properties <;> simp [List.append_eq_nil_iff, and_assoc]

theorem rootViolations_eq_nil_iff :
    rootViolations node = [] ↔ node.parent = none ∧ node.kind = .root ∧ node.Fits := by
  unfold rootViolations Node.Fits Node.kind
  cases node.parent <;> cases node.properties <;>
    simp [Properties.kind]

theorem placeViolations_eq_nil_iff :
    tree.placeViolations id node = [] ↔
      (∃ parentId parent, node.parent = some parentId ∧ tree.nodes[parentId]? = some parent ∧
        parent.childList.count id = 1) ∧ tree.isAncestor id id = false := by
  unfold placeViolations get?
  rw [List.append_eq_nil_iff]
  refine and_congr ?_ (by simp)
  cases node.parent with
  | none => simp
  | some parentId =>
    cases hget : tree.nodes[parentId]? with
    | none => simp [hget]
    | some parent => simp [hget]

theorem nodeViolations_eq_nil_iff :
    tree.nodeViolations id node = [] ↔
      listViolations id node = [] ∧
      (∀ childId ∈ node.childList, tree.childViolations id node childId = []) ∧
      columnViolations id node = [] ∧ (id ≠ rootId → tree.placeViolations id node = []) := by
  unfold nodeViolations
  by_cases h : id = rootId <;> simp [List.append_eq_nil_iff, h]

theorem violations_eq_nil_iff :
    tree.violations = [] ↔
      ∃ root, tree.nodes[rootId]? = some root ∧ rootViolations root = [] ∧
        ∀ id node, tree.nodes[id]? = some node → tree.nodeViolations id node = [] := by
  unfold violations get?
  cases tree.nodes[rootId]? with
  | none => simp
  | some root => simp [List.append_eq_nil_iff]

/-! ## The whole list -/

/-- Without violations the nodes hang from the root. -/
theorem forest_of_violations_eq_nil (h : tree.violations = []) :
    Forest tree.nodes [rootId] := by
  obtain ⟨root, hroot, hrootOk, hnodes⟩ := violations_eq_nil_iff.1 h
  obtain ⟨hparent, hkind, -⟩ := rootViolations_eq_nil_iff.1 hrootOk
  have hchild : ∀ {id childId : NodeId} {node : Node}, tree.nodes[id]? = some node →
      childId ∈ node.childList →
      ∃ child, tree.nodes[childId]? = some child ∧ child.parent = some id ∧
        node.kind.accepts child.kind = true := by
    intro id childId node hget hmem
    obtain ⟨-, hchildren, -⟩ := nodeViolations_eq_nil_iff.1 (hnodes id node hget)
    exact childViolations_eq_nil_iff.1 (hchildren childId hmem)
  have hplace : ∀ {id : NodeId} {node : Node}, tree.nodes[id]? = some node → id ≠ rootId →
      tree.placeViolations id node = [] := by
    intro id node hget hne
    exact (nodeViolations_eq_nil_iff.1 (hnodes id node hget)).2.2.2 hne
  refine ⟨?_, hchild, ?_, ?_, ?_⟩
  · intro id node hget
    exact listViolations_eq_nil_iff.1 (nodeViolations_eq_nil_iff.1 (hnodes id node hget)).1
  · -- Nothing holds a node of the root's kind.
    intro id top node hget htop hmem
    rw [List.mem_singleton] at htop
    obtain ⟨child, hget', -, haccepts⟩ := hchild hget hmem
    rw [htop, hroot] at hget'
    cases hget'
    rw [hkind, Kind.accepts_root] at haccepts
    cases haccepts
  · intro id node hget htop
    rw [List.mem_singleton] at htop
    exact (placeViolations_eq_nil_iff.1 (hplace hget htop)).1
  · -- An id on a circle names a parent, so it is not the root, and its place was checked.
    refine wellFounded_of_irreflexive fun id habove => ?_
    obtain ⟨_, _, node, hget, hnames⟩ := Relation.TransGen.tail'_iff.1 habove
    by_cases heq : id = rootId
    · rw [heq, hroot] at hget
      cases hget
      rw [hparent] at hnames
      cases hnames
    · have hcycle := (placeViolations_eq_nil_iff.1 (hplace hget heq)).2
      rw [isAncestor_iff.2 habove] at hcycle
      cases hcycle

/-- A tree has no violations just if it is sound. -/
theorem violations_eq_nil_iff_sound : tree.violations = [] ↔ tree.Sound := by
  constructor
  · intro h
    have hforest := forest_of_violations_eq_nil h
    obtain ⟨root, hroot, hrootOk, hnodes⟩ := violations_eq_nil_iff.1 h
    obtain ⟨hparent, hkind, hfits⟩ := rootViolations_eq_nil_iff.1 hrootOk
    refine ⟨⟨root, hroot, hparent, hkind⟩, hforest, fun {id node} hget _ => ?_⟩
    obtain ⟨-, -, hcolumns, -⟩ := nodeViolations_eq_nil_iff.1 (hnodes id node hget)
    by_cases heq : id = rootId
    · rw [heq, hroot] at hget
      cases hget
      exact hfits
    · -- Only the root and the rows have something to fit.
      exact Node.fits_of_columns (hforest.kind_ne_root hget heq)
        (columnViolations_eq_nil_iff.1 hcolumns)
  · rintro ⟨⟨root, hroot, hparent, hkind⟩, hforest, hfits⟩
    refine violations_eq_nil_iff.2 ⟨root, hroot, ?_, fun id node hget => ?_⟩
    · exact rootViolations_eq_nil_iff.2 ⟨hparent, hkind, hfits hroot (List.not_mem_nil)⟩
    · refine nodeViolations_eq_nil_iff.2 ⟨?_, ?_, ?_, ?_⟩
      · exact listViolations_eq_nil_iff.2 (hforest.container hget)
      · exact fun childId hmem => childViolations_eq_nil_iff.2 (hforest.child hget hmem)
      · exact columnViolations_eq_nil_iff.2 fun _ _ => hfits hget List.not_mem_nil
      · intro hne
        refine placeViolations_eq_nil_iff.2 ⟨hforest.placed hget (by simpa using hne), ?_⟩
        rw [← Bool.not_eq_true, isAncestor_iff]
        exact not_transGen_self hforest.wellFounded id

end Tree

end MailTemplate
