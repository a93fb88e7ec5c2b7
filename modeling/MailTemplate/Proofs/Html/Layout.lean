import MailTemplate.Proofs.Html.Nested
import MailTemplate.Proofs.Html.Sizes
import MailTemplate.Proofs.Html.Widths

/-!
# Layout

The widths that rendering hands down a tree, from the width of the whole content to each component.

* `Tree.fragment_succ` takes a fragment apart into what is the node's own and what its children are
  rendered as, each in the width of `Tree.childWidths`.
* `Tree.slots` lists the components of a fragment with their widths, and `Tree.layout` those of a
  document.
* `Tree.map_id_layout` says that these are the components that are shown.
* `Tree.ExactWidth` is the width in integers, down the path from the root.
* `Tree.layout_exact` puts together what a document without violations is laid out as.
-/

namespace MailTemplate

open Html

/-- A component with the width in which it is rendered. -/
structure Slot where
  /-- The id of the component. -/
  id : NodeId
  /-- What it records. -/
  properties : Properties
  /-- The width available to it. -/
  width : UInt32

/-- The width that a document says of a component: that of the cell of a column, and that at which
an image shows. -/
def Slot.written (slot : Slot) : Option UInt32 :=
  match slot.properties with
  | .image image => some (image.shownWidth slot.width)
  | .column _ => some slot.width
  | _ => none

/-- The width of each of the children of a node, from the width of the node. -/
def Node.exactChildWidth (node : Node) (available : ℤ) : ℤ :=
  match node.properties with
  | .column c => c.padding.exactInner available
  | .columns r => r.exactColumnWidth available node.childList.length
  | _ => available

/-- The root and the columns hold neither roots nor columns, and a row holds nothing else. -/
theorem Kind.alternate_of_accepts {kind child : Kind} (h : kind.accepts child = true) :
    (kind = .root ∨ kind = .column) ↔ ¬(child = .root ∨ child = .column) := by
  cases kind <;> cases child <;> simp_all [Kind.accepts]

namespace Tree

/-- The children that a node is rendered with, and the width handed to each. -/
def childWidths (tree : Tree) (node : Node) (available : UInt32) : List (NodeId × UInt32) :=
  match node.properties with
  | .root _ => node.childList.map (·, available)
  | .column c => node.childList.map (·, innerWidth available c.padding)
  | .columns r =>
    let columns := tree.columnsAmong node.childList
    columns.map fun (id, _) => (id, r.columnWidth available columns.length)
  | _ => []

/-- The markup of a node around that of its children. -/
def frame (tree : Tree) (node : Node) (available : UInt32) (contents : List (List Markup)) :
    List Markup :=
  match node.properties with
  | .root _ | .column _ => contents.flatten
  | .columns r =>
    let columns := tree.columnsAmong node.childList
    r.markup (r.columnWidth available columns.length) ((columns.map Prod.snd).zip contents)
  | .text p => p.markup
  | .heading h => h.markup
  | .button b => b.markup
  | .image i => i.markup available
  | .divider d => d.markup
  | .spacer s => s.markup

/-- The components of a fragment, each before its children, with the widths handed to them. -/
def slots (tree : Tree) : (levels : Nat) → NodeId → (available : UInt32) → List Slot
  | 0, _, _ => []
  | levels + 1, id, available =>
    match tree.get? id with
    | none => []
    | some node =>
      ⟨id, node.properties, available⟩ ::
        (tree.childWidths node available).flatMap fun handed =>
          tree.slots levels handed.1 handed.2

/-- The components of the document, the root among them. -/
def layout (tree : Tree) : List Slot :=
  tree.slots (maxNesting + 1) rootId (tree.page?.getD {}).contentWidth

/-- The width of a component by exact integers: that of the content for the root, and for any other
what comes of the width of the node that lists it. -/
inductive ExactWidth (tree : Tree) : NodeId → ℤ → Prop
  | root {page : Page} (page_eq : tree.page? = some page) :
    ExactWidth tree rootId page.exactContentWidth
  | child {id child : NodeId} {node : Node} {width : ℤ} (above : ExactWidth tree id width)
    (get : tree.get? id = some node) (listed : child ∈ node.childList) :
    ExactWidth tree child (node.exactChildWidth width)

variable {tree : Tree} {id child : NodeId} {node : Node} {levels : Nat} {available width : UInt32}

/-! ## A fragment and its children -/

theorem mem_columnsAmong {children : List NodeId} {column : Column}
    (h : (id, column) ∈ tree.columnsAmong children) :
    id ∈ children ∧ (tree.get? id).map Node.properties = some (.column column) := by
  obtain ⟨child, hchild, hcolumn⟩ := List.mem_filterMap.1 h
  split at hcolumn
  case h_1 record hget =>
    cases hcolumn
    exact ⟨hchild, hget⟩
  case h_2 => cases hcolumn

/-- A fragment is the markup of its node around the fragments of the children, each in the width
handed to it. -/
theorem fragment_succ (levels : Nat) (hget : tree.get? id = some node) (available : UInt32) :
    tree.fragment (levels + 1) id available =
      tree.frame node available ((tree.childWidths node available).map fun handed =>
        tree.fragment levels handed.1 handed.2) := by
  rw [fragment, hget]
  dsimp only
  unfold frame childWidths
  cases hproperties : node.properties with
  | root page => rw [List.map_map, List.flatMap_def]; rfl
  | column c => rw [List.map_map, List.flatMap_def]; rfl
  | columns r =>
    dsimp only
    rw [List.map_map, List.zip_map']
    refine congrArg (r.markup _) (List.map_congr_left fun column hmem => ?_)
    obtain ⟨child, record⟩ := column
    -- The row makes the content of its columns itself, as their fragments are made.
    obtain ⟨n, hn, hrecord⟩ := Option.map_eq_some_iff.1 (mem_columnsAmong hmem).2
    cases levels with
    | zero => rfl
    | succ levels => simp [fragment, hn, hrecord, childrenOf]
  | _ => rfl

theorem mem_childWidths (h : (child, width) ∈ tree.childWidths node available) :
    child ∈ node.childList ∧ width ≤ available := by
  unfold childWidths at h
  split at h
  · obtain ⟨_, hchild, heq⟩ := List.mem_map.1 h
    cases heq
    exact ⟨hchild, UInt32.le_refl _⟩
  · obtain ⟨_, hchild, heq⟩ := List.mem_map.1 h
    cases heq
    exact ⟨hchild, innerWidth_le _ _⟩
  · obtain ⟨⟨_, record⟩, hcolumn, heq⟩ := List.mem_map.1 h
    cases heq
    exact ⟨(mem_columnsAmong hcolumn).1, Columns.columnWidth_le _ _ _⟩
  · cases h

/-! ## Sound trees -/

/-- In a sound tree the children of a row are columns. -/
theorem exists_column_of_mem (hsound : SoundBut tree.nodes [] []) (hget : tree.get? id = some node)
    (hrow : node.kind = .columns) (hmem : child ∈ node.childList) :
    ∃ column, (tree.get? child).map Node.properties = some (.column column) := by
  obtain ⟨below, hbelow, -, haccepts⟩ := hsound.forest.child hget hmem
  obtain ⟨column, hcolumn⟩ :=
    Properties.kind_eq_column ((Kind.accepts_column_iff haccepts).1 hrow)
  exact ⟨column, (congrArg (Option.map Node.properties) hbelow).trans (congrArg some hcolumn)⟩

/-- In a sound tree a node names the one that lists it. -/
theorem parentOf_of_mem (hsound : SoundBut tree.nodes [] []) (hget : tree.get? id = some node)
    (hmem : child ∈ node.childList) : tree.parentOf child = some id := by
  obtain ⟨below, hbelow, hnames, -⟩ := hsound.forest.child hget hmem
  exact parentOf_eq_some_iff.2 ⟨below, hbelow, hnames⟩

theorem map_fst_columnsAmong_of_get (hsound : SoundBut tree.nodes [] [])
    (hget : tree.get? id = some node) (hrow : node.kind = .columns) :
    (tree.columnsAmong node.childList).map Prod.fst = node.childList :=
  map_fst_columnsAmong fun _ hchild => exists_column_of_mem hsound hget hrow hchild

/-- The columns of a row in a sound tree are few, so their number does not leave its range. -/
theorem natCast_columnWidth_of_get (hsound : SoundBut tree.nodes [] [])
    (hget : tree.get? id = some node) {row : Columns} (hrow : node.properties = .columns row)
    (available : UInt32) :
    ((row.columnWidth available (tree.columnsAmong node.childList).length).toNat : ℤ) =
      row.exactColumnWidth available.toNat node.childList.length := by
  have hkind : node.kind = .columns := congrArg Properties.kind hrow
  have hfits : node.Fits := hsound.fits hget List.not_mem_nil
  obtain ⟨hmin, hmax⟩ := hfits.length_bounds hkind
  rw [← List.length_map Prod.fst, map_fst_columnsAmong_of_get hsound hget hkind]
  exact row.natCast_columnWidth available (hmin.trans_lt' (by decide)) (hmax.trans_lt (by decide))

/-- The width handed to a child is the exact one. -/
theorem natCast_childWidth (hsound : SoundBut tree.nodes [] []) (hget : tree.get? id = some node)
    (h : (child, width) ∈ tree.childWidths node available) :
    (width.toNat : ℤ) = node.exactChildWidth available.toNat := by
  unfold childWidths at h
  unfold Node.exactChildWidth
  split at h
  case h_1 page hproperties =>
    obtain ⟨_, -, heq⟩ := List.mem_map.1 h
    cases heq
    rw [hproperties]
  case h_2 column hproperties =>
    obtain ⟨_, -, heq⟩ := List.mem_map.1 h
    cases heq
    rw [hproperties]
    exact natCast_innerWidth available column.padding
  case h_3 row hproperties =>
    obtain ⟨_, -, heq⟩ := List.mem_map.1 h
    cases heq
    rw [hproperties]
    exact natCast_columnWidth_of_get hsound hget hproperties available
  case h_4 => cases h

/-- The levels that are left where a node is rendered: an odd number for the root and for columns,
an even one for all others. -/
def Alternates (tree : Tree) (levels : Nat) (id : NodeId) : Prop :=
  ∀ node, tree.get? id = some node →
    (levels % 2 = 1 ↔ node.kind = .root ∨ node.kind = .column)

theorem Alternates.of_mem_childList (h : tree.Alternates (levels + 1) id)
    (hsound : SoundBut tree.nodes [] []) (hget : tree.get? id = some node)
    (hmem : child ∈ node.childList) : tree.Alternates levels child := by
  intro below hbelow
  obtain ⟨below', hbelow', -, haccepts⟩ := hsound.forest.child hget hmem
  cases hbelow.symm.trans hbelow'
  rw [← not_iff_not, ← Kind.alternate_of_accepts haccepts, ← h node hget]
  omega

/-- The path to a node is the only one, so there is one exact width. -/
theorem ExactWidth.unique (hsound : SoundBut tree.nodes [] []) {w w' : ℤ}
    (h : tree.ExactWidth id w) (h' : tree.ExactWidth id w') : w = w' := by
  induction h generalizing w' with
  | root page_eq =>
    generalize hid : rootId = id at h'
    cases h' with
    | root page_eq' => rw [Option.some.inj (page_eq.symm.trans page_eq')]
    | child above get listed =>
      -- No node lists the root.
      exact absurd (hid ▸ listed) (hsound.forest.unlisted get List.mem_cons_self)
  | child above get listed ih =>
    cases h' with
    | root page_eq =>
      exact absurd listed (hsound.forest.unlisted get List.mem_cons_self)
    | child above' get' listed' =>
      -- The child names both of the nodes that list it as its parent.
      cases (parentOf_of_mem hsound get listed).symm.trans (parentOf_of_mem hsound get' listed')
      cases get.symm.trans get'
      rw [ih above']

/-! ## Slots -/

theorem slots_succ (levels : Nat) (hget : tree.get? id = some node) (available : UInt32) :
    tree.slots (levels + 1) id available =
      ⟨id, node.properties, available⟩ :: (tree.childWidths node available).flatMap
        fun handed => tree.slots levels handed.1 handed.2 := by
  rw [slots, hget]

/-- What holds where a node is rendered as a part of the document, with some levels left and in the
width handed to it. -/
structure Laid (tree : Tree) (page : Page) (levels : Nat) (id : NodeId) (width : UInt32) :
    Prop where
  /-- Its components are among those of the document. -/
  slots : tree.slots levels id width ⊆ tree.layout
  alternates : tree.Alternates levels id
  exact : tree.ExactWidth id width.toNat
  content : width ≤ page.contentWidth
  /-- Its parent is there as well, and is as wide at least. -/
  above : ∀ parent, tree.parentOf id = some parent →
    ∃ slot ∈ tree.layout, slot.id = parent ∧ width ≤ slot.width

variable {page : Page} {slot : Slot}

theorem laid_root (hsound : SoundBut tree.nodes [] []) (hpage : tree.page? = some page) :
    tree.Laid page (maxNesting + 1) rootId page.contentWidth := by
  obtain ⟨root, hroot, hparent, hkind⟩ := hsound.root
  refine ⟨?_, ?_, ?_, UInt32.le_refl _, ?_⟩
  · rw [layout, hpage]
    exact List.Subset.refl _
  · intro node hget
    cases hget.symm.trans hroot
    rw [hkind]
    decide
  · rw [Page.natCast_contentWidth]
    exact .root hpage
  · intro parent hnames
    obtain ⟨node, hget, hnames⟩ := parentOf_eq_some_iff.1 hnames
    cases hget.symm.trans hroot
    rw [hparent] at hnames
    cases hnames

/-- What a node hands to a child is laid out as the node itself is. -/
theorem Laid.of_mem_childWidths (h : tree.Laid page (levels + 1) id available)
    (hsound : SoundBut tree.nodes [] []) (hget : tree.get? id = some node)
    (hchild : (child, width) ∈ tree.childWidths node available) :
    tree.Laid page levels child width := by
  obtain ⟨hmem, hle⟩ := mem_childWidths hchild
  -- The node comes first among its components, and those of the child are further on.
  have hslots := h.slots
  rw [slots_succ levels hget, List.cons_subset] at hslots
  refine ⟨?_, h.alternates.of_mem_childList hsound hget hmem, ?_, UInt32.le_trans hle h.content, ?_⟩
  · exact fun slot hslot => hslots.2 (List.mem_flatMap.2 ⟨_, hchild, hslot⟩)
  · rw [natCast_childWidth hsound hget hchild]
    exact .child h.exact hget hmem
  · intro parent hnames
    cases (parentOf_of_mem hsound hget hmem).symm.trans hnames
    exact ⟨_, hslots.1, rfl, hle⟩

/-- All components of what is laid out are laid out themselves. -/
theorem Laid.of_mem_slots (h : tree.Laid page levels id available)
    (hsound : SoundBut tree.nodes [] []) (hslot : slot ∈ tree.slots levels id available) :
    ∃ node left, tree.get? slot.id = some node ∧ slot.properties = node.properties ∧
      tree.Laid page (left + 1) slot.id slot.width := by
  induction levels generalizing id available with
  | zero => cases hslot
  | succ levels ih =>
    cases hget : tree.get? id with
    | none =>
      rw [Tree.slots, hget] at hslot
      cases hslot
    | some node =>
      rw [slots_succ levels hget, List.mem_cons, List.mem_flatMap] at hslot
      rcases hslot with rfl | ⟨⟨child, width⟩, hchild, hslot⟩
      · exact ⟨node, levels, hget, rfl, h⟩
      · exact ih (h.of_mem_childWidths hsound hget hchild) hslot

/-! ## Which components are laid out -/

theorem map_fst_childWidths (hsound : SoundBut tree.nodes [] []) (hget : tree.get? id = some node)
    (available : UInt32) : (tree.childWidths node available).map Prod.fst = node.childList := by
  -- What is not a container accepts no child.
  have hleaf : node.kind.isContainer = false → [] = node.childList := by
    intro hleaf
    refine (List.eq_nil_iff_forall_not_mem.2 fun child hmem => ?_).symm
    obtain ⟨_, -, -, haccepts⟩ := hsound.forest.child hget hmem
    rw [Kind.isContainer_of_accepts haccepts] at hleaf
    cases hleaf
  have hrow := map_fst_columnsAmong_of_get hsound hget
  unfold childWidths
  unfold Node.kind at hleaf hrow
  cases hproperties : node.properties with
  | columns r => simpa [Function.comp_def] using hrow (congrArg Properties.kind hproperties)
  | root page => simp [Function.comp_def]
  | column c => simp [Function.comp_def]
  | _ => exact hleaf (by rw [hproperties]; rfl)

/-- What is put together from the children of a node, whatever their widths, is put together from
the outlines that they unfold to. -/
theorem flatMap_childWidths {held : List Outline} {f : NodeId × UInt32 → List NodeId}
    {g : Outline → List NodeId} (hsound : SoundBut tree.nodes [] [])
    (hget : tree.get? id = some node) (children : held.map Outline.id = node.childList)
    (h : ∀ o ∈ held, ∀ width, f (o.id, width) = g o) :
    (tree.childWidths node available).flatMap f = held.flatMap g := by
  have hsame : ∀ handed ∈ tree.childWidths node available, f handed = f (handed.1, 0) := by
    intro handed hmem
    have hlisted : handed.1 ∈ held.map Outline.id := children ▸ (mem_childWidths hmem).1
    obtain ⟨o, ho, hid⟩ := List.mem_map.1 hlisted
    rw [← hid, h o ho 0, ← h o ho handed.2, hid]
  calc (tree.childWidths node available).flatMap f
      = ((tree.childWidths node available).map Prod.fst).flatMap fun child => f (child, 0) := by
        rw [List.flatMap_congr hsame, List.flatMap_map]
    _ = held.flatMap g := by
        rw [map_fst_childWidths hsound hget, ← children, List.flatMap_map]
        exact List.flatMap_congr fun o ho => h o ho 0

/-- The levels that are left for a component of a kind with some rows around it. -/
def levelsFor (rows : Nat) (kind : Kind) : Nat :=
  if kind = .root ∨ kind = .column then levelsLeft 0 rows + 1 else levelsLeft 0 rows

/-- A component that is shown takes a level. What is left is the levels for the children that are
shown, and nothing if there are others. -/
theorem exists_levelsFor {rows : Nat} {kind : Kind} (h : kind.isShown rows = true) :
    ∃ left, levelsFor rows kind = left + 1 ∧ ∀ child, kind.accepts child = true →
      if child.isShown (kind.rowsInside rows) then
        levelsFor (kind.rowsInside rows) child = left
      else left = 0 := by
  refine ⟨levelsFor rows kind - 1, ?_, fun child haccepts => ?_⟩
  · unfold Kind.isShown at h
    unfold levelsFor levelsLeft maxNesting
    unfold maxRows at h
    grind
  · have halternate := Kind.alternate_of_accepts haccepts
    have hcolumn := Kind.accepts_column_iff haccepts
    have hroot : child ≠ .root := by
      rintro rfl
      rw [Kind.accepts_root] at haccepts
      cases haccepts
    unfold Kind.isShown at *
    unfold Kind.rowsInside levelsFor levelsLeft maxNesting
    unfold maxRows at *
    grind

/-- The components that are laid out are those that are shown, in their order. -/
theorem map_id_slots {outline : Outline} {rows : Nat} (h : outline.Lawful)
    (hsound : SoundBut tree.nodes [] []) (hunfolds : Unfolds tree.nodes outline)
    (hshown : outline.kind.isShown rows = true) (available : UInt32) :
    (tree.slots (levelsFor rows outline.kind) outline.id available).map Slot.id =
      ((outline.seats rows).filter Outline.Seat.isShown).map Outline.Seat.id := by
  induction h generalizing rows available with
  | @node id properties held accepts columns lawful ih =>
    change properties.kind.isShown rows = true at hshown
    obtain ⟨left, hlevels, hbelow⟩ := exists_levelsFor hshown
    obtain @⟨_, node, _, get, children, below⟩ := hunfolds
    -- A child that is shown has the levels of its own, and one that is not has none.
    have hchild : ∀ o ∈ held, ∀ width, (tree.slots left o.id width).map Slot.id =
        ((o.seats (node.properties.kind.rowsInside rows)).filter Outline.Seat.isShown).map
          Outline.Seat.id := by
      intro o ho width
      have hleft := hbelow o.kind (accepts o ho)
      by_cases hself : o.kind.isShown (node.properties.kind.rowsInside rows) = true
      · rw [if_pos hself] at hleft
        rw [← hleft]
        exact ih o ho (below o ho) hself width
      · rw [if_neg hself] at hleft
        rw [hleft, List.filter_eq_nil_iff.2 ((lawful o ho).not_isShown hself)]
        rfl
    have hself : Outline.Seat.isShown ⟨id, node.properties.kind, rows⟩ = true := hshown
    change (tree.slots (levelsFor rows node.properties.kind) id available).map Slot.id = _
    rw [hlevels, slots_succ left get, List.map_cons, List.map_flatMap,
      flatMap_childWidths hsound get children hchild, Outline.seats, List.filter_cons,
      if_pos hself, List.map_cons, Outline.heldSeats_eq_flatMap, List.filter_flatMap,
      List.map_flatMap]

theorem map_id_layout {whole : Outline} (hsound : SoundBut tree.nodes [] [])
    (hlawful : whole.Lawful) (hunfolds : Unfolds tree.nodes whole) (hid : whole.id = rootId) :
    tree.layout.map Slot.id =
      ((whole.seats 0).filter Outline.Seat.isShown).map Outline.Seat.id := by
  obtain ⟨root, page, hroot, -, hproperties, -⟩ := hsound.exists_page
  have hwhole : whole.kind = .root := by
    have hrecord := hid ▸ hunfolds.get_properties
    rw [hroot, Option.map_some, hproperties] at hrecord
    rw [Outline.kind, ← Option.some.inj hrecord]
    rfl
  have hshown : whole.kind.isShown 0 = true := by
    rw [hwhole]
    decide
  have hslots := map_id_slots hlawful hsound hunfolds hshown (tree.page?.getD {}).contentWidth
  rw [hwhole, hid] at hslots
  exact hslots

/-! ## What the document says -/

/-- The texts for the widths that are written of some components. -/
def said (slots : List Slot) : List String :=
  (slots.filterMap Slot.written).map wordText

theorem said_cons (slot : Slot) (slots : List Slot) :
    said (slot :: slots) = (slot.written.map wordText).toList ++ said slots := by
  cases hwritten : slot.written <;> simp [said, hwritten]

theorem said_flatMap {α : Type} (xs : List α) (f : α → List Slot) :
    said (xs.flatMap f) = xs.flatMap fun x => said (f x) := by
  simp only [said, List.filterMap_flatMap, List.map_flatMap]

/-- A node says the widths of its columns, or that of its image. -/
theorem contentWidths_frame (tree : Tree) (node : Node) (available : UInt32)
    (contents : NodeId × UInt32 → List Markup) :
    (if node.kind = .column then [wordText available] else []) ++
        contentWidths (tree.frame node available
          ((tree.childWidths node available).map contents)) =
      ((Slot.mk id node.properties available).written.map wordText).toList ++
        (tree.childWidths node available).flatMap fun handed =>
          (if node.kind = .columns then [wordText handed.2] else []) ++
            contentWidths (contents handed) := by
  unfold frame childWidths Slot.written Node.kind
  cases node.properties with
  | columns r =>
    simp [Properties.kind, Columns.contentWidths_markup, List.zip_map', List.flatMap_map]
  | image i => simp [Properties.kind, Image.contentWidths_markup]
  | root page => simp [Properties.kind, contentWidths_flatten, List.flatMap_map]
  | column c => simp [Properties.kind, contentWidths_flatten, List.flatMap_map]
  | text p => simp [Properties.kind, Paragraph.markup]
  | heading h => simp [Properties.kind, Heading.markup]
  | button b => simp [Properties.kind, Button.markup]
  | divider d => simp [Properties.kind, Divider.markup]
  | spacer s => simp [Properties.kind, Spacer.markup]

/-- A fragment says the widths of its components, but for the one of a column itself, which its row
says. -/
theorem said_slots (hsound : SoundBut tree.nodes [] []) (h : tree.Alternates levels id)
    (hget : tree.get? id = some node) (available : UInt32) :
    said (tree.slots levels id available) =
      (if node.kind = .column then [wordText available] else []) ++
        contentWidths (tree.fragment levels id available) := by
  induction levels generalizing id node available with
  | zero =>
    -- There is always a level left for a column, whose width its row says in any case.
    have hkind : node.kind ≠ .column := fun hcolumn =>
      absurd ((h node hget).2 (.inr hcolumn)) (by decide)
    rw [if_neg hkind]
    rfl
  | succ levels ih =>
    rw [slots_succ levels hget, fragment_succ levels hget, contentWidths_frame, said_cons,
      said_flatMap]
    -- Both sides now are what the node says itself, and then what its children say.
    refine congrArg _ (List.flatMap_congr fun handed hchild => ?_)
    have hmem := (mem_childWidths hchild).1
    obtain ⟨below, hbelow, -, haccepts⟩ := hsound.forest.child hget hmem
    rw [ih (h.of_mem_childList hsound hget hmem) hbelow handed.2]
    simp only [Kind.accepts_column_iff haccepts]

end Tree

/-- All columns of a row are laid out, and in one width. -/
structure Tree.RowFilled (tree : Tree) (slot : Slot) (row : Columns) (width : UInt32) : Prop where
  columns : ∀ child ∈ tree.childrenOf slot.id, ∃ column ∈ tree.layout,
    column.id = child ∧ column.width = width
  fills : 0 < width → row.Fills (tree.childrenOf slot.id).length width.toNat
    (row.padding.exactInner slot.width.toNat)

/-- How a document is laid out. -/
structure Tree.LaidOut (tree : Tree) (page : Page) : Prop where
  /-- The components that are laid out are those of the tree without too many rows around them, in
  their order. -/
  shown : ∀ whole : Outline, whole.id = rootId → Unfolds tree.nodes whole →
    tree.layout.map Slot.id = ((whole.seats 0).filter Outline.Seat.isShown).map Outline.Seat.id
  /-- Rendering makes a node around its children, each in the width that is listed for it. -/
  handed : ∀ levels id node available, tree.get? id = some node →
    tree.fragment (levels + 1) id available =
      tree.frame node available ((tree.childWidths node available).map fun handed =>
        tree.fragment levels handed.1 handed.2)
  /-- The widths of cells and images in the document are those of the columns and the images that
  are laid out, in their order. -/
  written : ∀ title,
    tree.compile title = doctype ++ "\n" ++
        write [page.document title (tree.content page.contentWidth), lineFeed] ∧
      (page.document title (tree.content page.contentWidth)).widths =
        (tree.layout.filterMap Slot.written).map wordText
  /-- The width of each component is what the formulas come to along its path. -/
  exact : ∀ slot ∈ tree.layout, ∀ width, tree.ExactWidth slot.id width ↔ width = slot.width.toNat
  /-- No component is wider than the content, or than its parent. -/
  narrower : ∀ slot ∈ tree.layout, slot.width ≤ page.contentWidth ∧
    ∀ parent, tree.parentOf slot.id = some parent →
      ∃ above ∈ tree.layout, above.id = parent ∧ slot.width ≤ above.width
  /-- The columns of a row fill it but for less than a pixel each, if there is any room for them. -/
  rows : ∀ slot ∈ tree.layout, ∀ row, slot.properties = .columns row →
    ∃ width, tree.RowFilled slot row width
  /-- An image that is to fit or asks for no width is written with one that leaves its padding. -/
  images : ∀ slot ∈ tree.layout, ∀ image, slot.properties = .image image →
    (image.fitToContainer = true ∨ image.width = none) → ∃ width, slot.written = some width ∧
      (width.toNat : ℤ) ≤ image.padding.exactInner slot.width.toNat

namespace Tree

variable {tree : Tree} {page : Page} {slot : Slot} {levels : Nat} {node : Node}

theorem widths_content (hsound : SoundBut tree.nodes [] []) (hpage : tree.page? = some page) :
    contentWidths (tree.content page.contentWidth) = said tree.layout := by
  obtain ⟨root, _, hroot, -, hproperties, -⟩ := hsound.exists_page
  have hcontent : tree.fragment (maxNesting + 1) rootId page.contentWidth =
      tree.content page.contentWidth := by
    rw [fragment, hroot, content, childrenOf_eq hroot]
    dsimp only
    rw [hproperties]
  have hkind : root.kind ≠ .column := by
    intro heq
    rw [Node.kind, hproperties] at heq
    cases heq
  rw [layout, hpage, Option.getD_some, said_slots hsound (laid_root hsound hpage).alternates hroot,
    if_neg hkind, hcontent, List.nil_append]

/-- A row that is laid out has a level left for its columns. -/
theorem Laid.exists_rowFilled (h : tree.Laid page (levels + 1) slot.id slot.width)
    (hsound : SoundBut tree.nodes [] []) (hget : tree.get? slot.id = some node) {row : Columns}
    (hrow : node.properties = .columns row) : ∃ width, tree.RowFilled slot row width := by
  have hkind : node.kind = .columns := congrArg Properties.kind hrow
  -- A row comes at an even level, so below the one that it takes is another.
  obtain ⟨left, rfl⟩ : ∃ left, levels = left + 1 := by
    have hodd := h.alternates node hget
    simp only [hkind, reduceCtorEq, or_self, iff_false] at hodd
    exact ⟨levels - 1, by omega⟩
  have hchildren : tree.childrenOf slot.id = node.childList := childrenOf_eq hget
  refine ⟨row.columnWidth slot.width (tree.columnsAmong node.childList).length,
    fun child hchild => ?_, fun hwidth => ?_⟩
  · rw [hchildren] at hchild
    have hcolumn := map_fst_columnsAmong_of_get hsound hget hkind
    obtain ⟨⟨id, record⟩, hmem, rfl⟩ := List.mem_map.1 (hcolumn ▸ hchild)
    obtain ⟨below, hbelow, -⟩ := hsound.forest.child hget hchild
    have hhanded : (id, row.columnWidth slot.width (tree.columnsAmong node.childList).length) ∈
        tree.childWidths node slot.width := by
      rw [childWidths, hrow]
      exact List.mem_map_of_mem hmem
    have hslots := (h.of_mem_childWidths hsound hget hhanded).slots
    rw [slots_succ left hbelow, List.cons_subset] at hslots
    exact ⟨_, hslots.1, rfl, rfl⟩
  · have hexact := natCast_columnWidth_of_get hsound hget hrow slot.width
    have hfits : node.Fits := hsound.fits hget List.not_mem_nil
    have hcount : (0 : ℤ) < node.childList.length :=
      Int.natCast_pos.2 ((hfits.length_bounds hkind).1.trans_lt' (by decide))
    rw [UInt32.lt_iff_toNat_lt, UInt32.toNat_zero, ← Int.natCast_pos, hexact] at hwidth
    rw [hchildren, hexact]
    exact Columns.fills_exactColumnWidth hcount hwidth

/-- In a tree without violations, the widths that words give to the components of the document are
those of the formulas in integers, with which nothing leaves its parent. -/
theorem layout_exact (h : tree.violations = []) :
    ∃ page, tree.page? = some page ∧ tree.LaidOut page := by
  have hsound : SoundBut tree.nodes [] [] := violations_eq_nil_iff_sound.1 h
  obtain ⟨_, page, -, -, -, hpage⟩ := hsound.exists_page
  have hlaid : ∀ slot ∈ tree.layout, ∃ node left, tree.get? slot.id = some node ∧
      slot.properties = node.properties ∧ tree.Laid page (left + 1) slot.id slot.width := by
    intro slot hslot
    rw [layout, hpage] at hslot
    exact (laid_root hsound hpage).of_mem_slots hsound hslot
  refine ⟨page, hpage, ?_, ?_, fun title => ⟨?_, ?_⟩, ?_, ?_, ?_, ?_⟩
  · intro whole hid hunfolds
    obtain ⟨other, hother, hlawful, hunfolds', -⟩ := exists_unfolds h
    obtain rfl := hunfolds.unique hunfolds' (hid.trans hother.symm)
    exact map_id_layout hsound hlawful hunfolds hid
  · exact fun levels id node available hget => fragment_succ levels hget available
  · rw [compile, hpage]
    rfl
  · rw [Page.widths_document, widths_content hsound hpage]
    rfl
  · intro slot hslot width
    obtain ⟨node, left, -, -, hslot⟩ := hlaid slot hslot
    constructor
    · exact fun hwidth => hwidth.unique hsound hslot.exact
    · rintro rfl
      exact hslot.exact
  · intro slot hslot
    obtain ⟨node, left, -, -, hslot⟩ := hlaid slot hslot
    exact ⟨hslot.content, hslot.above⟩
  · intro slot hslot row hrow
    obtain ⟨node, left, hget, hproperties, hslot⟩ := hlaid slot hslot
    exact hslot.exists_rowFilled hsound hget (hproperties ▸ hrow)
  · intro slot hslot image himage hfits
    refine ⟨image.shownWidth slot.width, ?_, ?_⟩
    · rw [Slot.written, himage]
    · rw [← natCast_innerWidth]
      exact Int.ofNat_le.2 (UInt32.le_iff_toNat_le.1 (image.shownWidth_le hfits slot.width))

/-- A row of three columns. The first holds an image with the usual padding, and the last leaves no
room for what it holds, for its padding is the largest word on either side. -/
def crampedRow : Tree :=
  let nodes : List (NodeId × Node) := [
    (rootId, ⟨none, .root {}, some ["row"]⟩),
    ("row", ⟨some rootId, .columns { columns := 3 }, some ["left", "middle", "right"]⟩),
    ("left", ⟨some "row", .column {}, some ["picture"]⟩),
    ("picture", ⟨some "left", .image {}, none⟩),
    ("middle", ⟨some "row", .column {}, some []⟩),
    ("right", ⟨some "row", .column { padding := .uniform 4294967295 }, some ["banner"]⟩),
    ("banner", ⟨some "right", .image {}, none⟩)]
  .ofNodes (.ofList nodes)

/-- The three columns take 578 of the 580 pixels inside the row. -/
theorem layout_exact_crampedRow :
    crampedRow.violations = [] ∧ ∃ page, crampedRow.page? = some page ∧
      (page.document none (crampedRow.content page.contentWidth)).widths =
        ["182", "142", "182", "182", "0"] ∧
      crampedRow.ExactWidth "left" 182 ∧ crampedRow.ExactWidth "banner" 0 := by
  have hviolations : crampedRow.violations = [] := by decide +kernel
  obtain ⟨page, hpage, hlaid⟩ := layout_exact hviolations
  have hexact : ∀ id (width : UInt32),
      (∃ slot ∈ crampedRow.layout, slot.id = id ∧ slot.width = width) →
        crampedRow.ExactWidth id width.toNat := by
    rintro _ _ ⟨slot, hslot, rfl, rfl⟩
    exact (hlaid.exact slot hslot _).2 rfl
  refine ⟨hviolations, page, hpage, ?_, hexact "left" 182 ?_, hexact "banner" 0 ?_⟩
  · rw [(hlaid.written none).2]
    decide +kernel
  · decide +kernel
  · decide +kernel

end Tree

end MailTemplate
