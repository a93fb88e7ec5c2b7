import MailTemplate.Proofs.Html.Shell
import MailTemplate.Proofs.Tree.Unfolding

/-!
# Markup of Outlines

The markup of an outline, by recursion over the components that it holds: there are no ids to look
up and no levels to count. A tree without violations is rendered as the outline that it unfolds to,
less what stands inside of too many rows.

The levels of a fragment stand for rows because rows and columns alternate: a row takes one level
for itself and one for its columns, and all other components of a sound tree, but for the one that
rendering starts with, take one level and hold nothing.

## Main definitions

* `Outline.markup`: the markup of an outline.
* `Outline.shown`: the outline less what is not shown.
* `Outline.seats`: the components of an outline in order, with the number of rows around each.

## Main results

* `Outline.Lawful.renders`: the fragments of a node are the markup of its outline.
* `Outline.Lawful.seats_shown`: what is shown is told by the rows around it.
-/

namespace MailTemplate

open Html

/-- A component inside of this many rows is not shown, unless it is a column. -/
def maxRows : Nat := 16

namespace Kind

/-- How many rows stand around what a component of a kind holds. -/
def rowsInside (rows : Nat) (kind : Kind) : Nat :=
  if kind = .columns then rows + 1 else rows

/-- Whether a component of a kind is shown inside of some rows: a column also when the last of as
many as there may be is its own. -/
def isShown (rows : Nat) (kind : Kind) : Bool :=
  rows < maxRows || kind == .column && rows == maxRows

variable {rows : Nat} {kind child : Kind}

/-- What is shown is held by what is shown. -/
theorem isShown_of_accepts (haccepts : kind.accepts child = true)
    (h : child.isShown (kind.rowsInside rows) = true) : kind.isShown rows = true := by
  have halternate := accepts_column_iff haccepts
  unfold isShown rowsInside at *
  grind

/-- Of what is held by what is shown, all columns are shown. -/
theorem isShown_iff_of_accepts (haccepts : kind.accepts child = true)
    (h : kind.isShown rows = true) :
    child.isShown (kind.rowsInside rows) = true ↔
      kind.rowsInside rows < maxRows ∨ child = .column := by
  have halternate := accepts_column_iff haccepts
  unfold isShown rowsInside at *
  grind

end Kind

theorem Properties.kind_eq_column {properties : Properties} (h : properties.kind = .column) :
    ∃ c, properties = .column c := by
  cases properties <;> simp_all [Properties.kind]

namespace Outline

/-- The kind of the component. -/
def kind (outline : Outline) : Kind :=
  outline.properties.kind

mutual

/-- The markup of a component and all that it holds, in the width available to it. -/
def markup (available : UInt32) : Outline → List Markup
  | .node _ (.root _) held => contents available held
  | .node _ (.text p) _ => p.markup
  | .node _ (.heading h) _ => h.markup
  | .node _ (.button b) _ => b.markup
  | .node _ (.image i) _ => i.markup available
  | .node _ (.divider d) _ => d.markup
  | .node _ (.spacer s) _ => s.markup
  | .node _ (.column c) held => contents (innerWidth available c.padding) held
  | .node _ (.columns r) held =>
    let width := r.columnWidth available held.length
    r.markup width (cells width held)

/-- The markup of components one after the other. -/
def contents (available : UInt32) : List Outline → List Markup
  | [] => []
  | o :: rest => o.markup available ++ contents available rest

/-- The columns among the components of a row, each with its markup. -/
def cells (width : UInt32) : List Outline → List (Column × List Markup)
  | [] => []
  | o :: rest =>
    match o.properties with
    | .column c => (c, o.markup width) :: cells width rest
    | _ => cells width rest

end

mutual

/-- The component without what too many rows stand around. A row that is shown has all its
columns. -/
def shown (rows : Nat) : Outline → Outline
  | .node id properties held =>
    .node id properties (shownHeld (properties.kind.rowsInside rows) held)

/-- Those of some components that are shown, with some rows around them. -/
def shownHeld (rows : Nat) : List Outline → List Outline
  | [] => []
  | o :: rest =>
    if rows < maxRows ∨ o.kind = .column then o.shown rows :: shownHeld rows rest
    else shownHeld rows rest

end

/-- A component with the number of rows around it. -/
structure Seat where
  /-- The id of the component. -/
  id : NodeId
  /-- Its kind. -/
  kind : Kind
  /-- The number of rows around it. -/
  rows : Nat
deriving DecidableEq

/-- Whether the component is shown. -/
def Seat.isShown (seat : Seat) : Bool :=
  seat.kind.isShown seat.rows

mutual

/-- The component and all that hangs from it, in order, each with the number of rows around it. -/
def seats (rows : Nat) : Outline → List Seat
  | .node id properties held =>
    ⟨id, properties.kind, rows⟩ :: heldSeats (properties.kind.rowsInside rows) held

/-- The same for components one after the other. -/
def heldSeats (rows : Nat) : List Outline → List Seat
  | [] => []
  | o :: rest => o.seats rows ++ heldSeats rows rest

end

variable {outline : Outline} {held : List Outline} {rows : Nat}

theorem heldSeats_eq_flatMap (rows : Nat) (held : List Outline) :
    heldSeats rows held = held.flatMap (seats rows) := by
  induction held with
  | nil => rfl
  | cons o held ih => rw [heldSeats, ih, List.flatMap_cons]

@[simp]
theorem held_shown (rows : Nat) (outline : Outline) :
    (outline.shown rows).held = shownHeld (outline.kind.rowsInside rows) outline.held := by
  cases outline
  rw [shown]
  rfl

@[simp]
theorem properties_shown (rows : Nat) (outline : Outline) :
    (outline.shown rows).properties = outline.properties := by
  cases outline
  rw [shown]
  rfl

@[simp]
theorem id_shown (rows : Nat) (outline : Outline) : (outline.shown rows).id = outline.id := by
  cases outline
  rw [shown]
  rfl

/-- A column is rendered as what it holds. -/
theorem markup_of_column {c : Column} (h : outline.properties = .column c) (available : UInt32) :
    outline.markup available = contents (innerWidth available c.padding) outline.held := by
  obtain ⟨id, properties, held⟩ := outline
  change properties = .column c at h
  rw [h, markup]
  rfl

theorem map_id_seats (rows : Nat) (outline : Outline) :
    (outline.seats rows).map Seat.id = outline.ids := by
  induction outline generalizing rows with
  | node id properties held ih =>
    rw [seats, ids_node, heldSeats_eq_flatMap, List.map_cons, List.map_flatMap]
    exact congrArg (id :: ·) (List.flatMap_congr fun o ho => ih o ho _)

/-! ## What is shown -/

/-- Nothing that a component holds is shown if the component is not. -/
theorem Lawful.not_isShown (h : outline.Lawful) (hself : ¬outline.kind.isShown rows) :
    ∀ seat ∈ outline.seats rows, ¬seat.isShown := by
  induction h generalizing rows with
  | @node id properties held accepts columns lawful ih =>
    intro seat hseat
    rw [seats, List.mem_cons, heldSeats_eq_flatMap, List.mem_flatMap] at hseat
    rcases hseat with rfl | ⟨o, ho, hseat⟩
    · exact hself
    · exact ih o ho (fun hshown => hself (Kind.isShown_of_accepts (accepts o ho) hshown)) seat hseat

theorem heldSeats_shownHeld {kind : Kind} (accepts : ∀ o ∈ held, kind.accepts o.kind = true)
    (lawful : ∀ o ∈ held, o.Lawful) (hself : kind.isShown rows)
    (hseats : ∀ o ∈ held, o.kind.isShown (kind.rowsInside rows) →
      (o.shown (kind.rowsInside rows)).seats (kind.rowsInside rows) =
        (o.seats (kind.rowsInside rows)).filter Seat.isShown) :
    heldSeats (kind.rowsInside rows) (shownHeld (kind.rowsInside rows) held) =
      (heldSeats (kind.rowsInside rows) held).filter Seat.isShown := by
  induction held with
  | nil => rfl
  | cons o held ih =>
    rw [List.forall_mem_cons] at accepts lawful hseats
    have hiff := Kind.isShown_iff_of_accepts accepts.1 hself
    rw [shownHeld, heldSeats, List.filter_append, ← ih accepts.2 lawful.2 hseats.2]
    split
    case isTrue hshown => rw [heldSeats, hseats.1 (hiff.2 hshown)]
    case isFalse hnot =>
      -- What is left out has no seat that is kept, however far below.
      have hnone := lawful.1.not_isShown fun hshown => hnot (hiff.1 hshown)
      rw [List.filter_eq_nil_iff.2 hnone, List.nil_append]

/-- The seats of what is shown are those that tell it. -/
theorem Lawful.seats_shown (h : outline.Lawful) (hself : outline.kind.isShown rows) :
    (outline.shown rows).seats rows = (outline.seats rows).filter Seat.isShown := by
  induction h generalizing rows with
  | @node id properties held accepts columns lawful ih =>
    change properties.kind.isShown rows = true at hself
    rw [shown, seats, seats, List.filter_cons,
      heldSeats_shownHeld accepts lawful hself fun o ho hshown => ih o ho hshown]
    exact (if_pos hself).symm

end Outline

/-! ## From nodes to markup -/

section Render

open Outline hiding id

variable {tree : Tree} {outline : Outline} {held : List Outline} {start rows levels : Nat}

theorem Unfolds.get_properties (h : Unfolds tree.nodes outline) :
    (tree.get? outline.id).map Node.properties = some outline.properties := by
  obtain ⟨get, -, -⟩ := h
  exact congrArg (Option.map Node.properties) get

theorem Unfolds.childrenOf (h : Unfolds tree.nodes outline) :
    tree.childrenOf outline.id = outline.held.map Outline.id := by
  obtain ⟨get, children, -⟩ := h
  exact (Tree.childrenOf_eq get).trans children.symm

/-- The levels that are left inside of some rows, in a rendering that starts some levels down. -/
def levelsLeft (start rows : Nat) : Nat :=
  maxNesting - (start + 2 * rows)

/-- Inside of too many rows no level is left. -/
theorem levelsLeft_eq_zero (h : maxRows ≤ rows) : levelsLeft start rows = 0 := by
  unfold levelsLeft maxNesting
  unfold maxRows at h
  omega

/-- Inside of fewer rows a level is left, and the columns of a row leave two levels less. -/
theorem exists_levelsLeft (hstart : start ≤ 1) (h : rows < maxRows) :
    ∃ levels, levelsLeft start rows = levels + 1 ∧ levelsLeft start (rows + 1) = levels - 1 := by
  refine ⟨levelsLeft start rows - 1, ?_⟩
  unfold levelsLeft maxNesting
  unfold maxRows at h
  omega

/-- A row shows what its columns hold, with one level less for the columns. -/
theorem Tree.fragment_row {id : NodeId} {node : Node} {r : Columns} {width available : UInt32}
    (hget : tree.get? id = some node) (hrow : node.properties = .columns r)
    (hwidth : r.columnWidth available (tree.columnsAmong node.childList).length = width) :
    tree.fragment (levels + 1) id available =
      r.markup width ((tree.columnsAmong node.childList).map fun (id, column) =>
        (column, (tree.childrenOf id).flatMap
          (tree.fragment (levels - 1) · (innerWidth width column.padding)))) := by
  subst hwidth
  rw [fragment, hget]
  dsimp only
  rw [hrow]
  -- Without a level for the columns their content is empty, and so are fragments without levels.
  cases levels with
  | zero =>
    have hnone : ∀ ids : List NodeId, (ids.flatMap fun _ => ([] : List Markup)) = [] :=
      fun ids => List.flatMap_eq_nil_iff.2 fun _ _ => rfl
    simp [fragment, hnone]
  | succ levels => rfl

/-- A node is rendered as the markup of what is shown of its outline, or not at all. -/
def Renders (tree : Tree) (start : Nat) (outline : Outline) : Prop :=
  ∀ rows available, tree.fragment (levelsLeft start rows) outline.id available =
    if rows < maxRows then (outline.shown rows).markup available else []

/-- The children of a node are rendered as the markup of those held that are shown. -/
def RendersHeld (tree : Tree) (start : Nat) (outline : Outline) : Prop :=
  ∀ rows available,
    (outline.held.map Outline.id).flatMap (tree.fragment (levelsLeft start rows) · available) =
      contents available (shownHeld rows outline.held)

/-- Only inside of few enough rows there is anything to render. -/
theorem renders_of_lt (hstart : start ≤ 1)
    (h : ∀ rows levels available, levelsLeft start (rows + 1) = levels - 1 →
      tree.fragment (levels + 1) outline.id available = (outline.shown rows).markup available) :
    Renders tree start outline := by
  intro rows available
  by_cases hrows : rows < maxRows
  · obtain ⟨levels, hlevels, hinside⟩ := exists_levelsLeft hstart hrows
    rw [if_pos hrows, hlevels, h rows levels available hinside]
  · rw [if_neg hrows, levelsLeft_eq_zero (Nat.le_of_not_lt hrows), Tree.fragment]

theorem flatMap_fragment_eq (hheld : ∀ o ∈ held, o.kind ≠ .column ∧ Renders tree start o)
    (rows : Nat) (available : UInt32) :
    (held.map Outline.id).flatMap (tree.fragment (levelsLeft start rows) · available) =
      contents available (shownHeld rows held) := by
  induction held with
  | nil => rfl
  | cons o held ih =>
    rw [List.forall_mem_cons] at hheld
    rw [List.map_cons, List.flatMap_cons, ih hheld.2, hheld.1.2, shownHeld]
    by_cases hrows : rows < maxRows
    · rw [if_pos hrows, if_pos (.inl hrows), contents]
    · -- No level is left, and there are no columns to keep.
      rw [if_neg hrows, if_neg (by simp [hrows, hheld.1.1]), List.nil_append]

theorem columnsAmong_cons {o : Outline} {c : Column} (hunfolds : Unfolds tree.nodes o)
    (hcolumn : o.properties = .column c) (ids : List NodeId) :
    tree.columnsAmong (o.id :: ids) = (o.id, c) :: tree.columnsAmong ids := by
  rw [Tree.columnsAmong, List.filterMap_cons, hunfolds.get_properties, hcolumn]
  rfl

/-- The columns of a row are rendered as the cells of all that it holds. -/
theorem map_columnsAmong (hheld : ∀ o ∈ held, o.kind = .column ∧ Unfolds tree.nodes o ∧
      RendersHeld tree start o) (rows : Nat) (width : UInt32) :
    (tree.columnsAmong (held.map Outline.id)).map (fun (id, column) =>
        (column, (tree.childrenOf id).flatMap
          (tree.fragment (levelsLeft start rows) · (innerWidth width column.padding)))) =
      cells width (shownHeld rows held) := by
  induction held with
  | nil => rfl
  | cons o held ih =>
    rw [List.forall_mem_cons] at hheld
    obtain ⟨⟨hkind, hunfolds, hrenders⟩, hheld⟩ := hheld
    obtain ⟨c, hcolumn⟩ := Properties.kind_eq_column hkind
    rw [List.map_cons, columnsAmong_cons hunfolds hcolumn, List.map_cons, ih hheld, shownHeld,
      if_pos (.inr hkind), cells, properties_shown, hcolumn]
    have hcell : (o.shown rows).markup width =
        contents (innerWidth width c.padding) (shownHeld rows o.held) := by
      rw [markup_of_column ((properties_shown rows o).trans hcolumn), held_shown, hkind]
      rfl
    dsimp only
    rw [hcell, hunfolds.childrenOf, hrenders rows]

/-- If all children are columns, the columns among them are all of them. -/
theorem map_fst_columnsAmong {children : List NodeId}
    (h : ∀ child ∈ children, ∃ c, (tree.get? child).map Node.properties = some (.column c)) :
    (tree.columnsAmong children).map Prod.fst = children := by
  induction children with
  | nil => rfl
  | cons child children ih =>
    rw [List.forall_mem_cons] at h
    obtain ⟨⟨c, hcolumn⟩, hchildren⟩ := h
    rw [Tree.columnsAmong, List.filterMap_cons, hcolumn]
    exact congrArg (child :: ·) (ih hchildren)

/-- All that a row holds are columns, and all of them are shown. -/
theorem length_columnsAmong (hheld : ∀ o ∈ held, o.kind = .column ∧ Unfolds tree.nodes o) :
    (tree.columnsAmong (held.map Outline.id)).length = held.length := by
  rw [← List.length_map Prod.fst, map_fst_columnsAmong, List.length_map]
  intro child hchild
  obtain ⟨o, ho, rfl⟩ := List.mem_map.1 hchild
  obtain ⟨c, hcolumn⟩ := Properties.kind_eq_column (hheld o ho).1
  exact ⟨c, (hheld o ho).2.get_properties.trans (congrArg some hcolumn)⟩

theorem length_shownHeld (hheld : ∀ o ∈ held, o.kind = .column) (rows : Nat) :
    (shownHeld rows held).length = held.length := by
  induction held with
  | nil => rfl
  | cons o held ih =>
    rw [List.forall_mem_cons] at hheld
    rw [shownHeld, if_pos (.inr hheld.1), List.length_cons, ih hheld.2, List.length_cons]

theorem renders_row {id : NodeId} {r : Columns} (hstart : start ≤ 1)
    (hunfolds : Unfolds tree.nodes (.node id (.columns r) held))
    (hheld : ∀ o ∈ held, o.kind = .column ∧ Unfolds tree.nodes o ∧ RendersHeld tree start o) :
    Renders tree start (.node id (.columns r) held) := by
  refine renders_of_lt hstart fun rows levels available hinside => ?_
  have hkinds : ∀ o ∈ held, o.kind = .column := fun o ho => (hheld o ho).1
  -- The outline has the record of its node, which may only then be taken to be that of a row.
  generalize hproperties : Properties.columns r = properties at hunfolds
  obtain @⟨_, node, _, get, children, -⟩ := hunfolds
  have hlength : (tree.columnsAmong node.childList).length = held.length :=
    children ▸ length_columnsAmong fun o ho => ⟨(hheld o ho).1, (hheld o ho).2.1⟩
  rw [Outline.id,
    Tree.fragment_row get hproperties.symm (congrArg (r.columnWidth available) hlength),
    ← hproperties, ← hinside, ← children, map_columnsAmong hheld, shown, markup,
    length_shownHeld hkinds]
  rfl

/-- A component that holds nothing takes one level. -/
theorem renders_leaf (hstart : start ≤ 1) (hunfolds : Unfolds tree.nodes outline)
    (hleaf : outline.kind.isContainer = false) : Renders tree start outline := by
  refine renders_of_lt hstart fun rows levels available _ => ?_
  obtain @⟨id, ⟨parent, properties, list⟩, held, get, -, -⟩ := hunfolds
  change properties.kind.isContainer = false at hleaf
  have hget : tree.get? id = some ⟨parent, properties, list⟩ := get
  rw [Outline.id, Tree.fragment, hget, shown]
  cases properties with
  | root page => cases hleaf
  | column c => cases hleaf
  | columns r => cases hleaf
  | _ => rfl

/-- A component of a sound tree is rendered as the markup of what is shown of it, and what it holds
likewise, from whichever of the two the rendering starts. -/
theorem Outline.Lawful.renders (h : outline.Lawful) (hunfolds : Unfolds tree.nodes outline)
    (hstart : start ≤ 1) :
    (outline.kind ≠ .root → outline.kind ≠ .column → Renders tree start outline) ∧
      (outline.kind ≠ .columns → RendersHeld tree start outline) := by
  -- A row is rendered through what its columns hold, so both go through the induction together.
  induction h with
  | @node id properties held accepts columns lawful ih =>
    have hbelow : ∀ o ∈ held, Unfolds tree.nodes o := by
      obtain ⟨-, -, below⟩ := hunfolds
      exact below
    constructor
    · intro hroot hcolumn
      cases properties with
      | root page => exact absurd rfl hroot
      | column c => exact absurd rfl hcolumn
      | columns r =>
        refine renders_row hstart hunfolds fun o ho => ?_
        have hkind : o.kind = .column := (Kind.accepts_column_iff (accepts o ho)).1 rfl
        exact ⟨hkind, hbelow o ho, (ih o ho (hbelow o ho)).2 (hkind ▸ by decide)⟩
      | _ => exact renders_leaf hstart hunfolds rfl
    · intro hkind rows available
      refine flatMap_fragment_eq (fun o ho => ?_) rows available
      have hcolumn : o.kind ≠ .column := fun heq =>
        hkind ((Kind.accepts_column_iff (accepts o ho)).2 heq)
      have hroot : o.kind ≠ .root := fun heq => by
        have haccepts := accepts o ho
        rw [show o.properties.kind = .root from heq, Kind.accepts_root] at haccepts
        cases haccepts
      exact ⟨hcolumn, (ih o ho (hbelow o ho)).1 hroot hcolumn⟩

end Render

end MailTemplate
