import MailTemplate.Proofs.Html.Nested
import MailTemplate.Proofs.Html.Spelling

/-!
# Text of Outlines

The text of an outline as a recursion over the components that it holds. It is told as stretches,
each of which belongs to one component: a component that holds nothing has a single stretch, a row
and each of its columns one before what they hold and one after it, and the component that a text
is all about, if it is the root or a column, stands only for what it holds.

## Main definitions

* `Outline.stretches`: the stretches of an outline in the width available to it.
* `Written`: a text is written in stretches, and these start with some components, each once.

## Main results

* `Outline.contentChars_markup`: the markup of an outline is written in its stretches.
* `Outline.Lawful.written_shown`: what is shown of an outline is written with each component that is
  shown once and in order, and with no other.
-/

namespace MailTemplate

open Html

/-- A part of a text that belongs to one component. -/
structure Stretch where
  /-- The id of the component. -/
  owner : NodeId
  /-- Whether it is the first of the component. -/
  isStart : Bool
  /-- What is written. -/
  text : String

/-- The text of stretches, one after the other. -/
def joined (stretches : List Stretch) : List Char :=
  stretches.flatMap fun stretch => stretch.text.toList

/-- The components of stretches in the order in which they start. -/
def starts (stretches : List Stretch) : List NodeId :=
  (stretches.filter Stretch.isStart).map Stretch.owner

/-- A text is written in stretches, which start with some components, each once and in order, and
belong to no others. -/
structure Written (text : String) (stretches : List Stretch) (components : List NodeId) : Prop where
  /-- The text is that of the stretches. -/
  toList_eq : text.toList = joined stretches
  /-- Each component starts once. -/
  starts_eq : starts stretches = components
  /-- Each stretch is that of one of the components. -/
  owner_mem : ∀ stretch ∈ stretches, stretch.owner ∈ components

/-- The stretches of the columns of a row, given those of what each column holds. -/
def Columns.stretches (r : Columns) (width : UInt32) :
    List (NodeId × Column × List Stretch) → List Stretch
  | [] => []
  | (id, column, inner) :: rest =>
    let gap := if rest.isEmpty then none else some r.gap
    ⟨id, true, column.start width gap⟩ ::
      (inner ++ ⟨id, false, Column.stop⟩ :: r.stretches width rest)

namespace Outline

mutual

/-- The stretches of a component and all that it holds, in the width available to it. -/
def stretches (available : UInt32) : Outline → List Stretch
  | .node id (.root _) held => ⟨id, true, ""⟩ :: heldStretches available held
  | .node id (.text p) _ => [⟨id, true, p.spelled⟩]
  | .node id (.heading h) _ => [⟨id, true, h.spelled⟩]
  | .node id (.button b) _ => [⟨id, true, b.spelled⟩]
  | .node id (.image i) _ => [⟨id, true, i.spelled available⟩]
  | .node id (.divider d) _ => [⟨id, true, d.spelled⟩]
  | .node id (.spacer s) _ => [⟨id, true, s.spelled⟩]
  | .node id (.column c) held =>
    ⟨id, true, ""⟩ :: heldStretches (innerWidth available c.padding) held
  | .node id (.columns r) held =>
    let width := r.columnWidth available held.length
    ⟨id, true, r.start⟩ :: (r.stretches width (cellStretches width held) ++
      [⟨id, false, Columns.stop⟩])

/-- The stretches of components one after the other. -/
def heldStretches (available : UInt32) : List Outline → List Stretch
  | [] => []
  | o :: rest => o.stretches available ++ heldStretches available rest

/-- The columns among the components of a row, each with the stretches of what it holds. -/
def cellStretches (width : UInt32) : List Outline → List (NodeId × Column × List Stretch)
  | [] => []
  | .node id (.column c) held :: rest =>
    (id, c, heldStretches (innerWidth width c.padding) held) :: cellStretches width rest
  | _ :: rest => cellStretches width rest

end

variable {outline : Outline} {held : List Outline} {rows : Nat}

/-! ## Markup and text -/

theorem joined_append (a b : List Stretch) : joined (a ++ b) = joined a ++ joined b :=
  List.flatMap_append

theorem joined_cons (stretch : Stretch) (rest : List Stretch) :
    joined (stretch :: rest) = stretch.text.toList ++ joined rest :=
  List.flatMap_cons

theorem joined_singleton (stretch : Stretch) : joined [stretch] = stretch.text.toList :=
  List.flatMap_singleton _ stretch

/-- A cell of a row with the markup of its content, and one of the same column with the stretches in
which this is written. -/
def SameCell (cell : Column × List Markup) (other : NodeId × Column × List Stretch) : Prop :=
  cell.1 = other.2.1 ∧ contentChars cell.2 = joined other.2.2

/-- The cells of a row are written one after the other, with the gap after each but the last. -/
theorem flatMap_chars_cells (r : Columns) (width : UInt32) {cells : List (Column × List Markup)}
    {others : List (NodeId × Column × List Stretch)} (h : List.Forall₂ SameCell cells others) :
    (r.cells width cells).flatMap (fun cell => cell.chars ++ ['\n']) =
      joined (r.stretches width others) := by
  induction h with
  | nil => rfl
  | @cons cell other cells others hcell hrest ih =>
    obtain ⟨column, content⟩ := cell
    obtain ⟨id, _, inner⟩ := other
    obtain ⟨rfl, hcontent⟩ := hcell
    rw [Columns.stretches, joined_cons, joined_append, joined_cons, ← ih, ← hcontent]
    -- Whether there is a gap depends on whether this is the last cell.
    cases hrest with
    | nil =>
      rw [Columns.cells.eq_2, List.flatMap_cons, Column.chars_cell]
      simp [Columns.cells]
    | cons hnext hrest =>
      rw [Columns.cells.eq_3 _ _ _ _ _ (by simp), List.flatMap_cons, Column.chars_cell]
      simp

theorem contentChars_contents (h : ∀ o ∈ held, ∀ available,
      contentChars (o.markup available) = joined (o.stretches available)) (available : UInt32) :
    contentChars (contents available held) = joined (heldStretches available held) := by
  induction held with
  | nil => rfl
  | cons o held ih =>
    rw [List.forall_mem_cons] at h
    rw [contents, heldStretches, contentChars_append, joined_append, h.1, ih h.2]

theorem forall₂_cells (h : ∀ o ∈ held, ∀ available,
      contentChars (o.markup available) = joined (o.stretches available)) (width : UInt32) :
    List.Forall₂ SameCell (cells width held) (cellStretches width held) := by
  induction held with
  | nil => exact .nil
  | cons o held ih =>
    rw [List.forall_mem_cons] at h
    obtain ⟨id, properties, inner⟩ := o
    rw [cells]
    cases properties with
    | column c =>
      -- A column stands for what it holds, in its own width.
      have hinner := h.1 width
      rw [stretches, joined_cons] at hinner
      exact .cons ⟨rfl, hinner⟩ (ih h.2)
    | _ => exact ih h.2

/-- The markup of an outline is written in its stretches. -/
theorem contentChars_markup (outline : Outline) (available : UInt32) :
    contentChars (outline.markup available) = joined (outline.stretches available) := by
  induction outline generalizing available with
  | node id properties held ih =>
    cases properties with
    | root page =>
      rw [markup, stretches, joined_cons]
      exact contentChars_contents ih available
    | column c =>
      rw [markup, stretches, joined_cons]
      exact contentChars_contents ih _
    | columns r =>
      rw [markup, stretches, Columns.contentChars_markup, joined_cons, joined_append,
        joined_singleton, flatMap_chars_cells r _ (forall₂_cells ih _)]
    | text p => rw [markup, stretches, joined_singleton, Paragraph.contentChars_markup]
    | heading h => rw [markup, stretches, joined_singleton, Heading.contentChars_markup]
    | button b => rw [markup, stretches, joined_singleton, Button.contentChars_markup]
    | image i => rw [markup, stretches, joined_singleton, Image.contentChars_markup]
    | divider d => rw [markup, stretches, joined_singleton, Divider.contentChars_markup]
    | spacer s => rw [markup, stretches, joined_singleton, Spacer.contentChars_markup]

/-! ## Each component once -/

@[simp]
theorem starts_append (a b : List Stretch) : starts (a ++ b) = starts a ++ starts b := by
  rw [starts, List.filter_append, List.map_append]
  rfl

@[simp]
theorem starts_cons_start (id : NodeId) (text : String) (rest : List Stretch) :
    starts (⟨id, true, text⟩ :: rest) = id :: starts rest := by
  simp [starts]

@[simp]
theorem starts_cons_stop (id : NodeId) (text : String) (rest : List Stretch) :
    starts (⟨id, false, text⟩ :: rest) = starts rest := by
  simp [starts]

theorem starts_heldStretches (h : ∀ o ∈ held, ∀ available, starts (o.stretches available) = o.ids)
    (available : UInt32) : starts (heldStretches available held) = held.flatMap ids := by
  induction held with
  | nil => rfl
  | cons o held ih =>
    rw [List.forall_mem_cons] at h
    rw [heldStretches, starts_append, List.flatMap_cons, h.1, ih h.2]

/-- The stretches of a row of columns start with each of them, and each with what it holds. -/
theorem starts_columns (r : Columns) (hcolumns : ∀ o ∈ held, o.kind = .column)
    (h : ∀ o ∈ held, ∀ available, starts (o.stretches available) = o.ids) (width : UInt32) :
    starts (r.stretches width (cellStretches width held)) = held.flatMap ids := by
  induction held with
  | nil => rfl
  | cons o held ih =>
    rw [List.forall_mem_cons] at h hcolumns
    obtain ⟨id, properties, inner⟩ := o
    obtain ⟨c, hc⟩ := Properties.kind_eq_column hcolumns.1
    obtain rfl : properties = .column c := hc
    rw [cellStretches, Columns.stretches, List.flatMap_cons, ← h.1 width, ← ih hcolumns.2 h.2,
      stretches]
    simp

/-- A component of a kind that holds nothing holds nothing if it is lawful. -/
theorem held_eq_nil {properties : Properties} (hleaf : properties.kind.isContainer = false)
    (accepts : ∀ o ∈ held, properties.kind.accepts o.properties.kind = true) : held = [] := by
  refine List.eq_nil_iff_forall_not_mem.2 fun o ho => ?_
  rw [Kind.isContainer_of_accepts (accepts o ho)] at hleaf
  cases hleaf

/-- The stretches of a lawful outline start with each of its components once, in order. -/
theorem Lawful.starts_stretches (h : outline.Lawful) (available : UInt32) :
    starts (outline.stretches available) = outline.ids := by
  induction h generalizing available with
  | @node id properties held accepts columns lawful ih =>
    rw [ids_node]
    cases properties with
    | root page => rw [stretches, starts_cons_start, starts_heldStretches ih]
    | column c => rw [stretches, starts_cons_start, starts_heldStretches ih]
    | columns r =>
      have hcolumns : ∀ o ∈ held, o.kind = .column := fun o ho =>
        (Kind.accepts_column_iff (accepts o ho)).1 rfl
      rw [stretches, ← starts_columns r hcolumns ih (r.columnWidth available held.length)]
      simp [starts]
    | _ =>
      obtain rfl := held_eq_nil rfl accepts
      rfl

/-- Each stretch belongs to a component with which one of the stretches starts. -/
def Owned (stretches : List Stretch) : Prop :=
  ∀ stretch ∈ stretches, stretch.owner ∈ starts stretches

theorem Owned.append {a b : List Stretch} (ha : Owned a) (hb : Owned b) : Owned (a ++ b) := by
  intro stretch hstretch
  rw [starts_append, List.mem_append]
  exact (List.mem_append.1 hstretch).imp (ha stretch) (hb stretch)

theorem Owned.cons {rest : List Stretch} (h : Owned rest) (id : NodeId) (text : String) :
    Owned (⟨id, true, text⟩ :: rest) := by
  intro stretch hstretch
  rw [starts_cons_start]
  rcases List.mem_cons.1 hstretch with rfl | hrest
  · exact List.mem_cons_self
  · exact List.mem_cons_of_mem _ (h stretch hrest)

theorem Owned.enclosed {inner rest : List Stretch} (hinner : Owned inner) (hrest : Owned rest)
    (id : NodeId) (start stop : String) :
    Owned (⟨id, true, start⟩ :: (inner ++ ⟨id, false, stop⟩ :: rest)) := by
  intro stretch hstretch
  rw [starts_cons_start, starts_append, starts_cons_stop]
  simp only [List.mem_cons, List.mem_append] at hstretch ⊢
  rcases hstretch with rfl | hmem | rfl | hmem
  · exact .inl rfl
  · exact .inr (.inl (hinner stretch hmem))
  · exact .inl rfl
  · exact .inr (.inr (hrest stretch hmem))

theorem owned_nil : Owned [] :=
  fun _ hmem => nomatch hmem

theorem owned_heldStretches (h : ∀ o ∈ held, ∀ available, Owned (o.stretches available))
    (available : UInt32) : Owned (heldStretches available held) := by
  induction held with
  | nil => exact owned_nil
  | cons o held ih =>
    rw [List.forall_mem_cons] at h
    exact (h.1 available).append (ih h.2)

theorem owned_columns (r : Columns)
    (h : ∀ o ∈ held, ∀ available, Owned (heldStretches available o.held)) (width : UInt32) :
    Owned (r.stretches width (cellStretches width held)) := by
  induction held with
  | nil => exact owned_nil
  | cons o held ih =>
    rw [List.forall_mem_cons] at h
    obtain ⟨id, properties, inner⟩ := o
    cases properties with
    | column c =>
      have hinner : Owned (heldStretches (innerWidth width c.padding) inner) := h.1 _
      exact hinner.enclosed (ih h.2) id _ _
    | _ => exact ih h.2

/-- Each stretch of an outline belongs to a component of it that starts. A column is told in two
ways, within its row and alone, so what it holds goes through the induction beside it. -/
theorem owned_stretches (outline : Outline) :
    (∀ available, Owned (outline.stretches available)) ∧
      ∀ available, Owned (heldStretches available outline.held) := by
  induction outline with
  | node id properties held ih =>
    have hheld := owned_heldStretches fun o ho => (ih o ho).1
    refine ⟨fun available => ?_, hheld⟩
    cases properties with
    | root page => exact (hheld available).cons id ""
    | column c => exact (hheld (innerWidth available c.padding)).cons id ""
    | columns r => exact (owned_columns r (fun o ho => (ih o ho).2) _).enclosed owned_nil id _ _
    | _ => simp [stretches, Owned, starts]

/-! ## What is shown -/

theorem exists_of_mem_shownHeld {o : Outline} (h : o ∈ shownHeld rows held) :
    ∃ p ∈ held, o = p.shown rows := by
  induction held with
  | nil => cases h
  | cons p held ih =>
    rw [shownHeld] at h
    split at h
    case isTrue hshown =>
      rcases List.mem_cons.1 h with rfl | h
      · exact ⟨p, List.mem_cons_self, rfl⟩
      · obtain ⟨q, hq, rfl⟩ := ih h
        exact ⟨q, List.mem_cons_of_mem _ hq, rfl⟩
    case isFalse =>
      obtain ⟨q, hq, rfl⟩ := ih h
      exact ⟨q, List.mem_cons_of_mem _ hq, rfl⟩

/-- What is shown of a lawful outline is lawful, for no row loses a column. -/
theorem lawful_shown (h : outline.Lawful) (rows : Nat) : (outline.shown rows).Lawful := by
  induction h generalizing rows with
  | @node id properties held accepts columns lawful ih =>
    rw [shown]
    refine .node (fun o ho => ?_) (fun row hrow => ?_) fun o ho => ?_
    · obtain ⟨p, hp, rfl⟩ := exists_of_mem_shownHeld ho
      rw [properties_shown]
      exact accepts p hp
    · subst hrow
      rw [length_shownHeld fun o ho => (Kind.accepts_column_iff (accepts o ho)).1 rfl]
      exact columns row rfl
    · obtain ⟨p, hp, rfl⟩ := exists_of_mem_shownHeld ho
      exact ih p hp _

theorem map_id_shownHeld (hcolumns : ∀ o ∈ held, o.kind = .column) (rows : Nat) :
    (shownHeld rows held).map id = held.map id := by
  induction held with
  | nil => rfl
  | cons o held ih =>
    rw [List.forall_mem_cons] at hcolumns
    obtain ⟨id, properties, inner⟩ := o
    rw [shownHeld, if_pos (.inr hcolumns.1), List.map_cons, ih hcolumns.2, shown]
    rfl

theorem exists_of_mem_parts_shown {part : Outline} (h : part ∈ (outline.shown rows).parts) :
    ∃ p ∈ outline.parts, ∃ inside, part = p.shown inside := by
  induction outline generalizing rows with
  | node id properties held ih =>
    rw [shown, mem_parts_node] at h
    rcases h with rfl | ⟨o, ho, hpart⟩
    · exact ⟨_, mem_parts_node.2 (.inl rfl), rows, by rw [shown]⟩
    · obtain ⟨q, hq, rfl⟩ := exists_of_mem_shownHeld ho
      obtain ⟨p, hp, inside, rfl⟩ := ih q hq hpart
      exact ⟨p, mem_parts_node.2 (.inr ⟨q, hq, hp⟩), inside, rfl⟩

/-- What is shown of a lawful outline is written with each component that is shown once, in order,
and with no other. -/
theorem Lawful.written_shown (h : outline.Lawful) (hself : outline.kind.isShown rows)
    (available : UInt32) :
    Written (write ((outline.shown rows).markup available))
      ((outline.shown rows).stretches available)
      (((outline.seats rows).filter Seat.isShown).map Seat.id) := by
  have hstarts : starts ((outline.shown rows).stretches available) =
      ((outline.seats rows).filter Seat.isShown).map Seat.id := by
    rw [(lawful_shown h rows).starts_stretches, ← map_id_seats rows, h.seats_shown hself]
  refine ⟨?_, hstarts, ?_⟩
  · rw [write, String.toList_ofList, contentChars_markup]
  · exact hstarts ▸ (owned_stretches _).1 available

/-- The same for what is shown of what the root holds. -/
theorem Lawful.written_shownHeld {id : NodeId} {page : Page}
    (h : (Outline.node id (.root page) held).Lawful) (available : UInt32) :
    Written (write (contents available (shownHeld 0 held)))
      (heldStretches available (shownHeld 0 held))
      (((heldSeats 0 held).filter Seat.isShown).map Seat.id) := by
  have hroot : (Outline.node id (.root page) held).kind.isShown 0 = true := rfl
  have hwhole := h.written_shown hroot available
  rw [shown] at hwhole
  obtain ⟨htext, hstarts, -⟩ := hwhole
  -- The root comes first and writes nothing itself.
  rw [stretches, starts_cons_start, seats, List.filter_cons_of_pos rfl, List.map_cons] at hstarts
  have hrest := (List.cons.inj hstarts).2
  have howned := (owned_stretches (.node id (.root page) (shownHeld 0 held))).2 available
  exact ⟨htext, hrest, hrest ▸ howned⟩

end Outline

end MailTemplate
