import MailTemplate.Proofs.Html.Stretches

/-!
# Rendering Sound Trees

What a tree without violations is rendered as. Both entry points, the whole document and the text
of a single node, come down to the markup of the outline that the tree unfolds to, though they
start with a different number of levels.

* `Tree.rendering_eq_markup` ties the text of each node, and of the document, to the outline, and to
  the stretches in which the components of the outline are written.
* `Tree.compile_eq_renderNode` ties the document to the text of its root.
-/

namespace MailTemplate

open Html Outline

variable {tree : Tree} {outline : Outline}

/-- A node is rendered as the markup of what is shown of its outline. -/
theorem Outline.Lawful.renderNode_eq (h : outline.Lawful) (hunfolds : Unfolds tree.nodes outline)
    (available : UInt32) :
    tree.renderNode outline.id available = write ((outline.shown 0).markup available) := by
  have halone : outline.kind ≠ .root → outline.kind ≠ .column → Renders tree 0 outline :=
    (h.renders hunfolds (Nat.zero_le 1)).1
  have hheld : outline.kind ≠ .columns → RendersHeld tree 1 outline :=
    (h.renders hunfolds (Nat.le_refl 1)).2
  obtain @⟨id, ⟨parent, properties, list⟩, held, get, children, -⟩ := hunfolds
  have hget : tree.get? id = some ⟨parent, properties, list⟩ := get
  apply congrArg write
  -- The root and a column take a level for themselves alone, the others none.
  cases properties with
  | root page =>
    have hcontents := hheld (fun hrow => by cases hrow) 0 available
    rw [maxNesting, Tree.fragment, Outline.id, hget, shown, markup]
    rw [Outline.held, children] at hcontents
    exact hcontents
  | column c =>
    have hcontents := hheld (fun hrow => by cases hrow) 0 (innerWidth available c.padding)
    rw [maxNesting, Tree.fragment, Outline.id, hget, shown, markup]
    rw [Outline.held, children] at hcontents
    exact hcontents
  | _ => exact halone (fun hroot => by cases hroot) (fun hcolumn => by cases hcolumn) 0 available

namespace Tree

/-- The content of the document is the markup of what is shown of what the root holds. -/
theorem content_eq {whole : Outline} (hid : whole.id = rootId) (hlawful : whole.Lawful)
    (hunfolds : Unfolds tree.nodes whole) (hkind : whole.kind = .root) (available : UInt32) :
    tree.content available = contents available (shownHeld 0 whole.held) := by
  have hheld : RendersHeld tree 0 whole :=
    (hlawful.renders hunfolds (Nat.zero_le 1)).2 (hkind ▸ by decide)
  rw [content, ← hid, hunfolds.childrenOf]
  exact hheld 0 available

/-- The outline of a tree without violations has the page of the tree at its top. -/
theorem exists_page_unfolds (h : tree.violations = []) :
    ∃ page held, tree.page? = some page ∧ (Outline.node rootId (.root page) held).Lawful ∧
      Unfolds tree.nodes (.node rootId (.root page) held) ∧
      tree.walk = (Outline.node rootId (.root page) held).ids ∧ tree.walk.Nodup ∧
      ∀ id, id ∈ tree.walk ↔ ∃ node, tree.get? id = some node := by
  obtain ⟨whole, hid, hlawful, hunfolds, hnodup, hmem⟩ := exists_unfolds h
  obtain ⟨root, page, hroot, -, hproperties, hpage⟩ :=
    (violations_eq_nil_iff_sound.1 h).exists_page
  have hwalk := walk_eq_ids hid hunfolds hnodup
  -- The outline has the record of the root at its top.
  have hwhole := hid ▸ hunfolds.get_properties
  rw [hroot, Option.map_some, hproperties] at hwhole
  obtain ⟨id, properties, held⟩ := whole
  obtain rfl : id = rootId := hid
  obtain rfl : Properties.root page = properties := Option.some.inj hwhole
  refine ⟨page, held, hpage, hlawful, hunfolds, hwalk, hwalk ▸ hnodup, fun id => ?_⟩
  rw [hwalk]
  exact hmem id

/-- A row that is shown has all the columns of its node. -/
theorem childrenOf_shown {outline row : Outline} (hlawful : outline.Lawful)
    (hunfolds : Unfolds tree.nodes outline) {rows : Nat} (hrow : row ∈ (outline.shown rows).parts)
    (hkind : row.kind = .columns) : tree.childrenOf row.id = row.held.map Outline.id := by
  obtain ⟨part, hpart, inside, rfl⟩ := exists_of_mem_parts_shown hrow
  have hpartLawful := hlawful.of_mem_parts hpart
  rw [Outline.kind, properties_shown] at hkind
  have hcolumns : ∀ o ∈ part.held, o.kind = .column := by
    obtain ⟨accepts, -, -⟩ := hpartLawful
    exact fun o ho => (Kind.accepts_column_iff (accepts o ho)).1 hkind
  rw [id_shown, held_shown, map_id_shownHeld hcolumns, (hunfolds.of_mem_parts hpart).childrenOf]

/-- A tree without violations unfolds to one outline, in the order of the walk. The document is the
markup of what its top holds between opening and closing, and each node is rendered as the markup
of its part of the outline, once the components inside of too many rows are left out. Either text is
written with each component that is not left out once, in the order of the walk, and with no other,
and a row with all its columns. -/
theorem rendering_eq_markup (h : tree.violations = []) :
    ∃ page held, tree.page? = some page ∧
      Unfolds tree.nodes (.node rootId (.root page) held) ∧
      tree.walk = (Outline.node rootId (.root page) held).ids ∧ tree.walk.Nodup ∧
      (∀ title, ∃ content, tree.compile title = page.opening title ++ content ++ closing ∧
        content = write (contents page.contentWidth (shownHeld 0 held)) ∧
        Written content (heldStretches page.contentWidth (shownHeld 0 held))
          (((heldSeats 0 held).filter Seat.isShown).map Seat.id)) ∧
      ∀ id node, tree.get? id = some node →
        ∃ part ∈ (Outline.node rootId (.root page) held).parts, part.id = id ∧
          (∀ other, other.id = id → Unfolds tree.nodes other → other = part) ∧
          (part.seats 0).map Seat.id <:+: tree.walk ∧
          (part.shown 0).seats 0 = (part.seats 0).filter Seat.isShown ∧
          (∀ row ∈ (part.shown 0).parts, row.kind = .columns →
            tree.childrenOf row.id = row.held.map Outline.id) ∧
          ∀ available,
            tree.renderNode id available = write ((part.shown 0).markup available) ∧
            Written (tree.renderNode id available) ((part.shown 0).stretches available)
              (((part.seats 0).filter Seat.isShown).map Seat.id) := by
  obtain ⟨page, held, hpage, hlawful, hunfolds, hwalk, hnodup, hmem⟩ := exists_page_unfolds h
  refine ⟨page, held, hpage, hunfolds, hwalk, hnodup, fun title => ?_, fun id node hget => ?_⟩
  · refine ⟨_, ?_, rfl, hlawful.written_shownHeld page.contentWidth⟩
    rw [compile_eq, hpage]
    dsimp only [Option.getD_some]
    rw [content_eq rfl hlawful hunfolds rfl]
    rfl
  · obtain ⟨part, hpart, rfl⟩ := List.mem_map.1 (hwalk ▸ (hmem id).2 ⟨node, hget⟩)
    have hpartLawful := hlawful.of_mem_parts hpart
    have hpartUnfolds := hunfolds.of_mem_parts hpart
    refine ⟨part, hpart, rfl, ?_, ?_, ?_, ?_, fun available => ?_⟩
    · exact fun other hid hother => hother.unique hpartUnfolds hid
    · rw [hwalk, map_id_seats]
      exact (infix_parts hpart).map Outline.id
    · exact hpartLawful.seats_shown rfl
    · exact fun row hrow hkind => childrenOf_shown hpartLawful hpartUnfolds hrow hkind
    · have hrender := hpartLawful.renderNode_eq hpartUnfolds available
      exact ⟨hrender, hrender ▸ hpartLawful.written_shown rfl available⟩

/-- A row of two columns, of which the first holds a text. -/
def rowOutline : Outline :=
  .node "columns-1" (.columns {}) [
    .node "column-2" (.column {}) [.node "text-4" (.text {}) []],
    .node "column-3" (.column {}) []]

/-- The tree that holds the row. -/
def oneRow : Tree :=
  let nodes : List (NodeId × Node) := [
    (rootId, ⟨none, .root {}, some ["columns-1"]⟩),
    ("columns-1", ⟨some rootId, .columns {}, some ["column-2", "column-3"]⟩),
    ("column-2", ⟨some "columns-1", .column {}, some ["text-4"]⟩),
    ("column-3", ⟨some "columns-1", .column {}, some []⟩),
    ("text-4", ⟨some "column-2", .text {}, none⟩)]
  .ofNodes (.ofList nodes)

theorem violations_oneRow : oneRow.violations = [] := by
  decide +kernel

theorem unfolds_rowOutline : Unfolds oneRow.nodes rowOutline := by
  have hrow : oneRow.nodes["columns-1"]? =
      some ⟨some rootId, .columns {}, some ["column-2", "column-3"]⟩ := by decide +kernel
  have hfirst : oneRow.nodes["column-2"]? =
      some ⟨some "columns-1", .column {}, some ["text-4"]⟩ := by decide +kernel
  have hsecond : oneRow.nodes["column-3"]? =
      some ⟨some "columns-1", .column {}, some []⟩ := by decide +kernel
  have htext : oneRow.nodes["text-4"]? = some ⟨some "column-2", .text {}, none⟩ := by
    decide +kernel
  have hleaf : Unfolds oneRow.nodes (.node "text-4" (.text {}) []) := .node htext rfl (by simp)
  refine .node hrow rfl ?_
  simp only [List.forall_mem_cons, List.not_mem_nil, false_implies, implies_true, and_true]
  exact ⟨.node hfirst rfl (by simpa using hleaf), .node hsecond rfl (by simp)⟩

/-- The row of the tree is rendered as the markup of its outline, and written with the row, its
first column, the text in it, and its second column. -/
theorem renderNode_oneRow :
    oneRow.violations = [] ∧ (∃ node, oneRow.get? "columns-1" = some node) ∧
      ∀ available, oneRow.renderNode "columns-1" available =
          write (rowOutline.markup available) ∧
        Written (oneRow.renderNode "columns-1" available) (rowOutline.stretches available)
          ["columns-1", "column-2", "text-4", "column-3"] := by
  have hget := unfolds_rowOutline.get_properties
  obtain ⟨node, hget, -⟩ := Option.map_eq_some_iff.1 hget
  obtain ⟨_, _, -, -, -, -, -, hparts⟩ := rendering_eq_markup violations_oneRow
  obtain ⟨part, -, -, hunique, -, -, -, hrender⟩ := hparts _ node hget
  obtain rfl := hunique rowOutline rfl unfolds_rowOutline
  exact ⟨violations_oneRow, ⟨node, hget⟩, hrender⟩

/-- The document of a tree without violations is the text of its root in the width of the page,
between opening and closing. -/
theorem compile_eq_renderNode (h : tree.violations = []) :
    ∃ page, tree.page? = some page ∧ ∀ title,
      tree.compile title =
        page.opening title ++ tree.renderNode rootId page.contentWidth ++ closing := by
  obtain ⟨page, held, hpage, hlawful, hunfolds, -⟩ := exists_page_unfolds h
  refine ⟨page, hpage, fun title => ?_⟩
  have hroot := hlawful.renderNode_eq hunfolds page.contentWidth
  rw [compile_eq, hpage]
  dsimp only [Option.getD_some]
  rw [content_eq rfl hlawful hunfolds rfl]
  exact congrArg (page.opening title ++ · ++ closing) hroot.symm

/-- The document of a tree with a row. -/
theorem compile_oneRow :
    oneRow.violations = [] ∧ ∃ page, oneRow.page? = some page ∧ ∀ title,
      oneRow.compile title =
        page.opening title ++ oneRow.renderNode rootId page.contentWidth ++ closing :=
  ⟨violations_oneRow, compile_eq_renderNode violations_oneRow⟩

end Tree

end MailTemplate
