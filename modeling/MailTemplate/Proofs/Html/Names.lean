import MailTemplate.Html.Document
import MailTemplate.Proofs.Html.Markup
import Mathlib.Tactic.IntervalCases

/-!
# Names in Documents

Whatever a tree holds, its markup is well-named: the names of elements and attributes are the
program's own, and all that a tree holds goes into texts and attribute values.

* `Tree.wellNamed_fragment` says it for fragments, and `Page.wellNamed_document` for documents.
-/

namespace MailTemplate

open Html

/-! ## Parts of fragments -/

@[simp]
theorem wellNamed_text (s : String) : (Markup.text s).WellNamed := by
  simp [Markup.WellNamed]

@[simp]
theorem wellNamed_space : Markup.space.WellNamed := by
  simp [Markup.WellNamed]

@[simp]
theorem wellNamed_lineFeed : lineFeed.WellNamed :=
  wellNamed_text "\n"

@[simp]
theorem name_style (declarations : List (String × String)) :
    (Attribute.style declarations).name = "style" := rfl

section Parts

variable {attributes width more : List Attribute} {content cells : List Markup}

theorem wellNamed_cell (hattributes : ∀ a ∈ attributes, isName a.name)
    (hcontent : ∀ m ∈ content, m.WellNamed) : (cell attributes content).WellNamed := by
  rw [cell, Markup.WellNamed]
  exact ⟨by decide, hattributes, hcontent⟩

theorem wellNamed_layoutTable (hwidth : ∀ a ∈ width, isName a.name)
    (hmore : ∀ a ∈ more, isName a.name) (hcells : ∀ m ∈ cells, m.WellNamed) :
    (layoutTable width more cells).WellNamed := by
  have hrow : ∀ m ∈ lineFeed :: cells.flatMap (fun cell => [cell, lineFeed]), m.WellNamed := by
    simp only [List.forall_mem_cons, List.forall_mem_flatMap, wellNamed_lineFeed, true_and]
    exact fun cell hcell => ⟨hcells cell hcell, by simp⟩
  simp only [layoutTable, Markup.WellNamed, List.forall_mem_append, List.forall_mem_cons,
    wellNamed_lineFeed, true_and]
  exact ⟨by decide, ⟨⟨⟨by decide, hwidth⟩, by decide⟩, hmore⟩,
    ⟨by decide, by simp, by simpa using hrow⟩, by simp⟩

/-- A table of one cell around some content. -/
theorem wellNamed_frame (hwidth : ∀ a ∈ width, isName a.name) (hmore : ∀ a ∈ more, isName a.name)
    (hattributes : ∀ a ∈ attributes, isName a.name) (hcontent : ∀ m ∈ content, m.WellNamed) :
    (layoutTable width more [cell attributes content]).WellNamed :=
  wellNamed_layoutTable hwidth hmore (by simpa using wellNamed_cell hattributes hcontent)

theorem wellNamed_block (hattributes : ∀ a ∈ attributes, isName a.name)
    (hcontent : ∀ m ∈ content, m.WellNamed) : ∀ m ∈ block attributes content, m.WellNamed := by
  have htable : (layoutTable fullWidth [] [cell attributes content]).WellNamed :=
    wellNamed_frame (by decide) (by simp) hattributes hcontent
  simpa [block] using htable

/-- A piece on lines of its own. -/
theorem wellNamed_ownLine {m : Markup} (h : m.WellNamed) :
    ∀ piece ∈ [lineFeed, m, lineFeed], piece.WellNamed := by
  simpa using h

end Parts

theorem wellNamed_brokenLines (lines : List String) : ∀ m ∈ brokenLines lines, m.WellNamed := by
  fun_induction brokenLines lines with
  | case1 => simp
  | case2 line => simp
  | case3 line rest hmore ih => simpa +decide [Markup.WellNamed] using ih

theorem isName_headingTag (level : UInt8) : isName ("h" ++ natText (clampLevel level).toNat) := by
  have hrange : 1 ≤ (clampLevel level).toNat ∧ (clampLevel level).toNat ≤ 6 := by
    unfold clampLevel
    split_ifs with hmin hmax
    · decide
    · decide
    · exact ⟨UInt8.le_iff_toNat_le.1 (UInt8.not_lt.1 hmin),
        UInt8.le_iff_toNat_le.1 (UInt8.not_lt.1 hmax)⟩
  obtain ⟨hmin, hmax⟩ := hrange
  generalize (clampLevel level).toNat = n at hmin hmax
  interval_cases n <;> decide +kernel

/-! ## Kinds of fragments -/

theorem wellNamed_multiline (s : String) : ∀ m ∈ multiline s, m.WellNamed :=
  wellNamed_brokenLines (lines s)

theorem Paragraph.wellNamed_markup (p : Paragraph) : ∀ m ∈ p.markup, m.WellNamed :=
  wellNamed_block (by simp +decide) (wellNamed_multiline p.text)

theorem Heading.wellNamed_markup (h : Heading) : ∀ m ∈ h.markup, m.WellNamed := by
  refine wellNamed_block (by simp +decide) ?_
  simp only [List.forall_mem_singleton, Markup.WellNamed]
  exact ⟨isName_headingTag h.level, by simp +decide, wellNamed_multiline h.text⟩

theorem Button.wellNamed_markup (b : Button) : ∀ m ∈ b.markup, m.WellNamed := by
  refine wellNamed_block (by simp +decide) (wellNamed_ownLine ?_)
  exact wellNamed_frame (by simp) (by simp) (by simp +decide) (by simp +decide [Markup.WellNamed])

theorem Image.wellNamed_markup (i : Image) (available : UInt32) :
    ∀ m ∈ i.markup available, m.WellNamed := by
  refine wellNamed_block (by simp +decide) ?_
  cases i.link <;> simp +decide [Markup.WellNamed]

theorem Divider.wellNamed_markup (d : Divider) : ∀ m ∈ d.markup, m.WellNamed := by
  refine wellNamed_block (by simp +decide) (wellNamed_ownLine ?_)
  exact wellNamed_frame (by simp +decide) (by simp +decide) (by simp +decide) (by simp)

theorem Spacer.wellNamed_markup (s : Spacer) : ∀ m ∈ s.markup, m.WellNamed :=
  wellNamed_block (by simp +decide) (by simp)

theorem isName_background (color : Option String) : ∀ a ∈ background color, isName a.name := by
  cases color <;> simp +decide [background]

section Rows

variable {content : List Markup} {width : UInt32} {columns : List (Column × List Markup)}

theorem Column.wellNamed_cell (c : Column) (gap : Option UInt32)
    (hcontent : ∀ m ∈ content, m.WellNamed) : (c.cell width gap content).WellNamed := by
  refine MailTemplate.wellNamed_cell (by simp +decide) (wellNamed_ownLine ?_)
  exact wellNamed_frame (by decide) (isName_background _) (by simp +decide)
    (by simpa using hcontent)

theorem Columns.wellNamed_cells (r : Columns)
    (hcolumns : ∀ column ∈ columns, ∀ m ∈ column.2, m.WellNamed) :
    ∀ m ∈ r.cells width columns, m.WellNamed := by
  fun_induction Columns.cells r width columns with
  | case1 => simp
  | case2 column content =>
    simpa using column.wellNamed_cell none (hcolumns _ List.mem_cons_self)
  | case3 column content rest hmore ih =>
    rw [List.forall_mem_cons] at hcolumns ⊢
    exact ⟨column.wellNamed_cell (some r.gap) hcolumns.1, ih hcolumns.2⟩

theorem Columns.wellNamed_markup (r : Columns)
    (hcolumns : ∀ column ∈ columns, ∀ m ∈ column.2, m.WellNamed) :
    ∀ m ∈ r.markup width columns, m.WellNamed := by
  have hinner : (layoutTable fullWidth [] (r.cells width columns)).WellNamed :=
    wellNamed_layoutTable (by decide) (by simp) (r.wellNamed_cells hcolumns)
  simp only [Columns.markup, List.forall_mem_cons, wellNamed_lineFeed, List.not_mem_nil,
    false_implies, implies_true, and_true]
  exact wellNamed_frame (by decide) (isName_background _) (by simp +decide)
    (wellNamed_ownLine hinner)

end Rows

/-! ## Whole documents -/

/-- Every fragment is well-named, at any depth and in any tree. -/
theorem Tree.wellNamed_fragment (tree : Tree) (levels : Nat) (id : NodeId) (available : UInt32) :
    ∀ m ∈ tree.fragment levels id available, m.WellNamed := by
  -- The content of a cell is two levels below its row, so one level back is not enough.
  induction levels using Nat.strong_induction_on generalizing id available with
  | _ levels ih =>
    cases levels with
    | zero => simp [fragment]
    | succ levels =>
      have hchildren : ∀ (ids : List NodeId) (width : UInt32),
          ∀ m ∈ ids.flatMap (tree.fragment levels · width), m.WellNamed := by
        intro ids width
        rw [List.forall_mem_flatMap]
        exact fun child _ => ih levels (Nat.lt_succ_self _) child width
      rw [fragment]
      cases tree.get? id with
      | none => simp
      | some node =>
        dsimp only
        cases node.properties with
        | root page => exact hchildren _ _
        | text p => exact p.wellNamed_markup
        | heading h => exact h.wellNamed_markup
        | button b => exact b.wellNamed_markup
        | image i => exact i.wellNamed_markup available
        | divider d => exact d.wellNamed_markup
        | spacer s => exact s.wellNamed_markup
        | column c => exact hchildren _ _
        | columns r =>
          refine r.wellNamed_markup ?_
          rw [List.forall_mem_map]
          rintro ⟨childId, column⟩ -
          cases levels with
          | zero => simp
          | succ inner =>
            rw [List.forall_mem_flatMap]
            exact fun child _ => ih inner (by omega) child _

theorem wellNamed_documentHead (title : Option String) : (documentHead title).WellNamed := by
  cases title <;> simp +decide [documentHead, Markup.WellNamed]

variable {content : List Markup}

theorem Page.wellNamed_body (page : Page) (hcontent : ∀ m ∈ content, m.WellNamed) :
    (page.body content).WellNamed := by
  rw [body, Markup.WellNamed]
  refine ⟨by decide, by simp +decide, wellNamed_ownLine ?_⟩
  refine wellNamed_frame (by decide) (by simp +decide) (by simp +decide) (wellNamed_ownLine ?_)
  exact wellNamed_frame (by simp +decide) (by simp +decide) (by simp) (by simpa using hcontent)

/-- A document is well-named if its content is. -/
theorem Page.wellNamed_document (page : Page) (title : Option String)
    (hcontent : ∀ m ∈ content, m.WellNamed) : (page.document title content).WellNamed := by
  simp only [document, Markup.WellNamed, List.forall_mem_cons, wellNamed_lineFeed, true_and]
  exact ⟨by decide, by decide, wellNamed_documentHead title, page.wellNamed_body hcontent, by simp⟩

theorem Tree.wellNamed_content (tree : Tree) (available : UInt32) :
    ∀ m ∈ tree.content available, m.WellNamed := by
  rw [content, List.forall_mem_flatMap]
  exact fun child _ => tree.wellNamed_fragment maxNesting child available

end MailTemplate
