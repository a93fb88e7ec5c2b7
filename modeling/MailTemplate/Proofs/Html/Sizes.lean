import MailTemplate.Html.Document

/-!
# Widths in Markup

The widths that a document says in pixels: those of the cells of columns, and those of images. The
other tables fill their place or take a part of it.

* `Html.contentWidths` reads the widths off markup.
* `widths_document` says that the shell of a document adds none.
-/

namespace MailTemplate

namespace Html

/-- The values of the attributes for the width among some attributes. -/
def widthValues (attributes : List Attribute) : List String :=
  (attributes.filter (·.name == "width")).map Attribute.value

/-- The widths of the table cells and the images in a piece of markup, in order. -/
def Markup.widths : Markup → List String
  | .text _ | .space => []
  | .void tag attributes => if tag = "img" then widthValues attributes else []
  | .element tag attributes content =>
    (if tag = "td" then widthValues attributes else []) ++ content.flatMap Markup.widths

/-- The same for pieces of markup one after the other. -/
def contentWidths (content : List Markup) : List String :=
  content.flatMap Markup.widths

@[simp]
theorem widthValues_nil : widthValues [] = [] := rfl

@[simp]
theorem Attribute.name_style (declarations : List (String × String)) :
    (Attribute.style declarations).name = "style" := rfl

@[simp]
theorem widthValues_cons (a : Attribute) (rest : List Attribute) :
    widthValues (a :: rest) =
      if a.name = "width" then a.value :: widthValues rest else widthValues rest := by
  by_cases h : a.name = "width" <;> simp [widthValues, h]

@[simp]
theorem contentWidths_nil : contentWidths [] = [] := rfl

@[simp]
theorem contentWidths_cons (m : Markup) (rest : List Markup) :
    contentWidths (m :: rest) = m.widths ++ contentWidths rest := rfl

@[simp]
theorem contentWidths_append (xs ys : List Markup) :
    contentWidths (xs ++ ys) = contentWidths xs ++ contentWidths ys :=
  List.flatMap_append

theorem contentWidths_flatten (contents : List (List Markup)) :
    contentWidths contents.flatten = contents.flatMap contentWidths := by
  rw [contentWidths, ← List.flatMap_id', List.flatMap_assoc]
  rfl

@[simp]
theorem widths_text (s : String) : (Markup.text s).widths = [] := by
  rw [Markup.widths]

@[simp]
theorem widths_space : Markup.space.widths = [] := by
  rw [Markup.widths]

@[simp]
theorem widths_lineFeed : lineFeed.widths = [] :=
  widths_text "\n"

@[simp]
theorem widths_void (tag : String) (attributes : List Attribute) :
    (Markup.void tag attributes).widths =
      if tag = "img" then widthValues attributes else [] := by
  rw [Markup.widths]

@[simp]
theorem widths_element (tag : String) (attributes : List Attribute) (content : List Markup) :
    (Markup.element tag attributes content).widths =
      (if tag = "td" then widthValues attributes else []) ++ contentWidths content := by
  rw [Markup.widths]
  rfl

@[simp]
theorem contentWidths_multiline (s : String) : contentWidths (multiline s) = [] := by
  unfold multiline
  induction lines s using brokenLines.induct with
  | case1 => rfl
  | case2 line => simp [brokenLines]
  | case3 line rest hrest ih => simp [brokenLines, ih]

end Html

open Html

@[simp]
theorem widths_cell (attributes : List Attribute) (content : List Markup) :
    (cell attributes content).widths = widthValues attributes ++ contentWidths content := by
  simp [cell]

@[simp]
theorem widths_layoutTable (width more : List Attribute) (cells : List Markup) :
    (layoutTable width more cells).widths = contentWidths cells := by
  have hrow : contentWidths (cells.flatMap fun cell => [cell, lineFeed]) = contentWidths cells := by
    induction cells with
    | nil => rfl
    | cons cell cells ih => simp [ih]
  simp [layoutTable, hrow]

@[simp]
theorem contentWidths_block (attributes : List Attribute) (content : List Markup) :
    contentWidths (block attributes content) = widthValues attributes ++ contentWidths content := by
  simp [block]

/-! ## Components -/

theorem Image.contentWidths_markup (i : Image) (available : UInt32) :
    contentWidths (i.markup available) = [wordText (i.shownWidth available)] := by
  cases hlink : i.link <;> simp [Image.markup, hlink]

theorem Column.widths_cell (c : Column) (width : UInt32) (gap : Option UInt32)
    (content : List Markup) :
    (c.cell width gap content).widths = wordText width :: contentWidths content := by
  simp [Column.cell]

theorem Columns.contentWidths_markup (r : Columns) (width : UInt32)
    (columns : List (Column × List Markup)) :
    contentWidths (r.markup width columns) =
      columns.flatMap fun column => wordText width :: contentWidths column.2 := by
  have hcells : contentWidths (r.cells width columns) =
      columns.flatMap fun column => wordText width :: contentWidths column.2 := by
    induction columns using Columns.cells.induct with
    | case1 => rfl
    | case2 column content => simp [Columns.cells, Column.widths_cell]
    | case3 column content rest hrest ih => simp [Columns.cells, Column.widths_cell, ih]
  simp [Columns.markup, hcells]

/-- The shell of a document says no widths of cells or images. -/
theorem Page.widths_document (page : Page) (title : Option String) (content : List Markup) :
    (page.document title content).widths = contentWidths content := by
  have hhead : (documentHead title).widths = [] := by
    cases title <;> simp [documentHead]
  simp [Page.document, Page.body, hhead]

end MailTemplate
