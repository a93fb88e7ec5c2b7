import MailTemplate.Html.Fragment
import MailTemplate.Proofs.Html.LineBreaks
import MailTemplate.Proofs.Html.Markup

/-!
# The Text of Each Kind

What a component of each kind is written as, spelled out from the first character to the last. A
component that holds others is spelled as what stands before them, between them and after them.

## Main definitions

* `Paragraph.spelled`, `Heading.spelled` and so on: the text of a component that holds nothing.
* `Columns.start`, `Column.start`, `Column.stop`, `Columns.stop`: the text of a row and of its
  columns around what the columns hold.

## Main results

* `Paragraph.contentChars_markup` and so on: the markup of a component is written as its text.
* `Column.chars_cell`, `Columns.contentChars_markup`: a column and a row are written as the text
  around what they hold.
-/

namespace MailTemplate

open Html

/-- A text of several lines, escaped and with a tag for each line break. -/
def brokenText (s : String) : String :=
  String.ofList (escapeBroken s.toList)

/-- The start of a table for layout up to its first cell, with what is written of its width and
after its spacing. -/
def tableStart (width more : String) : String :=
  "<table role=\"presentation\"" ++ width ++ " cellpadding=\"0\" cellspacing=\"0\" border=\"0\"" ++
    more ++ ">\n<tr>\n"

/-- The end of a table for layout, after its last cell. -/
def tableStop : String :=
  "</tr>\n</table>\n"

/-- A component in a table of one cell, given the attributes of the cell and what stands in it. -/
def inCell (attributes content : String) : String :=
  tableStart " width=\"100%\"" "" ++ "<td" ++ attributes ++ ">" ++ content ++ "</td>\n" ++ tableStop

/-- A style attribute. -/
def styleText (declarations : String) : String :=
  " style=\"" ++ escape declarations ++ "\""

/-- The text of a block of text. -/
def Paragraph.spelled (p : Paragraph) : String :=
  inCell
    (styleText ("padding: " ++ p.padding.css ++ "; font-size: " ++ pixels p.fontSize ++
      "; color: " ++ p.color ++ "; font-weight: " ++ p.fontWeight.name ++ "; text-align: " ++
      p.textAlign.name ++ "; line-height: " ++ factorText p.lineHeight ++ ";"))
    (brokenText p.text)

/-- The text of a heading. -/
def Heading.spelled (h : Heading) : String :=
  let level := natText (clampLevel h.level).toNat
  inCell
    (styleText ("padding: " ++ h.padding.css ++ "; text-align: " ++ h.textAlign.name ++ ";"))
    ("<h" ++ level ++
      styleText ("margin: 0; font-size: " ++ pixels h.fontSize ++ "; color: " ++ h.color ++
        "; font-weight: " ++ h.fontWeight.name ++ "; line-height: 1.2;") ++
      ">" ++ brokenText h.text ++ "</h" ++ level ++ ">")

/-- The text of a button. -/
def Button.spelled (b : Button) : String :=
  inCell
    (" align=\"" ++ b.align.name ++ "\"" ++ styleText ("padding: " ++ b.padding.css ++ ";"))
    ("\n" ++ tableStart "" "" ++ "<td" ++
      styleText ("background-color: " ++ b.backgroundColor ++ "; border-radius: " ++
        pixels b.borderRadius ++ ";") ++
      "><a href=\"" ++ escape b.url ++ "\" target=\"_blank\"" ++
      styleText ("display: inline-block; padding: " ++ b.innerPadding.css ++ "; font-size: " ++
        pixels b.fontSize ++ "; font-weight: " ++ b.fontWeight.name ++ "; color: " ++
        b.textColor ++ "; text-decoration: none; border-radius: " ++ pixels b.borderRadius ++
        ";") ++
      ">" ++ escape b.text ++ "</a></td>\n" ++ tableStop)

/-- The text of the picture of an image. -/
def Image.picture (i : Image) (width : UInt32) : String :=
  let margin := match i.align with
    | .left => "0"
    | .center => "0 auto"
    | .right => "0 0 0 auto"
  "<img src=\"" ++ escape i.src ++ "\" alt=\"" ++ escape i.alt ++ "\" width=\"" ++
    wordText width ++ "\" style=\"display: block; width: " ++ wordText width ++
    "px; max-width: 100%; height: auto; margin: " ++ margin ++ "; border: 0;\" />"

/-- The text of an image in its place. -/
def Image.spelled (i : Image) (available : UInt32) : String :=
  let picture := i.picture (i.shownWidth available)
  inCell
    (" align=\"" ++ i.align.name ++ "\"" ++ styleText ("padding: " ++ i.padding.css ++ ";"))
    (match i.link with
      | some link => "<a href=\"" ++ escape link ++ "\" target=\"_blank\">" ++ picture ++ "</a>"
      | none => picture)

/-- The text of a horizontal line. -/
def Divider.spelled (d : Divider) : String :=
  let percent := if 100 < d.widthPercent then 100 else d.widthPercent
  inCell (styleText ("padding: " ++ d.padding.css ++ ";"))
    ("\n" ++ tableStart (" width=\"" ++ wordText percent ++ "%\"") " align=\"center\"" ++
      "<td" ++
      styleText ("height: 0; line-height: 0; font-size: 0; border-top: " ++ pixels d.thickness ++
        " " ++ d.style.name ++ " " ++ d.color ++ ";") ++
      ">&nbsp;</td>\n" ++ tableStop)

/-- The text of vertical space. -/
def Spacer.spelled (s : Spacer) : String :=
  let height := wordText s.height
  inCell (" style=\"height: " ++ height ++ "px; line-height: " ++ height ++
    "px; font-size: 0;\"") "&nbsp;"

/-- The style attribute of a background, if there is one. -/
def backgroundText : Option String → String
  | some color => styleText ("background-color: " ++ color ++ ";")
  | none => ""

/-- What is written of a row before its first column. -/
def Columns.start (r : Columns) : String :=
  tableStart " width=\"100%\"" (backgroundText r.backgroundColor) ++ "<td" ++
    styleText ("padding: " ++ r.padding.css ++ ";") ++ ">\n" ++ tableStart " width=\"100%\"" ""

/-- What is written of a row after its last column. -/
def Columns.stop : String :=
  tableStop ++ "</td>\n" ++ tableStop

/-- What is written of a column in its row before what it holds, with the gap after it, if any. -/
def Column.start (c : Column) (width : UInt32) (gap : Option UInt32) : String :=
  "<td width=\"" ++ wordText width ++ "\" valign=\"" ++ c.verticalAlign.name ++
    "\" style=\"width: " ++ wordText width ++ "px;" ++
    (match gap with
      | some gap => " padding-right: " ++ wordText gap ++ "px;"
      | none => "") ++
    "\">\n" ++ tableStart " width=\"100%\"" (backgroundText c.backgroundColor) ++
    "<td valign=\"" ++ c.verticalAlign.name ++ "\"" ++
    styleText ("padding: " ++ c.padding.css ++ ";") ++ ">\n"

/-- What is written of a column in its row after what it holds. -/
def Column.stop : String :=
  "</td>\n" ++ tableStop ++ "</td>\n"

/-! ## Values that are written as they are -/

theorem escapeChars_natText (n : Nat) : escapeChars (natText n).toList = (natText n).toList := by
  -- No digit is a character that has an entity.
  have hentity : ∀ c ∈ Binary.digitChars n, entity c = [c] := by
    intro c hc
    have hdigit : c.isDigit = true := Nat.isDigit_of_mem_toDigits (by decide) (by decide) hc
    unfold entity
    split_ifs <;> simp_all
  rw [natText, String.toList_ofList, escapeChars, List.flatMap_congr hentity,
    List.flatMap_singleton']

theorem escapeChars_wordText (n : UInt32) : escapeChars (wordText n).toList = (wordText n).toList :=
  escapeChars_natText n.toNat

theorem Alignment.escapeChars_name (a : Alignment) : escapeChars a.name.toList = a.name.toList := by
  cases a <;> simp [name, escapeChars, entity]

theorem VerticalAlignment.escapeChars_name (a : VerticalAlignment) :
    escapeChars a.name.toList = a.name.toList := by
  cases a <;> simp [name, escapeChars, entity]

theorem escapeChars_nil : escapeChars [] = [] := rfl

theorem chars_target : (Attribute.mk "target" "_blank").chars = " target=\"_blank\"".toList := by
  simp [Attribute.chars, escapeChars, entity]

/-! ## Tables -/

@[simp]
theorem toList_styleText (declarations : String) :
    (styleText declarations).toList =
      " style=\"".toList ++ escapeChars declarations.toList ++ ['"'] := by
  unfold styleText
  simp

@[simp]
theorem chars_lineFeed : lineFeed.chars = ['\n'] := by
  simp [lineFeed, Markup.chars, escapeChars, entity]

theorem contentChars_onLines (cells : List Markup) :
    contentChars (cells.flatMap fun cell => [cell, lineFeed]) =
      cells.flatMap fun cell => cell.chars ++ ['\n'] := by
  simp [contentChars_eq_flatMap, List.flatMap_assoc]

/-- A table for layout is written with each of its cells on a line of its own. -/
theorem chars_layoutTable_append (width more : List Attribute) (cells : List Markup)
    (rest : List Char) :
    (layoutTable width more cells).chars ++ '\n' :: rest =
      (tableStart (String.ofList (width.flatMap Attribute.chars))
        (String.ofList (more.flatMap Attribute.chars))).toList ++
      (cells.flatMap (fun cell => cell.chars ++ ['\n']) ++ (tableStop.toList ++ rest)) := by
  unfold tableStart tableStop
  simp [layoutTable, contentChars, Markup.chars, tagChars, contentChars_onLines, Attribute.chars,
    escapeChars, entity]

theorem flatMap_fullWidth : fullWidth.flatMap Attribute.chars = " width=\"100%\"".toList := by
  simp [fullWidth, Attribute.chars, escapeChars, entity]

theorem contentChars_block (attributes : List Attribute) (content : List Markup) :
    contentChars (block attributes content) =
      (inCell (String.ofList (attributes.flatMap Attribute.chars))
        (String.ofList (contentChars content))).toList := by
  unfold inCell
  simp [block, contentChars, chars_layoutTable_append, flatMap_fullWidth, cell, Markup.chars,
    tagChars]

theorem flatMap_background (color : Option String) :
    (background color).flatMap Attribute.chars = (backgroundText color).toList := by
  unfold backgroundText
  cases color with
  | none => rfl
  | some color => simp [background, Attribute.chars, Attribute.style]

/-! ## Components -/

@[simp]
theorem contentChars_multiline_eq (s : String) :
    contentChars (multiline s) = (brokenText s).toList := by
  rw [contentChars_multiline, flatMap_feedBreaks, brokenText, String.toList_ofList]

/-- A block of text is written as spelled. -/
theorem Paragraph.contentChars_markup (p : Paragraph) :
    contentChars p.markup = p.spelled.toList := by
  unfold spelled
  rw [markup, contentChars_block]
  unfold inCell
  simp [Attribute.chars, Attribute.style]

/-- A heading is written as spelled. -/
theorem Heading.contentChars_markup (h : Heading) : contentChars h.markup = h.spelled.toList := by
  unfold spelled
  rw [markup, contentChars_block]
  unfold inCell
  simp [Attribute.chars, Attribute.style, contentChars, Markup.chars, tagChars]

/-- A button is written as spelled. -/
theorem Button.contentChars_markup (b : Button) : contentChars b.markup = b.spelled.toList := by
  unfold spelled
  rw [markup, contentChars_block]
  unfold inCell
  simp [↓chars_target, contentChars, Markup.chars, tagChars, cell, chars_layoutTable_append,
    Attribute.chars, Attribute.style, Alignment.escapeChars_name]

theorem Image.chars_picture (i : Image) (width : UInt32) :
    (Markup.void "img" [
      ⟨"src", i.src⟩,
      ⟨"alt", i.alt⟩,
      ⟨"width", wordText width⟩,
      .style [
        ("display", "block"),
        ("width", pixels width),
        ("max-width", "100%"),
        ("height", "auto"),
        ("margin", i.align.margin),
        ("border", "0")]]).chars = (i.picture width).toList := by
  unfold picture
  -- The margin is another text for each alignment.
  cases i.align <;>
    simp [Alignment.margin, Markup.chars, tagChars, Attribute.chars, Attribute.style, pixels,
      escapeChars_append, escapeChars_cons, escapeChars_nil, escapeChars_wordText, entity]

/-- An image is written as spelled, in a link or not. -/
theorem Image.contentChars_markup (i : Image) (available : UInt32) :
    contentChars (i.markup available) = (i.spelled available).toList := by
  unfold spelled
  rw [markup, contentChars_block]
  unfold inCell
  cases i.link with
  | none =>
    simp [contentChars, ↓chars_picture, Attribute.chars, Attribute.style,
      Alignment.escapeChars_name]
  | some link =>
    simp [contentChars, Markup.chars, ↓chars_picture, tagChars, ↓chars_target, Attribute.chars,
      Attribute.style, Alignment.escapeChars_name]

theorem chars_percent (percent : UInt32) :
    (Attribute.mk "width" (wordText percent ++ "%")).chars =
      (" width=\"" ++ wordText percent ++ "%\"").toList := by
  simp [Attribute.chars, escapeChars_append, escapeChars_wordText, escapeChars_cons,
    escapeChars_nil, entity]

/-- A horizontal line is written as spelled. -/
theorem Divider.contentChars_markup (d : Divider) : contentChars d.markup = d.spelled.toList := by
  have halign : [Attribute.mk "align" "center"].flatMap Attribute.chars =
      " align=\"center\"".toList := by
    simp [Attribute.chars, escapeChars, entity]
  unfold spelled
  rw [markup, contentChars_block]
  unfold inCell
  simp only [contentChars, chars_lineFeed, List.cons_append, List.nil_append,
    chars_layoutTable_append, List.flatMap_singleton, chars_percent, halign, String.ofList_toList]
  simp [Attribute.chars, Attribute.style, cell, Markup.chars, contentChars, tagChars]

/-- Vertical space is written as spelled. -/
theorem Spacer.contentChars_markup (s : Spacer) : contentChars s.markup = s.spelled.toList := by
  unfold spelled
  rw [markup, contentChars_block]
  unfold inCell
  simp [contentChars, Markup.chars, pixels, Attribute.chars, Attribute.style, escapeChars_append,
    escapeChars_cons, escapeChars_nil, escapeChars_wordText, entity]

/-- A column is written with what it holds between its start and its stop. -/
theorem Column.chars_cell (c : Column) (width : UInt32) (gap : Option UInt32)
    (content : List Markup) :
    (c.cell width gap content).chars ++ ['\n'] =
      (c.start width gap).toList ++ (contentChars content ++ Column.stop.toList) := by
  unfold Column.start Column.stop
  simp only [Column.cell, MailTemplate.cell, contentChars, Markup.chars, chars_lineFeed,
    List.cons_append, List.nil_append, List.append_assoc, chars_layoutTable_append,
    flatMap_fullWidth, flatMap_background, String.ofList_toList]
  -- The cell of the gap is there or not; all else is the same in both cases.
  cases gap <;>
    simp [tagChars, pixels, Attribute.chars, Attribute.style, VerticalAlignment.escapeChars_name,
      Markup.chars, contentChars, escapeChars_append, escapeChars_cons, escapeChars_nil,
      escapeChars_wordText, entity]

/-- A row is written with its columns between its start and its stop. -/
theorem Columns.contentChars_markup (r : Columns) (width : UInt32)
    (columns : List (Column × List Markup)) :
    contentChars (r.markup width columns) =
      r.start.toList ++ ((r.cells width columns).flatMap (fun cell => cell.chars ++ ['\n']) ++
        Columns.stop.toList) := by
  unfold Columns.start Columns.stop
  simp [Columns.markup, contentChars, chars_layoutTable_append, flatMap_fullWidth,
    flatMap_background, MailTemplate.cell, tagChars, Attribute.chars, Attribute.style, Markup.chars]

end MailTemplate
