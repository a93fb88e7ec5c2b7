import MailTemplate.Html.Markup
import MailTemplate.Html.Width
import MailTemplate.Tree.Violation

/-!
# Fragments

The markup of each kind of component: a table of its own with inline styles, as mail programs want
it, made for the width available to the component.

* `Tree.fragment` is the markup of a node and all that it holds, to a limited depth.
-/

namespace MailTemplate

open Html

/-- How deep components are shown; a column counts for itself and for its content. -/
def maxNesting : Nat := 32

/-- A word in decimal digits. -/
def wordText (n : UInt32) : String :=
  natText n.toNat

/-- A length in pixels. -/
def pixels (n : UInt32) : String :=
  wordText n ++ "px"

/-- Padding in style form. -/
def Padding.css (p : Padding) : String :=
  pixels p.top ++ " " ++ pixels p.right ++ " " ++ pixels p.bottom ++ " " ++ pixels p.left

/-- A number in style form: the shortest digits that read back, and never an exponent. -/
def factorText : Binary.Value .single → String
  | .finite x =>
    let magnitude := if x.significand = 0 then ['0'] else (x.shortest .up).positional
    String.ofList (if x.negative then '-' :: magnitude else magnitude)
  | .infinite negative => if negative then "-inf" else "inf"
  | .nan => "NaN"

/-- A style of declarations. -/
def Html.Attribute.style (declarations : List (String × String)) : Attribute :=
  ⟨"style", String.intercalate " " (declarations.map fun (name, value) =>
    name ++ ": " ++ value ++ ";")⟩

/-- A table with one row of cells, for layout alone. -/
def layoutTable (width : List Attribute) (more : List Attribute) (cells : List Markup) : Markup :=
  let spacing : List Attribute := [⟨"cellpadding", "0"⟩, ⟨"cellspacing", "0"⟩, ⟨"border", "0"⟩]
  let row := lineFeed :: cells.flatMap fun cell => [cell, lineFeed]
  .element "table" (⟨"role", "presentation"⟩ :: width ++ spacing ++ more)
    [lineFeed, .element "tr" [] row, lineFeed]

/-- The width of a table that fills its place. -/
def fullWidth : List Attribute :=
  [⟨"width", "100%"⟩]

/-- A table cell. -/
def cell (attributes : List Attribute) (content : List Markup) : Markup :=
  .element "td" attributes content

/-- A table of one cell, on a line of its own. -/
def block (attributes : List Attribute) (content : List Markup) : List Markup :=
  [layoutTable fullWidth [] [cell attributes content], lineFeed]

/-- The markup of a block of text. -/
def Paragraph.markup (p : Paragraph) : List Markup :=
  block [.style [
      ("padding", p.padding.css),
      ("font-size", pixels p.fontSize),
      ("color", p.color),
      ("font-weight", p.fontWeight.name),
      ("text-align", p.textAlign.name),
      ("line-height", factorText p.lineHeight)]]
    (multiline p.text)

/-- The markup of a heading. -/
def Heading.markup (h : Heading) : List Markup :=
  let tag := "h" ++ natText (clampLevel h.level).toNat
  block [.style [("padding", h.padding.css), ("text-align", h.textAlign.name)]]
    [.element tag [.style [
        ("margin", "0"),
        ("font-size", pixels h.fontSize),
        ("color", h.color),
        ("font-weight", h.fontWeight.name),
        ("line-height", "1.2")]]
      (multiline h.text)]

/-- The markup of a button. -/
def Button.markup (b : Button) : List Markup :=
  let link := Markup.element "a" [
      ⟨"href", b.url⟩,
      ⟨"target", "_blank"⟩,
      .style [
        ("display", "inline-block"),
        ("padding", b.innerPadding.css),
        ("font-size", pixels b.fontSize),
        ("font-weight", b.fontWeight.name),
        ("color", b.textColor),
        ("text-decoration", "none"),
        ("border-radius", pixels b.borderRadius)]]
    [.text b.text]
  let face := cell [.style [
      ("background-color", b.backgroundColor),
      ("border-radius", pixels b.borderRadius)]] [link]
  block [⟨"align", b.align.name⟩, .style [("padding", b.padding.css)]]
    [lineFeed, layoutTable [] [] [face], lineFeed]

/-- The margin that places an image. -/
def Alignment.margin : Alignment → String
  | .left => "0"
  | .center => "0 auto"
  | .right => "0 0 0 auto"

/-- The markup of an image in its place. -/
def Image.markup (i : Image) (available : UInt32) : List Markup :=
  let width := i.shownWidth available
  let picture := Markup.void "img" [
    ⟨"src", i.src⟩,
    ⟨"alt", i.alt⟩,
    ⟨"width", wordText width⟩,
    .style [
      ("display", "block"),
      ("width", pixels width),
      ("max-width", "100%"),
      ("height", "auto"),
      ("margin", i.align.margin),
      ("border", "0")]]
  let content := match i.link with
    | some link => Markup.element "a" [⟨"href", link⟩, ⟨"target", "_blank"⟩] [picture]
    | none => picture
  block [⟨"align", i.align.name⟩, .style [("padding", i.padding.css)]] [content]

/-- The markup of a horizontal line. -/
def Divider.markup (d : Divider) : List Markup :=
  let percent := if 100 < d.widthPercent then 100 else d.widthPercent
  let line := cell [.style [
      ("height", "0"),
      ("line-height", "0"),
      ("font-size", "0"),
      ("border-top", pixels d.thickness ++ " " ++ d.style.name ++ " " ++ d.color)]] [.space]
  block [.style [("padding", d.padding.css)]]
    [lineFeed, layoutTable [⟨"width", wordText percent ++ "%"⟩] [⟨"align", "center"⟩] [line],
      lineFeed]

/-- The markup of vertical space. -/
def Spacer.markup (s : Spacer) : List Markup :=
  block [.style [("height", pixels s.height), ("line-height", pixels s.height), ("font-size", "0")]]
    [.space]

/-- The style of a background, if there is one. -/
def background (color : Option String) : List Attribute :=
  match color with
  | some color => [.style [("background-color", color)]]
  | none => []

/-- A column in its row, given its content. A gap follows each column but the last. -/
def Column.cell (c : Column) (width : UInt32) (gap : Option UInt32) (content : List Markup) :
    Markup :=
  let space := match gap with
    | some gap => [("padding-right", pixels gap)]
    | none => []
  let inner := MailTemplate.cell
    [⟨"valign", c.verticalAlign.name⟩, .style [("padding", c.padding.css)]] (lineFeed :: content)
  MailTemplate.cell
    [⟨"width", wordText width⟩, ⟨"valign", c.verticalAlign.name⟩,
      .style (("width", pixels width) :: space)]
    [lineFeed, layoutTable fullWidth (background c.backgroundColor) [inner], lineFeed]

/-- The cells of the columns of a row, given the content of each. -/
def Columns.cells (r : Columns) (width : UInt32) : List (Column × List Markup) → List Markup
  | [] => []
  | [(column, content)] => [column.cell width none content]
  | (column, content) :: rest => column.cell width (some r.gap) content :: r.cells width rest

/-- The width of each of the columns of a row in its place. -/
def Columns.columnWidth (r : Columns) (available : UInt32) (count : Nat) : UInt32 :=
  MailTemplate.columnWidth (innerWidth available r.padding) r.gap
    (if count < UInt32.size then .ofNat count else .ofNat (UInt32.size - 1))

/-- The markup of a row, given its columns and the content of each. -/
def Columns.markup (r : Columns) (width : UInt32) (columns : List (Column × List Markup)) :
    List Markup :=
  let inner := layoutTable fullWidth [] (r.cells width columns)
  [layoutTable fullWidth (background r.backgroundColor)
    [cell [.style [("padding", r.padding.css)]] [lineFeed, inner, lineFeed]], lineFeed]

namespace Tree

/-- The columns among some children of a row. -/
def columnsAmong (tree : Tree) (children : List NodeId) : List (NodeId × Column) :=
  children.filterMap fun id =>
    match (tree.get? id).map Node.properties with
    | some (.column column) => some (id, column)
    | _ => none

/-- The markup of a node in the width available to it, as deep as there are levels left. A node that
does not exist has none. -/
def fragment (tree : Tree) : (levels : Nat) → NodeId → (available : UInt32) → List Markup
  | 0, _, _ => []
  | levels + 1, id, available =>
    match tree.get? id with
    | none => []
    | some node =>
      match node.properties with
      | .root _ => node.childList.flatMap (tree.fragment levels · available)
      | .text p => p.markup
      | .heading h => h.markup
      | .button b => b.markup
      | .image i => i.markup available
      | .divider d => d.markup
      | .spacer s => s.markup
      | .column c =>
        node.childList.flatMap (tree.fragment levels · (innerWidth available c.padding))
      | .columns r =>
        let columns := tree.columnsAmong node.childList
        let width := r.columnWidth available columns.length
        r.markup width <| columns.map fun (id, column) =>
          (column, match levels with
            | 0 => []
            | inner + 1 => (tree.childrenOf id).flatMap
              (tree.fragment inner · (innerWidth width column.padding)))

/-- The text of a node alone, for a width. -/
def renderNode (tree : Tree) (id : NodeId) (available : UInt32) : String :=
  write (tree.fragment maxNesting id available)

end Tree

end MailTemplate
