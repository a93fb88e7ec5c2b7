import MailTemplate.Component.Kind
import MailTemplate.Component.Style

/-!
# Component Properties

What a component of each kind records: one record type for each kind, with its defaults and its
JSON members, and `Properties`, a record of any kind.

* `Properties.decode` and `Properties.encode` read and write a record; an absent member takes the
  default of the kind.
* `Properties.agrees` compares records, line heights as numbers.
-/

namespace MailTemplate

open Json (Codec Shape Mismatch)
open Binary (Value)

/-- What the template records: the width of its content, its colours and its font. -/
structure Page where
  /-- The width of the content in pixels. -/
  maxWidth : UInt32 := 600
  /-- The colour around the content. -/
  backgroundColor : String := "#f4f4f4"
  /-- The colour behind the content. -/
  contentBackgroundColor : String := "#ffffff"
  /-- The fonts, in order of preference. -/
  fontFamily : String := "Arial, Helvetica, sans-serif"
deriving DecidableEq

/-- What a block of text records. -/
structure Paragraph where
  /-- The text itself. -/
  text : String := "Enter your text here"
  /-- The font size in pixels. -/
  fontSize : UInt32 := 16
  /-- The colour of the text. -/
  color : String := "#333333"
  /-- The weight of the font. -/
  fontWeight : Weight := .normal
  /-- The alignment of the lines. -/
  textAlign : Alignment := .left
  /-- The line height as a multiple of the font size. -/
  lineHeight : Value .single := .round .single false 3 2 0
  /-- The padding around the text. -/
  padding : Padding := ⟨10, 20, 10, 20⟩
deriving DecidableEq

/-- What a heading records. -/
structure Heading where
  /-- The text itself. -/
  text : String := "Heading"
  /-- The level, one being the highest. -/
  level : UInt8 := 1
  /-- The font size in pixels. -/
  fontSize : UInt32 := 28
  /-- The colour of the text. -/
  color : String := "#111111"
  /-- The weight of the font. -/
  fontWeight : Weight := .bold
  /-- The alignment of the lines. -/
  textAlign : Alignment := .left
  /-- The padding around the text. -/
  padding : Padding := ⟨10, 20, 10, 20⟩
deriving DecidableEq

/-- What a button records. -/
structure Button where
  /-- The label. -/
  text : String := "Click me"
  /-- The address that the button leads to. -/
  url : String := "#"
  /-- The colour of the face. -/
  backgroundColor : String := "#007bff"
  /-- The colour of the label. -/
  textColor : String := "#ffffff"
  /-- The radius of the corners in pixels. -/
  borderRadius : UInt32 := 4
  /-- The font size in pixels. -/
  fontSize : UInt32 := 16
  /-- The weight of the font. -/
  fontWeight : Weight := .bold
  /-- The alignment of the button. -/
  align : Alignment := .center
  /-- The padding around the button. -/
  padding : Padding := ⟨10, 20, 10, 20⟩
  /-- The padding inside the face. -/
  innerPadding : Padding := ⟨12, 24, 12, 24⟩
deriving DecidableEq

/-- What an image records. -/
structure Image where
  /-- The address of the image. -/
  src : String := "https://via.placeholder.com/600x200"
  /-- The text in place of the image. -/
  alt : String := ""
  /-- The width asked for in pixels; without it the image fills its place. -/
  width : Option UInt32 := none
  /-- Whether the width is cut to the place. -/
  fitToContainer : Bool := true
  /-- The address that the image leads to. -/
  link : Option String := none
  /-- The alignment of the image. -/
  align : Alignment := .center
  /-- The padding around the image. -/
  padding : Padding := ⟨10, 20, 10, 20⟩
deriving DecidableEq

/-- What a horizontal line records. -/
structure Divider where
  /-- The colour of the line. -/
  color : String := "#dddddd"
  /-- The thickness in pixels. -/
  thickness : UInt32 := 1
  /-- The style of the line. -/
  style : LineStyle := .solid
  /-- The width in percent. -/
  widthPercent : UInt32 := 100
  /-- The padding around the line. -/
  padding : Padding := ⟨10, 20, 10, 20⟩
deriving DecidableEq

/-- What vertical space records. -/
structure Spacer where
  /-- The height in pixels. -/
  height : UInt32 := 20
deriving DecidableEq

/-- What a row of columns records. -/
structure Columns where
  /-- How many columns the row has. -/
  columns : UInt32 := 2
  /-- The gap between two columns in pixels. -/
  gap : UInt32 := 16
  /-- The padding around the row. -/
  padding : Padding := .uniform 10
  /-- The colour behind the row. -/
  backgroundColor : Option String := none
deriving DecidableEq

/-- What a column records. -/
structure Column where
  /-- The colour behind the column. -/
  backgroundColor : Option String := none
  /-- The padding inside the column. -/
  padding : Padding := .uniform 0
  /-- The alignment of the content. -/
  verticalAlign : VerticalAlignment := .top
deriving DecidableEq

/-- The members of a template record. -/
def Page.shape : Shape Page where
  title := "struct RootProps"
  initial := {}
  fields := [
    .of "maxWidth" .uint32 maxWidth fun x r => { r with maxWidth := x },
    .of "backgroundColor" .string backgroundColor fun x r => { r with backgroundColor := x },
    .of "contentBackgroundColor" .string contentBackgroundColor
      fun x r => { r with contentBackgroundColor := x },
    .of "fontFamily" .string fontFamily fun x r => { r with fontFamily := x }]

/-- The members of a text record. -/
def Paragraph.shape : Shape Paragraph where
  title := "struct TextProps"
  initial := {}
  fields := [
    .of "text" .string text fun x r => { r with text := x },
    .of "fontSize" .uint32 fontSize fun x r => { r with fontSize := x },
    .of "color" .string color fun x r => { r with color := x },
    .of "fontWeight" Weight.codec fontWeight fun x r => { r with fontWeight := x },
    .of "textAlign" Alignment.codec textAlign fun x r => { r with textAlign := x },
    .of "lineHeight" .single lineHeight fun x r => { r with lineHeight := x },
    .of "padding" Padding.shape.codec padding fun x r => { r with padding := x }]

/-- The members of a heading record. -/
def Heading.shape : Shape Heading where
  title := "struct HeadingProps"
  initial := {}
  fields := [
    .of "text" .string text fun x r => { r with text := x },
    .of "level" .uint8 level fun x r => { r with level := x },
    .of "fontSize" .uint32 fontSize fun x r => { r with fontSize := x },
    .of "color" .string color fun x r => { r with color := x },
    .of "fontWeight" Weight.codec fontWeight fun x r => { r with fontWeight := x },
    .of "textAlign" Alignment.codec textAlign fun x r => { r with textAlign := x },
    .of "padding" Padding.shape.codec padding fun x r => { r with padding := x }]

/-- The members of a button record. -/
def Button.shape : Shape Button where
  title := "struct ButtonProps"
  initial := {}
  fields := [
    .of "text" .string text fun x r => { r with text := x },
    .of "url" .string url fun x r => { r with url := x },
    .of "backgroundColor" .string backgroundColor fun x r => { r with backgroundColor := x },
    .of "textColor" .string textColor fun x r => { r with textColor := x },
    .of "borderRadius" .uint32 borderRadius fun x r => { r with borderRadius := x },
    .of "fontSize" .uint32 fontSize fun x r => { r with fontSize := x },
    .of "fontWeight" Weight.codec fontWeight fun x r => { r with fontWeight := x },
    .of "align" Alignment.codec align fun x r => { r with align := x },
    .of "padding" Padding.shape.codec padding fun x r => { r with padding := x },
    .of "innerPadding" Padding.shape.codec innerPadding fun x r => { r with innerPadding := x }]

/-- The members of an image record. -/
def Image.shape : Shape Image where
  title := "struct ImageProps"
  initial := {}
  fields := [
    .of "src" .string src fun x r => { r with src := x },
    .of "alt" .string alt fun x r => { r with alt := x },
    .of "width" (.nullable .uint32) width fun x r => { r with width := x },
    .of "fitToContainer" .bool fitToContainer fun x r => { r with fitToContainer := x },
    .of "link" (.nullable .string) link fun x r => { r with link := x },
    .of "align" Alignment.codec align fun x r => { r with align := x },
    .of "padding" Padding.shape.codec padding fun x r => { r with padding := x }]

/-- The members of a line record. -/
def Divider.shape : Shape Divider where
  title := "struct DividerProps"
  initial := {}
  fields := [
    .of "color" .string color fun x r => { r with color := x },
    .of "thickness" .uint32 thickness fun x r => { r with thickness := x },
    .of "style" LineStyle.codec style fun x r => { r with style := x },
    .of "widthPercent" .uint32 widthPercent fun x r => { r with widthPercent := x },
    .of "padding" Padding.shape.codec padding fun x r => { r with padding := x }]

/-- The members of a space record. -/
def Spacer.shape : Shape Spacer where
  title := "struct SpacerProps"
  initial := {}
  fields := [.of "height" .uint32 height fun x r => { r with height := x }]

/-- The members of a row record. -/
def Columns.shape : Shape Columns where
  title := "struct ColumnsProps"
  initial := {}
  fields := [
    .of "columns" .uint32 columns fun x r => { r with columns := x },
    .of "gap" .uint32 gap fun x r => { r with gap := x },
    .of "padding" Padding.shape.codec padding fun x r => { r with padding := x },
    .of "backgroundColor" (.nullable .string) backgroundColor
      fun x r => { r with backgroundColor := x }]

/-- The members of a column record. -/
def Column.shape : Shape Column where
  title := "struct ColumnProps"
  initial := {}
  fields := [
    .of "backgroundColor" (.nullable .string) backgroundColor
      fun x r => { r with backgroundColor := x },
    .of "padding" Padding.shape.codec padding fun x r => { r with padding := x },
    .of "verticalAlign" VerticalAlignment.codec verticalAlign
      fun x r => { r with verticalAlign := x }]

/-- What a component of some kind records. -/
inductive Properties where
  | root (record : Page)
  | text (record : Paragraph)
  | heading (record : Heading)
  | button (record : Button)
  | image (record : Image)
  | divider (record : Divider)
  | spacer (record : Spacer)
  | columns (record : Columns)
  | column (record : Column)
deriving DecidableEq

namespace Properties

/-- The kind of a component by its record. -/
def kind : Properties → Kind
  | .root _ => .root
  | .text _ => .text
  | .heading _ => .heading
  | .button _ => .button
  | .image _ => .image
  | .divider _ => .divider
  | .spacer _ => .spacer
  | .columns _ => .columns
  | .column _ => .column

end Properties

/-- The shape of the records of a kind, among records of any kind. -/
def Kind.shape : Kind → Shape Properties
  | .root => Page.shape.within .root fun | .root r => some r | _ => none
  | .text => Paragraph.shape.within .text fun | .text r => some r | _ => none
  | .heading => Heading.shape.within .heading fun | .heading r => some r | _ => none
  | .button => Button.shape.within .button fun | .button r => some r | _ => none
  | .image => Image.shape.within .image fun | .image r => some r | _ => none
  | .divider => Divider.shape.within .divider fun | .divider r => some r | _ => none
  | .spacer => Spacer.shape.within .spacer fun | .spacer r => some r | _ => none
  | .columns => Columns.shape.within .columns fun | .columns r => some r | _ => none
  | .column => Column.shape.within .column fun | .column r => some r | _ => none

/-- The default record of a kind. -/
def Kind.defaults (kind : Kind) : Properties :=
  kind.shape.initial

namespace Properties

/-- Reads a record of a kind. -/
def decode (kind : Kind) (json : Json) : Except Mismatch Properties :=
  kind.shape.decode json

/-- Writes a record. -/
def encode (properties : Properties) : Json :=
  properties.kind.shape.encode properties

/-- Whether two records hold the same values, line heights being compared as numbers. -/
def agrees : Properties → Properties → Bool
  | .text a, .text b =>
    a.lineHeight.agrees b.lineHeight && { a with lineHeight := b.lineHeight } == b
  | a, b => a == b

end Properties

end MailTemplate
