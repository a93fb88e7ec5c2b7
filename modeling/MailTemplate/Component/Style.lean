import MailTemplate.Json.Codec

/-!
# Style Values

The values that several components share: padding, and the named choices of alignment, weight and
line style, with their JSON form.
-/

namespace MailTemplate

open Json (Codec Shape)

/-- Padding in pixels on the four sides. -/
structure Padding where
  /-- Above. -/
  top : UInt32
  /-- To the right. -/
  right : UInt32
  /-- Below. -/
  bottom : UInt32
  /-- To the left. -/
  left : UInt32
deriving DecidableEq

/-- The same padding on all sides. -/
def Padding.uniform (n : UInt32) : Padding :=
  ⟨n, n, n, n⟩

/-- The members of padding; an absent side is zero. -/
def Padding.shape : Shape Padding where
  title := "struct Padding"
  initial := .uniform 0
  fields := [
    .of "top" .uint32 top fun x p => { p with top := x },
    .of "right" .uint32 right fun x p => { p with right := x },
    .of "bottom" .uint32 bottom fun x p => { p with bottom := x },
    .of "left" .uint32 left fun x p => { p with left := x }]

/-- Horizontal alignment. -/
inductive Alignment where
  | left
  | center
  | right
deriving DecidableEq

/-- The name of an alignment. -/
def Alignment.name : Alignment → String
  | .left => "left"
  | .center => "center"
  | .right => "right"

/-- The weight of a font. -/
inductive Weight where
  | normal
  | bold
deriving DecidableEq

/-- The name of a weight. -/
def Weight.name : Weight → String
  | .normal => "normal"
  | .bold => "bold"

/-- The style of a line. -/
inductive LineStyle where
  | solid
  | dashed
  | dotted
deriving DecidableEq

/-- The name of a line style. -/
def LineStyle.name : LineStyle → String
  | .solid => "solid"
  | .dashed => "dashed"
  | .dotted => "dotted"

/-- Vertical alignment. -/
inductive VerticalAlignment where
  | top
  | middle
  | bottom
deriving DecidableEq

/-- The name of a vertical alignment. -/
def VerticalAlignment.name : VerticalAlignment → String
  | .top => "top"
  | .middle => "middle"
  | .bottom => "bottom"

/-- A codec for all values of a type, each by its name. -/
def Json.Codec.choice (all : List α) (name : α → String) : Codec α :=
  .named (all.map fun a => (name a, a)) Json.isNull name

/-- Alignments by name. -/
def Alignment.codec : Codec Alignment :=
  .choice [.left, .center, .right] name

/-- Weights by name. -/
def Weight.codec : Codec Weight :=
  .choice [.normal, .bold] name

/-- Line styles by name. -/
def LineStyle.codec : Codec LineStyle :=
  .choice [.solid, .dashed, .dotted] name

/-- Vertical alignments by name. -/
def VerticalAlignment.codec : Codec VerticalAlignment :=
  .choice [.top, .middle, .bottom] name

end MailTemplate
