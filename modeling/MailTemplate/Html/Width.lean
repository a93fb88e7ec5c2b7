import MailTemplate.Component.Limits

/-!
# Widths

The width that each component has to itself, from the content width inwards. Widths are words of 32
bits; what would leave their range stays at its end.
-/

namespace MailTemplate

/-- The sum, or the largest word. -/
def saturatingAdd (a b : UInt32) : UInt32 :=
  if a.toNat + b.toNat < UInt32.size then a + b else .ofNat (UInt32.size - 1)

/-- The difference, or zero. -/
def saturatingSub (a b : UInt32) : UInt32 :=
  if b ≤ a then a - b else 0

/-- The product, or the largest word. -/
def saturatingMul (a b : UInt32) : UInt32 :=
  if a.toNat * b.toNat < UInt32.size then a * b else .ofNat (UInt32.size - 1)

/-- The padding on both sides together. -/
def Padding.horizontal (p : Padding) : UInt32 :=
  saturatingAdd p.left p.right

/-- The width of the whole content. -/
def Page.contentWidth (page : Page) : UInt32 :=
  clampWidth page.maxWidth

/-- The width inside some padding. -/
def innerWidth (available : UInt32) (padding : Padding) : UInt32 :=
  saturatingSub available padding.horizontal

/-- The width of each of some columns with a gap between neighbours. -/
def columnWidth (inner gap count : UInt32) : UInt32 :=
  if count = 0 then 0
  else saturatingSub inner (saturatingMul gap (count - 1)) / count

/-- The width at which an image shows: as asked for, and within its place if it is to fit. -/
def Image.shownWidth (image : Image) (available : UInt32) : UInt32 :=
  let inner := innerWidth available image.padding
  match image.width with
  | none => inner
  | some width => if image.fitToContainer && inner < width then inner else width

end MailTemplate
