import MailTemplate.Component.Properties

/-!
# Limits

The ranges that a template keeps to: two to four columns in a row, a content width from 320 to 1200
pixels, heading levels from one to six, and line heights that are finite and not negative.
-/

namespace MailTemplate

/-- The fewest columns of a row. -/
def minColumns : Nat := 2

/-- The most columns of a row. -/
def maxColumns : Nat := 4

/-- The smallest content width in pixels. -/
def minWidth : UInt32 := 320

/-- The largest content width in pixels. -/
def maxWidth : UInt32 := 1200

/-- The legal number of columns nearest to a number. -/
def clampColumns (count : Nat) : Nat :=
  if count < minColumns then minColumns
  else if maxColumns < count then maxColumns
  else count

/-- The legal content width nearest to a width. -/
def clampWidth (width : UInt32) : UInt32 :=
  if width < minWidth then minWidth
  else if maxWidth < width then maxWidth
  else width

/-- The heading level nearest to a number. -/
def clampLevel (level : UInt8) : UInt8 :=
  if level < 1 then 1
  else if 6 < level then 6
  else level

/-- The record with the width, the level and the line height in range. A line height out of range
gives way to the default. -/
def Properties.clamp : Properties → Properties
  | .root r => .root { r with maxWidth := clampWidth r.maxWidth }
  | .heading r => .heading { r with level := clampLevel r.level }
  | .text r =>
    if r.lineHeight.isFinite && !r.lineHeight.isNegative then .text r
    else .text { r with lineHeight := ({} : Paragraph).lineHeight }
  | properties => properties

end MailTemplate
