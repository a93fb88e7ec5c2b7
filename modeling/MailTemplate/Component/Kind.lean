/-!
# Component Kinds

The kinds of component that a mail template is built from, and which kind may hold which.
-/

namespace MailTemplate

/-- The kind of a component. -/
inductive Kind where
  /-- The whole template. -/
  | root
  /-- A block of text. -/
  | text
  /-- A heading. -/
  | heading
  /-- A button with a link. -/
  | button
  /-- An image. -/
  | image
  /-- A horizontal line. -/
  | divider
  /-- Vertical space. -/
  | spacer
  /-- A row of columns. -/
  | columns
  /-- One column of a row. -/
  | column
deriving DecidableEq, Repr

namespace Kind

/-- All kinds, in the order in which they are listed. -/
def all : List Kind :=
  [.root, .text, .heading, .button, .image, .divider, .spacer, .columns, .column]

/-- The name of a kind. -/
def name : Kind → String
  | .root => "root"
  | .text => "text"
  | .heading => "heading"
  | .button => "button"
  | .image => "image"
  | .divider => "divider"
  | .spacer => "spacer"
  | .columns => "columns"
  | .column => "column"

/-- The kind of a name. -/
def ofName? (name : String) : Option Kind :=
  all.find? (·.name == name)

/-- Whether components of the kind hold others. -/
def isContainer : Kind → Bool
  | .root | .columns | .column => true
  | _ => false

/-- Whether a component of the first kind may directly hold one of the second: a row holds columns
only, and the template and a column hold anything but those two kinds. -/
def accepts : Kind → Kind → Bool
  | .columns, child => child == .column
  | .root, child | .column, child => child != .root && child != .column
  | _, _ => false

end Kind

end MailTemplate
