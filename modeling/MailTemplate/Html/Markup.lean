import MailTemplate.Html.Escape

/-!
# Markup

Markup as a tree of elements and text. Only writing makes characters of it: it escapes all text and
all attribute values, and closes every element that it opens.
-/

namespace MailTemplate.Html

/-- An attribute of an element. -/
structure Attribute where
  /-- The name. -/
  name : String
  /-- The value before escaping. -/
  value : String
deriving DecidableEq

/-- A piece of markup. -/
inductive Markup where
  /-- Text, before escaping. -/
  | text (s : String)
  /-- A space at which no line breaks. -/
  | space
  /-- An element without content. -/
  | void (tag : String) (attributes : List Attribute)
  /-- An element with content. -/
  | element (tag : String) (attributes : List Attribute) (content : List Markup)

/-- A blank and an attribute with its value in quotes. -/
def Attribute.chars (a : Attribute) : List Char :=
  ' ' :: a.name.toList ++ '=' :: '"' :: escapeChars a.value.toList ++ ['"']

/-- What a start tag holds. -/
def tagChars (tag : String) (attributes : List Attribute) : List Char :=
  tag.toList ++ attributes.flatMap Attribute.chars

mutual

/-- The characters of a piece of markup. -/
def Markup.chars : Markup → List Char
  | .text s => escapeChars s.toList
  | .space => ['&', 'n', 'b', 's', 'p', ';']
  | .void tag attributes => '<' :: tagChars tag attributes ++ [' ', '/', '>']
  | .element tag attributes content =>
    '<' :: tagChars tag attributes ++ '>' :: contentChars content ++
      '<' :: '/' :: tag.toList ++ ['>']

/-- The characters of pieces of markup, one after the other. -/
def contentChars : List Markup → List Char
  | [] => []
  | piece :: rest => piece.chars ++ contentChars rest

end

/-- The text of pieces of markup. -/
def write (content : List Markup) : String :=
  String.ofList (contentChars content)

/-- A line feed between elements. -/
def lineFeed : Markup :=
  .text "\n"

/-- Lines of text with a break between two of them. -/
def brokenLines : List String → List Markup
  | [] => []
  | [line] => [.text line]
  | line :: rest => .text line :: .void "br" [] :: brokenLines rest

/-- A text with a break for each line break in it. -/
def multiline (s : String) : List Markup :=
  brokenLines (lines s)

end MailTemplate.Html
