/-!
# Escaping

Text as it may stand between tags and inside quoted attribute values: the five characters with a
meaning in markup give way to entities.
-/

namespace MailTemplate.Html

/-- A character, or the entity in place of it. -/
def entity (c : Char) : List Char :=
  if c = '"' then ['&', 'q', 'u', 'o', 't', ';']
  else if c = '&' then ['&', 'a', 'm', 'p', ';']
  else if c = '\'' then ['&', '#', '3', '9', ';']
  else if c = '<' then ['&', 'l', 't', ';']
  else if c = '>' then ['&', 'g', 't', ';']
  else [c]

/-- Characters with entities for those that have a meaning in markup. -/
def escapeChars (cs : List Char) : List Char :=
  cs.flatMap entity

/-- A text with entities for the characters that have a meaning in markup. -/
def escape (s : String) : String :=
  String.ofList (escapeChars s.toList)

/-- Characters with one line feed for each pair of carriage return and line feed. -/
def joinPairs : List Char → List Char
  | '\r' :: '\n' :: rest => '\n' :: joinPairs rest
  | c :: rest => c :: joinPairs rest
  | [] => []

/-- Characters with a line feed for each line break of any form. -/
def normalizeBreaks (cs : List Char) : List Char :=
  (joinPairs cs).map fun c => if c = '\r' then '\n' else c

/-- The lines between line feeds; there is always one. -/
def splitLines : List Char → List (List Char)
  | [] => [[]]
  | c :: rest =>
    if c = '\n' then [] :: splitLines rest
    else
      match splitLines rest with
      | [] => [[c]]
      | line :: lines => (c :: line) :: lines

/-- The lines of a text; a line ends at a line feed, a carriage return, or the pair of both. -/
def lines (s : String) : List String :=
  (splitLines (normalizeBreaks s.toList)).map String.ofList

end MailTemplate.Html
