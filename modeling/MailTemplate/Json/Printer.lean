import MailTemplate.Json.Basic

/-!
# Writing JSON

The compact and the pretty text of a JSON value. In a string only the quote, the backslash and the
control characters are escaped. The pretty text puts each item and each member on a line of its
own, two blanks deeper than its container, and leaves empty containers closed.
-/

namespace MailTemplate.Json

/-- A hexadecimal digit in lower case. -/
def hexDigit (n : Nat) : Char :=
  Nat.digitChar (n % 16)

/-- The escape of a character inside a string, or the character itself. -/
def escapeChar (c : Char) : List Char :=
  if c = '"' then ['\\', '"']
  else if c = '\\' then ['\\', '\\']
  else if c = '\x08' then ['\\', 'b']
  else if c = '\x0c' then ['\\', 'f']
  else if c = '\n' then ['\\', 'n']
  else if c = '\r' then ['\\', 'r']
  else if c = '\t' then ['\\', 't']
  else if c.toNat < 32 then
    ['\\', 'u', '0', '0', hexDigit (c.toNat / 16), hexDigit c.toNat]
  else [c]

/-- A string in quotes. -/
def stringChars (s : String) : List Char :=
  '"' :: s.toList.flatMap escapeChar ++ ['"']

/-- The word of a truth value. -/
def boolChars (b : Bool) : List Char :=
  if b then ['t', 'r', 'u', 'e'] else ['f', 'a', 'l', 's', 'e']

/-- The text between the parts of a container: what opens the first part, what separates two, and
what closes the last. -/
structure Layout where
  /-- Before the first part. -/
  opening : List Char
  /-- Between two parts. -/
  between : List Char
  /-- After the last part. -/
  closing : List Char
  /-- Between a key and its value. -/
  colon : List Char

/-- The layout of a container at each depth. -/
abbrev Style : Type :=
  (depth : Nat) → Layout

/-- No blanks anywhere. -/
def Style.compact : Style := fun _ =>
  ⟨[], [','], [], [':']⟩

/-- A line break and two blanks for each level. -/
def lineBreak (depth : Nat) : List Char :=
  '\n' :: List.replicate (2 * depth) ' '

/-- One part a line. -/
def Style.pretty : Style := fun depth =>
  ⟨lineBreak (depth + 1), ',' :: lineBreak (depth + 1), lineBreak depth, [':', ' ']⟩

mutual

/-- The text of a value at a depth. -/
def chars (style : Style) (depth : Nat) : Json → List Char
  | .null => ['n', 'u', 'l', 'l']
  | .bool b => boolChars b
  | .number n => n.chars
  | .string s => stringChars s
  | .array [] => ['[', ']']
  | .array (item :: items) =>
    let layout := style depth
    '[' :: layout.opening ++ chars style (depth + 1) item ++ itemChars style depth items ++
      layout.closing ++ [']']
  | .object [] => ['{', '}']
  | .object ((key, value) :: members) =>
    let layout := style depth
    '{' :: layout.opening ++ stringChars key ++ layout.colon ++ chars style (depth + 1) value ++
      memberChars style depth members ++ layout.closing ++ ['}']

/-- The text of the items after the first one. -/
def itemChars (style : Style) (depth : Nat) : List Json → List Char
  | [] => []
  | item :: items =>
    (style depth).between ++ chars style (depth + 1) item ++ itemChars style depth items

/-- The text of the members after the first one. -/
def memberChars (style : Style) (depth : Nat) : List (String × Json) → List Char
  | [] => []
  | (key, value) :: members =>
    (style depth).between ++ stringChars key ++ (style depth).colon ++
      chars style (depth + 1) value ++ memberChars style depth members

end

/-- The text of a value without blanks. -/
def compact (json : Json) : String :=
  String.ofList (chars .compact 0 json)

/-- The text of a value over several lines. -/
def pretty (json : Json) : String :=
  String.ofList (chars .pretty 0 json)

end MailTemplate.Json
