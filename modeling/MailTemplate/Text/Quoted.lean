import MailTemplate.Text.Printable

/-!
# Quoted Text in Messages

How a message quotes a text: between double quotes, with escapes for the quote, the backslash,
whatever does not print, and marks that would join the character before them.
-/

namespace MailTemplate.Text

/-- The digits of a number in base sixteen. -/
def hexDigits (n : Nat) : String :=
  String.ofList (Nat.toDigits 16 n)

/-- The escape of a character by its code point. -/
def codePointEscape (c : Char) : String :=
  "\\u\x7b" ++ hexDigits c.toNat ++ "\x7d"

/-- A character as it stands in a quoted text. -/
def quotedChar (c : Char) : String :=
  if c = '\x00' then "\\0"
  else if c = '\t' then "\\t"
  else if c = '\r' then "\\r"
  else if c = '\n' then "\\n"
  else if c = '\\' then "\\\\"
  else if c = '"' then "\\\""
  else if isPrintable c && !isExtending c then c.toString
  else codePointEscape c

/-- A text in quotes. -/
def quoted (s : String) : String :=
  "\"" ++ String.join (s.toList.map quotedChar) ++ "\""

end MailTemplate.Text
