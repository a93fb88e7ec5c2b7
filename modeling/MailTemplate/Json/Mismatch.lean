import MailTemplate.Json.Basic
import MailTemplate.Text.Quoted

/-!
# Values That Do Not Fit

Why a JSON value is not the value that a reader asks for, and how a message says so.
-/

namespace MailTemplate.Json

/-- What a reader has met, as far as a message tells it. -/
inductive Found where
  | null
  | bool (b : Bool)
  | number (n : Number)
  | string (s : String)
  | array
  | object
deriving DecidableEq

/-- What a value is, as far as a message tells it. -/
def found : Json → Found
  | .null => .null
  | .bool b => .bool b
  | .number n => .number n
  | .string s => .string s
  | .array _ => .array
  | .object _ => .object

/-- The words for what a reader has met. -/
def Found.message : Found → String
  | .null => "null"
  | .bool b => "boolean `" ++ String.ofList (boolWord b) ++ "`"
  | .number (.integer i) => "integer `" ++ String.ofList i.chars ++ "`"
  | .number (.float x) => "floating point `" ++ String.ofList (Number.floatChars x) ++ "`"
  | .string s => "string " ++ Text.quoted s
  | .array => "sequence"
  | .object => "map"
where
  boolWord (b : Bool) : List Char := if b then "true".toList else "false".toList

/-- Why a value does not fit. -/
inductive Mismatch where
  /-- The value is of another type. -/
  | wrongType (found : Found) (expected : String)
  /-- The value is of the type but not one of its values. -/
  | wrongValue (found : Found) (expected : String)
  /-- A member that has to be there is absent. -/
  | missingField (name : String)
  /-- A member is there twice. -/
  | duplicateField (name : String)
  /-- A name is none of those known. -/
  | unknownVariant (name : String) (known : List String)
  /-- A list has too few or too many items. -/
  | wrongLength (length : Nat) (expected : String)
deriving DecidableEq

/-- A name between backquotes. -/
def backquoted (name : String) : String :=
  "`" ++ name ++ "`"

/-- The choice between names, as a message lists it. -/
def oneOf : List String → String
  | [a] => backquoted a
  | [a, b] => backquoted a ++ " or " ++ backquoted b
  | names => "one of " ++ String.intercalate ", " (names.map backquoted)

/-- The words of the message. -/
def Mismatch.message : Mismatch → String
  | .wrongType found expected => "invalid type: " ++ found.message ++ ", expected " ++ expected
  | .wrongValue found expected => "invalid value: " ++ found.message ++ ", expected " ++ expected
  | .missingField name => "missing field " ++ backquoted name
  | .duplicateField name => "duplicate field " ++ backquoted name
  | .unknownVariant name known =>
    "unknown variant " ++ backquoted name ++ ", expected " ++ oneOf known
  | .wrongLength length expected =>
    "invalid length " ++ String.ofList (Binary.digitChars length) ++ ", expected " ++ expected

end MailTemplate.Json
