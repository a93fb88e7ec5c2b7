import MailTemplate.Json.Number

/-!
# JSON Values

JSON values whose objects keep the order of their members. An object may hold a key twice, as a
text can; `Json.unique` keeps the last value of each key at the place of the first.

* `Json.merge` lays a patch over a value: objects member by member, all else by replacement.
-/

namespace MailTemplate

/-- A JSON value. -/
inductive Json where
  | null
  | bool (b : Bool)
  | number (n : Json.Number)
  | string (s : String)
  | array (items : List Json)
  | object (members : List (String × Json))
deriving Inhabited

namespace Json

/-- The number of a natural number below `2 ^ 64`, and the null value beyond. -/
def ofNat (n : Nat) : Json :=
  match Integer.ofInt? n with
  | some i => .number (.integer i)
  | none => .null

/-- The value of an optional member, null if it is absent. -/
def ofOption (encode : α → Json) : Option α → Json
  | some a => encode a
  | none => .null

/-- The first value of a key. -/
def lookup (key : String) : List (String × Json) → Option Json
  | [] => none
  | (k, v) :: rest => if k = key then some v else lookup key rest

/-- The member of an object. -/
def get? (key : String) : Json → Option Json
  | .object members => lookup key members
  | _ => none

/-- Whether a value is an object. -/
def isObject : Json → Bool
  | .object _ => true
  | _ => false

/-- Gives a key a new value, made from its old one: in place if the key is there, else at the end
of the members. -/
def upsert (key : String) (value : Option Json → Json) :
    List (String × Json) → List (String × Json)
  | [] => [(key, value none)]
  | (k, v) :: rest =>
    if k = key then (k, value (some v)) :: rest else (k, v) :: upsert key value rest

/-- Keeps one member for each key: the last value, at the place of the first. -/
def uniqueMembers (members : List (String × Json)) : List (String × Json) :=
  members.foldl (fun kept m => upsert m.1 (fun _ => m.2) kept) []

mutual

/-- Keeps one member for each key of every object in a value. -/
def unique : Json → Json
  | .array items => .array (uniqueItems items)
  | .object members => .object (uniqueMembers (uniqueValues members))
  | json => json

/-- `unique` for each item. -/
def uniqueItems : List Json → List Json
  | [] => []
  | item :: rest => unique item :: uniqueItems rest

/-- `unique` for the value of each member. -/
def uniqueValues : List (String × Json) → List (String × Json)
  | [] => []
  | (key, value) :: rest => (key, unique value) :: uniqueValues rest

end

mutual

/-- Lays a patch over a value: two objects merge member by member, anything else is replaced. -/
def merge : Json → Json → Json
  | .object members, .object patch => .object (mergeMembers members patch)
  | _, patch => patch

/-- Lays the members of a patch over those of an object, new ones at the end. -/
def mergeMembers (members : List (String × Json)) :
    List (String × Json) → List (String × Json)
  | [] => members
  | (key, value) :: patch =>
    let merged := upsert key (fun old => match old with
      | some old => merge old value
      | none => value) members
    mergeMembers merged patch

end

end Json

end MailTemplate
