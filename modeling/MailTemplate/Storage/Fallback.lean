import MailTemplate.Component.Properties

/-!
# Reading Stored Properties

Stored properties are read leniently. If they do not fit the record of their kind as a whole, each
member is laid over the defaults on its own: as it is, or with its numbers pulled into the range of
a word or of a byte; a member that fits in none of these ways is left out.
-/

namespace MailTemplate

open Json (Number Integer)

/-- A whole number pulled into a range from zero. -/
def saturate (ceiling : UInt32) (i : Int) : UInt32 :=
  if i < 0 then 0 else if (ceiling.toNat : Int) < i then ceiling else .ofNat i.toNat

mutual

/-- A value with the numbers in it and in the objects in it rounded down and pulled into a range
from zero. -/
def Json.saturated (ceiling : UInt32) : Json → Json
  | .number (.integer i) => .number (.integer (.ofUInt32 (saturate ceiling i.value)))
  | .number (.float x) => .number (.integer (.ofUInt32 (saturate ceiling x.floor)))
  | .object members => .object (saturatedMembers ceiling members)
  | json => json

/-- `Json.saturated` for the value of each member. -/
def Json.saturatedMembers (ceiling : UInt32) : List (String × Json) → List (String × Json)
  | [] => []
  | (key, value) :: rest => (key, value.saturated ceiling) :: Json.saturatedMembers ceiling rest

end

namespace Properties

/-- The forms in which a member that does not fit is tried. -/
def attempts (entry : Json) : List Json :=
  [entry, entry.saturated (.ofNat (UInt32.size - 1)), entry.saturated 255]

/-- Whether a value reads as a record of a kind. -/
def fits (kind : Kind) (json : Json) : Bool :=
  (decode kind json).isOk

/-- A readable value with one more member laid over it, in the first form that fits, if any. -/
def overlay (kind : Kind) (merged : Json) (key : String) (entry : Json) : Json :=
  ((attempts entry).map fun attempt => merged.merge (.object [(key, attempt)])).find? (fits kind)
    |>.getD merged

/-- Reads stored properties. -/
def ofStored (kind : Kind) : Json → Properties
  | .object members =>
    match decode kind (.object members) with
    | .ok properties => properties
    | .error _ =>
      let merged := members.foldl (fun merged (key, entry) => overlay kind merged key entry)
        kind.defaults.encode
      (decode kind merged).toOption.getD kind.defaults
  | _ => kind.defaults

end Properties

end MailTemplate
