import MailTemplate.Json.Mismatch

/-!
# Typed Values in JSON

A `Codec` reads and writes the values of a type as JSON. A `Shape` does so for a record, member by
member: an object may leave members out and hold others, and a list gives the members in order.

* `Shape.decode` reports the first member that does not fit, in the order in which they stand.
* `Shape.encode` writes every member, in the order of the shape.
-/

namespace MailTemplate.Json

open Binary

/-- How the values of a type are read from JSON and written as JSON. -/
structure Codec (α : Type) where
  /-- Reads a value. -/
  decode : Json → Except Mismatch α
  /-- Writes a value. -/
  encode : α → Json

/-- The error for a value of another type. -/
def wrongType (json : Json) (expected : String) : Except Mismatch α :=
  .error (.wrongType json.found expected)

namespace Codec

/-- Texts. -/
def string : Codec String where
  decode
    | .string s => .ok s
    | json => wrongType json "a string"
  encode := .string

/-- Truth values. -/
def bool : Codec Bool where
  decode
    | .bool b => .ok b
    | json => wrongType json "a boolean"
  encode := .bool

/-- Whole numbers in a range, by the name of their type. -/
def integer (name : String) (ofInt? : Int → Option α) (toInteger : α → Integer) : Codec α where
  decode
    | .number (.integer i) =>
      match ofInt? i.value with
      | some a => .ok a
      | none => .error (.wrongValue (.number (.integer i)) name)
    | json => wrongType json name
  encode a := .number (.integer (toInteger a))

/-- Unsigned bytes. -/
def uint8 : Codec UInt8 :=
  integer "u8" (fun i => if 0 ≤ i ∧ i < 256 then some (.ofNat i.toNat) else none) .ofUInt8

/-- Unsigned 32-bit words. -/
def uint32 : Codec UInt32 :=
  integer "u32" (fun i => if 0 ≤ i ∧ i < 4294967296 then some (.ofNat i.toNat) else none) .ofUInt32

/-- Unsigned 64-bit words. -/
def uint64 : Codec UInt64 :=
  integer "usize" (fun i =>
    if 0 ≤ i ∧ i < 18446744073709551616 then some (.ofNat i.toNat) else none)
    .ofUInt64

/-- Signed 64-bit words. -/
def int64 : Codec Int64 :=
  integer "i64"
    (fun i => if Int64.minValue.toInt ≤ i ∧ i ≤ Int64.maxValue.toInt then some (.ofInt i) else none)
    .ofInt64

/-- Any number, rounded to the 32-bit format. A value that is not finite is written as null. -/
def single : Codec (Value .single) where
  decode
    | .number (.integer i) => .ok (.ofInt .single i.value)
    | .number (.float x) => .ok x.narrow
    | json => wrongType json "f32"
  encode
    | .finite x => .number (.float x.widen)
    | _ => .null

/-- A value or null. -/
def nullable (codec : Codec α) : Codec (Option α) where
  decode
    | .null => .ok none
    | json => some <$> codec.decode json
  encode
    | some a => codec.encode a
    | none => .null

/-- The value of a name among those known. -/
def variant (known : List (String × α)) (name : String) : Except Mismatch α :=
  match known.find? (·.1 == name) with
  | some (_, a) => .ok a
  | none => .error (.unknownVariant name (known.map (·.1)))

/-- One of finitely many named values: its name, or an object that gives the name a unit value. -/
def named (known : List (String × α)) (isUnit : Json → Bool) (name : α → String) : Codec α where
  decode
    | .string s => variant known s
    | .object [(s, value)] => do
      let a ← variant known s
      if isUnit value then return a else wrongType value "unit"
    | .object _ => .error (.wrongValue .object "map with a single key")
    | json => wrongType json "string or map"
  encode a := .string (name a)

end Codec

/-- Whether a value is null. -/
def isNull : Json → Bool
  | .null => true
  | _ => false

/-- Whether a value is null or an object without members. -/
def isNullOrEmpty : Json → Bool
  | .null | .object [] => true
  | _ => false

/-- One member of a record: its name, and how it is read into the record and written from it. -/
structure Shape.Field (ρ : Type) where
  /-- The key of the member. -/
  name : String
  /-- The record with the member read from a value. -/
  read : Json → ρ → Except Mismatch ρ
  /-- The value of the member. -/
  write : ρ → Json

/-- A member that a codec reads and writes. -/
def Shape.Field.of (name : String) (codec : Codec α) (get : ρ → α) (set : α → ρ → ρ) :
    Shape.Field ρ where
  name := name
  read json r := (set · r) <$> codec.decode json
  write r := codec.encode (get r)

/-- The members of a record, and the record that stands for absent ones. -/
structure Shape (ρ : Type) where
  /-- What messages call the record. -/
  title : String
  /-- The record without members. -/
  initial : ρ
  /-- The members in order. -/
  fields : List (Shape.Field ρ)

namespace Shape

/-- The member of a name. -/
def field? (shape : Shape ρ) (name : String) : Option (Shape.Field ρ) :=
  shape.fields.find? (·.name == name)

/-- Reads the members of an object into a record, one after the other. -/
def readMembers (shape : Shape ρ) (record : ρ) : List (String × Json) → Except Mismatch ρ
  | [] => .ok record
  | (key, value) :: rest =>
    match shape.field? key with
    | some field => do shape.readMembers (← field.read value record) rest
    | none => shape.readMembers record rest

/-- Reads the items of a list into the members in order. The flag tells whether items are left. -/
def readItems (record : ρ) : List (Shape.Field ρ) → List Json → Except Mismatch (ρ × Bool)
  | _, [] => .ok (record, false)
  | [], _ => .ok (record, true)
  | field :: fields, item :: items => do readItems (← field.read item record) fields items

/-- Reads a record. -/
def decode (shape : Shape ρ) : Json → Except Mismatch ρ
  | .object members => shape.readMembers shape.initial members
  | .array items => do
    let (record, more) ← readItems shape.initial shape.fields items
    if more then .error (.wrongLength items.length "fewer elements in array") else return record
  | json => wrongType json shape.title

/-- Writes a record. -/
def encode (shape : Shape ρ) (record : ρ) : Json :=
  .object (shape.fields.map fun field => (field.name, field.write record))

/-- A shape reads and writes its records. -/
def codec (shape : Shape ρ) : Codec ρ :=
  ⟨shape.decode, shape.encode⟩

/-- The shape of the records that are one case of a larger type. -/
def within (shape : Shape ρ) (inject : ρ → τ) (project : τ → Option ρ) : Shape τ where
  title := shape.title
  initial := inject shape.initial
  fields := shape.fields.map fun field =>
    { name := field.name
      read := fun json t => match project t with
        | some r => inject <$> field.read json r
        | none => .ok t
      write := fun t => match project t with
        | some r => field.write r
        | none => .null }

end Shape

end MailTemplate.Json
