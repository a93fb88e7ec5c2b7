import MailTemplate.Json.Codec
import MailTemplate.Proofs.Binary.Rounding
import Mathlib.Data.List.Nodup

/-!
# Reading What Was Written

Which codecs give back the values that they wrote, and what a record reads as when it is written
and read by one shape.

* `Codec.Restores` and `Codec.Lawful` say that a value, and every value, comes back.
* `Shape.decode_encode` reduces reading a written record to reading its members in order.
* `Shape.decode_within` and `Shape.encode_within` move between a record and the larger type of which
  it is one case.
-/

namespace MailTemplate.Json

open Binary

variable {α ρ τ : Type}

namespace Codec

/-- A value comes back as it was. -/
def Restores (codec : Codec α) (a : α) : Prop :=
  codec.decode (codec.encode a) = .ok a

/-- Every value comes back as it was. -/
def Lawful (codec : Codec α) : Prop :=
  ∀ a, codec.Restores a

theorem string_lawful : string.Lawful := fun _ => rfl

theorem bool_lawful : bool.Lawful := fun _ => rfl

theorem integer_lawful {name : String} {ofInt? : Int → Option α} {toInteger : α → Integer}
    (h : ∀ a, ofInt? (toInteger a).value = some a) : (integer name ofInt? toInteger).Lawful := by
  intro a
  simp only [Restores, integer, h]

theorem uint8_lawful : uint8.Lawful := by
  refine integer_lawful fun n => ?_
  have hn : n.toNat < 256 := n.toNat_lt
  simp only [Integer.ofUInt8, Int.toNat_natCast, UInt8.ofNat_toNat]
  exact if_pos (by omega)

theorem uint32_lawful : uint32.Lawful := by
  refine integer_lawful fun n => ?_
  have hn : n.toNat < 4294967296 := n.toNat_lt
  simp only [Integer.ofUInt32, Int.toNat_natCast, UInt32.ofNat_toNat]
  exact if_pos (by omega)

theorem uint64_lawful : uint64.Lawful := by
  refine integer_lawful fun n => ?_
  have hn : n.toNat < 18446744073709551616 := n.toNat_lt
  simp only [Integer.ofUInt64, Int.toNat_natCast, UInt64.ofNat_toNat]
  exact if_pos (by omega)

theorem int64_lawful : int64.Lawful := by
  refine integer_lawful fun n => ?_
  simp only [Integer.ofInt64, Int64.ofInt_toInt]
  exact if_pos ⟨n.minValue_le_toInt, n.toInt_le⟩

/-- A finite number comes back from the 64-bit form in which it is written. -/
theorem single_restores (x : Finite .single) : single.Restores (.finite x) :=
  congrArg Except.ok x.narrow_widen

/-- Null stands for no value, so no value may be written as null. -/
theorem nullable_lawful {codec : Codec α} (h : codec.Lawful) (hnull : ∀ a, codec.encode a ≠ .null) :
    (nullable codec).Lawful := by
  intro a
  cases a with
  | none => rfl
  | some a =>
    have hvalue : codec.decode (codec.encode a) = .ok a := h a
    simp only [Restores, nullable]
    split
    case h_1 heq => exact absurd heq (hnull a)
    case h_2 => rw [hvalue]; rfl

/-- A name comes back if the list of those known gives it the value. -/
theorem named_restores {known : List (String × α)} {isUnit : Json → Bool} {name : α → String}
    {a : α} (h : known.find? (·.1 == name a) = some (name a, a)) :
    (named known isUnit name).Restores a := by
  simp only [Restores, named, variant, h]

end Codec

namespace Shape

variable {shape : Shape ρ} {inject : ρ → τ} {project : τ → Option ρ}

/-! ## One case of a larger type -/

/-- A member of a record, as a member of the larger type. -/
def Field.within (inject : ρ → τ) (project : τ → Option ρ) (field : Field ρ) : Field τ where
  name := field.name
  read json t := match project t with
    | some r => inject <$> field.read json r
    | none => .ok t
  write t := match project t with
    | some r => field.write r
    | none => .null

theorem field?_within (key : String) :
    (shape.within inject project).field? key =
      (shape.field? key).map (Field.within inject project) := by
  rw [field?, within, List.find?_map]
  rfl

section Within

variable (hproject : ∀ r, project (inject r) = some r)
include hproject

theorem Field.read_within (field : Field ρ) (json : Json) (record : ρ) :
    (field.within inject project).read json (inject record) =
      inject <$> field.read json record := by
  simp only [Field.within, hproject]

theorem readMembers_within (record : ρ) (members : List (String × Json)) :
    (shape.within inject project).readMembers (inject record) members =
      inject <$> shape.readMembers record members := by
  induction members generalizing record with
  | nil => rfl
  | cons member members ih =>
    obtain ⟨key, value⟩ := member
    rw [readMembers, readMembers, field?_within]
    cases shape.field? key with
    | none => exact ih record
    | some field =>
      simp only [Option.map_some, field.read_within hproject]
      cases field.read value record with
      | error mismatch => rfl
      | ok record => exact ih record

theorem readItems_within (record : ρ) (fields : List (Field ρ)) (items : List Json) :
    readItems (inject record) (fields.map (Field.within inject project)) items =
      (Prod.map inject id) <$> readItems record fields items := by
  induction fields generalizing record items with
  | nil => cases items <;> rfl
  | cons field fields ih =>
    cases items with
    | nil => rfl
    | cons item items =>
      rw [List.map_cons, readItems, readItems, field.read_within hproject]
      cases field.read item record with
      | error mismatch => rfl
      | ok record => exact ih record items

/-- Reading a record as a case of a larger type is reading it. -/
theorem decode_within (json : Json) :
    (shape.within inject project).decode json = inject <$> shape.decode json := by
  cases json with
  | object members => exact readMembers_within hproject shape.initial members
  | array items =>
    have hitems := readItems_within hproject shape.initial shape.fields items
    rw [decode, decode]
    refine (congrArg (· >>= _) hitems).trans ?_
    rcases readItems shape.initial shape.fields items with mismatch | ⟨record, more⟩
    · rfl
    · cases more <;> rfl
  | _ => rfl

/-- Writing a record as a case of a larger type is writing it. -/
theorem encode_within (record : ρ) :
    (shape.within inject project).encode (inject record) = shape.encode record := by
  rw [encode, encode, within, List.map_map]
  simp only [Function.comp_def, hproject]

end Within

/-! ## A written record -/

/-- If the names are different, the member of a name is the only one that has it. -/
theorem field?_of_mem (hnodup : (shape.fields.map Field.name).Nodup) {field : Field ρ}
    (hmem : field ∈ shape.fields) : shape.field? field.name = some field := by
  obtain ⟨found, hfound⟩ : ∃ found, shape.fields.find? (·.name == field.name) = some found :=
    Option.isSome_iff_exists.1 (List.find?_isSome.2 ⟨field, hmem, beq_self_eq_true _⟩)
  have hname : found.name = field.name := by simpa using List.find?_some hfound
  rw [field?, hfound,
    List.inj_on_of_nodup_map hnodup (List.mem_of_find?_eq_some hfound) hmem hname]

theorem readMembers_written (hnodup : (shape.fields.map Field.name).Nodup) (record start : ρ)
    {fields : List (Field ρ)} (hsub : fields ⊆ shape.fields) :
    shape.readMembers start (fields.map fun field => (field.name, field.write record)) =
      fields.foldlM (fun read field => field.read (field.write record) read) start := by
  induction fields generalizing start with
  | nil => rfl
  | cons field fields ih =>
    rw [List.map_cons, List.foldlM_cons, readMembers]
    simp only [field?_of_mem hnodup (hsub List.mem_cons_self)]
    cases field.read (field.write record) start with
    | error mismatch => rfl
    | ok read => exact ih read fun _ h => hsub (List.mem_cons_of_mem _ h)

/-- A written record reads as its members one after the other. -/
theorem decode_encode (hnodup : (shape.fields.map Field.name).Nodup) (record : ρ) :
    shape.decode (shape.encode record) =
      shape.fields.foldlM (fun read field => field.read (field.write record) read) shape.initial :=
  readMembers_written hnodup record shape.initial (List.Subset.refl _)

/-- A shape whose members set the whole record gives back every record. -/
theorem lawful (hnodup : (shape.fields.map Field.name).Nodup)
    (hfields : ∀ record, shape.fields.foldlM
      (fun read field => field.read (field.write record) read) shape.initial = .ok record) :
    shape.codec.Lawful :=
  fun record => (decode_encode hnodup record).trans (hfields record)

section Member

variable {name : String} {codec : Codec α} {get : ρ → α} {set : α → ρ → ρ}

/-- A member that comes back is set to what it was. -/
theorem Field.read_write_of_restores (get : ρ → α) {record : ρ}
    (h : codec.Restores (get record)) (start : ρ) :
    (Field.of name codec get set).read ((Field.of name codec get set).write record) start =
      .ok (set (get record) start) :=
  congrArg (Except.map (set · start)) h

theorem Field.read_write (h : codec.Lawful) (record start : ρ) :
    (Field.of name codec get set).read ((Field.of name codec get set).write record) start =
      .ok (set (get record) start) :=
  Field.read_write_of_restores get (h _) start

end Member

end Shape

end MailTemplate.Json
