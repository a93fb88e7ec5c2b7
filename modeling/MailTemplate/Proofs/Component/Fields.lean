import MailTemplate.Proofs.Component.Records
import MailTemplate.Proofs.Json.Fields

/-!
# Fields of Components

The fields of every record can be read one by one, and a field is written as an object just if it is
a padding. A stored padding that leaves sides out reads with zeros there; laid over the default
padding of its kind, it reads with the sides of the default.

* `Kind.exists_regular` gives the shape of a kind with its laws.
* `Json.Covers` says that a stored object leaves out no side that the default has.
* `Kind.read_merge_default_iff` says that just then it does not matter whether it is laid over the
  default.
-/

namespace MailTemplate

open Json Json.Codec Json.Shape

/-! ## Fields that are written as objects -/

namespace Json

variable {ρ α β : Type}

/-- No value is written as an object. -/
def Codec.Flat (codec : Codec α) : Prop :=
  ∀ a, (codec.encode a).isObject = false

/-- A field is written as no object, unless it is a padding. -/
inductive Shape.Field.Plain : Shape.Field ρ → Prop
  | flat {field : Shape.Field ρ} (hflat : ∀ r, (field.write r).isObject = false) : field.Plain
  | padding {name : String} {get : ρ → Padding} {set : Padding → ρ → ρ}
      (hget : ∀ p r, get (set p r) = p) : (Field.of name Padding.shape.codec get set).Plain

namespace Codec

@[simp]
theorem flat_string : string.Flat := fun _ => rfl

@[simp]
theorem flat_bool : bool.Flat := fun _ => rfl

@[simp]
theorem flat_uint8 : uint8.Flat := fun _ => rfl

@[simp]
theorem flat_uint32 : uint32.Flat := fun _ => rfl

@[simp]
theorem flat_single : single.Flat := fun a => by cases a <;> rfl

@[simp]
theorem flat_nullable {codec : Codec α} (h : codec.Flat) : (nullable codec).Flat := by
  intro a
  cases a with
  | none => rfl
  | some a => exact h a

@[simp]
theorem flat_choice {all : List α} {name : α → String} : (choice all name).Flat := fun _ => rfl

end Codec

namespace Shape

variable {name : String} {codec : Codec α} {get : ρ → α} {set : α → ρ → ρ}

@[simp]
theorem Field.plain_of_flat (h : codec.Flat) : (Field.of name codec get set).Plain :=
  .flat fun r => h (get r)

attribute [simp] Field.Plain.padding Field.regular_of Field.apart_of Field.exists_holds_iff
  Field.holds_write

@[simp]
theorem restores_of_lawful {codec : Codec α} (h : codec.Lawful) (a : α) : codec.Restores a := h a

end Shape

end Json

@[simp]
theorem Alignment.flat : Alignment.codec.Flat := flat_choice

@[simp]
theorem Weight.flat : Weight.codec.Flat := flat_choice

@[simp]
theorem LineStyle.flat : LineStyle.codec.Flat := flat_choice

@[simp]
theorem VerticalAlignment.flat : VerticalAlignment.codec.Flat := flat_choice

/-! ## The laws of every shape -/

/-- The default line height is written as a number, and comes back. -/
theorem Paragraph.restores_default : single.Restores ({} : Paragraph).lineHeight :=
  restores_lineHeight (Bool.and_eq_true_iff.1 Properties.lineHeight_default).1

theorem Padding.regular : Padding.shape.Regular where
  nodup := by decide
  regular := by simp [shape]
  apart := by simp [shape]
  initial := by simp [shape]
  ext r s h := by
    cases r
    cases s
    simp_all [shape]

theorem Page.regular : Page.shape.Regular where
  nodup := by decide
  regular := by simp [shape]
  apart := by simp [shape]
  initial := by simp [shape]
  ext r s h := by
    cases r
    cases s
    simp_all [shape]

theorem Paragraph.regular : Paragraph.shape.Regular where
  nodup := by decide
  regular := by simp [shape]
  apart := by simp [shape]
  initial := by
    have hline := restores_default
    dsimp only at hline
    simp [shape, hline]
  ext r s h := by
    cases r
    cases s
    simp_all [shape]

theorem Heading.regular : Heading.shape.Regular where
  nodup := by decide
  regular := by simp [shape]
  apart := by simp [shape]
  initial := by simp [shape]
  ext r s h := by
    cases r
    cases s
    simp_all [shape]

theorem Button.regular : Button.shape.Regular where
  nodup := by decide
  regular := by simp [shape]
  apart := by simp [shape]
  initial := by simp [shape]
  ext r s h := by
    cases r
    cases s
    simp_all [shape]

theorem Image.regular : Image.shape.Regular where
  nodup := by decide
  regular := by simp [shape]
  apart := by simp [shape]
  initial := by simp [shape]
  ext r s h := by
    cases r
    cases s
    simp_all [shape]

theorem Divider.regular : Divider.shape.Regular where
  nodup := by decide
  regular := by simp [shape]
  apart := by simp [shape]
  initial := by simp [shape]
  ext r s h := by
    cases r
    cases s
    simp_all [shape]

theorem Spacer.regular : Spacer.shape.Regular where
  nodup := by decide
  regular := by simp [shape]
  apart := by simp [shape]
  initial := by simp [shape]
  ext r s h := by
    cases r
    cases s
    simp_all [shape]

theorem Columns.regular : Columns.shape.Regular where
  nodup := by decide
  regular := by simp [shape]
  apart := by simp [shape]
  initial := by simp [shape]
  ext r s h := by
    cases r
    cases s
    simp_all [shape]

theorem Column.regular : Column.shape.Regular where
  nodup := by decide
  regular := by simp [shape]
  apart := by simp [shape]
  initial := by simp [shape]
  ext r s h := by
    cases r
    cases s
    simp_all [shape]

/-- The records of a kind are one case of the records of all kinds, with regular fields. -/
theorem Kind.exists_regular (kind : Kind) :
    ∃ (ρ : Type) (shape : Shape ρ) (inject : ρ → Properties) (project : Properties → Option ρ),
      kind.shape = shape.within inject project ∧ (∀ r, project (inject r) = some r) ∧
      shape.Regular ∧ ∀ field ∈ shape.fields, field.Plain := by
  cases kind with
  | root => exact ⟨_, _, _, _, rfl, fun _ => rfl, Page.regular, by simp [Page.shape]⟩
  | text => exact ⟨_, _, _, _, rfl, fun _ => rfl, Paragraph.regular, by simp [Paragraph.shape]⟩
  | heading => exact ⟨_, _, _, _, rfl, fun _ => rfl, Heading.regular, by simp [Heading.shape]⟩
  | button => exact ⟨_, _, _, _, rfl, fun _ => rfl, Button.regular, by simp [Button.shape]⟩
  | image => exact ⟨_, _, _, _, rfl, fun _ => rfl, Image.regular, by simp [Image.shape]⟩
  | divider => exact ⟨_, _, _, _, rfl, fun _ => rfl, Divider.regular, by simp [Divider.shape]⟩
  | spacer => exact ⟨_, _, _, _, rfl, fun _ => rfl, Spacer.regular, by simp [Spacer.shape]⟩
  | columns => exact ⟨_, _, _, _, rfl, fun _ => rfl, Columns.regular, by simp [Columns.shape]⟩
  | column => exact ⟨_, _, _, _, rfl, fun _ => rfl, Column.regular, by simp [Column.shape]⟩

/-! ## Padding that leaves sides out -/

/-- An object that is stored leaves out only sides that are zero in the default object, if the
default is an object. -/
def Json.Covers (default stored : Json) : Prop :=
  ∀ sides named, default = .object sides → stored = .object named →
    ∀ side ∈ sides, side.1 ∉ named.map Prod.fst → side.2 = uint32.encode 0

namespace Padding

variable {field : Shape.Field Padding} {padding : Padding} {named : List (String × Json)}

theorem flat_write (padding : Padding) :
    ∀ field ∈ shape.fields, (field.write padding).isObject = false := by
  simp [shape, Field.write_of, uint32, integer, isObject]

theorem isOk_read_write (padding : Padding) :
    ∀ field ∈ shape.fields, (field.read (field.write padding) shape.initial).isOk = true := by
  simp [shape, Except.isOk, Except.toBool]

theorem holds_write (padding : Padding) :
    ∀ field ∈ shape.fields, field.Holds (field.write padding) padding := by
  simp [shape]

/-- What a side is written as says what it is. -/
theorem write_eq_of_holds {padding padding' : Padding} :
    ∀ field ∈ shape.fields, field.Holds (field.write padding) padding' →
      field.write padding = field.write padding' := by
  simp +contextual [shape, Field.write_of, Field.holds_encode_iff]

theorem write_initial : ∀ field ∈ shape.fields, field.write shape.initial = uint32.encode 0 := by
  simp [shape, Field.write_of, uniform]

/-- The sides of a padding that an object is laid over are those that it names, and else its own. -/
theorem lookup_merge (hkeys : (named.map Prod.fst).Nodup) (hmem : field ∈ shape.fields) :
    lookup field.name (mergeMembers (shape.written padding) named) =
      some ((lookup field.name named).getD (field.write padding)) := by
  rw [lookup_mergeMembers hkeys, lookup_written regular.nodup hmem]
  cases lookup field.name named with
  | none => rfl
  | some value => exact congrArg some (merge_eq_self (.inl (flat_write padding field hmem)))

theorem isOk_decode_merge (hkeys : (named.map Prod.fst).Nodup)
    (hok : (shape.decode (.object named)).isOk = true) :
    (shape.decode (.object (mergeMembers (shape.written padding) named))).isOk = true := by
  rw [regular.isOk_decode_iff] at hok ⊢
  rintro ⟨key, value⟩ hmember field hfield
  obtain ⟨hmem, rfl⟩ := mem_of_field?_eq_some hfield
  have hmerged := nodup_keys_mergeMembers (nodup_written regular.nodup padding) named
  rw [← lookup_eq_some_iff hmerged, lookup_merge hkeys hmem] at hmember
  obtain rfl := Option.some.inj hmember
  cases hfound : lookup field.name named with
  | none => exact isOk_read_write padding field hmem
  | some value => exact hok _ (mem_of_lookup_eq_some hfound) field hfield

theorem decode_merge_iff (hkeys : (named.map Prod.fst).Nodup)
    (hok : (shape.decode (.object named)).isOk = true) :
    shape.decode (.object named) =
        shape.decode (.object (mergeMembers (shape.written padding) named)) ↔
      Covers (shape.encode padding) (.object named) := by
  have hmerged := nodup_keys_mergeMembers (nodup_written regular.nodup padding) named
  rw [regular.decode_eq_iff hkeys hmerged hok (isOk_decode_merge hkeys hok)]
  constructor
  · rintro hall _ _ ⟨⟩ ⟨⟩ _ hside hnot
    obtain ⟨field, hmem, rfl⟩ := List.mem_map.1 hside
    have heq := hall field hmem
    rw [entry, entry, lookup_merge hkeys hmem, lookup_eq_none_iff.2 hnot] at heq
    -- It holds zero there, since it is read alike from zero and from what it is written as.
    have hheld : field.Holds (field.write shape.initial) padding := by
      rw [Field.Holds]
      exact (congrFun heq padding).trans (holds_write padding field hmem)
    rw [← write_eq_of_holds field hmem hheld, write_initial field hmem]
  · intro hcovers field hmem
    rw [entry, entry, lookup_merge hkeys hmem]
    cases hfound : lookup field.name named with
    | some value => rfl
    | none =>
      rw [lookup_eq_none_iff] at hfound
      have hzero : field.write padding = uint32.encode 0 :=
        hcovers _ _ rfl rfl _ (List.mem_map_of_mem hmem) hfound
      rw [Option.getD_none, Option.getD_some, Option.getD_none, hzero, write_initial field hmem]

end Padding

namespace Json.Shape.Field.Plain

variable {ρ : Type} {field : Shape.Field ρ} {value : Json}

theorem isOk_read_merge (h : field.Plain) (r s : ρ) (hvalue : value.Distinct)
    (hok : (field.read value s).isOk = true) :
    (field.read ((field.write r).merge value) s).isOk = true := by
  cases h with
  | flat hflat => rwa [merge_eq_self (.inl (hflat r))]
  | @padding name get set hget =>
    cases value with
    | object named =>
      dsimp only [Field.of] at hok ⊢
      rw [isOk_map] at hok ⊢
      exact Padding.isOk_decode_merge hvalue.nodup_keys hok
    | _ => rwa [merge_eq_self (.inr rfl)]

/-- It does not matter whether an object is laid over a padding just if it leaves out no side that
is not zero. -/
theorem read_merge_iff (h : field.Plain) (r s : ρ) (hvalue : value.Distinct)
    (hok : (field.read value s).isOk = true) :
    field.read value = field.read ((field.write r).merge value) ↔
      Covers (field.write r) value := by
  cases h with
  | flat hflat =>
    rw [merge_eq_self (.inl (hflat r))]
    refine iff_of_true rfl fun sides named hdefault _ => ?_
    have hobject := hflat r
    rw [hdefault] at hobject
    cases hobject
  | @padding name get set hget =>
    rw [Field.read_of_eq_iff hget r]
    cases value with
    | object named =>
      dsimp only [Field.of] at hok
      rw [isOk_map] at hok
      exact Padding.decode_merge_iff hvalue.nodup_keys hok
    | _ =>
      rw [merge_eq_self (.inr rfl)]
      exact iff_of_true rfl fun _ _ _ hobject => nomatch hobject

end Json.Shape.Field.Plain

/-! ## Records of any kind -/

namespace Kind

variable {kind : Kind} {field : Shape.Field Properties} {value : Json}

theorem nodup_names (kind : Kind) : (kind.shape.fields.map Field.name).Nodup := by
  cases kind <;> decide

/-- A field of a kind is a field of the records that are the kind's case of all records. -/
theorem exists_plain (hmem : field ∈ kind.shape.fields) :
    ∃ (ρ : Type) (inner : Shape.Field ρ) (inject : ρ → Properties)
      (project : Properties → Option ρ) (initial : ρ), field = inner.within inject project ∧
      (∀ r, project (inject r) = some r) ∧ inner.Plain ∧ kind.defaults = inject initial := by
  obtain ⟨ρ, shape, inject, project, hshape, hproject, -, hplain⟩ := kind.exists_regular
  rw [hshape] at hmem
  obtain ⟨inner, hinner, rfl⟩ := List.mem_map.1 hmem
  refine ⟨ρ, inner, inject, project, shape.initial, rfl, hproject, hplain inner hinner, ?_⟩
  rw [defaults, hshape]
  rfl

theorem isOk_read_merge_default (hmem : field ∈ kind.shape.fields) (hvalue : value.Distinct)
    (hok : (field.read value kind.defaults).isOk = true) :
    (field.read ((field.write kind.defaults).merge value) kind.defaults).isOk = true := by
  obtain ⟨ρ, inner, inject, project, initial, rfl, hproject, hplain, hdefaults⟩ :=
    exists_plain hmem
  rw [hdefaults, inner.read_within hproject, isOk_map] at hok ⊢
  rw [write_within hproject]
  exact hplain.isOk_read_merge _ _ hvalue hok

/-- It does not matter whether a stored value is laid over the default of its field just if it
leaves out no side of a padding that is not zero by default. -/
theorem read_merge_default_iff (hmem : field ∈ kind.shape.fields) (hvalue : value.Distinct)
    (hok : (field.read value kind.defaults).isOk = true) :
    field.read value = field.read ((field.write kind.defaults).merge value) ↔
      Covers (field.write kind.defaults) value := by
  obtain ⟨ρ, inner, inject, project, initial, rfl, hproject, hplain, hdefaults⟩ :=
    exists_plain hmem
  rw [hdefaults, inner.read_within hproject, isOk_map] at hok
  rw [hdefaults, write_within hproject, read_within_eq_iff hproject]
  exact hplain.read_merge_iff _ _ hvalue hok

end Kind

namespace Properties

variable {kind : Kind} {members members' : List (String × Json)}

/-- An object can be read just if each member can be read for its field. -/
theorem isOk_decode_object_iff :
    (decode kind (.object members)).isOk = true ↔
      ∀ member ∈ members, kind.shape.Takes member.1 member.2 := by
  obtain ⟨ρ, shape, inject, project, hshape, hproject, hregular, -⟩ := kind.exists_regular
  rw [decode, hshape, isOk_decode_within hproject, hregular.isOk_decode_iff]
  exact forall₂_congr fun _ _ => (takes_within hproject).symm

/-- Two objects read as the same record just if each field is read alike from both. -/
theorem decode_object_eq_iff (hkeys : (members.map Prod.fst).Nodup)
    (hkeys' : (members'.map Prod.fst).Nodup) (hok : (decode kind (.object members)).isOk = true)
    (hok' : (decode kind (.object members')).isOk = true) :
    decode kind (.object members) = decode kind (.object members') ↔
      ∀ field ∈ kind.shape.fields,
        field.read (kind.shape.entry members field) =
          field.read (kind.shape.entry members' field) := by
  obtain ⟨ρ, shape, inject, project, hshape, hproject, hregular, -⟩ := kind.exists_regular
  rw [decode, hshape, isOk_decode_within hproject] at hok hok'
  rw [decode, decode, hshape, decode_within_eq_iff hproject,
    hregular.decode_eq_iff hkeys hkeys' hok hok']
  refine Iff.trans (forall₂_congr fun field _ => ?_) (forall_fields_within inject project).symm
  rw [entry_within hproject, entry_within hproject, read_within_eq_iff hproject]

end Properties

end MailTemplate
