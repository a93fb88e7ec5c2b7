import MailTemplate.Component.Limits
import MailTemplate.Proofs.Fallible
import MailTemplate.Proofs.Json.Shape

/-!
# Records of Components

The records of every kind come back as they were when they are written and read, but for a line
height that is not finite, which is written as null.

* `Properties.kind_of_decode` says that a record is read as one of the kind asked for.
* `Properties.decode_encode` says that a record with a finite line height comes back.
-/

namespace MailTemplate

open Json Json.Codec Json.Shape

/-! ## Style values -/

attribute [simp] Field.read_write string_lawful bool_lawful uint8_lawful uint32_lawful

@[simp]
theorem Padding.lawful : Padding.shape.codec.Lawful :=
  Shape.lawful (by decide) fun r => by simp [Padding.shape]

@[simp]
theorem Alignment.lawful : Alignment.codec.Lawful :=
  fun a => named_restores (by cases a <;> rfl)

@[simp]
theorem Weight.lawful : Weight.codec.Lawful :=
  fun a => named_restores (by cases a <;> rfl)

@[simp]
theorem LineStyle.lawful : LineStyle.codec.Lawful :=
  fun a => named_restores (by cases a <;> rfl)

@[simp]
theorem VerticalAlignment.lawful : VerticalAlignment.codec.Lawful :=
  fun a => named_restores (by cases a <;> rfl)

@[simp]
theorem Json.Codec.nullable_uint32_lawful : (nullable uint32).Lawful :=
  nullable_lawful uint32_lawful fun _ h => by cases h

@[simp]
theorem Json.Codec.nullable_string_lawful : (nullable string).Lawful :=
  nullable_lawful string_lawful fun _ h => by cases h

/-! ## One record for each kind -/

theorem Page.lawful : Page.shape.codec.Lawful :=
  Shape.lawful (by decide) fun r => by simp [Page.shape]

theorem Paragraph.restores_lineHeight {r : Paragraph} (h : r.lineHeight.isFinite = true) :
    single.Restores r.lineHeight := by
  obtain ⟨x, hx⟩ : ∃ x, r.lineHeight = .finite x := by
    cases hr : r.lineHeight <;> simp_all [Binary.Value.isFinite]
  exact hx ▸ single_restores x

/-- A text comes back if its line height is finite. -/
theorem Paragraph.restores {r : Paragraph} (h : r.lineHeight.isFinite = true) :
    Paragraph.shape.codec.Restores r := by
  have hline := restores_lineHeight h
  refine (Shape.decode_encode (by decide) r).trans ?_
  simp [Paragraph.shape, Field.read_write_of_restores lineHeight hline]

theorem Heading.lawful : Heading.shape.codec.Lawful :=
  Shape.lawful (by decide) fun r => by simp [Heading.shape]

theorem Button.lawful : Button.shape.codec.Lawful :=
  Shape.lawful (by decide) fun r => by simp [Button.shape]

theorem Image.lawful : Image.shape.codec.Lawful :=
  Shape.lawful (by decide) fun r => by simp [Image.shape]

theorem Divider.lawful : Divider.shape.codec.Lawful :=
  Shape.lawful (by decide) fun r => by simp [Divider.shape]

theorem Spacer.lawful : Spacer.shape.codec.Lawful :=
  Shape.lawful (by decide) fun r => by simp [Spacer.shape]

theorem Columns.lawful : Columns.shape.codec.Lawful :=
  Shape.lawful (by decide) fun r => by simp [Columns.shape]

theorem Column.lawful : Column.shape.codec.Lawful :=
  Shape.lawful (by decide) fun r => by simp [Column.shape]

namespace Properties

/-- A record is read as one of the kind asked for. -/
theorem kind_of_decode {kind : Kind} {json : Json} {properties : Properties}
    (h : decode kind json = .ok properties) : properties.kind = kind := by
  have hcase : ∀ {ρ : Type} {shape : Json.Shape ρ} {inject : ρ → Properties}
      {project : Properties → Option ρ},
      (shape.within inject project).decode json = .ok properties →
      (∀ r, project (inject r) = some r) → (∀ r, (inject r).kind = kind) →
      properties.kind = kind := by
    intro ρ shape inject project hread hproject hkind
    rw [decode_within hproject, map_eq_ok_iff] at hread
    obtain ⟨r, -, rfl⟩ := hread
    exact hkind r
  cases kind <;> exact hcase h (fun _ => rfl) (fun _ => rfl)

/-- The line height, if there is one, is finite. -/
def Finite : Properties → Prop
  | .text r => r.lineHeight.isFinite = true
  | _ => True

/-- A record comes back as it was, unless its line height is not finite. -/
theorem decode_encode {properties : Properties} (h : properties.Finite) :
    decode properties.kind properties.encode = .ok properties := by
  -- A record of a kind is written and read as the record itself.
  have hcase : ∀ {ρ : Type} {shape : Json.Shape ρ} {inject : ρ → Properties}
      {project : Properties → Option ρ} {r : ρ}, (∀ r, project (inject r) = some r) →
      shape.codec.Restores r →
      (shape.within inject project).decode ((shape.within inject project).encode (inject r)) =
        .ok (inject r) := by
    intro ρ shape inject project r hproject hrestores
    rw [encode_within hproject, decode_within hproject]
    exact congrArg (Except.map inject) hrestores
  cases properties with
  | root r => exact hcase (fun _ => rfl) (Page.lawful r)
  | text r => exact hcase (fun _ => rfl) (Paragraph.restores h)
  | heading r => exact hcase (fun _ => rfl) (Heading.lawful r)
  | button r => exact hcase (fun _ => rfl) (Button.lawful r)
  | image r => exact hcase (fun _ => rfl) (Image.lawful r)
  | divider r => exact hcase (fun _ => rfl) (Divider.lawful r)
  | spacer r => exact hcase (fun _ => rfl) (Spacer.lawful r)
  | columns r => exact hcase (fun _ => rfl) (Columns.lawful r)
  | column r => exact hcase (fun _ => rfl) (Column.lawful r)

/-! ## Records in range -/

theorem kind_clamp (properties : Properties) : properties.clamp.kind = properties.kind := by
  cases properties with
  | text r =>
    rw [clamp]
    split <;> rfl
  | _ => rfl

end Properties

theorem clampWidth_clampWidth (width : UInt32) :
    clampWidth (clampWidth width) = clampWidth width := by
  unfold clampWidth
  split
  · rfl
  · split
    · rfl
    · rfl

theorem clampLevel_clampLevel (level : UInt8) :
    clampLevel (clampLevel level) = clampLevel level := by
  unfold clampLevel
  split
  · rfl
  · split
    · rfl
    · rfl

namespace Properties

theorem lineHeight_default :
    (({} : Paragraph).lineHeight.isFinite && !({} : Paragraph).lineHeight.isNegative) = true := by
  decide +kernel

/-- The record is as it should be: pulling it into range changes nothing. -/
def InRange (properties : Properties) : Prop :=
  properties.clamp = properties

/-- A record pulled into range is in range. -/
theorem inRange_clamp (properties : Properties) : properties.clamp.InRange := by
  unfold InRange
  cases properties with
  | root r => rw [clamp, clamp, clampWidth_clampWidth]
  | heading r => rw [clamp, clamp, clampLevel_clampLevel]
  | text r =>
    rw [clamp]
    split
    case isTrue hline => rw [clamp, if_pos hline]
    case isFalse => rw [clamp, if_pos lineHeight_default]
  | _ => rfl

end Properties

theorem Kind.kind_defaults (kind : Kind) : kind.defaults.kind = kind := by
  cases kind <;> rfl

namespace Properties

/-- The default record of a kind is in range. -/
theorem inRange_defaults (kind : Kind) : kind.defaults.InRange := by
  cases kind with
  | text => exact if_pos lineHeight_default
  | _ => rfl

/-- In range, the line height is finite. -/
theorem InRange.finite {properties : Properties} (h : properties.InRange) : properties.Finite := by
  rw [← h]
  cases properties with
  | text r =>
    rw [clamp]
    split
    case isTrue hline => exact (Bool.and_eq_true_iff.1 hline).1
    case isFalse => exact (Bool.and_eq_true_iff.1 lineHeight_default).1
  | _ => trivial

end Properties

end MailTemplate
