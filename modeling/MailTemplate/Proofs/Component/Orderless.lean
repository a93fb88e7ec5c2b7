import MailTemplate.Proofs.Component.Fields
import MailTemplate.Proofs.Json.Orderless

/-!
# Records of Components in Any Order

The record of every kind reads the same from values that differ only in the order of members, the
sides of a padding included.

* `Kind.respects` says it for every kind.
-/

namespace MailTemplate

open Json Json.Codec Json.Shape

@[simp]
theorem Padding.respects : Padding.shape.codec.Respects Eq :=
  Shape.respects (by simp [shape]) (by simp [shape]) rfl

@[simp]
theorem Alignment.respects : Alignment.codec.Respects Eq := respects_choice

@[simp]
theorem Weight.respects : Weight.codec.Respects Eq := respects_choice

@[simp]
theorem LineStyle.respects : LineStyle.codec.Respects Eq := respects_choice

@[simp]
theorem VerticalAlignment.respects : VerticalAlignment.codec.Respects Eq := respects_choice

theorem Page.respects : Page.shape.codec.Respects Eq :=
  Shape.respects (by simp [shape]) (by simp [shape]) rfl

theorem Paragraph.respects : Paragraph.shape.codec.Respects Eq :=
  Shape.respects (by simp [shape]) (by simp [shape]) rfl

theorem Heading.respects : Heading.shape.codec.Respects Eq :=
  Shape.respects (by simp [shape]) (by simp [shape]) rfl

theorem Button.respects : Button.shape.codec.Respects Eq :=
  Shape.respects (by simp [shape]) (by simp [shape]) rfl

theorem Image.respects : Image.shape.codec.Respects Eq :=
  Shape.respects (by simp [shape]) (by simp [shape]) rfl

theorem Divider.respects : Divider.shape.codec.Respects Eq :=
  Shape.respects (by simp [shape]) (by simp [shape]) rfl

theorem Spacer.respects : Spacer.shape.codec.Respects Eq :=
  Shape.respects (by simp [shape]) (by simp [shape]) rfl

theorem Columns.respects : Columns.shape.codec.Respects Eq :=
  Shape.respects (by simp [shape]) (by simp [shape]) rfl

theorem Column.respects : Column.shape.codec.Respects Eq :=
  Shape.respects (by simp [shape]) (by simp [shape]) rfl

/-- The record of a kind reads the same from values that differ only in the order of members. -/
theorem Kind.respects (kind : Kind) : kind.shape.codec.Respects Eq := by
  -- A record of a kind is read as the record itself.
  have hcase : ∀ {ρ : Type} {shape : Json.Shape ρ} {inject : ρ → Properties}
      {project : Properties → Option ρ}, (∀ r, project (inject r) = some r) →
      shape.codec.Respects Eq → (shape.within inject project).codec.Respects Eq := by
    intro ρ shape inject project hproject hrespects a b hab ha
    change Related Eq ((shape.within inject project).decode a)
      ((shape.within inject project).decode b)
    rw [decode_within hproject, decode_within hproject]
    exact (hrespects hab ha).map fun _ _ => congrArg inject
  cases kind with
  | root => exact hcase (fun _ => rfl) Page.respects
  | text => exact hcase (fun _ => rfl) Paragraph.respects
  | heading => exact hcase (fun _ => rfl) Heading.respects
  | button => exact hcase (fun _ => rfl) Button.respects
  | image => exact hcase (fun _ => rfl) Image.respects
  | divider => exact hcase (fun _ => rfl) Divider.respects
  | spacer => exact hcase (fun _ => rfl) Spacer.respects
  | columns => exact hcase (fun _ => rfl) Columns.respects
  | column => exact hcase (fun _ => rfl) Column.respects

end MailTemplate
