import MailTemplate.Proofs.Component.Records
import MailTemplate.Storage.Fallback

/-!
# What Stored Properties Read As

* `kind_ofStored` says that they read as a record of the kind asked for, whatever they are.
* `ofStored_encode` says that the record of a component reads as it was written.
-/

namespace MailTemplate.Properties

theorem kind_ofStored (kind : Kind) (json : Json) : (ofStored kind json).kind = kind := by
  unfold ofStored
  cases json with
  | object members =>
    dsimp only
    split
    case h_1 properties hread => exact kind_of_decode hread
    case h_2 mismatch hread =>
      generalize members.foldl _ _ = merged
      cases hmerged : decode kind merged with
      | ok properties => exact kind_of_decode hmerged
      | error mismatch => exact kind.kind_defaults
  | _ => exact kind.kind_defaults

/-- The record of a component reads as it was written, unless its line height is not finite. -/
theorem ofStored_encode {properties : Properties} (h : properties.Finite) :
    ofStored properties.kind properties.encode = properties := by
  have hread := decode_encode h
  rw [encode, Json.Shape.encode] at hread ⊢
  simp only [ofStored, hread]

end MailTemplate.Properties
