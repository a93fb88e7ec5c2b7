/-!
# Ranges of Code Points

A property of characters, given by the ranges of code points that have it.
-/

namespace MailTemplate.Text

/-- Closed ranges of code points. -/
abbrev Ranges : Type := List (Nat × Nat)

/-- Whether a character lies in one of the ranges. -/
def Ranges.has (ranges : Ranges) (c : Char) : Bool :=
  ranges.any fun r => r.1 ≤ c.toNat && c.toNat ≤ r.2

end MailTemplate.Text
