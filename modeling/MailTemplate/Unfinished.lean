/-!
# Computations That May Not Finish

A computation that may be refused, and that may also never end. The type of its errors tells the two
apart; steps that can only be refused, or only be without end, are lifted into it.
-/

namespace MailTemplate

/-- Why a computation gives no result. -/
inductive Unfinished (ε : Type) where
  /-- It is refused for a reason. -/
  | refused (reason : ε)
  /-- It never ends. -/
  | endless
deriving DecidableEq

namespace Unfinished

variable {α ε : Type}

/-- A step that may be refused. -/
def ofRefused (step : Except ε α) : Except (Unfinished ε) α :=
  step.mapError .refused

/-- A step that may never end, and then has no result. -/
def ofEndless : (step : Option α) → Except (Unfinished ε) α
  | some a => .ok a
  | none => .error .endless

instance : MonadLift (Except ε) (Except (Unfinished ε)) where
  monadLift := ofRefused

instance : MonadLift Option (Except (Unfinished ε)) where
  monadLift := ofEndless

end Unfinished

end MailTemplate
