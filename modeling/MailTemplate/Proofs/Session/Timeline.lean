import MailTemplate.Proofs.Session.Soundness

/-!
# Sessions and Their Timelines

A step of a session is at most one step of its timeline, so that what holds of a timeline holds of
the one of a session.
-/

namespace MailTemplate.Session

variable {s next : Session}

/-- What a step does with the timeline: nothing if it only selects, or if it is a command that does
not apply. -/
def move? (s : Session) : Step → Option History.Step
  | .apply command =>
    match command.execute s.tree with
    | some (next, .applied _) => some (.commit next)
    | _ => none
  | .select _ => none
  | .undo => some .undo
  | .redo => some .redo
  | .clearHistory => some .clear
  | .load records => (Tree.ofRecords records).map .reset

/-- A command that applies is committed, and no other is. -/
theorem move?_apply {command : Command} {edited : Tree} {outcome : Outcome}
    (hexecute : command.execute s.tree = some (edited, outcome)) :
    s.move? (.apply command) = if outcome.isApplied then some (.commit edited) else none := by
  rw [move?, hexecute]
  cases outcome <;> rfl

theorem history_after {step : Step} (hok : s.after step = some next) :
    next.history = (s.move? step).elim s.history s.history.after := by
  cases step with
  | apply command =>
    obtain ⟨⟨outcome, applied⟩, happly, rfl⟩ := Option.map_eq_some_iff.1 hok
    obtain ⟨edited, hexecute, rfl⟩ := apply_eq_some_iff.1 happly
    rw [move?_apply hexecute]
    cases happlied : outcome.isApplied with
    | false => rfl
    | true =>
      -- What does not change anything is neither committed nor taken over.
      cases hsame : edited.agrees s.tree with
      | false => rfl
      | true => exact congrArg Prod.snd (History.commit_of_agrees hsame).symm
  | select id =>
    cases hok
    show (s.select id).2.history = s.history
    unfold select
    cases id with
    | none => rfl
    | some id =>
      dsimp only
      split <;> rfl
  | undo =>
    cases hok
    show s.undo.2.history = s.history.undo.2
    unfold undo History.undo
    cases s.history.past <;> rfl
  | redo =>
    cases hok
    show s.redo.2.history = s.history.redo.2
    unfold redo History.redo
    cases s.history.future <;> rfl
  | clearHistory =>
    cases hok
    rfl
  | load records =>
    obtain ⟨tree, hload, rfl⟩ := Option.map_eq_some_iff.1 hok
    rw [move?, hload]
    rfl

end MailTemplate.Session
