import MailTemplate.Proofs.Command.Changes

/-!
# Commands Keep Trees Sound

A command takes a tree without violations to a tree without violations, whether it applies or not,
as long as there is a number left for each id that it makes.
-/

namespace MailTemplate.Command

variable {tree next : Tree} {command : Command} {outcome : Outcome}

theorem sound_execute (h : tree.Sound) (hok : command.execute tree = some (next, outcome)) :
    next.Sound := by
  rcases execute_eq_some_iff.1 hok with ⟨created, hrun, -⟩ | ⟨-, -, rfl, -⟩
  · have hedit := edit_of_run hrun
    cases command with
    | addComponent kind parent index =>
      obtain ⟨id, hadded⟩ := hedit
      exact h.addComponent hadded
    | removeComponent id => exact h.removeComponent hedit
    | updateComponent id patch => exact h.updateComponent hedit
    | reorderComponents parent oldIndex newIndex => exact h.reorderComponents hedit
    | moveComponent id target index => exact h.moveComponent hedit
    | setColumnsCount id count => exact h.setColumnsCount hedit
  · exact h

/-- A command that can find its ids comes to an end. -/
theorem exists_execute (hids : ¬ command.Exhausts tree) :
    ∃ next outcome, command.execute tree = some (next, outcome) := by
  rw [← execute_eq_none_iff, ← ne_eq, Option.ne_none_iff_exists'] at hids
  obtain ⟨⟨next, outcome⟩, hok⟩ := hids
  exact ⟨next, outcome, hok⟩

theorem not_exhausts_of_isSome (h : (command.execute tree).isSome = true) :
    ¬ command.Exhausts tree := by
  rwa [← execute_eq_none_iff, ← ne_eq, ← Option.isSome_iff_ne_none]

/-- A command leaves a tree without violations, whether it applies or not. -/
theorem violations_execute (tree : Tree) (command : Command) (hsound : tree.violations = [])
    (hids : ¬ command.Exhausts tree) :
    ∃ next outcome, command.execute tree = some (next, outcome) ∧ next.violations = [] := by
  obtain ⟨next, outcome, hok⟩ := exists_execute hids
  rw [Tree.violations_eq_nil_iff_sound] at hsound
  exact ⟨next, outcome, hok, Tree.violations_eq_nil_iff_sound.2 (sound_execute hsound hok)⟩

/-- A row with its columns is added to the tree of the root alone. -/
theorem violations_execute_addRow :
    let addRow := addComponent .columns rootId none
    Tree.empty.violations = [] ∧ ¬ addRow.Exhausts Tree.empty ∧
      ∃ next outcome, addRow.execute Tree.empty = some (next, outcome) ∧ next.violations = [] := by
  intro addRow
  have hsound : Tree.empty.violations = [] := by decide +kernel
  have hids : ¬ addRow.Exhausts Tree.empty := not_exhausts_of_isSome (by decide +kernel)
  exact ⟨hsound, hids, violations_execute _ _ hsound hids⟩

end MailTemplate.Command
