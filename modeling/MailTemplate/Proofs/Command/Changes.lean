import MailTemplate.Command.Basic
import MailTemplate.Proofs.Tree.Upkeep

/-!
# What a Command Is Made Of

A command that applies is its edit, and so made of small changes of a tree; `Command.makings` lists
the ids that it makes. It never ends just if one of these cannot be found (`Command.Exhausts`).
-/

namespace MailTemplate.Command

variable {tree next : Tree} {command : Command} {created : Option NodeId}

/-- The ids that the edit of a command makes, in order and as far as it comes. -/
def editMakings (tree : Tree) : Command → List Making
  | .addComponent kind parent _ => tree.planting kind parent
  | .updateComponent id patch => tree.resizing id patch
  | .setColumnsCount id count =>
    tree.growth id (clampColumns ((natOf? count).getD 0) - (tree.childrenOf id).length)
  | _ => []

/-- The ids that the command makes; none if it does not apply. -/
def makings (tree : Tree) (command : Command) : List Making :=
  match command.execute tree with
  | some (_, .skipped _) => []
  | _ => command.editMakings tree

/-- The command makes an id for which there is no number left. -/
def Exhausts (tree : Tree) (command : Command) : Prop :=
  ∃ m ∈ command.makings tree, m.Stuck

/-- A command that applies is its edit, with the numbers that the edit takes. -/
theorem edit_of_run (hok : command.run tree = .ok (next, created)) :
    match command with
    | .addComponent kind parent index =>
      ∃ id, tree.addComponent kind parent (index.map UInt64.toNat) = .ok (next, id)
    | .removeComponent id => tree.removeComponent id = .ok next
    | .updateComponent id patch => tree.updateComponent id patch = .ok next
    | .reorderComponents parent oldIndex newIndex =>
      tree.reorderComponents parent oldIndex.toNat newIndex.toNat = .ok next
    | .moveComponent id target index => tree.moveComponent id target (index.bind natOf?) = .ok next
    | .setColumnsCount id count => tree.setColumnsCount id ((natOf? count).getD 0) = .ok next := by
  cases command with
  | addComponent kind parent index =>
    obtain ⟨⟨added, id⟩, hadded, hnext⟩ := bind_eq_ok_iff.1 hok
    cases hnext
    exact ⟨id, hadded⟩
  | _ =>
    obtain ⟨edited, hedited, hnext⟩ := bind_eq_ok_iff.1 hok
    cases hnext
    simpa using hedited

/-- What comes of a command is what its run comes to. -/
theorem execute_eq_some_iff {outcome : Outcome} :
    command.execute tree = some (next, outcome) ↔
      (∃ created, command.run tree = .ok (next, created) ∧ outcome = .applied created) ∨
        ∃ reason, command.run tree = .error (.refused reason) ∧ next = tree ∧
          outcome = .skipped reason := by
  unfold execute
  rcases command.run tree with (reason | _) | ⟨result, created⟩
  · simp [eq_comm]
  · simp
  · simp [eq_comm, and_comm]

theorem run_of_execute_eq_none (h : command.execute tree = none) :
    command.run tree = .error .endless := by
  unfold execute at h
  split at h
  · cases h
  · cases h
  · assumption

/-- A command comes down to small changes, with the ids that it makes. -/
theorem changes_execute {outcome : Outcome} (hok : command.execute tree = some (next, outcome)) :
    tree.Changes (command.makings tree) next := by
  rcases execute_eq_some_iff.1 hok with ⟨created, hrun, rfl⟩ | ⟨reason, hrun, rfl, rfl⟩
  · have hedit := edit_of_run hrun
    rw [makings, hok]
    cases command with
    | addComponent kind parent index =>
      obtain ⟨id, hadded⟩ := hedit
      exact Tree.changes_addComponent hadded
    | removeComponent id => exact Tree.changes_removeComponent hedit
    | updateComponent id patch => exact Tree.changes_updateComponent hedit
    | reorderComponents parent oldIndex newIndex => exact Tree.changes_reorderComponents hedit
    | moveComponent id target index => exact Tree.changes_moveComponent hedit
    | setColumnsCount id count => exact Tree.Changes.refl.setColumnsCount hedit
  · rw [makings, hok]
    exact .refl

theorem keeps_execute {outcome : Outcome} (hok : command.execute tree = some (next, outcome)) :
    tree.Keeps next :=
  (changes_execute hok).keeps

/-- A command never ends just if an id that it makes cannot be found. -/
theorem execute_eq_none_iff : command.execute tree = none ↔ command.Exhausts tree := by
  constructor
  · intro hnone
    have hrun := run_of_execute_eq_none hnone
    rw [Exhausts, makings, hnone]
    cases command with
    | addComponent kind parent index =>
      exact Tree.exists_stuck_of_addComponent (bind_pure_eq_error_iff.1 hrun)
    | updateComponent id patch =>
      exact Tree.exists_stuck_of_updateComponent (bind_pure_eq_error_iff.1 hrun)
    | setColumnsCount id count =>
      exact Tree.exists_stuck_of_setColumnsCount (bind_pure_eq_error_iff.1 hrun)
    | _ =>
      -- The other edits make no ids, and all of them end.
      exact absurd (bind_pure_eq_error_iff.1 hrun) Unfinished.liftM_refused_ne_endless
  · rintro ⟨m, hmem, hstuck⟩
    cases hexecute : command.execute tree with
    | none => rfl
    | some result => exact absurd hstuck ((changes_execute hexecute).not_stuck m hmem)

end MailTemplate.Command
