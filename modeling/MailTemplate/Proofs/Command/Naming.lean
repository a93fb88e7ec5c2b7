import MailTemplate.Proofs.Command.Changes
import MailTemplate.Proofs.Tree.Numbers

/-!
# Ids along a Run of Commands

Commands that are run one after the other, and the ids that they make on the way.

* `executeAll` runs commands on a tree, if all of them end; `executeAll_invariant` takes what each
  command keeps through a run.
* `not_contains_makings` says that an id that is made was in no tree of the run so far,
  `contains_execute_iff` that the ids that are new after a command are those that it has made.
-/

namespace MailTemplate.Command

variable {start tree next last : Tree} {command : Command} {commands : List Command}
  {outcome : Outcome}

/-- The tree after running commands one by one; those that do not apply are skipped. There is none
once a command never ends. -/
def executeAll (tree : Tree) (commands : List Command) : Option Tree :=
  commands.foldlM (fun tree command => (command.execute tree).map Prod.fst) tree

theorem map_execute_eq_some_iff :
    (command.execute tree).map Prod.fst = some next ↔
      ∃ outcome, command.execute tree = some (next, outcome) := by
  simp

theorem executeAll_cons_eq_some_iff :
    executeAll tree (command :: commands) = some last ↔
      ∃ next outcome, command.execute tree = some (next, outcome) ∧
        executeAll next commands = some last := by
  simp only [executeAll, foldlM_cons_eq_some_iff, map_execute_eq_some_iff, exists_and_right]

theorem executeAll_append_eq_some_iff {front back : List Command} :
    executeAll tree (front ++ back) = some last ↔
      ∃ next, executeAll tree front = some next ∧ executeAll next back = some last :=
  foldlM_append_eq_some_iff

/-- What holds of a tree and is kept by each command holds after a run of them. -/
theorem executeAll_invariant {I : Tree → Prop}
    (hstep : ∀ {tree next command outcome}, I tree →
      execute tree command = some (next, outcome) → I next)
    (h : I tree) (hrun : executeAll tree commands = some last) : I last := by
  induction commands generalizing tree with
  | nil =>
    cases hrun
    exact h
  | cons command commands ih =>
    obtain ⟨next, outcome, hok, hrest⟩ := executeAll_cons_eq_some_iff.1 hrun
    exact ih (hstep h hok) hrest

theorem keeps_executeAll (hrun : executeAll tree commands = some last) : tree.Keeps last :=
  executeAll_invariant (fun h hok => h.trans (keeps_execute hok)) (.refl tree) hrun

theorem ahead_executeAll (h : tree.Ahead) (hrun : executeAll tree commands = some last) :
    last.Ahead :=
  executeAll_invariant (fun h hok => (changes_execute hok).ahead h) h hrun

/-- The ids of a command are counted on from the trees of the run so far. -/
theorem counted_execute (h : tree.Ahead) (hok : command.execute tree = some (next, outcome))
    (hend : next.nextNumber < maxNumber) : tree.Counted (command.makings tree) next :=
  (changes_execute hok).counted h hend

/-- An id that a command makes was in no tree of the run so far. -/
theorem not_contains_makings (h : start.Ahead) {before earlier : List Command}
    (hearlier : earlier <+: before) {old : Tree} (hold : executeAll start earlier = some old)
    (hrun : executeAll start before = some tree)
    (hok : command.execute tree = some (next, outcome)) (hend : next.nextNumber < maxNumber)
    {m : Making} (hmem : m ∈ command.makings tree) {id : NodeId} (hid : m.id? = some id) :
    old.contains id = false := by
  obtain ⟨between, rfl⟩ := hearlier
  obtain ⟨old', hold', hrest⟩ := executeAll_append_eq_some_iff.1 hrun
  cases hold.symm.trans hold'
  have hcounted := counted_execute (ahead_executeAll h hrun) hok hend
  exact (ahead_executeAll h hold).not_contains_made (keeps_executeAll hrest).counter hcounted hend
    hmem hid

/-- The ids that are new after a command are those that it has made. -/
theorem contains_execute_iff (hok : command.execute tree = some (next, outcome)) {id : NodeId}
    (hnew : tree.contains id = false) :
    next.contains id = true ↔ some id ∈ (command.makings tree).map Making.id? := by
  have hchanges := changes_execute hok
  rw [Tree.contains_eq_false_iff] at hnew
  constructor
  · intro hthere
    obtain ⟨node, hget⟩ := Tree.contains_iff_exists.1 hthere
    rcases hchanges.old_or_made hget with ⟨old, hold, -⟩ | ⟨m, hmem, hid, -⟩
    · rw [hnew] at hold
      cases hold
    · exact List.mem_map.2 ⟨m, hmem, hid⟩
  · intro hmade
    obtain ⟨m, hmem, hid⟩ := List.mem_map.1 hmade
    exact hchanges.contains_made hmem hid

end MailTemplate.Command
