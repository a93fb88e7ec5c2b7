import MailTemplate.Proofs.Command.Naming
import MailTemplate.Proofs.Tree.Unsigned

/-!
# Commands on Trees That Agree

A command does the same to two trees that have the same counter for new ids and the same nodes but
for the signs of zeros: the outcomes are the same, and so are the trees, but for such signs.

* `execute_congr` says so.
* `nextNumber_execute` says that a command that leaves a tree that agrees with the old one has left
  the counter alone, so that nothing is lost if the new tree is thrown away.
-/

namespace MailTemplate

/-- Trees that agree have the same ids. -/
theorem Tree.contains_eq_of_agrees {a b : Tree} (h : a.agrees b = true) (id : NodeId) :
    a.contains id = b.contains id := by
  obtain ⟨hkeys, -⟩ := Bool.and_eq_true_iff.1 h
  rw [beq_iff_eq] at hkeys
  rw [Bool.eq_iff_iff]
  show a.nodes.contains id = true ↔ b.nodes.contains id = true
  rw [← Std.ExtTreeMap.mem_iff_contains, ← Std.ExtTreeMap.mem_keys, hkeys,
    Std.ExtTreeMap.mem_keys, Std.ExtTreeMap.mem_iff_contains]

namespace Command

variable {tree next : Tree} {command : Command} {outcome : Outcome}

theorem run_unsigned (tree : Tree) (command : Command) :
    Prod.map Tree.unsigned (fun created => created) <$> command.run tree.unsigned =
      Prod.map Tree.unsigned (fun created => created) <$> command.run tree := by
  -- All commands but the first create nothing; they commute with dropping the signs, but for the
  -- one with a patch, which does so up to signs.
  have hedit : ∀ {x y : Except EditFailure Tree}, Tree.unsigned <$> x = Tree.unsigned <$> y →
      Prod.map Tree.unsigned (fun created : Option NodeId => created) <$>
          (x >>= fun next => pure (next, none)) =
        Prod.map Tree.unsigned (fun created => created) <$>
          (y >>= fun next => pure (next, none)) := by
    intro x y h
    have h' := congrArg ((·, (none : Option NodeId)) <$> ·) h
    simpa only [map_bind_pure, Functor.map_map, Prod.map_apply] using h'
  have hsame : ∀ {x y : Except EditFailure Tree}, x = Tree.unsigned <$> y →
      Tree.unsigned <$> x = Tree.unsigned <$> y := by
    rintro x y rfl
    exact Tree.map_unsigned_unsigned y
  have hskipped : ∀ {x y : Except EditError Tree}, x = Tree.unsigned <$> y →
      Tree.unsigned <$> (liftM x : Except EditFailure Tree) = Tree.unsigned <$> liftM y := by
    rintro x y rfl
    exact hsame (Unfinished.liftM_refused_map _ y)
  cases command with
  | addComponent kind parent index =>
    simp only [run, Tree.addComponent_unsigned]
    cases tree.addComponent kind parent (index.map UInt64.toNat) with
    | error failure => rfl
    | ok added => exact congrArg (fun t => Except.ok (t, some added.2)) added.1.unsigned_unsigned
  | removeComponent id => exact hedit (hskipped (tree.removeComponent_unsigned id))
  | updateComponent id patch => exact hedit (tree.updateComponent_unsigned id patch)
  | reorderComponents parent oldIndex newIndex =>
    exact hedit (hskipped (tree.reorderComponents_unsigned parent _ _))
  | moveComponent id target index =>
    exact hedit (hskipped (tree.moveComponent_unsigned id target _))
  | setColumnsCount id count => exact hedit (hsame (tree.setColumnsCount_unsigned id _))

theorem execute_unsigned (tree : Tree) (command : Command) :
    (command.execute tree.unsigned).map (Prod.map Tree.unsigned fun outcome => outcome) =
      (command.execute tree).map (Prod.map Tree.unsigned fun outcome => outcome) := by
  have hrun := run_unsigned tree command
  unfold execute
  cases hold : command.run tree with
  | error failure =>
    rw [hold] at hrun
    rw [map_eq_error_iff.1 hrun]
    cases failure with
    | refused reason =>
      exact congrArg (fun t => some (t, Outcome.skipped reason)) tree.unsigned_unsigned
    | endless => rfl
  | ok result =>
    rw [hold] at hrun
    obtain ⟨result', hnew, hresult⟩ := map_eq_ok_iff.1 hrun
    rw [hnew]
    exact congrArg (fun r : Tree × Option NodeId => some (r.1, Outcome.applied r.2)) hresult

/-- A command does the same to trees that are the same but for the signs of zeros. -/
theorem execute_congr {a b : Tree} (h : a.unsigned = b.unsigned)
    (hok : command.execute b = some (next, outcome)) :
    ∃ next', command.execute a = some (next', outcome) ∧ next'.unsigned = next.unsigned := by
  have hsame := execute_unsigned a command
  rw [h, execute_unsigned b command, hok] at hsame
  obtain ⟨⟨next', outcome'⟩, hok', heq⟩ := Option.map_eq_some_iff.1 hsame.symm
  obtain ⟨hnext, rfl⟩ := Prod.mk.inj heq
  exact ⟨next', hok', hnext⟩

/-- Where a command makes an id the new tree does not agree with the old one. -/
theorem nextNumber_execute (hok : command.execute tree = some (next, outcome))
    (hahead : tree.Ahead) (hend : next.nextNumber < maxNumber) (hsame : next.agrees tree = true) :
    next.nextNumber = tree.nextNumber := by
  have hchanges := changes_execute hok
  have hcounted := hchanges.counted hahead hend
  cases hmade : command.makings tree with
  | nil =>
    rw [hcounted.count, hmade]
    rfl
  | cons m made =>
    -- The id that is made was free, but a tree that agrees has no ids of its own.
    exfalso
    have hmem : m ∈ command.makings tree := hmade ▸ List.mem_cons_self
    have hid := hcounted.id?_eq hmem
    have hfree := hahead.not_contains_made (Nat.le_refl _) hcounted hend hmem hid
    rw [← Tree.contains_eq_of_agrees hsame, hchanges.contains_made hmem hid] at hfree
    cases hfree

theorem eq_of_execute_skipped {reason : EditError}
    (hok : command.execute tree = some (next, .skipped reason)) : next = tree := by
  rcases execute_eq_some_iff.1 hok with ⟨created, -, happlied⟩ | ⟨_, -, rfl, -⟩
  · cases happlied
  · rfl

end Command

end MailTemplate
