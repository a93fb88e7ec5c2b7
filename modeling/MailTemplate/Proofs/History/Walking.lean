import MailTemplate.Proofs.History.Eviction
import MailTemplate.Proofs.Tree.Agreement

/-!
# Walking up and down a Timeline

What holds of every timeline that comes of some steps: it is not longer than it may be, neighbours
on it differ, and whoever goes back and then forward again by as many steps is where he was.

* `run_replicate_append` is walking there and back, for any two steps that undo each other.
* `History.Orderly` is the invariant, `Orderly.after` the lemma for one step and `Orderly.run` the
  one for all of them.
-/

namespace MailTemplate.History

variable {h : History} {step : Step} {steps : List Step}

/-! ## There and back -/

theorem redo_undo (hback : h.undo.1 = true) : h.undo.2.redo.2 = h := by
  cases hpast : h.past with
  | nil => simp [undo_fst, hpast] at hback
  | cons previous past =>
    rw [undo_of_past hpast, redo, ← hpast]

theorem undo_redo (hforth : h.redo.1 = true) : h.redo.2.undo.2 = h := by
  cases hfuture : h.future with
  | nil => simp [redo_fst, hfuture] at hforth
  | cons next future =>
    rw [redo_of_future hfuture, undo, ← hfuture]

/-- Some steps and then as many steps that take them back leave everything as it was, if there is
room for the steps. -/
theorem run_replicate_append {there back : Step} (room : History → Nat)
    (hback : ∀ h, 0 < room h → (h.after there).after back = h)
    (hroom : ∀ h, room h ≤ room (h.after there) + 1) {count : Nat} (hcount : count ≤ room h) :
    h.run (List.replicate count there ++ List.replicate count back) = h := by
  induction count generalizing h with
  | zero => rfl
  | succ count ih =>
    -- The walk in between starts after the first step and ends before the last one.
    have hinner := ih (h := h.after there) (by have := hroom h; omega)
    rw [run_append] at hinner
    rw [List.replicate_succ, List.replicate_succ', List.cons_append, run_cons, run_append,
      run_append, hinner]
    exact hback h (Nat.zero_lt_of_lt hcount)

theorem run_undo_redo {count : Nat} (hcount : count ≤ h.past.length) :
    h.run (List.replicate count .undo ++ List.replicate count .redo) = h := by
  refine run_replicate_append (fun h => h.past.length) (fun h hpast => ?_) (fun h => ?_) hcount
  · refine redo_undo ?_
    obtain ⟨previous, past, hpast⟩ := List.exists_cons_of_length_pos hpast
    rw [undo_of_past hpast]
  · cases hpast : h.past <;> simp [after, undo, hpast]

theorem run_redo_undo {count : Nat} (hcount : count ≤ h.future.length) :
    h.run (List.replicate count .redo ++ List.replicate count .undo) = h := by
  refine run_replicate_append (fun h => h.future.length) (fun h hfuture => ?_) (fun h => ?_) hcount
  · refine undo_redo ?_
    obtain ⟨next, future, hfuture⟩ := List.exists_cons_of_length_pos hfuture
    rw [redo_of_future hfuture]
  · cases hfuture : h.future <;> simp [after, redo, hfuture]

/-! ## Neighbours -/

/-- A step back goes to the neighbour before the current tree. -/
theorem rel_undo {R : Tree → Tree → Prop} (hchain : h.timeline.IsChain R)
    (hback : h.undo.1 = true) : R h.undo.2.current h.current := by
  cases hpast : h.past with
  | nil => simp [undo_fst, hpast] at hback
  | cons previous past =>
    rw [timeline, hpast, List.reverse_cons, List.append_assoc] at hchain
    rw [undo_of_past hpast]
    exact (List.isChain_cons_cons.1 hchain.right_of_append).1

/-- A step forward goes to the neighbour after the current tree. -/
theorem rel_redo {R : Tree → Tree → Prop} (hchain : h.timeline.IsChain R)
    (hforth : h.redo.1 = true) : R h.current h.redo.2.current := by
  cases hfuture : h.future with
  | nil => simp [redo_fst, hfuture] at hforth
  | cons next future =>
    rw [timeline, hfuture] at hchain
    rw [redo_of_future hfuture]
    exact (List.isChain_cons_cons.1 hchain.right_of_append).1

/-! ## The invariant -/

/-- The timeline is not longer than it may be, all line heights are numbers, and neighbours
differ. -/
structure Orderly (h : History) : Prop where
  bounded : h.past.length + h.future.length ≤ h.maxSteps
  numeric : ∀ tree ∈ h.trees, tree.Numeric
  differ : h.timeline.IsChain fun older newer => older.agrees newer = false

theorem orderly_start {tree : Tree} (htree : tree.Numeric) (maxSteps : Nat) :
    (start tree maxSteps).Orderly where
  bounded := Nat.zero_le _
  numeric other hmem := by
    rw [trees_start, List.mem_singleton] at hmem
    exact hmem ▸ htree
  differ := List.isChain_singleton tree

theorem length_after_le_maxSteps (h : History) (step : Step)
    (hbound : h.past.length + h.future.length ≤ h.maxSteps) :
    (h.after step).past.length + (h.after step).future.length ≤ h.maxSteps := by
  cases step with
  | commit next =>
    -- A commit leaves no trees to go forward to, and cuts off those to go back to.
    rw [after, commit]
    split
    · exact hbound
    · exact List.length_take_le _ _
  | undo => exact h.undo_snd_length ▸ hbound
  | redo => exact h.redo_snd_length ▸ hbound
  | _ => exact Nat.zero_le _

theorem Orderly.after (h' : h.Orderly) (htrees : ∀ tree ∈ step.trees, tree.Numeric) :
    (h.after step).Orderly where
  bounded := by
    rw [maxSteps_after]
    exact h.length_after_le_maxSteps step h'.bounded
  numeric tree hmem := by
    rcases List.mem_append.1 (h.trees_after_subset step hmem) with hmem | hmem
    · exact htrees tree hmem
    · exact h'.numeric tree hmem
  differ := by
    refine isChain_after h'.differ step ?_
    rintro next rfl hnew
    rw [commit_fst, Bool.not_eq_true'] at hnew
    have hcurrent : h.current.Numeric := h'.numeric _ List.mem_cons_self
    rwa [Tree.agrees_comm hcurrent (htrees next List.mem_cons_self)]

theorem Orderly.run (h' : h.Orderly)
    (htrees : ∀ step ∈ steps, ∀ tree ∈ step.trees, tree.Numeric) : (h.run steps).Orderly := by
  induction steps generalizing h with
  | nil => exact h'
  | cons step steps ih =>
    rw [List.forall_mem_cons] at htrees
    exact ih (h'.after htrees.1) htrees.2

/-- Whatever steps are taken, as long as all line heights are numbers: there are no more trees to go
back and forward to than the bound; neighbours on the timeline differ, so a step back or forward
that succeeds changes the tree; and going back and then forward by as many steps, or the other way
round, leads to the same timeline. -/
theorem bounded_distinct_reversible_run {tree : Tree} {maxSteps : Nat} {steps : List Step}
    {h : History} (htree : tree.Numeric)
    (hsteps : ∀ step ∈ steps, ∀ other ∈ step.trees, other.Numeric)
    (hrun : (start tree maxSteps).run steps = h) :
    h.past.length + h.future.length ≤ maxSteps ∧
      (h.timeline.IsChain fun older newer => older.agrees newer = false) ∧
      (h.undo.1 = true → h.undo.2.current.agrees h.current = false) ∧
      (h.redo.1 = true → h.current.agrees h.redo.2.current = false) ∧
      (∀ count ≤ h.past.length,
        h.run (List.replicate count .undo ++ List.replicate count .redo) = h) ∧
      ∀ count ≤ h.future.length,
        h.run (List.replicate count .redo ++ List.replicate count .undo) = h := by
  have horderly : h.Orderly := hrun ▸ (orderly_start htree maxSteps).run hsteps
  have hbound : h.maxSteps = maxSteps := by rw [← hrun, maxSteps_run, start]
  exact ⟨hbound ▸ horderly.bounded, horderly.differ, rel_undo horderly.differ,
    rel_redo horderly.differ, fun _ => run_undo_redo, fun _ => run_redo_undo⟩

/-- Two commits and a step back on a timeline that keeps one tree. -/
theorem bounded_distinct_reversible_run_twoSpacers :
    let h := (start .empty 1).run [.commit oneSpacer, .commit twoSpacers, .undo]
    h.past.length + h.future.length ≤ 1 ∧
      (h.timeline.IsChain fun older newer => older.agrees newer = false) ∧
      h.redo.1 = true ∧ h.current.agrees h.redo.2.current = false ∧
      h.run [.redo, .undo] = h := by
  intro h
  have hempty : Tree.empty.Numeric := Tree.numeric_empty
  have hone : oneSpacer.Numeric := hempty.insert_fresh _ _ .spacer
  have htwo : twoSpacers.Numeric := hone.insert_fresh _ _ .spacer
  have hsteps : ∀ step ∈ [Step.commit oneSpacer, .commit twoSpacers, .undo],
      ∀ other ∈ step.trees, other.Numeric := by
    simp [Step.trees, hone, htwo]
  have hforth : h.redo.1 = true := by decide +kernel
  obtain ⟨hbound, hchain, -, hchanges, -, hreturn⟩ :=
    bounded_distinct_reversible_run hempty hsteps (show _ = h from rfl)
  exact ⟨hbound, hchain, hforth, hchanges hforth, hreturn 1 (by decide +kernel)⟩

end MailTemplate.History
