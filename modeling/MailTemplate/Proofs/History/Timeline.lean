import MailTemplate.History
import Mathlib.Data.List.Chain

/-!
# Steps on a Timeline

What can be done with a timeline of trees, and what each step leaves of it.

* `History.Step` is what can be done, `History.after` what comes of it and `History.tells` what it
  reports; `History.run` and `History.report` say the same of any number of steps.
* `History.trees` are the trees of a timeline in no order that matters; no step makes up a tree
  (`trees_after_subset`).
* `History.timeline` lists the trees from the oldest to the newest. Undoing and redoing leave it as
  it is (`timeline_undo`, `timeline_redo`), and a commit cuts it off at both ends and puts the new
  tree behind (`exists_timeline_commit`).
* `isChain_after` says what has to be known of a commit for all neighbours to stand in a relation.
-/

namespace MailTemplate.History

variable {h : History} {next : Tree}

/-- What can be done with a timeline. -/
inductive Step where
  /-- Makes a tree the current one. -/
  | commit (next : Tree)
  /-- Goes one step back. -/
  | undo
  /-- Goes one step forward. -/
  | redo
  /-- Starts over with a tree. -/
  | reset (tree : Tree)
  /-- Forgets all steps. -/
  | clear

/-- The trees that a step brings in. -/
def Step.trees : Step → List Tree
  | .commit tree | .reset tree => [tree]
  | _ => []

/-- Whether something has happened, for the steps that tell it. -/
def tells (h : History) : Step → Option Bool
  | .commit next => some (h.commit next).1
  | .undo => some h.undo.1
  | .redo => some h.redo.1
  | .reset _ | .clear => none

/-- The timeline after a step. -/
def after (h : History) : Step → History
  | .commit next => (h.commit next).2
  | .undo => h.undo.2
  | .redo => h.redo.2
  | .reset tree => h.reset tree
  | .clear => h.clear

/-- The timeline after some steps. -/
def run (h : History) (steps : List Step) : History :=
  steps.foldl after h

/-- What some steps tell, one after the other. -/
def report (h : History) : List Step → List (Option Bool)
  | [] => []
  | step :: steps => h.tells step :: (h.after step).report steps

@[simp]
theorem run_nil (h : History) : h.run [] = h := rfl

@[simp]
theorem run_cons (h : History) (step : Step) (steps : List Step) :
    h.run (step :: steps) = (h.after step).run steps := rfl

theorem run_append (h : History) (front back : List Step) :
    h.run (front ++ back) = (h.run front).run back :=
  List.foldl_append

/-! ## What each step does -/

theorem commit_of_agrees (hsame : next.agrees h.current = true) : h.commit next = (false, h) :=
  if_pos hsame

theorem commit_of_differs (hnew : next.agrees h.current = false) :
    h.commit next = (true, { h with
      current := next, past := (h.current :: h.past).take h.maxSteps, future := [] }) := by
  simp [commit, hnew]

/-- A commit tells whether the new tree is another one. -/
theorem commit_fst (h : History) (next : Tree) :
    (h.commit next).1 = !next.agrees h.current := by
  unfold commit
  split <;> simp_all

theorem undo_of_past {previous : Tree} {past : List Tree} (hpast : h.past = previous :: past) :
    h.undo = (true, { h with
      current := previous, past := past, future := h.current :: h.future }) := by
  simp [undo, hpast]

theorem redo_of_future {future : List Tree} (hfuture : h.future = next :: future) :
    h.redo = (true, { h with
      current := next, past := h.current :: h.past, future := future }) := by
  simp [redo, hfuture]

theorem undo_fst (h : History) : h.undo.1 = !h.past.isEmpty := by
  cases hpast : h.past <;> simp [undo, hpast]

theorem redo_fst (h : History) : h.redo.1 = !h.future.isEmpty := by
  cases hfuture : h.future <;> simp [redo, hfuture]

/-- No step changes how many steps back are kept. -/
@[simp]
theorem maxSteps_after (h : History) (step : Step) : (h.after step).maxSteps = h.maxSteps := by
  cases step with
  | commit next => simp only [after, commit]; split <;> rfl
  | undo => simp only [after, undo]; split <;> rfl
  | redo => simp only [after, redo]; split <;> rfl
  | _ => rfl

@[simp]
theorem maxSteps_run (h : History) (steps : List Step) : (h.run steps).maxSteps = h.maxSteps := by
  induction steps generalizing h with
  | nil => rfl
  | cons step steps ih => rw [run_cons, ih, maxSteps_after]

/-! ## How many trees there are -/

theorem commit_snd_length_le (h : History) (next : Tree) :
    (h.commit next).2.past.length + (h.commit next).2.future.length ≤
      h.past.length + h.future.length + 1 := by
  unfold commit
  split
  · exact Nat.le_succ _
  · simp only [List.length_take, List.length_cons, List.length_nil]
    omega

theorem undo_snd_length (h : History) :
    h.undo.2.past.length + h.undo.2.future.length = h.past.length + h.future.length := by
  cases hpast : h.past with
  | nil => simp [undo, hpast]
  | cons previous past =>
    rw [undo_of_past hpast]
    show past.length + (h.future.length + 1) = past.length + 1 + h.future.length
    omega

theorem redo_snd_length (h : History) :
    h.redo.2.past.length + h.redo.2.future.length = h.past.length + h.future.length := by
  cases hfuture : h.future with
  | nil => simp [redo, hfuture]
  | cons next future =>
    rw [redo_of_future hfuture]
    show h.past.length + 1 + future.length = h.past.length + (future.length + 1)
    omega

/-- A step makes the timeline longer by one tree at most. -/
theorem length_after_le (h : History) (step : Step) :
    (h.after step).past.length + (h.after step).future.length ≤
      h.past.length + h.future.length + 1 := by
  cases step with
  | commit next => exact h.commit_snd_length_le next
  | undo => exact h.undo_snd_length.le.trans (Nat.le_succ _)
  | redo => exact h.redo_snd_length.le.trans (Nat.le_succ _)
  | _ => exact Nat.zero_le _

/-! ## The trees there are -/

/-- The trees of the timeline: the one of the moment, those before and those after it. -/
def trees (h : History) : List Tree :=
  h.current :: (h.past ++ h.future)

/-- A commit adds the new tree and no other. -/
theorem trees_commit_subset (h : History) (next : Tree) :
    (h.commit next).2.trees ⊆ next :: h.trees := by
  unfold commit trees
  split
  · exact List.subset_cons_self _ _
  · -- The tree that was current goes to the past, of which the oldest part may be dropped.
    intro tree hmem
    rcases List.mem_cons.1 hmem with rfl | hmem
    · exact List.mem_cons_self
    · rw [List.append_nil] at hmem
      have hpast := List.mem_of_mem_take hmem
      simp only [List.mem_cons, List.mem_append] at hpast ⊢
      tauto

theorem trees_undo_subset (h : History) : h.undo.2.trees ⊆ h.trees := by
  unfold undo
  split
  case h_1 => exact List.Subset.refl _
  case h_2 previous past hpast =>
    intro tree hmem
    simp only [trees, hpast, List.mem_cons, List.mem_append] at hmem ⊢
    tauto

theorem trees_redo_subset (h : History) : h.redo.2.trees ⊆ h.trees := by
  unfold redo
  split
  case h_1 => exact List.Subset.refl _
  case h_2 next future hfuture =>
    intro tree hmem
    simp only [trees, hfuture, List.mem_cons, List.mem_append] at hmem ⊢
    tauto

theorem trees_clear (h : History) : h.clear.trees = [h.current] := rfl

theorem trees_reset (h : History) (tree : Tree) : (h.reset tree).trees = [tree] := rfl

theorem trees_start (tree : Tree) (maxSteps : Nat) : (start tree maxSteps).trees = [tree] := rfl

/-- A step adds the trees that it brings in and no other. -/
theorem trees_after_subset (h : History) (step : Step) :
    (h.after step).trees ⊆ step.trees ++ h.trees := by
  cases step with
  | commit next => exact h.trees_commit_subset next
  | undo => exact h.trees_undo_subset
  | redo => exact h.trees_redo_subset
  | reset tree => exact List.subset_append_left _ _
  | clear => exact List.cons_subset_cons _ (List.nil_subset _)

/-! ## The trees in order -/

/-- The trees from the oldest to the newest. -/
def timeline (h : History) : List Tree :=
  h.past.reverse ++ h.current :: h.future

theorem mem_timeline_iff {tree : Tree} : tree ∈ h.timeline ↔ tree ∈ h.trees := by
  simp only [timeline, trees, List.mem_append, List.mem_reverse, List.mem_cons]
  tauto

theorem timeline_undo (h : History) : h.undo.2.timeline = h.timeline := by
  cases hpast : h.past <;> simp [undo, timeline, hpast]

theorem timeline_redo (h : History) : h.redo.2.timeline = h.timeline := by
  cases hfuture : h.future <;> simp [redo, timeline, hfuture]

/-- A commit that changes something keeps the newest of the trees up to the current one. -/
theorem exists_timeline_commit (hnew : (h.commit next).1 = true) :
    ∃ kept, kept <:+ h.past.reverse ++ [h.current] ∧
      (h.commit next).2.timeline = kept ++ [next] := by
  rw [commit_fst, Bool.not_eq_true'] at hnew
  refine ⟨((h.current :: h.past).take h.maxSteps).reverse, ?_, ?_⟩
  · rw [← List.reverse_cons, List.reverse_suffix]
    exact List.take_prefix _ _
  · rw [commit_of_differs hnew]
    rfl

/-- Neighbours on the timeline stand in a relation if a commit that changes something puts the new
tree in this relation to the current one. -/
theorem isChain_after {R : Tree → Tree → Prop} (hchain : h.timeline.IsChain R) (step : Step)
    (hcommit : ∀ next, step = .commit next → (h.commit next).1 = true → R h.current next) :
    (h.after step).timeline.IsChain R := by
  cases step with
  | commit next =>
    cases hnew : (h.commit next).1 with
    | false =>
      rw [commit_fst, Bool.not_eq_false'] at hnew
      rw [after, commit_of_agrees hnew]
      exact hchain
    | true =>
      obtain ⟨kept, hsuffix, htimeline⟩ := exists_timeline_commit hnew
      have hbefore : (h.past.reverse ++ [h.current]).IsChain R := by
        have hall : (h.past.reverse ++ [h.current] ++ h.future).IsChain R := by
          rwa [List.append_assoc]
        exact hall.left_of_append
      rw [after, htimeline]
      refine (hbefore.suffix hsuffix).append (List.isChain_singleton _)
        fun last hlast first hfirst => ?_
      -- The last tree that is kept, if any is kept, is the current one.
      obtain ⟨dropped, hall⟩ := hsuffix
      have hcurrent : (dropped ++ kept).getLast? = some h.current := by simp [hall]
      rw [List.getLast?_append, hlast, Option.some_or] at hcurrent
      simp only [List.head?_cons, Option.mem_def, Option.some.injEq] at hfirst hcurrent
      exact hfirst ▸ hcurrent ▸ hcommit next rfl hnew
  | undo => rwa [after, timeline_undo]
  | redo => rwa [after, timeline_redo]
  | reset tree => exact List.isChain_singleton tree
  | clear => exact List.isChain_singleton h.current

end MailTemplate.History
