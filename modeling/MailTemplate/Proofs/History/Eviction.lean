import MailTemplate.Proofs.History.Timeline

/-!
# Forgetting the Oldest Trees

A timeline that keeps few trees to go back to is held against one that keeps more, with the same
steps taken on both. It forgets trees at the old end and differs in nothing else, as long as it is
not asked for a tree that it has forgotten.

* `History.Forgets` is what the two timelines have in common. `Forgets.after` is the lemma for one
  step and `Forgets.run` the one for all of them.
* `min_le_length_past_run` counts the trees to go back to after some commits.
-/

namespace MailTemplate.History

variable {short long : History} {step : Step} {steps : List Step}

/-- The first timeline is the second without some of the oldest trees. -/
structure Forgets (short long : History) : Prop where
  current : short.current = long.current
  future : short.future = long.future
  past : short.past <+: long.past

/-! ## Two timelines side by side -/

theorem Forgets.commit (h : Forgets short long) (hroom : long.past.length < long.maxSteps)
    (next : Tree) :
    (short.commit next).1 = (long.commit next).1 ∧
      Forgets (short.commit next).2 (long.commit next).2 := by
  refine ⟨by rw [commit_fst, commit_fst, h.current], ?_⟩
  cases hsame : next.agrees long.current with
  | true =>
    rw [commit_of_agrees hsame, commit_of_agrees (h.current ▸ hsame)]
    exact h
  | false =>
    rw [commit_of_differs hsame, commit_of_differs (h.current ▸ hsame)]
    refine ⟨rfl, rfl, ?_⟩
    -- The long timeline has room for one more tree, so it keeps all of them.
    show (short.current :: short.past).take short.maxSteps <+:
      (long.current :: long.past).take long.maxSteps
    have hall : (long.current :: long.past).take long.maxSteps = long.current :: long.past :=
      List.take_of_length_le hroom
    rw [hall, h.current]
    exact (List.take_prefix _ _).trans ((List.prefix_cons_inj _).2 h.past)

/-- The two go back alike unless the short timeline has forgotten the tree to go back to. -/
theorem Forgets.undo (h : Forgets short long) (hback : long.undo.1 = true → short.undo.1 = true) :
    short.undo.1 = long.undo.1 ∧ Forgets short.undo.2 long.undo.2 := by
  have hpast := h.past
  cases hshort : short.past with
  | nil =>
    have hnone : short.undo.1 = false := by simp [undo_fst, hshort]
    have hlong : long.past = [] := by simpa [undo_fst, hshort] using hback
    simpa [History.undo, hshort, hlong] using h
  | cons previous rest =>
    obtain ⟨older, hlong⟩ := hpast
    rw [hshort, List.cons_append] at hlong
    rw [undo_of_past hshort, undo_of_past hlong.symm]
    refine ⟨rfl, rfl, ?_, List.prefix_append rest older⟩
    rw [h.current, h.future]

theorem Forgets.redo (h : Forgets short long) :
    short.redo.1 = long.redo.1 ∧ Forgets short.redo.2 long.redo.2 := by
  cases hlong : long.future with
  | nil =>
    have hshort : short.future = [] := h.future.trans hlong
    simpa [History.redo, hshort, hlong] using h
  | cons next future =>
    rw [redo_of_future hlong, redo_of_future (h.future.trans hlong)]
    refine ⟨rfl, rfl, rfl, ?_⟩
    show short.current :: short.past <+: long.current :: long.past
    rw [h.current]
    exact (List.prefix_cons_inj _).2 h.past

/-- A step tells the same on both timelines, and leaves them side by side. -/
theorem Forgets.after (h : Forgets short long) (hroom : long.past.length < long.maxSteps)
    (hback : step = .undo → long.undo.1 = true → short.undo.1 = true) :
    short.tells step = long.tells step ∧ Forgets (short.after step) (long.after step) := by
  cases step with
  | commit next =>
    obtain ⟨htold, hforgets⟩ := h.commit hroom next
    exact ⟨congrArg some htold, hforgets⟩
  | undo =>
    obtain ⟨htold, hforgets⟩ := h.undo (hback rfl)
    exact ⟨congrArg some htold, hforgets⟩
  | redo =>
    obtain ⟨htold, hforgets⟩ := h.redo
    exact ⟨congrArg some htold, hforgets⟩
  | reset tree => exact ⟨rfl, rfl, rfl, List.prefix_refl _⟩
  | clear => exact ⟨rfl, h.current, rfl, List.prefix_refl _⟩

/-- The steps tell the same on both timelines, and leave them side by side. -/
theorem Forgets.run (h : Forgets short long)
    (hroom : long.past.length + long.future.length + steps.length ≤ long.maxSteps)
    (hback : ∀ before later, steps = before ++ .undo :: later →
      (long.run before).undo.1 = true → (short.run before).undo.1 = true) :
    short.report steps = long.report steps ∧ Forgets (short.run steps) (long.run steps) := by
  induction steps generalizing short long with
  | nil => exact ⟨rfl, h⟩
  | cons step steps ih =>
    rw [List.length_cons] at hroom
    obtain ⟨htold, hforgets⟩ : short.tells step = long.tells step ∧
        Forgets (short.after step) (long.after step) :=
      h.after (by omega) fun hundo => hback [] steps (by rw [hundo]; rfl)
    obtain ⟨hreport, hrest⟩ := ih hforgets
      (by
        have hgrown := long.length_after_le step
        rw [maxSteps_after]
        omega)
      fun before later hsteps => hback (step :: before) later (by rw [hsteps]; rfl)
    exact ⟨by rw [report, report, htold, hreport], hrest⟩

/-! ## Going back after some commits -/

/-- A step back succeeds as long as there is a tree to go back to. -/
theorem report_replicate_undo {h : History} {count : Nat} (hcount : count ≤ h.past.length) :
    h.report (List.replicate count .undo) = List.replicate count (some true) := by
  induction count generalizing h with
  | zero => rfl
  | succ count ih =>
    obtain ⟨previous, past, hpast⟩ := List.exists_cons_of_length_pos (Nat.zero_lt_of_lt hcount)
    rw [List.replicate_succ, report, tells, after, undo_of_past hpast, List.replicate_succ]
    refine congrArg (some true :: ·) (ih ?_)
    rw [hpast] at hcount
    exact Nat.le_of_succ_le_succ hcount

/-- Commits that all change something add a tree each to go back to, until there are as many as are
kept. -/
theorem min_le_length_past_run {h : History} {nexts : List Tree}
    (hrecorded : h.report (nexts.map .commit) = List.replicate nexts.length (some true)) :
    min (h.past.length + nexts.length) h.maxSteps ≤ (h.run (nexts.map .commit)).past.length := by
  induction nexts generalizing h with
  | nil => exact Nat.min_le_left _ _
  | cons next nexts ih =>
    rw [List.map_cons, report, List.length_cons, List.replicate_succ, List.cons.injEq] at hrecorded
    obtain ⟨hnew, hrest⟩ := hrecorded
    have hnew : next.agrees h.current = false := by simpa [tells, commit_fst] using hnew
    have hlength := ih hrest
    have hpast : (h.after (.commit next)).past.length = min h.maxSteps (h.past.length + 1) := by
      rw [after, commit_of_differs hnew, List.length_take, List.length_cons]
    rw [maxSteps_after, hpast] at hlength
    rw [List.map_cons, run_cons, List.length_cons]
    omega

/-! ## The timeline with a bound -/

/-- A timeline with a bound does what one does that has room for all steps, as long as no step back
fails on it that does not fail on the other: each step tells the same, the current trees and the
trees to go forward to are the same, and the trees to go back to are the newest of the other. And
right after some commits that each changed something, as many steps back succeed as the bound
allows. -/
theorem start_forgets_only_oldest (tree : Tree) (maxSteps : Nat) :
    (∀ (steps : List Step) (bound : Nat), steps.length < bound →
      (∀ before later, steps = before ++ .undo :: later →
        ((start tree bound).run before).undo.1 = true →
          ((start tree maxSteps).run before).undo.1 = true) →
      (start tree maxSteps).report steps = (start tree bound).report steps ∧
        ((start tree maxSteps).run steps).current = ((start tree bound).run steps).current ∧
        ((start tree maxSteps).run steps).future = ((start tree bound).run steps).future ∧
        ((start tree maxSteps).run steps).past <+: ((start tree bound).run steps).past) ∧
    ∀ (steps : List Step) (nexts : List Tree),
      ((start tree maxSteps).run steps).report (nexts.map .commit) =
        List.replicate nexts.length (some true) →
      ((start tree maxSteps).run (steps ++ nexts.map .commit)).report
          (List.replicate (min nexts.length maxSteps) .undo) =
        List.replicate (min nexts.length maxSteps) (some true) := by
  refine ⟨fun steps bound hbound hback => ?_, fun steps nexts hrecorded => ?_⟩
  · have hstart : Forgets (start tree maxSteps) (start tree bound) :=
      ⟨rfl, rfl, List.prefix_refl _⟩
    obtain ⟨hreport, hforgets⟩ := hstart.run (by simpa [start] using hbound.le) hback
    exact ⟨hreport, hforgets.current, hforgets.future, hforgets.past⟩
  · have hlength := min_le_length_past_run hrecorded
    rw [maxSteps_run] at hlength
    refine report_replicate_undo (le_trans ?_ (run_append _ _ _ ▸ hlength))
    show min nexts.length maxSteps ≤ min (_ + nexts.length) maxSteps
    omega

/-- A tree with one spacer. -/
def oneSpacer : Tree :=
  Tree.empty.insert "spacer-1" (.fresh (some rootId) Kind.spacer.defaults)

/-- A tree with two spacers. -/
def twoSpacers : Tree :=
  oneSpacer.insert "spacer-2" (.fresh (some rootId) Kind.spacer.defaults)

/-- Two commits and a step back on a timeline that keeps one tree, and one more commit. -/
theorem start_forgets_only_oldest_twoSpacers :
    let steps : List Step := [.commit oneSpacer, .commit twoSpacers, .undo]
    (start .empty 1).report steps = (start .empty 4).report steps ∧
      ((start .empty 1).run steps).past <+: ((start .empty 4).run steps).past ∧
      ((start .empty 1).run (steps ++ [.commit twoSpacers])).report [.undo] = [some true] := by
  intro steps
  have hback : ∀ before later, steps = before ++ .undo :: later →
      ((start .empty 4).run before).undo.1 = true →
        ((start .empty 1).run before).undo.1 = true := by
    intro before later hsteps _
    rcases before with _ | ⟨first, _ | ⟨second, _ | ⟨third, rest⟩⟩⟩
    case cons.cons.nil =>
      -- The one step back comes after both commits.
      simp only [steps, List.cons_append, List.cons.injEq] at hsteps
      obtain ⟨rfl, rfl, -⟩ := hsteps
      decide +kernel
    all_goals simp [steps] at hsteps
  obtain ⟨halike, hnewest⟩ := start_forgets_only_oldest .empty 1
  obtain ⟨hreport, -, -, hpast⟩ := halike steps 4 (by decide) hback
  exact ⟨hreport, hpast, hnewest steps [twoSpacers] (by decide +kernel)⟩

end MailTemplate.History
