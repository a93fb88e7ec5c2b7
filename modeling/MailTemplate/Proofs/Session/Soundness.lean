import MailTemplate.Proofs.Command.Soundness
import MailTemplate.Proofs.History.Timeline
import MailTemplate.Proofs.Storage.Repair
import MailTemplate.Session

/-!
# Sessions Keep Trees Sound

A session that starts with a loaded tree holds sound trees only, now and on either side of the
timeline, whatever is done in it; and what is selected is a component of the tree of the moment.

* `Session.Step` is what can be done in a session, and `Session.after` what comes of it.
* `Session.Reached` are the sessions that come of some steps; `Session.sound_after` is the lemma for
  one step, and `Session.violations_reached` says it for all of them.
-/

namespace MailTemplate

namespace Session

/-- What can be done in a session. -/
inductive Step where
  /-- Runs a command. -/
  | apply (command : Command)
  /-- Selects a component, or nothing. -/
  | select (id : Option NodeId)
  /-- Goes one step back. -/
  | undo
  /-- Goes one step forward. -/
  | redo
  /-- Forgets all steps. -/
  | clearHistory
  /-- Starts over with the tree of stored records. -/
  | load (records : Records)

/-- The session after a step, if the step ends. -/
def after (s : Session) : Step → Option Session
  | .apply command => (s.apply command).map Prod.snd
  | .select id => some (s.select id).2
  | .undo => some s.undo.2
  | .redo => some s.redo.2
  | .clearHistory => some s.clearHistory
  | .load records => (Tree.ofRecords records).map s.load

/-- A step makes an id for which there is no number left. -/
def Exhausts (s : Session) : Step → Prop
  | .apply command => command.Exhausts s.tree
  | .load records => records.Exhausts
  | _ => False

/-- The counter for new ids does not come to its end while a command makes ids. -/
def HasIds (s : Session) : Step → Prop
  | .apply command => ∀ next outcome, command.execute s.tree = some (next, outcome) →
    command.makings s.tree ≠ [] → next.nextNumber < maxNumber
  | _ => True

/-- The sessions that start with the tree of stored records, keep some number of steps, and come of
taking any steps. -/
inductive Reached : Session → Prop
  | start {records : Records} {tree : Tree} (maxSteps : Nat)
    (hload : Tree.ofRecords records = some tree) : Reached { history := .start tree maxSteps }
  | after {s next : Session} {step : Step} (h : Reached s) (hids : s.HasIds step)
    (hok : s.after step = some next) : Reached next

/-- All trees of the timeline are sound, and what is selected is there. -/
structure Sound (s : Session) : Prop where
  trees : ∀ tree ∈ s.history.trees, tree.Sound
  selected : ∀ id, s.selected = some id → s.tree.contains id = true

variable {s next : Session} {history : History}

theorem reached_fresh (maxSteps : Nat) : Reached { history := .start .empty maxSteps } :=
  .start maxSteps Tree.ofRecords_empty

theorem Sound.tree (h : s.Sound) : s.tree.Sound :=
  h.trees _ List.mem_cons_self

/-- After pruning nothing is selected that is gone. -/
theorem contains_of_selected_prune {id : NodeId} (h : s.prune.selected = some id) :
    s.prune.tree.contains id = true :=
  (Option.filter_eq_some_iff.1 h).2

/-- A new timeline of sound trees needs just the pruning. -/
theorem sound_prune (h : ∀ tree ∈ history.trees, tree.Sound) :
    Sound ({ s with history := history } : Session).prune where
  trees := h
  selected _ := contains_of_selected_prune

/-! ## One step -/

/-- A session takes over the tree that a command leaves if the command applies and the tree does not
agree with the current one. -/
theorem apply_eq_some_iff {command : Command} {outcome : Outcome} :
    s.apply command = some (outcome, next) ↔
      ∃ edited, command.execute s.tree = some (edited, outcome) ∧
        (if outcome.isApplied ∧ edited.agrees s.tree = false then
          ({ s with history := (s.history.commit edited).2 } : Session).prune else s) = next := by
  have happly : ∀ {edited made}, command.execute s.tree = some (edited, made) →
      s.apply command = some (made, if made.isApplied ∧ edited.agrees s.tree = false then
        ({ s with history := (s.history.commit edited).2 } : Session).prune else s) := by
    intro edited made hexecute
    rw [apply, hexecute]
    cases made with
    | skipped reason => rfl
    | applied created =>
      rw [Session.tree]
      cases hsame : edited.agrees s.history.current with
      | false =>
        simp only [Option.bind_eq_bind, Option.bind_some, History.commit_of_differs hsame]
        rfl
      | true =>
        simp only [Option.bind_eq_bind, Option.bind_some, History.commit_of_agrees hsame]
        rfl
  constructor
  · intro hok
    obtain ⟨⟨edited, made⟩, hexecute, -⟩ := Option.bind_eq_some_iff.1 hok
    cases (happly hexecute).symm.trans hok
    exact ⟨edited, hexecute, rfl⟩
  · rintro ⟨edited, hexecute, rfl⟩
    exact happly hexecute

theorem sound_apply (h : s.Sound) {command : Command} {outcome : Outcome}
    (hok : s.apply command = some (outcome, next)) : next.Sound := by
  obtain ⟨edited, hexecute, rfl⟩ := apply_eq_some_iff.1 hok
  have hedited : edited.Sound := Command.sound_execute h.tree hexecute
  split
  · refine sound_prune fun tree hmem => ?_
    rcases List.mem_cons.1 (s.history.trees_commit_subset edited hmem) with rfl | hmem
    · exact hedited
    · exact h.trees tree hmem
  · exact h

theorem sound_select (h : s.Sound) (id : Option NodeId) : (s.select id).2.Sound := by
  unfold select
  cases id with
  | none => exact ⟨h.trees, fun _ hselected => nomatch hselected⟩
  | some id =>
    dsimp only
    split
    case isTrue hthere =>
      refine ⟨h.trees, fun other hselected => ?_⟩
      cases hselected
      exact hthere
    case isFalse => exact h

theorem sound_undo (h : s.Sound) : s.undo.2.Sound := by
  unfold undo
  split
  case h_1 history hundo =>
    refine sound_prune fun tree hmem => h.trees tree (s.history.trees_undo_subset ?_)
    rw [hundo]
    exact hmem
  case h_2 => exact h

theorem sound_redo (h : s.Sound) : s.redo.2.Sound := by
  unfold redo
  split
  case h_1 history hredo =>
    refine sound_prune fun tree hmem => h.trees tree (s.history.trees_redo_subset ?_)
    rw [hredo]
    exact hmem
  case h_2 => exact h

/-- A session in which one tree is all of the timeline. -/
theorem sound_of_trees_eq {tree : Tree} (htrees : s.history.trees = [tree]) (htree : tree.Sound)
    (hselected : ∀ id, s.selected = some id → s.tree.contains id = true) : s.Sound := by
  refine ⟨fun other hmem => ?_, hselected⟩
  rw [htrees, List.mem_singleton] at hmem
  exact hmem ▸ htree

/-- A step leaves a session sound. -/
theorem sound_after (h : s.Sound) {step : Step} (hok : s.after step = some next) :
    next.Sound := by
  cases step with
  | apply command =>
    obtain ⟨⟨outcome, applied⟩, happly, rfl⟩ := Option.map_eq_some_iff.1 hok
    exact sound_apply h happly
  | select id =>
    cases hok
    exact sound_select h id
  | undo =>
    cases hok
    exact sound_undo h
  | redo =>
    cases hok
    exact sound_redo h
  | clearHistory =>
    cases hok
    exact sound_of_trees_eq s.history.trees_clear h.tree h.selected
  | load records =>
    -- A new tree comes with nothing selected.
    obtain ⟨tree, hload, rfl⟩ := Option.map_eq_some_iff.1 hok
    exact sound_of_trees_eq (s.history.trees_reset _) (Tree.sound_ofRecords hload)
      fun _ hselected => nomatch hselected

/-- A step never ends just if it makes an id for which there is no number left. -/
theorem after_eq_none_iff (s : Session) (step : Step) :
    s.after step = none ↔ s.Exhausts step := by
  cases step with
  | apply command =>
    have happly : s.apply command = none ↔ command.execute s.tree = none := by
      refine eq_none_iff_of_exists_iff ?_
      constructor
      · rintro ⟨⟨outcome, next⟩, hok⟩
        obtain ⟨edited, hexecute, -⟩ := apply_eq_some_iff.1 hok
        exact ⟨_, hexecute⟩
      · rintro ⟨⟨edited, outcome⟩, hexecute⟩
        exact ⟨_, apply_eq_some_iff.2 ⟨edited, hexecute, rfl⟩⟩
    rw [after, Option.map_eq_none_iff, happly, Command.execute_eq_none_iff, Exhausts]
  | load records =>
    rw [after, Option.map_eq_none_iff, Tree.ofRecords_eq_none_iff, Exhausts]
  | _ => exact iff_of_false (fun h => nomatch h) fun h => h

/-! ## Any number of steps -/

theorem Reached.sound (h : s.Reached) : s.Sound := by
  induction h with
  | start maxSteps hload =>
    exact sound_of_trees_eq (History.trees_start _ _) (Tree.sound_ofRecords hload)
      fun _ hselected => nomatch hselected
  | after _ _ hok ih => exact sound_after ih hok

/-- Whatever was done in a session, no tree has a violation, be it current, to go back to or to go
forward to, and what is selected is a node of the current tree. Each further step comes to an end
unless it makes an id for which there is no number left. -/
theorem violations_reached (h : s.Reached) :
    s.tree.violations = [] ∧
      (∀ tree ∈ s.history.past, tree.violations = []) ∧
      (∀ tree ∈ s.history.future, tree.violations = []) ∧
      (∀ id, s.selected = some id → ∃ node, s.tree.get? id = some node) ∧
      ∀ step, s.after step = none ↔ s.Exhausts step := by
  have hclean : ∀ tree ∈ s.history.trees, tree.violations = [] :=
    fun tree hmem => Tree.violations_eq_nil_iff_sound.2 (h.sound.trees tree hmem)
  refine ⟨hclean _ List.mem_cons_self, fun tree hmem => ?_, fun tree hmem => ?_,
    fun id hselected => ?_, s.after_eq_none_iff⟩
  · exact hclean tree (List.mem_cons_of_mem _ (List.mem_append_left _ hmem))
  · exact hclean tree (List.mem_cons_of_mem _ (List.mem_append_right _ hmem))
  · have hthere := h.sound.selected id hselected
    rw [Tree.contains_eq_isSome] at hthere
    exact Option.isSome_iff_exists.1 hthere

theorem hasIds_apply {command : Command}
    (h : (command.execute s.tree).all (·.1.nextNumber < maxNumber) = true) :
    s.HasIds (.apply command) := by
  intro next outcome hok _
  rw [hok] at h
  exact of_decide_eq_true h

/-- A session that keeps one step, in which a row was added, its second column was selected, and the
row was taken back again. -/
def withRowTakenBack : Option Session :=
  [Step.apply (.addComponent .columns rootId none), .select (some "column-3"), .undo].foldlM after
    { history := .start .empty 1 }

theorem violations_reached_withRowTakenBack :
    ∃ s, withRowTakenBack = some s ∧ s.Reached ∧ s.history.future.length = 1 ∧
      s.tree.violations = [] ∧
      (∀ tree ∈ s.history.past, tree.violations = []) ∧
      (∀ tree ∈ s.history.future, tree.violations = []) ∧
      (∀ id, s.selected = some id → ∃ node, s.tree.get? id = some node) ∧
      ∀ step, s.after step = none ↔ s.Exhausts step := by
  have hlength : withRowTakenBack.map (·.history.future.length) = some 1 := by decide +kernel
  obtain ⟨s, hrun, hlength⟩ := Option.map_eq_some_iff.1 hlength
  obtain ⟨withRow, hrow, hlater⟩ := foldlM_cons_eq_some_iff.1 hrun
  obtain ⟨withChoice, hselect, hlater⟩ := foldlM_cons_eq_some_iff.1 hlater
  obtain ⟨last, hundo, hlast⟩ := foldlM_cons_eq_some_iff.1 hlater
  cases hlast
  have hids : withRow.HasIds (.select (some "column-3")) := trivial
  have hids' : withChoice.HasIds .undo := trivial
  have hreached : s.Reached :=
    (((reached_fresh 1).after (hasIds_apply (by decide +kernel)) hrow).after hids hselect).after
      hids' hundo
  exact ⟨s, hrun, hreached, hlength, violations_reached hreached⟩

end Session

end MailTemplate
