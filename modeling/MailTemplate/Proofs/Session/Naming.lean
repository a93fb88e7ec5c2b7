import MailTemplate.Proofs.Command.Naming
import MailTemplate.Proofs.Session.Timeline
import MailTemplate.Proofs.Storage.RoundTrip

/-!
# Ids Are Never Used Again

A loaded tree has its counter for new ids ahead of all ids, so along a run of commands no id is made
that was in use before, even if its node is long gone. In a session the counter is set back by an
undo; still all trees of its timeline have one kind for an id, for the trees on either side of the
current one came one after the other.

* `Session.Ordered` is what holds of the timeline, and `Ordered.after` the lemma for one step.
* `ids_never_reused` says both, of runs and of sessions.
-/

namespace MailTemplate

/-! ## The trees of a timeline -/

/-- One tree comes after another that has its counter ahead. -/
def Tree.Precedes (older newer : Tree) : Prop :=
  older.Ahead ∧ older.Later newer

instance : Trans Tree.Precedes Tree.Precedes Tree.Precedes where
  trans h h' := ⟨h.1, h.2.trans h'.2 h.1⟩

namespace History

variable {h : History}

/-- The trees of the timeline have their counters ahead, and came one after the other. -/
structure Ordered (h : History) : Prop where
  ahead : ∀ tree ∈ h.trees, tree.Ahead
  precede : h.timeline.IsChain Tree.Precedes

theorem ordered_start {tree : Tree} (hahead : tree.Ahead) (maxSteps : Nat) :
    (start tree maxSteps).Ordered where
  ahead other hmem := by
    rw [trees_start, List.mem_singleton] at hmem
    exact hmem ▸ hahead
  precede := List.isChain_singleton tree

theorem Ordered.after (h' : h.Ordered) {step : Step} (htrees : ∀ tree ∈ step.trees, tree.Ahead)
    (hcommit : ∀ next, step = .commit next → h.current.Later next) : (h.after step).Ordered where
  ahead tree hmem := by
    rcases List.mem_append.1 (h.trees_after_subset step hmem) with hmem | hmem
    · exact htrees tree hmem
    · exact h'.ahead tree hmem
  precede := by
    refine isChain_after h'.precede step fun next hstep _ => ?_
    exact ⟨h'.ahead _ List.mem_cons_self, hcommit next hstep⟩

/-- An id is of one kind in all trees of the timeline. -/
theorem Ordered.kind_eq (h' : h.Ordered) {a b : Tree} (ha : a ∈ h.trees) (hb : b ∈ h.trees)
    {id : NodeId} {m n : Node} (hm : a.nodes[id]? = some m) (hn : b.nodes[id]? = some n) :
    m.kind = n.kind := by
  -- One of the two comes after the other, even if other trees lie between them.
  have hpairs := List.pairwise_iff_getElem.1 h'.precede.pairwise
  obtain ⟨i, hi, rfl⟩ := List.mem_iff_getElem.1 (mem_timeline_iff.2 ha)
  obtain ⟨j, hj, rfl⟩ := List.mem_iff_getElem.1 (mem_timeline_iff.2 hb)
  rcases Nat.lt_trichotomy i j with hlt | rfl | hlt
  · exact ((hpairs i j hi hj hlt).2.kind_eq hm hn).symm
  · rw [hm] at hn
    exact congrArg Node.kind (Option.some.inj hn)
  · exact (hpairs j i hj hi hlt).2.kind_eq hn hm

end History

/-! ## Sessions -/

namespace Session

variable {s next : Session} {step : Step}

/-- What a command leaves comes after the current tree. -/
theorem later_execute (h : s.history.Ordered) {command : Command} {edited : Tree}
    {outcome : Outcome} (hids : s.HasIds (.apply command))
    (hexecute : command.execute s.tree = some (edited, outcome)) : s.tree.Later edited :=
  (Command.changes_execute hexecute).later (h.ahead _ List.mem_cons_self)
    (hids edited outcome hexecute)

/-- What a step does with the timeline leaves the trees in order. -/
theorem ordered_move (h : s.history.Ordered) (hids : s.HasIds step) {move : History.Step}
    (hmove : s.move? step = some move) : (s.history.after move).Ordered := by
  cases step with
  | apply command =>
    cases hexecute : command.execute s.tree with
    | none =>
      rw [move?, hexecute] at hmove
      cases hmove
    | some result =>
      obtain ⟨edited, outcome⟩ := result
      rw [move?_apply hexecute, Option.ite_none_right_eq_some] at hmove
      obtain ⟨-, hmove⟩ := hmove
      cases hmove
      -- Only here is a tree committed, and it has to come after the current one.
      refine h.after (fun tree hmem => ?_) fun next hnext => ?_
      · obtain rfl := List.mem_singleton.1 hmem
        exact (Command.changes_execute hexecute).ahead (h.ahead _ List.mem_cons_self)
      · cases hnext
        exact later_execute h hids hexecute
  | load records =>
    obtain ⟨loaded, hload, rfl⟩ := Option.map_eq_some_iff.1 hmove
    refine h.after (fun tree hmem => ?_) (by simp)
    obtain rfl := List.mem_singleton.1 hmem
    exact Tree.ahead_ofRecords hload
  | select id => cases hmove
  | undo | redo | clearHistory =>
    cases hmove
    exact h.after (by simp [History.Step.trees]) (by simp)

/-- A step leaves the trees in order. -/
theorem ordered_after (h : s.history.Ordered) (hids : s.HasIds step)
    (hok : s.after step = some next) : next.history.Ordered := by
  rw [history_after hok]
  cases hmove : s.move? step with
  | none => exact h
  | some move => exact ordered_move h hids hmove

theorem Reached.ordered (h : s.Reached) : s.history.Ordered := by
  induction h with
  | start maxSteps hload => exact History.ordered_start (Tree.ahead_ofRecords hload) maxSteps
  | after _ hids hok ih => exact ordered_after ih hids hok

end Session

/-- Along a run of commands from a loaded or a new tree, as long as the counter for new ids has not
come to its end: the first id that is tried is free, and it was in no tree of the run so far; no two
ids that a command makes are the same, and they are the ids that are new after it. And in a session,
whatever was done in it, an id is of one kind in all trees that are current, to go back to or to go
forward to. -/
theorem ids_never_reused (start : Tree)
    (hstart : start = .empty ∨ ∃ records, Tree.ofRecords records = some start) :
    (∀ (before : List Command) (command : Command) (tree next : Tree) (outcome : Outcome),
      Command.executeAll start before = some tree →
      command.execute tree = some (next, outcome) → next.nextNumber < maxNumber →
        (∀ m ∈ command.makings tree,
          let id := m.kind.numbered m.tree.nextNumber
          m.tree.contains id = false ∧ m.id? = some id ∧
            ∀ earlier old, earlier <+: before → Command.executeAll start earlier = some old →
              old.contains id = false) ∧
          ((command.makings tree).map Making.id?).Nodup ∧
          ∀ id, tree.contains id = false →
            (next.contains id = true ↔ some id ∈ (command.makings tree).map Making.id?)) ∧
      ∀ s : Session, s.Reached → ∀ a ∈ s.history.trees, ∀ b ∈ s.history.trees,
        ∀ id m n, a.get? id = some m → b.get? id = some n → m.kind = n.kind := by
  have hahead : start.Ahead := by
    rcases hstart with rfl | ⟨records, hload⟩
    · exact Tree.ahead_ofNodes _
    · exact Tree.ahead_ofRecords hload
  constructor
  · intro before command tree next outcome hrun hok hend
    have hcounted := Command.counted_execute (Command.ahead_executeAll hahead hrun) hok hend
    refine ⟨fun m hmem => ⟨hcounted.free m hmem, hcounted.id?_eq hmem, ?_⟩,
      hcounted.nodup_ids hend, fun id hnew => Command.contains_execute_iff hok hnew⟩
    intro earlier old hearlier hold
    exact Command.not_contains_makings hahead hearlier hold hrun hok hend hmem
      (hcounted.id?_eq hmem)
  · intro s hreached a ha b hb id m n hm hn
    exact hreached.ordered.kind_eq ha hb hm hn

/-- One row is added after another; and in a session that has added a row and taken it back, the
tree of the moment is held against the one to go forward to. -/
theorem ids_never_reused_secondRow :
    let addRow := Command.addComponent .columns rootId none
    (∃ tree, Command.executeAll .empty [addRow] = some tree ∧
      (addRow.makings tree).map Making.id? =
        [some "columns-4", some "column-5", some "column-6"] ∧
      ∀ m ∈ addRow.makings tree, ∀ id, m.id? = some id →
        Tree.empty.contains id = false ∧ tree.contains id = false) ∧
      ∃ s, [Session.Step.apply addRow, .undo].foldlM Session.after
          { history := .start .empty 1 } = some s ∧ s.history.future.length = 1 ∧
        ∀ b ∈ s.history.future, ∀ id m n,
          s.tree.get? id = some m → b.get? id = some n → m.kind = n.kind := by
  intro addRow
  obtain ⟨hrun, hsessions⟩ := ids_never_reused .empty (.inl rfl)
  constructor
  · have hids : (Command.executeAll .empty [addRow]).map
        (fun tree => (addRow.makings tree).map Making.id?) =
          some [some "columns-4", some "column-5", some "column-6"] := by
      decide +kernel
    have hlast : ((Command.executeAll .empty [addRow]).bind fun tree =>
        (addRow.execute tree).map (·.1.nextNumber)) = some 7 := by
      decide +kernel
    obtain ⟨tree, htree, hids⟩ := Option.map_eq_some_iff.1 hids
    rw [htree, Option.bind_some] at hlast
    obtain ⟨⟨next, outcome⟩, hok, hnumber⟩ := Option.map_eq_some_iff.1 hlast
    have hend : next.nextNumber < maxNumber := hnumber ▸ (by decide)
    obtain ⟨hfresh, -, -⟩ := hrun [addRow] addRow tree next outcome htree hok hend
    refine ⟨tree, htree, hids, fun m hmem id hid => ?_⟩
    obtain ⟨-, hmade, hearlier⟩ := hfresh m hmem
    cases hmade.symm.trans hid
    exact ⟨hearlier [] .empty List.nil_prefix rfl,
      hearlier [addRow] tree (List.prefix_refl _) htree⟩
  · have hlength : ([Session.Step.apply addRow, .undo].foldlM Session.after
        { history := .start .empty 1 }).map (·.history.future.length) = some 1 := by
      decide +kernel
    obtain ⟨s, hsteps, hlength⟩ := Option.map_eq_some_iff.1 hlength
    obtain ⟨withRow, hrow, hlater⟩ := foldlM_cons_eq_some_iff.1 hsteps
    obtain ⟨last, hundo, hlast⟩ := foldlM_cons_eq_some_iff.1 hlater
    cases hlast
    have hids : withRow.HasIds .undo := trivial
    have hreached : s.Reached :=
      ((Session.reached_fresh 1).after (Session.hasIds_apply (by decide +kernel)) hrow).after hids
        hundo
    exact ⟨s, hsteps, hlength, fun b hb => hsessions s hreached _ List.mem_cons_self b
      (List.mem_cons_of_mem _ (List.mem_append_right _ hb))⟩

end MailTemplate
