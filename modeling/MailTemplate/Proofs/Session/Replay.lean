import MailTemplate.Proofs.Command.Agreement
import MailTemplate.Proofs.Session.Timeline
import MailTemplate.Proofs.Storage.RoundTrip

/-!
# A Session Loses and Adds Nothing

A session that runs commands is held against a run of the same commands that keeps every tree. The
session throws a tree away that agrees with the current one; that makes no difference, since such a
tree has the same counter for new ids and differs in the signs of zeros at most.

* `Session.Follows` is what the two have in common, `Follows.apply` the lemma for one command and
  `Follows.applyAll` the one for all of them.
-/

namespace MailTemplate.Session

variable {s last : Session} {tree edited : Tree} {command : Command} {commands : List Command}
  {outcome : Outcome}

theorem applyAll_nil (s : Session) : s.applyAll [] = some s := rfl

theorem applyAll_cons_eq_some_iff :
    s.applyAll (command :: commands) = some last ↔
      ∃ outcome next, s.apply command = some (outcome, next) ∧
        next.applyAll commands = some last := by
  rw [applyAll, foldlM_cons_eq_some_iff]
  constructor
  · rintro ⟨next, hnext, hrest⟩
    obtain ⟨⟨outcome, next⟩, happly, rfl⟩ := Option.map_eq_some_iff.1 hnext
    exact ⟨outcome, next, happly, hrest⟩
  · rintro ⟨outcome, next, happly, hrest⟩
    exact ⟨next, Option.map_eq_some_iff.2 ⟨_, happly, rfl⟩, hrest⟩

/-- The session has the same tree, but for the signs of zeros, and is ready to run commands. -/
structure Follows (s : Session) (tree : Tree) : Prop where
  unsigned : s.tree.unsigned = tree.unsigned
  ahead : s.tree.Ahead
  inRange : AllInRange s.tree.nodes

/-- A command has the same outcome on both sides, and leaves the session with the same tree. -/
theorem Follows.apply (h : s.Follows tree) (hok : command.execute tree = some (edited, outcome))
    (hend : edited.nextNumber < maxNumber) :
    ∃ next, s.apply command = some (outcome, next) ∧ next.Follows edited := by
  obtain ⟨own, hown, hunsigned⟩ := Command.execute_congr h.unsigned hok
  have hahead : own.Ahead := (Command.changes_execute hown).ahead h.ahead
  have hrange : AllInRange own.nodes := (Command.keeps_execute hown).inRange h.inRange
  refine ⟨_, apply_eq_some_iff.2 ⟨own, hown, rfl⟩, ?_⟩
  split
  case isTrue hnew =>
    have hnext : ∀ next : Session, next.tree = own → next.Follows edited := by
      rintro next rfl
      exact ⟨hunsigned, hahead, hrange⟩
    exact hnext _ (congrArg (fun committed : Bool × History => committed.2.current)
      (History.commit_of_differs hnew.2))
  case isFalse hold =>
    -- The tree that is thrown away is the current one, but for the signs of zeros.
    refine ⟨?_, h.ahead, h.inRange⟩
    rw [← hunsigned]
    cases outcome with
    | skipped reason => rw [Command.eq_of_execute_skipped hown]
    | applied created =>
      have hsame : own.agrees s.tree = true := by
        rw [not_and, Bool.not_eq_false] at hold
        exact hold rfl
      have hcounter : own.nextNumber = s.tree.nextNumber := by
        refine Command.nextNumber_execute hown h.ahead ?_ hsame
        exact Nat.lt_of_le_of_lt (congrArg Tree.nextNumber hunsigned).le hend
      have hnodes := (Tree.agrees_iff (Tree.numeric_of_allInRange hrange)).1 hsame
      exact congrArg₂ Tree.mk hnodes.symm hcounter.symm

theorem Follows.applyAll {final : Tree} (h : s.Follows tree)
    (hrun : Command.executeAll tree commands = some final) (hend : final.nextNumber < maxNumber) :
    ∃ last, s.applyAll commands = some last ∧ last.Follows final := by
  induction commands generalizing s tree with
  | nil =>
    cases hrun
    exact ⟨s, applyAll_nil s, h⟩
  | cons command commands ih =>
    obtain ⟨edited, outcome, hok, hrest⟩ := Command.executeAll_cons_eq_some_iff.1 hrun
    -- The counter has not come to its end after the first command if it has not after the last.
    have hcounter := (Command.keeps_executeAll hrest).counter
    obtain ⟨next, happly, hnext⟩ := h.apply hok (Nat.lt_of_le_of_lt hcounter hend)
    obtain ⟨last, hlater, hlast⟩ := ih hnext hrest
    exact ⟨last, applyAll_cons_eq_some_iff.2 ⟨outcome, next, happly, hlater⟩, hlast⟩

/-- Commands that are run one by one in a session end in a tree that agrees with the one that they
end in when every tree is kept, and each of them has the same outcome in both. -/
theorem applyAll_agrees_executeAll (records : Records) (maxSteps : Nat) (commands : List Command)
    {start final : Tree} (hload : Tree.ofRecords records = some start)
    (hrun : Command.executeAll start commands = some final)
    (hids : final.nextNumber < maxNumber) :
    let s : Session := { history := .start start maxSteps }
    (∃ last, s.applyAll commands = some last ∧ last.tree.agrees final = true) ∧
      ∀ before command later, commands = before ++ command :: later →
        ∃ reached tree outcome next edited, s.applyAll before = some reached ∧
          Command.executeAll start before = some tree ∧
          reached.apply command = some (outcome, next) ∧
          command.execute tree = some (edited, outcome) := by
  intro s
  have hstart : s.Follows start :=
    ⟨rfl, Tree.ahead_ofRecords hload, Tree.allInRange_ofRecords hload⟩
  constructor
  · obtain ⟨last, hlast, hfollows⟩ := hstart.applyAll hrun hids
    refine ⟨last, hlast, ?_⟩
    rw [Tree.agrees_iff (Tree.numeric_of_allInRange hfollows.inRange)]
    exact congrArg Tree.nodes hfollows.unsigned
  · rintro before command later rfl
    obtain ⟨tree, hbefore, hrest⟩ := Command.executeAll_append_eq_some_iff.1 hrun
    obtain ⟨edited, outcome, hok, hlater⟩ := Command.executeAll_cons_eq_some_iff.1 hrest
    have hedited := Nat.lt_of_le_of_lt (Command.keeps_executeAll hlater).counter hids
    have htree := Nat.lt_of_le_of_lt (Command.keeps_execute hok).counter hedited
    obtain ⟨reached, hreached, hfollows⟩ := hstart.applyAll hbefore htree
    obtain ⟨next, happly, -⟩ := hfollows.apply hok hedited
    exact ⟨reached, tree, outcome, next, edited, hreached, hbefore, happly, hok⟩

/-- A patch that sets the line height to one of the two zeros. -/
def zeroLine (negative : Bool) : List (String × Json) :=
  [("lineHeight", .number (.zero negative))]

/-- The line height of a text is set to zero and then to the other zero, which the session throws
away, and a spacer is added. -/
theorem applyAll_agrees_executeAll_zeroLine :
    let s : Session := { history := .start .empty 1 }
    let before := [.addComponent .text rootId none, .updateComponent "text-1" (zeroLine false),
      .updateComponent "text-1" (zeroLine true)]
    let addSpacer := Command.addComponent .spacer rootId none
    ∃ reached tree outcome next edited last final, s.applyAll before = some reached ∧
      Command.executeAll .empty before = some tree ∧
      reached.tree.get? "text-1" ≠ tree.get? "text-1" ∧
      reached.apply addSpacer = some (outcome, next) ∧
      addSpacer.execute tree = some (edited, outcome) ∧
      s.applyAll (before ++ [addSpacer]) = some last ∧
      Command.executeAll .empty (before ++ [addSpacer]) = some final ∧
      last.tree.agrees final = true := by
  intro s before addSpacer
  have hnumber : (Command.executeAll .empty (before ++ [addSpacer])).map Tree.nextNumber =
      some 3 := by
    decide +kernel
  obtain ⟨final, hrun, hnumber⟩ := Option.map_eq_some_iff.1 hnumber
  have hids : final.nextNumber < maxNumber := hnumber ▸ (by decide)
  obtain ⟨⟨last, hlast, hagrees⟩, houtcomes⟩ := applyAll_agrees_executeAll ∅ 1
    (before ++ [addSpacer]) Tree.ofRecords_empty hrun hids
  obtain ⟨reached, tree, outcome, next, edited, hreached, htree, happly, hok⟩ :=
    houtcomes before addSpacer [] rfl
  refine ⟨reached, tree, outcome, next, edited, last, final, hreached, htree, fun heq => ?_,
    happly, hok, hlast, hrun, hagrees⟩
  -- The session has kept the first of the two zeros.
  have hdiffers : (s.applyAll before).map (·.tree.get? "text-1") ≠
      (Command.executeAll .empty before).map (·.get? "text-1") := by
    decide +kernel
  rw [hreached, htree] at hdiffers
  exact hdiffers (congrArg some heq)

end MailTemplate.Session
