import MailTemplate.Command.Basic
import MailTemplate.History

/-!
# Editing Sessions

A timeline of trees with a selected component. The selection is no part of the tree or of the
timeline; it is given up when the selected component is gone. A command that never ends leaves no
session behind.
-/

namespace MailTemplate

/-- An editing session. -/
structure Session where
  /-- The timeline. -/
  history : History
  /-- The selected component. -/
  selected : Option NodeId := none

namespace Session

/-- A session that starts with a tree. -/
def start (tree : Tree) : Session :=
  { history := .start tree History.defaultMaxSteps }

/-- The tree of the moment. -/
def tree (s : Session) : Tree :=
  s.history.current

/-- The node of the selected component. -/
def selectedNode? (s : Session) : Option Node :=
  s.selected.bind s.tree.get?

/-- The session with a selection of something that is gone given up. -/
def prune (s : Session) : Session :=
  { s with selected := s.selected.filter s.tree.contains }

/-- Selects a component, or nothing; the flag tells whether there is such a component. -/
def select (s : Session) (id : Option NodeId) : Bool × Session :=
  match id with
  | none => (true, { s with selected := none })
  | some id => if s.tree.contains id then (true, { s with selected := some id }) else (false, s)

/-- Runs a command and commits what comes of it. -/
def apply (s : Session) (command : Command) : Option (Outcome × Session) := do
  let (next, outcome) ← command.execute s.tree
  match outcome, s.history.commit next with
  | .applied _, (true, history) => return (outcome, { s with history := history }.prune)
  | _, _ => return (outcome, s)

/-- Runs commands one by one; those that do not apply are skipped. -/
def applyAll (s : Session) (commands : List Command) : Option Session :=
  commands.foldlM (fun s command => Prod.snd <$> s.apply command) s

/-- Goes one step back; the flag tells whether there was one. -/
def undo (s : Session) : Bool × Session :=
  match s.history.undo with
  | (true, history) => (true, { s with history := history }.prune)
  | (false, _) => (false, s)

/-- Goes one step forward; the flag tells whether there was one. -/
def redo (s : Session) : Bool × Session :=
  match s.history.redo with
  | (true, history) => (true, { s with history := history }.prune)
  | (false, _) => (false, s)

/-- Forgets all steps. -/
def clearHistory (s : Session) : Session :=
  { s with history := s.history.clear }

/-- Starts over with a tree and nothing selected. -/
def load (s : Session) (tree : Tree) : Session :=
  { history := s.history.reset tree }

end Session

end MailTemplate
