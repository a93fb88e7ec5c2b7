import MailTemplate.Tree.Edit

/-!
# Commands

An edit as a value, and what comes of running it on a tree.

* `Command.execute` runs a command; one that does not apply leaves the tree as it is. There is no
  outcome of one that never ends.
-/

namespace MailTemplate

/-- An edit of a tree, with the numbers that it may carry. -/
inductive Command where
  /-- Adds a component, at an index or at the end. -/
  | addComponent (kind : Kind) (parent : NodeId) (index : Option UInt64)
  /-- Removes a component and all that it holds. -/
  | removeComponent (id : NodeId)
  /-- Lays a patch over the properties of a component. -/
  | updateComponent (id : NodeId) (patch : List (String × Json))
  /-- Moves a child within its parent. -/
  | reorderComponents (parent : NodeId) (oldIndex newIndex : UInt64)
  /-- Moves a component to another parent; without an index, or below zero, to the end. -/
  | moveComponent (id target : NodeId) (index : Option Int64)
  /-- Gives a row a number of columns, pulled into range. -/
  | setColumnsCount (id : NodeId) (count : Int64)

/-- What came of a command. -/
inductive Outcome where
  /-- It applied; an added component has an id. -/
  | applied (created : Option NodeId)
  /-- It did not apply. -/
  | skipped (reason : EditError)
deriving DecidableEq

/-- Whether a command applied. -/
def Outcome.isApplied : Outcome → Bool
  | .applied _ => true
  | .skipped _ => false

/-- A whole number as an index or a count, if it is not below zero. -/
def natOf? (n : Int64) : Option Nat :=
  if 0 ≤ n.toInt then some n.toInt.toNat else none

namespace Command

/-- Runs a command: the new tree, with the id of an added component, or why there is none. -/
def run (tree : Tree) : Command → Except EditFailure (Tree × Option NodeId)
  | .addComponent kind parent index => do
    let (next, id) ← tree.addComponent kind parent (index.map UInt64.toNat)
    return (next, some id)
  | .removeComponent id => do return (← tree.removeComponent id, none)
  | .updateComponent id patch => do return (← tree.updateComponent id patch, none)
  | .reorderComponents parent oldIndex newIndex => do
    return (← tree.reorderComponents parent oldIndex.toNat newIndex.toNat, none)
  | .moveComponent id target index => do
    return (← tree.moveComponent id target (index.bind natOf?), none)
  | .setColumnsCount id count => do
    return (← tree.setColumnsCount id ((natOf? count).getD 0), none)

/-- Runs a command on a tree: the tree afterwards, and what came of the command, if it ends. -/
def execute (tree : Tree) (command : Command) : Option (Tree × Outcome) :=
  match command.run tree with
  | .ok (next, created) => some (next, .applied created)
  | .error (.refused reason) => some (tree, .skipped reason)
  | .error .endless => none

end Command

end MailTemplate
