import MailTemplate.Tree.Basic

/-!
# Undo and Redo

The current tree with the trees before and after it on the timeline. A commit makes a new current
tree and forgets what could be redone; only so many earlier trees are kept, and the oldest go first.
-/

namespace MailTemplate

/-- A timeline of trees. -/
structure History where
  /-- The tree of the moment. -/
  current : Tree
  /-- The trees to go back to, newest first. -/
  past : List Tree := []
  /-- The trees to go forward to, next first. -/
  future : List Tree := []
  /-- How many trees a commit leaves to go back to. -/
  maxSteps : Nat

namespace History

/-- How many steps back are kept where no number is asked for. -/
def defaultMaxSteps : Nat := 100

/-- A timeline of one tree. -/
def start (tree : Tree) (maxSteps : Nat) : History :=
  { current := tree, maxSteps := maxSteps }

/-- The timeline of the empty tree. -/
def default : History :=
  start .empty defaultMaxSteps

/-- Whether there is a tree to go back to. -/
def canUndo (h : History) : Bool :=
  !h.past.isEmpty

/-- Whether there is a tree to go forward to. -/
def canRedo (h : History) : Bool :=
  !h.future.isEmpty

/-- Makes a tree the current one; the flag tells whether it is another than before. -/
def commit (h : History) (next : Tree) : Bool × History :=
  if next.agrees h.current then (false, h)
  else (true, { h with
    current := next
    past := (h.current :: h.past).take h.maxSteps
    future := [] })

/-- Goes one step back; the flag tells whether there was one. -/
def undo (h : History) : Bool × History :=
  match h.past with
  | [] => (false, h)
  | previous :: past =>
    (true, { h with current := previous, past := past, future := h.current :: h.future })

/-- Goes one step forward; the flag tells whether there was one. -/
def redo (h : History) : Bool × History :=
  match h.future with
  | [] => (false, h)
  | next :: future =>
    (true, { h with current := next, past := h.current :: h.past, future := future })

/-- Forgets all steps and keeps the current tree. -/
def clear (h : History) : History :=
  { h with past := [], future := [] }

/-- Starts over with a tree. -/
def reset (h : History) (tree : Tree) : History :=
  { h with current := tree, past := [], future := [] }

end History

end MailTemplate
