import MailTemplate.Component.Limits
import MailTemplate.Tree.Basic

/-!
# Rows of Columns

A row owns its columns: they are made with it, one at a time, and the row records how many it has.
No columns come of it if there is no id left for one of them.
-/

namespace MailTemplate.Tree

/-- Adds an empty column at the end of a row. -/
def appendColumn (tree : Tree) (row : NodeId) : Option Tree := do
  let (id, tree) ← tree.mint .column
  return (tree.insert id (.fresh (some row) Kind.column.defaults)).modifyChildren row (· ++ [id])

/-- Adds some empty columns at the end of a row. -/
def appendColumns (tree : Tree) (row : NodeId) : (count : Nat) → Option Tree
  | 0 => some tree
  | count + 1 => do (← tree.appendColumn row).appendColumns row count

/-- The record of a row with the number of its columns. -/
def recordCount (count : Nat) (node : Node) : Node :=
  match node.properties with
  | .columns row => { node with properties := .columns { row with columns := .ofNat count } }
  | _ => node

/-- Records the number of columns of a row. -/
def writeColumnCount (tree : Tree) (row : NodeId) (count : Nat) : Tree :=
  tree.modify row (recordCount count)

end MailTemplate.Tree
