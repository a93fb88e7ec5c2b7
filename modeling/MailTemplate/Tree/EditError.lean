import MailTemplate.Json.Mismatch
import MailTemplate.Tree.Violation
import MailTemplate.Unfinished

/-!
# Why an Edit Is Skipped

An edit that does not apply leaves the tree as it is and says why. An edit that applies may still
come to no end, in the search for an id that is not in use (`EditFailure`).
-/

namespace MailTemplate

open Json (Mismatch backquoted)

/-- Why an edit does not apply. -/
inductive EditError where
  /-- A node does not exist. -/
  | missingNode (id : NodeId)
  /-- The root cannot be removed. -/
  | rootRemoved
  /-- The root cannot be moved. -/
  | rootMoved
  /-- A kind does not hold another. -/
  | illegalChild (parent child : Kind)
  /-- An index is past the end of a list of children. -/
  | indexOutOfRange (index length : Nat)
  /-- A node is of another kind than the edit is for. -/
  | wrongKind (id : NodeId) (actual expected : Kind)
  /-- A node cannot move below itself. -/
  | cycle (id target : NodeId)
  /-- A row cannot lose one of its last columns. -/
  | tooFewColumns
  /-- A column comes and goes with its row. -/
  | columnManaged
  /-- The properties with the patch do not read as a record of the kind. -/
  | invalidPatch (kind : Kind) (mismatch : Mismatch)
deriving DecidableEq

namespace EditError

/-- The words for the reason. -/
def message : EditError → String
  | .missingNode id => "node " ++ backquoted id ++ " does not exist"
  | .rootRemoved => "the root node cannot be removed"
  | .rootMoved => "the root node cannot be moved"
  | .illegalChild parent child =>
    "a " ++ parent.name ++ " node cannot contain a " ++ child.name ++ " node"
  | .indexOutOfRange index length =>
    "index " ++ natText index ++ " is out of range for " ++ natText length ++ " children"
  | .wrongKind id actual expected =>
    backquoted id ++ " is a " ++ actual.name ++ " node, expected " ++ expected.name
  | .cycle id target =>
    "moving " ++ backquoted id ++ " under " ++ backquoted target ++
      " would make it its own ancestor"
  | .tooFewColumns => "a columns node keeps at least " ++ natText minColumns ++ " columns"
  | .columnManaged => "column nodes only move with their columns container"
  | .invalidPatch kind mismatch =>
    "properties patch does not fit a " ++ kind.name ++ " node: " ++ mismatch.message

/-- The stable code of the reason. -/
def code : EditError → String
  | .missingNode _ => "weaver_mail::tree::missing_node"
  | .rootRemoved | .rootMoved => "weaver_mail::tree::root_fixed"
  | .illegalChild .. => "weaver_mail::tree::illegal_child"
  | .indexOutOfRange .. => "weaver_mail::tree::index"
  | .wrongKind .. => "weaver_mail::tree::wrong_kind"
  | .cycle .. => "weaver_mail::tree::cycle"
  | .tooFewColumns => "weaver_mail::tree::too_few_columns"
  | .columnManaged => "weaver_mail::tree::column_managed"
  | .invalidPatch .. => "weaver_mail::tree::invalid_patch"

/-- What to do instead, where there is something. -/
def help? : EditError → Option String
  | .tooFewColumns => some "use set_columns_count to shrink a columns node"
  | _ => none

end EditError

/-- Why an edit that makes ids gives no tree: it does not apply, or there is no id left that it
could make, and it never ends. -/
abbrev EditFailure : Type :=
  Unfinished EditError

end MailTemplate
