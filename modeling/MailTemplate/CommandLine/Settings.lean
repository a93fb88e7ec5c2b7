import MailTemplate.Kdl.Document

/-!
# Settings

Defaults for the command line, kept in a KDL file. A node `title` names the document, and a node
`pretty` tells how JSON is written. The first node of a name counts, and of it the first entry.

* `Settings.ofText` reads them.
-/

namespace MailTemplate

open Kdl

/-- Defaults for the command line. -/
structure Settings where
  /-- The title of compiled documents. -/
  title : Option String := none
  /-- Whether JSON is written over several lines. -/
  isPretty : Bool := false
deriving DecidableEq, Repr

/-- Why a text holds no settings. -/
inductive SettingsError where
  /-- It is not KDL. -/
  | syntactic (fault : Fault)
  /-- The title is not a string. -/
  | title
  /-- How to write JSON is not told by true or false. -/
  | pretty
deriving DecidableEq, Repr

namespace SettingsError

/-- The words for an error. -/
def message : SettingsError → String
  | .syntactic _ => "invalid KDL"
  | .title => "`title` takes a single string"
  | .pretty => "`pretty` takes true or false"

end SettingsError

namespace Settings

/-- The title that a document of settings gives. -/
def titleOf (document : Document) : Except SettingsError (Option String) :=
  match document.node? "title" with
  | none => .ok none
  | some ⟨_, .text title :: _⟩ => .ok (some title)
  | some _ => .error .title

/-- What a document of settings says about JSON. -/
def prettyOf (document : Document) : Except SettingsError Bool :=
  match document.node? "pretty" with
  | none => .ok false
  | some ⟨_, .flag isPretty :: _⟩ => .ok isPretty
  | some _ => .error .pretty

/-- Reads settings. -/
def ofText (text : String) : Except SettingsError Settings := do
  let document ← (Document.ofText text).mapError .syntactic
  return { title := ← titleOf document, isPretty := ← prettyOf document }

end Settings

end MailTemplate
