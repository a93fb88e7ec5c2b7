import MailTemplate.Command.Wire
import MailTemplate.CommandLine.Arguments
import MailTemplate.CommandLine.Settings
import MailTemplate.Html.Document
import MailTemplate.Session
import MailTemplate.Storage.Audit
import MailTemplate.Storage.Repair

/-!
# Jobs

What comes of an invocation, given what is found at each path. The settings are looked at first,
then the operands in their order; nothing is written before all is known to be in order. A job whose
tree cannot be loaded to an end, or whose commands do not come to one, never ends.

* `Invocation.perform` gives the product of a job, or why it fails.
-/

namespace MailTemplate

open Json (ReadError)

/-- What is found at a path. -/
inductive Entry where
  /-- Nothing. -/
  | missing
  /-- Something that holds no text, such as a folder. -/
  | unreadable
  /-- A file. -/
  | text (content : String)
deriving DecidableEq, Repr

/-- Why a job fails. -/
inductive Failure where
  /-- A file cannot be read. -/
  | unreadable (path : String)
  /-- A file holds no settings. -/
  | settings (path : String) (error : SettingsError)
  /-- A file holds no tree. -/
  | tree (path : String) (error : ReadError)
  /-- A file holds no commands. -/
  | commands (path : String) (error : ReadError)
  /-- The records of a tree are not in order. -/
  | unsound (violations : List Violation)
  /-- The product cannot be written to its path. -/
  | unwritable (path : String)
deriving DecidableEq

namespace Failure

/-- The words for a failure. -/
def message : Failure → String
  | .unreadable path => "could not read " ++ path
  | .settings path error => "in config " ++ path ++ ": " ++ error.message
  | .tree path error => path ++ ": " ++ error.storageMessage
  | .commands path error => path ++ ": invalid command list: " ++ error.message
  | .unsound violations => "tree has " ++ natText violations.length ++ " structural problem(s)"
  | .unwritable path => "could not write " ++ path

/-- The problems that a failure lists. -/
def problems : Failure → List String
  | .unsound violations => violations.map Violation.message
  | _ => []

end Failure

/-- Why a job gives no product: it fails, or it never ends. -/
abbrev JobFailure : Type :=
  Unfinished Failure

/-- What a job gives. -/
structure Product where
  /-- The text. -/
  text : String
  /-- The path to write it to; without one, it is printed. -/
  output : Option String
deriving DecidableEq, Repr

section

variable (files : String → Entry)

/-- The text of a file. -/
def readFile (path : String) : Except JobFailure String :=
  match files path with
  | .text content => .ok content
  | .missing | .unreadable => .error (.refused (.unreadable path))

/-- The settings of a file. -/
def readSettings (path : String) : Except JobFailure Settings := do
  (Settings.ofText (← readFile files path)).mapError fun e => .refused (.settings path e)

/-- The settings of the named file; if none is named, those of the usual file, if it exists. -/
def findSettings (usual named : Option String) : Except JobFailure Settings :=
  match named, usual with
  | some path, _ => readSettings files path
  | none, none => .ok {}
  | none, some path => if files path = .missing then .ok {} else readSettings files path

/-- The tree of a file. -/
def readTree (path : String) : Except JobFailure Tree := do
  let loaded ← (Tree.ofText (← readFile files path)).mapError fun e => .refused (.tree path e)
  Unfinished.ofEndless loaded

/-- The records of a file. -/
def readRecords (path : String) : Except JobFailure Records := do
  (Records.ofText (← readFile files path)).mapError fun e => .refused (.tree path e)

/-- The commands of a file. -/
def readCommands (path : String) : Except JobFailure (List Command) := do
  (Command.listOfText (← readFile files path)).mapError fun e => .refused (.commands path e)

/-- The tree after commands were run in a session that starts with it. -/
def runCommands (tree : Tree) (commands : List Command) : Except JobFailure Tree :=
  Unfinished.ofEndless (((Session.start tree).applyAll commands).map Session.tree)

/-- The text that says that a file is in order. -/
def soundText (path : String) (records : Records) : String :=
  "✓ " ++ path ++ " is valid (" ++ natText records.size ++ " nodes)"

/-- The text that a job gives under some settings. -/
def Job.perform (isPretty : Bool) (title : Option String) : Job → Except JobFailure String
  | .new => return (Records.ofTree .empty).toText isPretty
  | .apply tree commands => do
    let tree ← readTree files tree
    let commands ← readCommands files commands
    return (Records.ofTree (← runCommands tree commands)).toText isPretty
  | .compile tree => return (← readTree files tree).compile title
  | .validate tree => do
    let records ← readRecords files tree
    match records.audit with
    | [] => return soundText tree records
    | violations => throw (.refused (.unsound violations))

/-- What an invocation gives, or why it gives nothing. -/
def Invocation.perform (usual : Option String) (invocation : Invocation) :
    Except JobFailure Product := do
  let settings ← findSettings files usual invocation.config
  let text ← invocation.job.perform files (invocation.isPretty || settings.isPretty)
    (invocation.title <|> settings.title)
  return { text, output := invocation.output }

end

end MailTemplate
