import MailTemplate.CommandLine.Job

/-!
# Reports

What a run shows to its caller: how it ended, what it printed, and the problems that it lists.
-/

namespace MailTemplate

/-- How a run ended. -/
inductive Exit where
  /-- All went well. -/
  | fine
  /-- The job failed. -/
  | failed
  /-- The arguments were wrong. -/
  | misused
  /-- A fault could not be shown. -/
  | aborted
deriving DecidableEq, Repr

/-- The number of an end. -/
def Exit.code : Exit → UInt8
  | .fine => 0
  | .failed => 1
  | .misused => 2
  | .aborted => 101

/-- What a run shows. -/
structure Report where
  /-- How it ended. -/
  exit : Exit := .fine
  /-- What it printed. -/
  printed : String := ""
  /-- The problems that it lists. -/
  problems : List String := []
deriving DecidableEq, Repr

/-- How the tool is called. -/
def usage : String :=
  "\n".intercalate [
    "Weaver Mail - build email layouts from component trees",
    "",
    "Usage: weaver-mail [OPTIONS] <COMMAND>",
    "",
    "Commands:",
    "  new       Print an empty tree",
    "  apply     Apply a JSON array of commands to a tree and print the result",
    "  compile   Compile a tree to an HTML email document",
    "  validate  Report structural problems in a persisted tree without repairing it",
    "  help      Print this message or the help of the given subcommand(s)",
    "",
    "Options:",
    "      --config <CONFIG>  Path to a KDL config file",
    "      --pretty           Pretty-print JSON output",
    "  -h, --help             Print help",
    "  -V, --version          Print version",
    ""]

/-- The name and version of the tool, maybe of one of its verbs. -/
def versionText (verb : Option Verb) : String :=
  "weaver-mail-cli" ++
    match verb with
    | some verb => "-" ++ verb.name ++ " 0.1.0\n"
    | none => " 0.1.0\n"

/-- What is shown if the arguments do not lead to a job. -/
def Stop.report : Stop → Report
  | .version verb => { printed := versionText verb }
  | .help => { printed := usage }
  | .misuse => { exit := .misused }

/-- How a run ends that fails. A fault in the settings whose mark does not fit aborts it. -/
def Failure.exit : Failure → Exit
  | .settings _ (.syntactic .unmarkable) => .aborted
  | _ => .failed

/-- What is shown if a job fails. -/
def Failure.report (failure : Failure) : Report :=
  { exit := failure.exit, problems := failure.problems }

/-- What is shown if a text was printed. -/
def Report.ofText (text : String) : Report :=
  { printed := text ++ "\n" }

end MailTemplate
