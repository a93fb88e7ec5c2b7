import MailTemplate.CommandLine.Process

/-!
# The Command Line Tool

Takes the steps of a run on the file system.
-/

namespace MailTemplate

/-- What the file system holds at a path. -/
def lookUp (path : String) : IO Entry := do
  try
    return .text (← IO.FS.readFile path)
  catch
    | .noFileOrDirectory .. => return .missing
    | _ => return .unreadable

/-- The path where settings are usually found: in the folder for settings, if its path is given from
the top, or else in that of the home folder. -/
def usualSettings : IO (Option String) := do
  let named := (← IO.getEnv "XDG_CONFIG_HOME").filter (·.startsWith "/")
  let home := (← IO.getEnv "HOME").map (· ++ "/.config")
  return (named <|> home).map (· ++ "/weaver-mail/config.kdl")

/-- The folder part of a path. -/
def parentOf (path : String) : String :=
  let name := path.toList.reverse.dropWhile (· == '/')
  String.ofList ((name.dropWhile (· != '/')).drop 1).reverse

/-- Whether an action succeeds. -/
def succeeds (action : IO Unit) : IO Bool := do
  try
    action
    return true
  catch _ => return false

/-- Makes the folders on the way to a path. -/
def makeParents (path : String) : IO Unit := do
  let parent := parentOf path
  if parent != "" then IO.FS.createDirAll parent

/-- Shows how a run ends, and gives its exit code. -/
def Ending.display (ending : Ending) : IO UInt32 := do
  match ending with
  | .done => pure ()
  | .misused => IO.eprint usage
  | .failed failure => IO.eprintln ("error: " ++ failure.message)
  return ending.exit.code.toUInt32

/-- Takes the steps of a process on the file system. -/
def Process.carryOut : Process → IO UInt32
  | .finish ending => ending.display
  | .endless => IO.iterate () fun _ => return .inl ()
  | .look path next => do (next (← lookUp path)).carryOut
  | .list problem next => do
    IO.eprintln ("✗ " ++ problem)
    next.carryOut
  | .prepare path next => do (next (← succeeds (makeParents path))).carryOut
  | .write path text next => do (next (← succeeds (IO.FS.writeFile path text))).carryOut
  | .print text next => do
    IO.print text
    next.carryOut

end MailTemplate

/-- The command line tool. -/
def main (arguments : List String) : IO UInt32 := do
  let named ← IO.getEnv "WEAVER_MAIL_CONFIG"
  let usual ← MailTemplate.usualSettings
  (MailTemplate.Process.ofArguments named usual arguments).carryOut
