import MailTemplate.CommandLine.Report

/-!
# Steps of a Run

What the command line tool does, one step after another: it looks at files, makes folders, writes,
prints and lists problems. What a step finds decides on the steps that follow.

* `Process` is a tree of such steps, and `Process.ofArguments` is that of the tool.
* `Disk` is how a file system answers, and `Process.run` takes the steps on one.
-/

namespace MailTemplate

/-- How a run ends. -/
inductive Ending where
  /-- The job is done. -/
  | done
  /-- The arguments were wrong. -/
  | misused
  /-- The job failed. -/
  | failed (failure : Failure)
deriving DecidableEq

/-- The end of a run as its caller sees it. -/
def Ending.exit : Ending → Exit
  | .done => .fine
  | .misused => .misused
  | .failed failure => failure.exit

/-- Steps, each of which decides on the next one by what it finds. -/
inductive Process where
  /-- The run ends. -/
  | finish (ending : Ending)
  /-- The run goes on for ever, and nothing is seen of it any more. -/
  | endless
  /-- Looks up what is found at a path. -/
  | look (path : String) (next : Entry → Process)
  /-- Lists a problem. -/
  | list (problem : String) (next : Process)
  /-- Makes the folders on the way to a path, and sees whether they are there. -/
  | prepare (path : String) (next : Bool → Process)
  /-- Writes a text to a path, and sees whether it is there. -/
  | write (path text : String) (next : Bool → Process)
  /-- Prints a text. -/
  | print (text : String) (next : Process)

namespace Process

/-- Lists the problems of a failure, and ends with it. -/
def fail (failure : Failure) : Process :=
  failure.problems.foldr .list (.finish (.failed failure))

/-- Goes on with a result, if there is one. -/
def settle (result : Except JobFailure α) (next : α → Process) : Process :=
  match result with
  | .ok a => next a
  | .error (.refused failure) => .fail failure
  | .error .endless => .endless

/-- Reads what is found at a path. -/
def read (reader : (files : String → Entry) → (path : String) → Except JobFailure α) (path : String)
    (next : α → Process) : Process :=
  .look path fun entry => .settle (reader (fun _ => entry) path) next

/-- Finds the settings: those of the named file; if none is named, those of the usual file, if it
exists. -/
def settings (usual named : Option String) (next : Settings → Process) : Process :=
  match named, usual with
  | some path, _ => .read readSettings path next
  | none, none => next {}
  | none, some path =>
    .look path fun entry => if entry = .missing then next {} else .read readSettings path next

end Process

/-- Reads the files of a job, in their order, and makes its text. -/
def Job.process (isPretty : Bool) (title : Option String) (next : String → Process) :
    Job → Process
  | .new => next ((Records.ofTree .empty).toText isPretty)
  | .apply tree commands =>
    .read readTree tree fun tree =>
      .read readCommands commands fun commands =>
        .settle (runCommands tree commands) fun edited =>
          next ((Records.ofTree edited).toText isPretty)
  | .compile tree => .read readTree tree fun tree => next (tree.compile title)
  | .validate tree =>
    .read readRecords tree fun records =>
      match records.audit with
      | [] => next (soundText tree records)
      | violations => .fail (.unsound violations)

/-- Prints the product of a job, or writes it to its path. -/
def Product.deliver (product : Product) : Process :=
  match product.output with
  | none => .print (product.text ++ "\n") (.finish .done)
  | some path =>
    .prepare path fun isReady =>
      if isReady then
        .write path product.text fun isWritten =>
          if isWritten then .finish .done else .fail (.unwritable path)
      else .fail (.unwritable path)

/-- Does what an invocation asks for. -/
def Invocation.process (usual : Option String) (invocation : Invocation) : Process :=
  .settings usual invocation.config fun settings =>
    invocation.job.process (invocation.isPretty || settings.isPretty)
      (invocation.title <|> settings.title)
      fun text => Product.deliver { text, output := invocation.output }

/-- Shows why the arguments lead to no job. -/
def Stop.process : Stop → Process
  | .version verb => .print (versionText verb) (.finish .done)
  | .help => .print usage (.finish .done)
  | .misuse => .finish .misused

/-- What the tool does. The environment may name a file of settings, and there is a path where
settings are usually found. -/
def Process.ofArguments (named usual : Option String) (arguments : List String) : Process :=
  match Invocation.ofArguments named arguments with
  | .error stop => stop.process
  | .ok invocation => invocation.process usual

/-! ## Disks -/

/-- What a disk holds. -/
structure Holding (φ δ : Type) where
  /-- The files. -/
  files : φ
  /-- The folders. -/
  folders : δ
deriving DecidableEq, Repr

/-- How a file system answers, whatever stands for its files and its folders. No file changes if
folders are made, and a text is written as a whole or not at all. -/
structure Disk (φ δ : Type) where
  /-- What is found at a path. -/
  find (held : Holding φ δ) (path : String) : Entry
  /-- The folders after those on the way to a path are made, as far as this is possible, and
  whether all of them are there. -/
  prepare (held : Holding φ δ) (path : String) : Bool × δ
  /-- The files after a text is written to a path, if it can be written there. -/
  write? (held : Holding φ δ) (path text : String) : Option φ

/-- Takes the steps of a process on a disk: what is shown, and what the disk holds afterwards, if
the run comes to an end. -/
def Process.run (disk : Disk φ δ) : Process → Holding φ δ → Option (Report × Holding φ δ)
  | .finish ending, held => some ({ exit := ending.exit }, held)
  | .endless, _ => none
  | .look path next, held => (next (disk.find held path)).run disk held
  | .list problem next, held => do
    let (report, last) ← next.run disk held
    return ({ report with problems := problem :: report.problems }, last)
  | .prepare path next, held =>
    let (isReady, folders) := disk.prepare held path
    (next isReady).run disk { held with folders }
  | .write path text next, held =>
    match disk.write? held path text with
    | some files => (next true).run disk { held with files }
    | none => (next false).run disk held
  | .print text next, held => do
    let (report, last) ← next.run disk held
    return ({ report with printed := text ++ report.printed }, last)

end MailTemplate
