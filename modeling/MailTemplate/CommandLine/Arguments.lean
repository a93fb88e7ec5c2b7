/-!
# Command Line Arguments

The arguments name a task, its operands and some options. They are read from left to right, and the
first thing that is wrong, or asks for the version or for help, ends the reading. Options before the
name of the task are read apart from those after it, where an option may be given once more.

* `Invocation.ofArguments` reads them.
-/

namespace MailTemplate

/-- What the tool can be asked to do. -/
inductive Verb where
  /-- Write an empty tree. -/
  | new
  /-- Run commands on a tree. -/
  | apply
  /-- Write the document of a tree. -/
  | compile
  /-- Audit the records of a tree. -/
  | validate
deriving DecidableEq, Repr

namespace Verb

/-- The name of a verb on the command line. -/
def name : Verb → String
  | .new => "new"
  | .apply => "apply"
  | .compile => "compile"
  | .validate => "validate"

/-- All verbs. -/
def all : List Verb :=
  [.new, .apply, .compile, .validate]

/-- The verb of a name. -/
def ofName? (name : String) : Option Verb :=
  all.find? (·.name == name)

/-- How many operands a verb takes. -/
def arity : Verb → Nat
  | .new => 0
  | .apply => 2
  | .compile | .validate => 1

end Verb

/-- What can be set by an option. -/
inductive Setting where
  /-- The path of the settings file. -/
  | config
  /-- That JSON is written over several lines. -/
  | pretty
  /-- The path to write to. -/
  | output
  /-- The title of the document. -/
  | title
deriving DecidableEq, Repr

namespace Setting

/-- The long name of an option. -/
def name : Setting → String
  | .config => "config"
  | .pretty => "pretty"
  | .output => "output"
  | .title => "title"

/-- All settings. -/
def all : List Setting :=
  [.config, .pretty, .output, .title]

/-- Whether an option can be given after a verb, or before it. -/
def isKnown (verb : Option Verb) : Setting → Bool
  | .config | .pretty => true
  | .output => verb == some .new || verb == some .apply || verb == some .compile
  | .title => verb == some .compile

/-- The setting of a long name. -/
def ofName? (verb : Option Verb) (name : String) : Option Setting :=
  all.find? fun setting => setting.name == name && setting.isKnown verb

/-- Whether an option comes with a value. -/
def takesValue : Setting → Bool
  | .pretty => false
  | _ => true

/-- Whether a value will do: a path is not empty. -/
def admits : Setting → (value : String) → Bool
  | .title, _ => true
  | _, value => value != ""

end Setting

/-- Why the arguments do not lead to a task. -/
inductive Stop where
  /-- They ask for the version, maybe of a verb. -/
  | version (verb : Option Verb)
  /-- They ask for help. -/
  | help
  /-- They are wrong. -/
  | misuse
deriving DecidableEq, Repr

/-- What one argument is. -/
inductive Argument where
  /-- An operand or a value. -/
  | plain (text : String)
  /-- The mark after which all arguments are operands. -/
  | separator
  /-- An option by its long name, maybe with a value. -/
  | long (name : String) (value : Option String)
  /-- An option by its letter, maybe with a value. -/
  | short (letter : Char) (value : Option String)
deriving DecidableEq, Repr

namespace Argument

/-- The value of a long option, after its name. -/
def longValue? : List Char → Option String
  | [] => none
  | _ :: value => some (String.ofList value)

/-- The value of a short option, after its letter; an equals sign may come before it. -/
def shortValue? : List Char → Option String
  | [] => none
  | '=' :: value => some (String.ofList value)
  | value => some (String.ofList value)

/-- Tells what an argument is. -/
def ofString (text : String) : Argument :=
  match text.toList with
  | ['-', '-'] => .separator
  | '-' :: '-' :: rest =>
    .long (String.ofList (rest.takeWhile (· != '='))) (longValue? (rest.dropWhile (· != '=')))
  | '-' :: letter :: rest => .short letter (shortValue? rest)
  | _ => .plain text

/-- What an option asks for, before or after a verb. -/
inductive Meaning where
  /-- To set something. -/
  | set (setting : Setting)
  /-- To stop. -/
  | stop (reason : Stop)
deriving DecidableEq, Repr

/-- What a long name means. A name that only asks to stop takes no value. -/
def longMeaning (verb : Option Verb) (name : String) (value : Option String) : Meaning :=
  match Setting.ofName? verb name, name, value with
  | some setting, _, _ => .set setting
  | none, "version", none => .stop (.version verb)
  | none, "help", none => .stop .help
  | none, _, _ => .stop .misuse

/-- What a letter means. -/
def shortMeaning (verb : Option Verb) : (letter : Char) → Meaning
  | 'o' => if Setting.output.isKnown verb then .set .output else .stop .misuse
  | 'V' => .stop (.version verb)
  | 'h' => .stop .help
  | _ => .stop .misuse

end Argument

/-- What was given on one side of the verb. -/
structure Given where
  /-- The options, each with its value. -/
  options : List (Setting × String) := []
  /-- The operands, in order. -/
  operands : List String := []
deriving DecidableEq, Repr

namespace Given

/-- The value of an option. -/
def value? (given : Given) (setting : Setting) : Option String :=
  given.options.lookup setting

/-- Adds an option. It can be given once, with a value that will do. -/
def set (given : Given) (setting : Setting) (value : String) : Except Stop Given :=
  if (given.value? setting).isNone ∧ setting.admits value then
    .ok { given with options := (setting, value) :: given.options }
  else .error .misuse

/-- Adds an option that comes without a value. -/
def mark (given : Given) (setting : Setting) : Except Stop Given :=
  if (given.value? setting).isNone then
    .ok { given with options := (setting, "") :: given.options }
  else .error .misuse

/-- Adds an operand of a verb, which is a path. -/
def operand (given : Given) (verb : Verb) (path : String) : Except Stop Given :=
  if given.operands.length < verb.arity ∧ path ≠ "" then
    .ok { given with operands := given.operands ++ [path] }
  else .error .misuse

end Given

/-- Adds a setting whose value may be attached to its name or be the next argument; what is given
then, and the arguments that remain. -/
def Setting.read (setting : Setting) (given : Given) (attached : Option String)
    (rest : List String) :
    Except Stop (Given × { last : List String // last.length ≤ rest.length }) :=
  if setting.takesValue then
    match attached, rest with
    | some value, rest => do return (← given.set setting value, ⟨rest, Nat.le_refl _⟩)
    | none, next :: rest =>
      match Argument.ofString next with
      | .plain value => do return (← given.set setting value, ⟨rest, by simp⟩)
      | _ => .error .misuse
    | none, [] => .error .misuse
  else if attached.isSome then .error .misuse
  else do return (← given.mark setting, ⟨rest, Nat.le_refl _⟩)

/-- Does what an option asks for. -/
def Argument.Meaning.read (meaning : Meaning) (given : Given) (attached : Option String)
    (rest : List String) :
    Except Stop (Given × { last : List String // last.length ≤ rest.length }) :=
  match meaning with
  | .set setting => setting.read given attached rest
  | .stop reason => .error reason

/-- Reads what comes after a verb. -/
def Verb.read (verb : Verb) (given : Given) : List String → Except Stop Given
  | [] => .ok given
  | argument :: rest =>
    match Argument.ofString argument with
    | .plain path => do verb.read (← given.operand verb path) rest
    | .separator => rest.foldlM (·.operand verb ·) given
    | .long name value => do
      let (given, ⟨last, _⟩) ← (Argument.longMeaning (some verb) name value).read given value rest
      verb.read given last
    | .short letter value => do
      let (given, ⟨last, _⟩) ← (Argument.shortMeaning (some verb) letter).read given value rest
      verb.read given last
termination_by arguments => arguments.length
decreasing_by all_goals (simp only [List.length_cons]; omega)

/-- The end of arguments that ask for help, maybe with one verb or with help itself. -/
def helpStop : List String → Stop
  | [] => .help
  | [name] => if (Verb.ofName? name).isSome ∨ name = "help" then .help else .misuse
  | _ => .misuse

/-- Reads what comes before a verb, and the verb; then the arguments after it. -/
def readVerb (given : Given) : List String → Except Stop (Given × Verb × List String)
  | [] => .error .misuse
  | argument :: rest =>
    match Argument.ofString argument with
    | .plain name =>
      match Verb.ofName? name with
      | some verb => .ok (given, verb, rest)
      | none => .error (if name = "help" then helpStop rest else .misuse)
    | .separator => .error .misuse
    | .long name value => do
      let (given, ⟨last, _⟩) ← (Argument.longMeaning none name value).read given value rest
      readVerb given last
    | .short letter value => do
      let (given, ⟨last, _⟩) ← (Argument.shortMeaning none letter).read given value rest
      readVerb given last
termination_by arguments => arguments.length
decreasing_by all_goals (simp only [List.length_cons]; omega)

/-- A task with its operands. -/
inductive Job where
  /-- Write an empty tree. -/
  | new
  /-- Run the commands of a file on the tree of a file. -/
  | apply (tree commands : String)
  /-- Write the document of the tree of a file. -/
  | compile (tree : String)
  /-- Audit the records of a file. -/
  | validate (tree : String)
deriving DecidableEq, Repr

/-- The job of a verb with the operands that it takes. -/
def Verb.job? : Verb → (operands : List String) → Option Job
  | .new, [] => some .new
  | .apply, [tree, commands] => some (.apply tree commands)
  | .compile, [tree] => some (.compile tree)
  | .validate, [tree] => some (.validate tree)
  | _, _ => none

/-- What the arguments ask for. -/
structure Invocation where
  /-- The job. -/
  job : Job
  /-- The path of the settings file, if one was named. -/
  config : Option String := none
  /-- Whether the arguments ask for JSON over several lines. -/
  isPretty : Bool := false
  /-- The title that the arguments give. -/
  title : Option String := none
  /-- The path to write to; without one, the result is printed. -/
  output : Option String := none
deriving DecidableEq, Repr

/-- Whether a path from the environment will do: on a side of the verb where the arguments name no
settings file, it has to be a path. -/
def admitsUsual (config : Option String) (before after : Given) : Bool :=
  config != some "" || (before.value? .config).isSome && (after.value? .config).isSome

/-- Reads the arguments, given the path of the settings file from the environment. The path after
the verb comes first, then the one before it, then that of the environment. -/
def Invocation.ofArguments (config : Option String) (arguments : List String) :
    Except Stop Invocation := do
  let (before, verb, rest) ← readVerb {} arguments
  let after ← verb.read {} rest
  match verb.job? after.operands with
  | none => throw .misuse
  | some job =>
    unless admitsUsual config before after do throw .misuse
    return {
      job
      config := after.value? .config <|> before.value? .config <|> config
      isPretty := (after.value? .pretty <|> before.value? .pretty).isSome
      title := after.value? .title
      output := after.value? .output }

end MailTemplate
