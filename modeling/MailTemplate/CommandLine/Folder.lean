import MailTemplate.CommandLine.Process

/-!
# Runs in a Folder

The command line tool on a folder of files. A path is followed segment by segment, from the folder
or from the top of all. What lies outside of the folder is out of sight: nothing is found there but
the null device, and what is written there is not seen again. Folders that the path of a written
file passes are made as needed.

* `Folder.run` runs the tool: what it shows, and the folder afterwards.
-/

namespace MailTemplate

/-- The names that lead to a place from a folder. Those of a place outside of it begin with two dots
for each level up, or with a slash for the top of all. -/
abbrev Place : Type := List String

namespace Place

/-- The top of all. -/
def top : Place := ["/"]

/-- The device that is always empty, whatever is written to it. -/
def nullDevice : Place := ["/", "dev", "null"]

/-- Whether a place is the folder itself or one that the folder is in. -/
def isAbove (place : Place) : Bool :=
  place.all (· == "..")

/-- Whether a place lies outside of the folder. -/
def isOutside (place : Place) : Bool :=
  place.head? == some ".." || place.head? == some "/"

/-- One level up. -/
def parent (place : Place) : Place :=
  if place.isAbove then place ++ [".."]
  else if place = top then top
  else place.dropLast

/-- Where a segment of a path leads from a place. -/
def step (place : Place) : (segment : List Char) → Place
  | [] | ['.'] => place
  | ['.', '.'] => place.parent
  | name => place ++ [String.ofList name]

/-- Follows segments from a place, through places that are open: those that are passed, and the one
that is reached. -/
def follow? (isOpen : Place → Bool) (place : Place) :
    (segments : List (List Char)) → Option (List Place × Place)
  | [] => some ([], place)
  | segment :: segments =>
    if isOpen place then do
      let (passed, last) ← follow? isOpen (place.step segment) segments
      return (place :: passed, last)
    else none

end Place

/-- The segments of a path. -/
def segments : List Char → List (List Char)
  | [] => [[]]
  | c :: rest =>
    if c = '/' then [] :: segments rest
    else
      match segments rest with
      | [] => [[c]]
      | first :: others => (c :: first) :: others

/-- Follows a path through places that are open. -/
def followPath? (isOpen : Place → Bool) (path : String) : Option (List Place × Place) :=
  match path.toList with
  | '/' :: path => Place.top.follow? isOpen (segments path)
  | path => Place.follow? isOpen [] (segments path)

/-- A folder. -/
structure Folder where
  /-- The texts of the files in it and below, by their places. -/
  files : List (Place × String)
deriving DecidableEq, Repr

namespace Folder

/-- The text of the file at a place. -/
def text? (folder : Folder) (place : Place) : Option String :=
  if place = Place.nullDevice then some "" else folder.files.lookup place

/-- Whether there is a folder at a place: one that holds this folder, or one with a file below. -/
def hasFolder (folder : Folder) (place : Place) : Bool :=
  place.isAbove || (Place.nullDevice :: folder.files.map Prod.fst).any fun file =>
    place.isPrefixOf file && place.length < file.length

/-- What is found at a path. -/
def find (folder : Folder) (path : String) : Entry :=
  match followPath? folder.hasFolder path with
  | none => .missing
  | some (_, place) =>
    match folder.text? place with
    | some content => .text content
    | none => if folder.hasFolder place then .unreadable else .missing

/-- Whether a path ends in a name, and not in a folder as such. -/
def endsInName (path : String) : Bool :=
  match (segments path.toList).getLast? with
  | none | some [] | some ['.'] | some ['.', '.'] => false
  | some _ => true

/-- The folder with a text at a place; what lies outside of it does not show. -/
def put (folder : Folder) (place : Place) (text : String) : Folder :=
  if place.isOutside then folder
  else ⟨(place, text) :: folder.files.filter (·.1 != place)⟩

/-- Writes a text to a path, if it can be written there. All places that the path passes are made
folders first, and the last one then has to be none. -/
def write? (folder : Folder) (path text : String) : Option Folder := do
  let (passed, place) ← followPath? (fun place => (folder.text? place).isNone) path
  if endsInName path ∧ !folder.hasFolder place ∧ !passed.any place.isPrefixOf then
    return folder.put place text
  else none

/-- A folder as a disk. The folders on the way to a path are made as part of writing to it. -/
def disk : Disk Folder Unit where
  find held := held.files.find
  prepare _ _ := (true, ())
  write? held := held.files.write?

/-- Runs the tool, if the run comes to an end. The environment may name a file of settings, and
there is a path where settings are usually found. -/
def run (folder : Folder) (named usual : Option String) (arguments : List String) :
    Option (Report × Folder) := do
  let (report, last) ← (Process.ofArguments named usual arguments).run disk ⟨folder, ()⟩
  return (report, last.files)

end Folder

end MailTemplate
