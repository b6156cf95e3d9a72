import ChunkExchange.Storage.Error

namespace ChunkExchange

/-- Where something is: the names from the root down. -/
abbrev Location := List String

def Location.text (location : Location) : String :=
  String.intercalate "/" location

/-- The directory that holds a location. The root holds itself. -/
def Location.parent (location : Location) : Location :=
  location.dropLast

namespace Path

/-- A step from a directory to a name in it, or to the directory that holds it. -/
inductive Step where
  | down (name : String)
  | up
deriving DecidableEq

/-- What follows the last step: nothing, a slash, or a dot for the place itself. -/
inductive Ending where
  | plain
  | slash
  | dot
deriving DecidableEq

end Path

/-- A path from the root. -/
structure Path where
  steps : List Path.Step
  ending : Path.Ending
deriving DecidableEq

namespace Path

/-- The parts of a text between its slashes. -/
def parts : List Char → List (List Char)
  | [] => [[]]
  | c :: rest =>
    match c == '/', parts rest with
    | true, parts => [] :: parts
    | false, part :: parts => (c :: part) :: parts
    | false, [] => [[c]]

/-- The step that a part stands for. An empty part and a dot stay in place. -/
def step? : List Char → Option Step
  | [] | ['.'] => none
  | ['.', '.'] => some .up
  | name => some (.down (String.ofList name))

/-- What follows the last step of a text. -/
def endingOf (text : List Char) : Ending :=
  if ((parts text).filter (fun part => !part.isEmpty)).getLast? = some ['.'] then .dot
  else if text.getLast? = some '/' then .slash
  else .plain

/-- The path that a text spells. -/
def ofText (text : String) : Path :=
  { steps := (parts text.toList).filterMap step?
    ending := endingOf text.toList }

/-- The text of a path that starts in a directory. A path with a slash in front starts at the
root. -/
def within (directory path : String) : String :=
  if path.toList.head? = some '/' then path else directory ++ "/" ++ path

/-- The name that a path ends with. A path that ends with a step up or with a dot has none. -/
def name? (path : Path) : Option String :=
  match path.ending, path.steps.getLast? with
  | .dot, _ => none
  | _, some (.down name) => some name
  | _, _ => none

def parent (path : Path) : Path :=
  { steps := path.steps.dropLast, ending := .plain }

/-- The paths that reversed steps make, the longest first, without the root. -/
private def lineage : List Step → List Path
  | [] => []
  | step :: steps => { steps := (step :: steps).reverse, ending := .plain } :: lineage steps

/-- The path, its parent and so on, without the root. -/
def ancestors (path : Path) : List Path :=
  match path.steps.reverse with
  | [] => []
  | _ :: above => path :: lineage above

def nameLimit : Nat := 255

/-- The greatest number of bytes in a path. -/
def sizeLimit : Nat := 4095

def Step.size : Step → Nat
  | .down name => name.utf8ByteSize + 1
  | .up => 3

def Ending.size : Ending → Nat
  | .plain => 0
  | .slash => 1
  | .dot => 2

def size (path : Path) : Nat :=
  path.steps.foldr (fun step total => step.size + total) path.ending.size

/-- Whether a step goes to a name that nothing can have. -/
def Step.isUnnameable : Step → Bool
  | .down name => name.toList.contains '\x00'
  | .up => false

/-- Why a path leads nowhere in any tree. -/
def refusal? (path : Path) : Option StorageError :=
  if path.steps.any Step.isUnnameable then some .invalidInput
  else if sizeLimit < path.size then some .nameTooLong
  else none

end Path

/-- The location that steps lead to, where nothing is in their way. -/
def Location.after (here : Location) : List Path.Step → Location
  | [] => here
  | .down name :: steps => Location.after (here ++ [name]) steps
  | .up :: steps => Location.after here.parent steps

end ChunkExchange
