import ChunkExchange.Bytes
import ChunkExchange.Storage.Path

/-! A tree of directories and files, and what is at its paths. Every directory on the way of a path
has to be there, also one that a later step leaves again. -/

namespace ChunkExchange

/-- What is at a location. -/
inductive Entry where
  | file (contents : Bytes)
  | directory
deriving DecidableEq

/-- Everything below the root, which is a directory itself. -/
structure FileTree where
  entries : List (Location × Entry)
deriving DecidableEq

namespace FileTree

/-- The greatest size of a file: as many blocks of 4096 bytes as a 32-bit word counts. -/
def fileLimit : Nat := 4294967295 * 4096

def empty : FileTree :=
  { entries := [] }

def get? (tree : FileTree) (location : Location) : Option Entry :=
  if location.isEmpty then some .directory else tree.entries.lookup location

def remove (tree : FileTree) (location : Location) : FileTree :=
  { entries := tree.entries.filter (fun entry => !(entry.1 == location)) }

def put (tree : FileTree) (location : Location) (entry : Entry) : FileTree :=
  { entries := (location, entry) :: (tree.remove location).entries }

/-- What has a name in a directory, if anything has it. -/
def look (tree : FileTree) (above : Location) (name : String) :
    Except StorageError (Option Entry) :=
  if Path.nameLimit < name.utf8ByteSize then .error .nameTooLong
  else .ok (tree.get? (above ++ [name]))

/-- The directory that steps lead to from the directory `here`. -/
def walk (tree : FileTree) (here : Location) : List Path.Step → Except StorageError Location
  | [] => .ok here
  | .up :: steps => tree.walk here.parent steps
  | .down name :: steps =>
    match tree.look here name with
    | .error failure => .error failure
    | .ok none => .error .notFound
    | .ok (some (.file _)) => .error .notADirectory
    | .ok (some .directory) => tree.walk (here ++ [name]) steps

/-- A walk that nothing hinders ends where its steps lead. -/
theorem eq_after_of_walk (tree : FileTree) (here there : Location) (steps : List Path.Step)
    (walked : tree.walk here steps = .ok there) : there = here.after steps := by
  fun_induction walk tree here steps with
  | case1 here => simpa [Location.after] using walked.symm
  | case2 here steps ih => exact ih walked
  | case3 | case4 | case5 => simp at walked
  | case6 here name steps found ih => exact ih walked

/-- The end of a path, when every directory on its way is there. A path without a name at its end
leads to a directory; any other to a name in a directory, which a slash may follow. -/
inductive Goal where
  | directory (location : Location)
  | entry (above : Location) (name : String) (slash : Bool)
deriving DecidableEq

/-- Follows a path up to the name at its end. -/
def approach (tree : FileTree) (path : Path) : Except StorageError Goal :=
  match path.refusal?, path.name? with
  | some failure, _ => .error failure
  | none, some name =>
    (tree.walk [] path.parent.steps).map fun above =>
      .entry above name (decide (path.ending = .slash))
  | none, none => (tree.walk [] path.steps).map .directory

/-- What is at a path. -/
def find (tree : FileTree) (path : Path) : Except StorageError Entry := do
  match ← tree.approach path with
  | .directory _ => return .directory
  | .entry above name slash =>
    match ← tree.look above name, slash with
    | none, _ => throw .notFound
    | some (.file _), true => throw .notADirectory
    | some entry, _ => return entry

def contents (tree : FileTree) (path : Path) : Except StorageError Bytes := do
  match ← tree.find path with
  | .file contents => return contents
  | .directory => throw .isADirectory

/-- Everything below a directory with its path from there, in the order of the paths. -/
def listing (tree : FileTree) (above : Location) : List (String × Entry) :=
  let below := tree.entries.filter fun entry =>
    above.isPrefixOf entry.1 && !(entry.1 == above)
  (below.map fun entry => (Location.text (entry.1.drop above.length), entry.2)).mergeSort
    (fun first second => decide (first.1 ≤ second.1))

end FileTree

end ChunkExchange
