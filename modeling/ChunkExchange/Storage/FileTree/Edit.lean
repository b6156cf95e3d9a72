import ChunkExchange.Storage.FileTree

namespace ChunkExchange.FileTree

/-- A tree after some work on it, and why the work failed, if it did. -/
structure Outcome where
  tree : FileTree
  failure : Option StorageError
deriving DecidableEq

/-- Goes on with the tree unless the work failed. -/
def Outcome.andThen (outcome : Outcome) (next : FileTree → Outcome) : Outcome :=
  match outcome.failure with
  | some _ => outcome
  | none => next outcome.tree

/-- The outcome of work that changes the tree only when it succeeds. -/
def Outcome.ofResult (tree : FileTree) : Except StorageError FileTree → Outcome
  | .ok changed => { tree := changed, failure := none }
  | .error failure => { tree, failure := some failure }

/-- Makes a directory, unless it is there, in a directory that is there. -/
def makeDirectory (tree : FileTree) (path : Path) : Except StorageError FileTree := do
  match ← tree.approach path with
  | .directory _ => return tree
  | .entry above name _ =>
    match ← tree.look above name with
    | some .directory => return tree
    | some (.file _) => throw .alreadyExists
    | none => return tree.put (above ++ [name]) .directory

/-- Makes the first of some directories. Where that needs the next one first, the rest of them is
made before. -/
def makeLine (tree : FileTree) : List Path → Outcome
  | [] => { tree, failure := none }
  | path :: above =>
    match tree.makeDirectory path with
    | .error .notFound =>
      (tree.makeLine above).andThen fun tree => .ofResult tree (tree.makeDirectory path)
    | result => .ofResult tree result

def makeDirectories (tree : FileTree) (path : Path) : Outcome :=
  tree.makeLine path.ancestors

structure OpenFile where
  location : Location
  contents : Bytes
deriving DecidableEq

/-- Opens the file at a path for writing. A file that is not there is empty. -/
def openFile (tree : FileTree) (path : Path) : Except StorageError OpenFile := do
  match ← tree.approach path with
  | .directory _ | .entry _ _ true => throw .isADirectory
  | .entry above name false =>
    match ← tree.look above name with
    | some .directory => throw .isADirectory
    | some (.file contents) => return { location := above ++ [name], contents }
    | none => return { location := above ++ [name], contents := [] }

/-- Writes a whole file in a directory that is there. -/
def store (tree : FileTree) (path : Path) (contents : Bytes) : Except StorageError FileTree := do
  let file ← tree.openFile path
  return tree.put file.location (.file contents)

def hasChildren (tree : FileTree) (location : Location) : Bool :=
  tree.entries.any (fun entry => entry.1.parent == location)

/-- The place of `location` after everything at `source` went to `target`. -/
def relocate (source target location : Location) : Location :=
  if source.isPrefixOf location then target ++ location.drop source.length else location

/-- Gives what is at `source`, and everything below it, the location `target`, where nothing may be
but a file that a file replaces, or an empty directory that a directory replaces. -/
def moveTo (tree : FileTree) (source target : Location) (moving : Entry) (present : Option Entry) :
    Except StorageError FileTree :=
  let moved : FileTree :=
    { entries := (tree.remove target).entries.map fun entry =>
        (relocate source target entry.1, entry.2) }
  match moving, present with
  | .file _, some .directory => .error .isADirectory
  | .directory, some (.file _) => .error .notADirectory
  | .directory, some .directory =>
    if tree.hasChildren target then .error .directoryNotEmpty else .ok moved
  | _, _ => .ok moved

/-- Gives what is at a path another path. Only a directory can be named with a slash, and none can
go into itself. -/
def rename (tree : FileTree) (source target : Path) : Except StorageError FileTree := do
  match ← tree.approach source, ← tree.approach target with
  | .entry above name slash, .entry newAbove newName newSlash =>
    let moving ← tree.look above name
    let present ← tree.look newAbove newName
    let source := above ++ [name]
    let target := newAbove ++ [newName]
    match moving, slash || newSlash with
    | none, _ => throw .notFound
    | some (.file _), true => throw .notADirectory
    | some moving, _ =>
      if source = target then return tree
      else if source.isPrefixOf target then throw .invalidInput
      else tree.moveTo source target moving present
  | _, _ => throw .busy

end ChunkExchange.FileTree
