import ChunkExchange.Storage.FileTree.Edit

/-! Chunk storage. A file that is being assembled has a name of its own beside its final one, and
gets the final name when it is closed. So no file is seen under its final name before it is
whole. -/

namespace ChunkExchange.PartStore

open FileTree (Outcome)

/-- The path of the file that is assembled for `path`. -/
def partPath (path : String) : String :=
  path ++ ".part"

/-- `contents` with `data` laid over it from `offset` on. A gap before the data is filled with
zeros, and no data changes nothing. -/
def overlay (contents : Bytes) (offset : Nat) (data : Bytes) : Bytes :=
  if data.isEmpty then contents
  else
    contents.take offset ++ List.replicate (offset - contents.length) 0 ++ data ++
      contents.drop (offset + data.length)

/-- Writes data into an open file, which is there from then on. -/
def writeOpen (tree : FileTree) (file : FileTree.OpenFile) (offset : Nat) (data : Bytes) :
    Outcome :=
  let finish (contents : Bytes) (failure : Option StorageError) : Outcome :=
    { tree := tree.put file.location (.file contents), failure }
  if FileTree.fileLimit < offset then finish file.contents (some .invalidInput)
  else if !data.isEmpty && decide (FileTree.fileLimit < offset + data.length) then
    finish file.contents (some .fileTooLarge)
  else finish (overlay file.contents offset data) none

/-- Writes data into the file that is assembled for `path`, with the directories above it. -/
def write (tree : FileTree) (path : String) (offset : Nat) (data : Bytes) : Outcome :=
  let part := Path.ofText (partPath path)
  (tree.makeDirectories part.parent).andThen fun tree =>
    match tree.openFile part with
    | .error failure => { tree, failure := some failure }
    | .ok file => writeOpen tree file offset data

/-- Gives the assembled file its final name. A file that nothing was written to is empty, and its
directories are made. -/
def close (tree : FileTree) (path : String) : Outcome :=
  let part := Path.ofText (partPath path)
  let target := Path.ofText path
  match tree.find part with
  | .ok _ => .ofResult tree (tree.rename part target)
  | .error _ =>
    (tree.makeDirectories target.parent).andThen fun tree =>
      .ofResult tree (tree.store target [])

/-- Reads piece by piece until `wanted` bytes are there or nothing is left. Each piece has at least
one byte and at most as many as `portion` has for what is still wanted. -/
def gather (portion : Nat → Nat) (left : Bytes) (wanted : Nat) : Bytes :=
  if left.isEmpty ∨ wanted = 0 then []
  else
    let piece := left.take (max 1 (min wanted (portion wanted)))
    piece ++ gather portion (left.drop piece.length) (wanted - piece.length)
termination_by wanted
decreasing_by
  rename_i unfinished
  have := List.length_pos_iff.2 (fun isNil => unfinished (.inl (by simp [isNil])) : left ≠ [])
  simp only [not_or] at unfinished
  simp only [List.length_take]
  omega

/-- How many bytes a read brought, and the buffer after it. -/
structure Filled where
  count : Nat
  buffer : Bytes
deriving DecidableEq

/-- The greatest position in a directory, and the greatest end of a read there. -/
private def positionLimit : Nat := 9223372036854775807

/-- Why a read from a directory fails. A read of no bytes finds nothing wrong with it. -/
def directoryRefusal? (offset wanted : Nat) : Option StorageError :=
  if positionLimit < offset then some .invalidInput
  else if wanted = 0 then none
  else if positionLimit < offset + wanted then some .invalidInput
  else some .isADirectory

/-- Reads the final file of `path` from `offset` on into a buffer, whose end stays as it is where
the file is too short. -/
def read (portion : Nat → Nat) (tree : FileTree) (path : String) (offset : Nat) (buffer : Bytes) :
    Except StorageError Filled := do
  match ← tree.find (.ofText path) with
  | .directory =>
    match directoryRefusal? offset buffer.length with
    | some failure => throw failure
    | none => return { count := 0, buffer }
  | .file contents =>
    if FileTree.fileLimit < offset then throw .invalidInput
    else
      let filled := gather portion (contents.drop offset) buffer.length
      return { count := filled.length, buffer := filled ++ buffer.drop filled.length }

end ChunkExchange.PartStore
