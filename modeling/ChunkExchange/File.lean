namespace ChunkExchange

/-- A shareable file. Two descriptors that differ in any field are different files, even when
their identifiers agree. -/
structure File where
  id : Nat
  hash : String
  size : Nat
deriving DecidableEq, Inhabited

/-- A run of bytes of a file, labelled with the index of the chunk it belongs to. -/
structure Extent where
  index : Nat
  offset : Nat
  size : Nat
deriving DecidableEq, Inhabited

/-- An operation that arithmetic gives no result. -/
inductive Fault where
  | divisionByZero
deriving DecidableEq

def Fault.message : Fault → String
  | .divisionByZero => "attempt to divide by zero"

namespace Extent

def text (extent : Extent) : String :=
  s!"[{extent.index}:{extent.offset}:{extent.size}]"

/-- The offset one past the last byte. -/
def stop (extent : Extent) : Nat :=
  extent.offset + extent.size

def resize (extent : Extent) (size : Nat) : Extent :=
  { extent with size }

end Extent

namespace File

def text (file : File) : String :=
  s!"{file.id}:{file.hash}:{file.size}"

/-- The file with its content hash not known yet. -/
def unhashed (file : File) : File :=
  { file with hash := "" }

def isUnhashed (file : File) : Bool :=
  file.hash.isEmpty

/-- Orders files by identifier, then hash, then size. -/
def compare (first second : File) : Ordering :=
  (Ord.compare first.id second.id).then
    ((Ord.compare first.hash second.hash).then (Ord.compare first.size second.size))

def sort (files : List File) : List File :=
  files.mergeSort (fun first second => (compare first second).isLE)

/-- The most chunks a file may have. -/
def chunkLimit : Nat := 4294967295

/-- How many chunks of `chunkSize` bytes cover the file, up to the chunk limit. -/
def chunkCount (file : File) (chunkSize : Nat) : Nat :=
  min ((file.size + chunkSize - 1) / chunkSize) chunkLimit

/-- The chunk count, which chunks of no bytes do not have. -/
def chunkCount? (file : File) (chunkSize : Nat) : Except Fault Nat :=
  if chunkSize = 0 then .error .divisionByZero else .ok (file.chunkCount chunkSize)

/-- The bytes of chunk `index`: a whole chunk, or what remains of the file from its offset. -/
def extent (file : File) (index chunkSize : Nat) : Extent :=
  { index
    offset := index * chunkSize
    size := min chunkSize (file.size - index * chunkSize) }

end File

end ChunkExchange
