import ChunkExchange.File

namespace ChunkExchange

/-- A chunk waits to be asked for, is asked for without an answer yet, or has arrived. -/
inductive ChunkState where
  | waiting
  | pending
  | received
deriving DecidableEq, Inhabited

namespace ChunkState

def name : ChunkState → String
  | .waiting => "Waiting"
  | .pending => "Pending"
  | .received => "Received"

/-- The moves a chunk can make: it is asked for, given back, or arrives after it was asked for.
An arrived chunk stays. -/
def canBecome : ChunkState → ChunkState → Bool
  | .waiting, .pending => true
  | .pending, .waiting => true
  | .pending, .received => true
  | _, _ => false

end ChunkState

/-- Why the exchange refused what it was told. -/
inductive Rejection where
  | invalidTransition (chunk : Nat) (current target : ChunkState)
  | outOfRange (chunk count : Nat)
  | extentMismatch (chunk : Nat) (expected actual : Extent)
  | alreadyRequested (file : File)
deriving DecidableEq

def Rejection.message : Rejection → String
  | .invalidTransition chunk current target =>
    s!"invalid transition for chunk {chunk}: {current.name} -> {target.name}"
  | .outOfRange chunk count => s!"chunk {chunk} out of range (file has {count} chunks)"
  | .extentMismatch chunk expected actual =>
    s!"chunk {chunk} delivered as {actual.text}, expected {expected.text}"
  | .alreadyRequested file => s!"file {file.text} has already been requested"

end ChunkExchange
