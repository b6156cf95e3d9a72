import ChunkExchange.Coverage
import ChunkExchange.Reputation

/-! One file on its way: where it goes, which chunks have arrived, and which peers can deliver. -/

namespace ChunkExchange

/-- A file that is being downloaded. -/
structure Download where
  file : File
  path : String
  chunkSize : Nat
  coverage : Coverage
  reputation : Reputation
deriving DecidableEq

namespace Download

/-- A download of which nothing has arrived and no peer is known. -/
def start (file : File) (path : String) (chunkSize : Nat) (backoff : Backoff) :
    Except Fault Download := do
  let count ← file.chunkCount? chunkSize
  return { file, path, chunkSize, coverage := .fresh count, reputation := .fresh backoff }

def extent (download : Download) (index : Nat) : Extent :=
  download.file.extent index download.chunkSize

def isComplete (download : Download) : Bool :=
  download.coverage.isComplete

def hasWaiting (download : Download) : Bool :=
  0 < download.coverage.waiting

/-- The bytes that arrived, counted in whole chunks up to the size of the file. -/
def bytesReceived (download : Download) : Nat :=
  min (download.coverage.received * download.chunkSize) download.file.size

def move (download : Download) (index : Nat) (target : ChunkState) : Except Rejection Download := do
  let coverage ← download.coverage.move index target
  return { download with coverage }

/-- Takes a report about a peer. -/
def report (download : Download) (peer : Peer) (delivered : Bool) (now : Nat) : Download :=
  { download with reputation := download.reputation.report peer delivered now }

def requested (download : Download) (index : Nat) : Except Rejection Download :=
  download.move index .pending

/-- Chunk `index` arrived from `peer`, which vouches for the peer only if the chunk was due. -/
def received (download : Download) (index : Nat) (peer : Peer) (now : Nat) :
    Except Rejection Download := do
  let moved ← download.move index .received
  return moved.report peer true now

/-- Chunk `index`, asked for, waits again; nobody is blamed. -/
def release (download : Download) (index : Nat) : Except Rejection Download :=
  download.move index .waiting

/-- What one chunk and one peer come to when the peer failed: the download keeps the blame even
where the chunk cannot be given back. -/
structure Failure where
  download : Download
  refusal : Option Rejection

/-- `peer` failed to deliver chunk `index`, which is given back if `giveBack` is set. -/
def missing (download : Download) (index : Nat) (peer : Peer) (now : Nat) (giveBack : Bool) :
    Failure :=
  let blamed := download.report peer false now
  if giveBack then
    match blamed.release index with
    | .ok released => { download := released, refusal := none }
    | .error refusal => { download := blamed, refusal := some refusal }
  else { download := blamed, refusal := none }

def forget (download : Download) (peer : Peer) : Download :=
  { download with reputation := download.reputation.forget peer }

end Download

end ChunkExchange
