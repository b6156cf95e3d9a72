import ChunkExchange.Fetch.View
import ChunkExchange.Options

/-! The greedy scheduler: of all pairs of a file and a peer that may take another request, the first
one with the best score gets the lowest waiting chunk of its file.

Small files come first while slots for them are left, then files that are hard to find or almost
complete. A peer of which nothing is known counts more than one that delivered, so that the load
spreads. -/

namespace ChunkExchange.Fetch

/-- The arithmetic that scores are computed in. -/
class Scoring (Number : Type) extends Add Number, Sub Number, Mul Number, Div Number where
  ofNat : Nat → Number
  exceeds : Number → Number → Bool

instance : Scoring Float where
  ofNat := Float.ofNat
  exceeds first second := decide (second < first)

instance : Scoring Rat where
  ofNat number := number
  exceeds first second := decide (second < first)

/-- The bounds that the greedy scheduler keeps. -/
structure Greedy where
  maxParallelChunks : Nat
  maxParallelPerFile : Nat
  maxParallelPerPeer : Nat
  chunkSize : Nat
  smallFileThreshold : Nat
  smallFileSlots : Nat
deriving DecidableEq

namespace Greedy

def ofOptions (options : Options) : Greedy :=
  { maxParallelChunks := options.maxParallelChunks
    maxParallelPerFile := options.maxParallelPerFile
    maxParallelPerPeer := options.maxParallelPerPeer
    chunkSize := options.chunkSize
    smallFileThreshold := options.smallFileThreshold
    smallFileSlots := options.smallFileSlots }

variable {Number : Type}

/-- Whether the file counts as small. -/
def isSmall (greedy : Greedy) (file : File) : Bool :=
  file.size ≤ greedy.smallFileThreshold

/-- How many requests for small files are without an answer. -/
def smallPending (greedy : Greedy) (view : View Number) : Nat :=
  view.tickets.countP (fun ticket => greedy.isSmall ticket.file)

/-- Whether another request may be sent at all. -/
def hasRoom (greedy : Greedy) (view : View Number) : Bool :=
  view.tickets.length < greedy.maxParallelChunks

def admitsFile (greedy : Greedy) (view : View Number) (file : File) : Bool :=
  view.tickets.countP (fun ticket => ticket.file == file) < greedy.maxParallelPerFile &&
    view.hasWaiting file

def admitsPeer (greedy : Greedy) (view : View Number) (peer : Peer) : Bool :=
  view.tickets.countP (fun ticket => ticket.peer == peer) < greedy.maxParallelPerPeer

section Score

variable [Scoring Number]

open Scoring (ofNat exceeds)

/-- What the availability of a peer adds to the score. -/
def availabilityScore : Availability → Number
  | .available => ofNat 1 / ofNat 2
  | .expired => ofNat 1
  | .unavailable => ofNat 0

/-- The mean availability of the file over all peers, zero without peers. -/
def meanAvailability (view : View Number) (file : File) : Number :=
  if view.peers.isEmpty then ofNat 0
  else
    view.peers.foldl
        (fun total peer => total + availabilityScore (view.availability file peer)) (ofNat 0) /
      ofNat view.peers.length

def fileScore (greedy : Greedy) (view : View Number) (file : File) : Number :=
  let small :=
    greedy.isSmall file && decide (greedy.smallPending view < greedy.smallFileSlots)
  ofNat 10 * (if small then ofNat 1 else ofNat 0) + ofNat 1 * view.progress file +
    ofNat 2 * (ofNat 1 - meanAvailability view file)

/-- The score of a file with a peer of the given availability. -/
def pairScore (ofFile : Number) (availability : Availability) : Number :=
  ofFile + ofNat 1 * availabilityScore availability

structure Candidate (Number : Type) where
  score : Number
  file : File
  peer : Peer

/-- The pairs that may take another request, files in order and for each file the peers in order. -/
def candidates (greedy : Greedy) (view : View Number) : List (Candidate Number) :=
  (view.files.filter (greedy.admitsFile view)).flatMap fun file =>
    let ofFile := fileScore greedy view file
    (view.peers.filter fun peer =>
      greedy.admitsPeer view peer && view.availability file peer != .unavailable).map fun peer =>
        { score := pairScore ofFile (view.availability file peer), file, peer }

/-- Keeps the better of two candidates, the earlier one where neither is better. -/
def better (best : Option (Candidate Number)) (next : Candidate Number) :
    Option (Candidate Number) :=
  match best with
  | none => some next
  | some leader => if exceeds next.score leader.score then some next else some leader

/-- The first candidate that no other one exceeds. -/
def best (greedy : Greedy) (view : View Number) : Option (Candidate Number) :=
  (greedy.candidates view).foldl better none

/-- The next request, or nothing when no pair may take one. -/
def choose (greedy : Greedy) (view : View Number) : Option Pick := do
  guard (greedy.hasRoom view)
  let leader ← greedy.best view
  let index ← (view.firstWaiting leader.file 1).head?
  return { file := leader.file, extent := leader.file.extent index greedy.chunkSize,
           peer := leader.peer }

end Score

/-- The greedy scheduler, which remembers nothing. -/
def scheduler (greedy : Greedy) : Scheduler Unit where
  choose _ view := (greedy.choose view, ())

end Greedy

end ChunkExchange.Fetch
