import ChunkExchange.Reputation
import ChunkExchange.Ticket

namespace ChunkExchange.Fetch

/-- What is known of the downloads at one moment. The progress of files is a number of type
`Number`. -/
structure View (Number : Type) where
  files : List File
  peers : List Peer
  tickets : List Ticket
  availability : File → Peer → Availability
  progress : File → Number
  firstWaiting : File → Nat → List Nat
  hasWaiting : File → Bool

/-- A request to be sent: which chunk of which file to ask of whom. -/
structure Pick where
  file : File
  extent : Extent
  peer : Peer
deriving DecidableEq

/-- A way of choosing the next request, which may remember what it was asked before. -/
structure Scheduler (Memory : Type) where
  choose : Memory → View Float → Option Pick × Memory

end ChunkExchange.Fetch
