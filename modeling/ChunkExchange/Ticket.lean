import ChunkExchange.File
import ChunkExchange.Peer

namespace ChunkExchange

/-- A request for one chunk of one file, exchanged with one peer. Times are in nanoseconds. -/
structure Ticket where
  file : File
  extent : Extent
  peer : Peer
  created : Nat
  attempts : Nat
  /-- The last moment at which the latest attempt may still succeed. -/
  expires : Nat
deriving DecidableEq

namespace Ticket

def first (file : File) (extent : Extent) (peer : Peer) (now timeout : Nat) : Ticket :=
  { file, extent, peer, created := now, attempts := 1, expires := now + timeout }

/-- Whether the latest attempt has failed by `now`. -/
def isExpired (ticket : Ticket) (now : Nat) : Bool :=
  ticket.expires < now

/-- Whether the ticket asks for chunk `index` of `file`, whoever is asked. -/
def isFor (ticket : Ticket) (file : File) (index : Nat) : Bool :=
  ticket.extent.index == index && ticket.file == file

def matchesKey (ticket : Ticket) (file : File) (index : Nat) (peer : Peer) : Bool :=
  ticket.isFor file index && ticket.peer == peer

/-- Whether two tickets are for the same chunk with the same peer. -/
def sameTarget (ticket other : Ticket) : Bool :=
  ticket.matchesKey other.file other.extent.index other.peer

/-- The ticket after one more attempt, which may take until `expires`. -/
def retried (ticket : Ticket) (expires : Nat) : Ticket :=
  { ticket with attempts := ticket.attempts + 1, expires }

end Ticket

end ChunkExchange
