import ChunkExchange.Fetcher

/-! The fetching side as a machine: each operation settles what it means for the downloads, then the
scheduler sends requests. -/

namespace ChunkExchange

namespace Fetch

/-- What the fetching side is told or asked to do. -/
inductive Operation where
  | join (peer : Peer)
  | leave (peer : Peer)
  | request (file : File) (path : String)
  | cancel (file : File)
  | deliver (file : File) (extent : Extent) (data : Bytes) (peer : Peer)
  | miss (file : File) (extent : Extent) (peer : Peer)
  | tick
deriving DecidableEq

/-- What the fetching side answers. -/
inductive Reply where
  | done
  | told (notices : List Notice)
  | cancelled (wasActive : Bool)
  | refused (rejection : Rejection)
  | faulted (fault : Fault)
deriving DecidableEq

def Reply.ofRefusal : Option Rejection → Reply
  | some rejection => .refused rejection
  | none => .done

/-- The outcome of an operation before the scheduler is consulted, and whether it will be. -/
structure Settled where
  fetcher : Fetcher
  reply : Reply
  effects : List Effect
  dispatches : Bool

structure Turn (Memory : Type) where
  fetcher : Fetcher
  memory : Memory
  reply : Reply
  effects : List Effect

end Fetch

namespace Fetcher

open Fetch (Operation Reply Settled Turn Scheduler)

/-- A request for an active file is refused and changes nothing. -/
def settleRequest (fetcher : Fetcher) (file : File) (path : String) : Settled :=
  if fetcher.isActive file then
    { fetcher, reply := .refused (.alreadyRequested file), effects := [], dispatches := false }
  else
    match fetcher.activate file path with
    | .ok change =>
      { fetcher := change.fetcher, reply := .told change.notices, effects := change.effects
        dispatches := true }
    | .error fault => { fetcher, reply := .faulted fault, effects := [], dispatches := false }

/-- A refused chunk changes nothing. -/
def settleDelivery (fetcher : Fetcher) (file : File) (extent : Extent) (data : Bytes)
    (peer : Peer) (now : Nat) : Settled :=
  match fetcher.receive file extent data peer now with
  | .ok change =>
    { fetcher := change.fetcher, reply := .told change.notices, effects := change.effects
      dispatches := true }
  | .error rejection => { fetcher, reply := .refused rejection, effects := [], dispatches := true }

/-- What an operation changes by itself. -/
def settle (fetcher : Fetcher) (operation : Operation) (now : Nat) : Settled :=
  match operation with
  | .join peer =>
    { fetcher := fetcher.join peer, reply := .done, effects := [], dispatches := true }
  | .leave peer =>
    { fetcher := fetcher.leave peer, reply := .done, effects := [], dispatches := true }
  | .request file path => fetcher.settleRequest file path
  | .cancel file =>
    { fetcher := fetcher.drop file, reply := .cancelled (fetcher.isActive file), effects := []
      dispatches := true }
  | .deliver file extent data peer => fetcher.settleDelivery file extent data peer now
  | .miss file extent peer =>
    let blame := fetcher.miss file extent.index peer now
    { fetcher := blame.fetcher, reply := .ofRefusal blame.refusal, effects := []
      dispatches := true }
  | .tick =>
    let blame := fetcher.expire now
    { fetcher := blame.fetcher, reply := .ofRefusal blame.refusal, effects := []
      dispatches := true }

variable {Memory : Type}

/-- One operation at `now`, and the requests that follow from it. -/
def step (scheduler : Scheduler Memory) (fetcher : Fetcher) (memory : Memory)
    (operation : Operation) (now : Nat) : Turn Memory :=
  let settled := fetcher.settle operation now
  if settled.dispatches then
    let sent := settled.fetcher.dispatch scheduler memory now
    { fetcher := sent.fetcher, memory := sent.memory, reply := settled.reply
      effects := settled.effects ++ sent.picks.map .get }
  else
    { fetcher := settled.fetcher, memory, reply := settled.reply, effects := settled.effects }

end Fetcher

end ChunkExchange
