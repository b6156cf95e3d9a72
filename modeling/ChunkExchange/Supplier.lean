import ChunkExchange.Options
import ChunkExchange.Supply.BufferPool
import ChunkExchange.Ticket

/-! The supplying side of a participant. A request for a shared file is answered at once when the
read succeeds. A failed read is queued and tried again later, until the backoff gives up and the
requester is told that the chunk is missing. -/

namespace ChunkExchange

namespace Supply

/-- What a read did to a buffer of `length` bytes: how many it claims to have filled, unless it
failed, and what the buffer holds now. -/
structure ReadReply (length : Nat) where
  claimed : Option Nat
  contents : Vector UInt8 length

/-- A source of file contents, which may change from read to read. -/
structure Reader (Source : Type) where
  read : Source → (path : String) → (offset : Nat) → (buffer : Bytes) →
    ReadReply buffer.length × Source

inductive Effect where
  | read (path : String) (offset : Nat) (buffer : Bytes)
  | chunk (file : File) (extent : Extent) (peer : Peer) (data : Bytes)
  | missing (file : File) (extent : Extent) (peer : Peer)
deriving DecidableEq

end Supply

open Supply (BufferPool Buffer Reader Effect)

/-- The supplying side of a participant. -/
structure Supplier where
  backoff : Backoff
  shared : List (File × String)
  /-- The requests whose reads failed, in the order they were queued. -/
  queue : List Ticket
  pool : BufferPool
deriving DecidableEq

namespace Supplier

def withPool (backoff : Backoff) (pool : BufferPool) : Supplier :=
  { backoff, shared := [], queue := [], pool }

def empty (options : Options) : Supplier :=
  withPool options.uploadRetry (.empty options.chunkSize options.maxParallelChunks)

def path? (supplier : Supplier) (file : File) : Option String :=
  supplier.shared.lookup file

def isShared (supplier : Supplier) (file : File) : Bool :=
  (supplier.path? file).isSome

/-- Shares a file from a path, which replaces its former one. -/
def share (supplier : Supplier) (file : File) (path : String) : Supplier :=
  { supplier with
    shared := (file, path) :: supplier.shared.filter (fun entry => !(entry.1 == file)) }

/-- Tells the requester of a queued chunk that it is missing. -/
def decline (ticket : Ticket) : Effect :=
  .missing ticket.file ticket.extent ticket.peer

/-- Stops sharing a file; its queued requests are declined in order. -/
def withdraw (supplier : Supplier) (file : File) : Supplier × List Effect :=
  ({ supplier with
      shared := supplier.shared.filter (fun entry => !(entry.1 == file))
      queue := supplier.queue.filter (fun ticket => !(ticket.file == file)) },
    (supplier.queue.filter (fun ticket => ticket.file == file)).map decline)

variable {Source : Type}

/-- The supplying side, its source, and what was done so far. -/
structure Run (Source : Type) where
  supplier : Supplier
  source : Source
  effects : List Effect

/-- How many bytes an answer may hold: no more than asked for, and no more than the file has past
the offset. -/
def replyLength (file : File) (extent : Extent) : Nat :=
  min extent.size (file.size - extent.offset)

/-- Reads a chunk into a lent buffer and sends what was read, and tells whether the read succeeded.
A claim beyond the buffer is cut to it. -/
def readAndReply (reader : Reader Source) (run : Run Source) (path : String) (file : File)
    (extent : Extent) (peer : Peer) : Bool × Run Source :=
  let (buffer, pool) := run.supplier.pool.acquire (replyLength file extent)
  let (reply, source) := reader.read run.source path extent.offset buffer.contents
  let contents := reply.contents.toList
  let supplier := { run.supplier with pool := pool.release { buffer with contents } }
  let effects := run.effects ++ [.read path extent.offset buffer.contents]
  match reply.claimed with
  | some claimed =>
    let data := contents.take claimed
    (true, { supplier, source
             effects := effects ++ [.chunk file (extent.resize data.length) peer data] })
  | none => (false, { supplier, source, effects })

/-- Queues a ticket whose read failed at `now` for another try, or declines it when the backoff has
given up on attempt `attempt`. -/
def requeue (run : Run Source) (ticket : Ticket) (retry : Nat → Ticket) (attempt : Nat) :
    Run Source :=
  match run.supplier.backoff.delay? attempt with
  | some delay =>
    { run with
      supplier := { run.supplier with queue := run.supplier.queue ++ [retry delay] } }
  | none => { run with effects := run.effects ++ [decline ticket] }

/-- A peer asks for a chunk. The request supersedes a queued one of the same chunk and peer. -/
def ask (reader : Reader Source) (supplier : Supplier) (source : Source) (file : File)
    (extent : Extent) (peer : Peer) (now : Nat) : Run Source :=
  match supplier.path? file with
  | none => { supplier, source, effects := [.missing file extent peer] }
  | some path =>
    let (succeeded, run) :=
      readAndReply reader { supplier, source, effects := [] } path file extent peer
    let queue :=
      run.supplier.queue.filter (fun ticket => !ticket.matchesKey file extent.index peer)
    let run := { run with supplier := { run.supplier with queue } }
    if succeeded then run
    else
      let first := Ticket.first file extent peer now
      requeue run (first 0) first 0

/-- Tries a queued request again. -/
def retry (reader : Reader Source) (now : Nat) (run : Run Source) (ticket : Ticket) : Run Source :=
  match run.supplier.path? ticket.file with
  | none => { run with effects := run.effects ++ [decline ticket] }
  | some path =>
    let (succeeded, run) := readAndReply reader run path ticket.file ticket.extent ticket.peer
    if succeeded then run
    else requeue run ticket (fun delay => ticket.retried (now + delay)) ticket.attempts

/-- Tries every queued request again whose delay is over at `now`, in the order of the queue. -/
def tick (reader : Reader Source) (supplier : Supplier) (source : Source) (now : Nat) :
    Run Source :=
  let due := supplier.queue.filter (·.isExpired now)
  let waiting := supplier.queue.filter (fun ticket => !ticket.isExpired now)
  due.foldl (retry reader now)
    { supplier := { supplier with queue := waiting }, source, effects := [] }

end Supplier

end ChunkExchange
