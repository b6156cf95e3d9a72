import ChunkExchange.Download
import ChunkExchange.Fetch.View
import ChunkExchange.Options

/-! The fetching side of a participant. It owns the active downloads, the known peers and the
requests without an answer. Every operation changes these first and then lets the scheduler send
requests until it declines. -/

namespace ChunkExchange

namespace Fetch

/-- What fetching does to the outside, in order. -/
inductive Effect where
  | get (pick : Pick)
  | write (path : String) (offset : Nat) (data : Bytes)
  | close (path : String)
deriving DecidableEq

end Fetch

/-- What a local observer of downloads is told. -/
inductive Notice where
  | progress (file : File) (bytesReceived : Nat)
  | completed (file : File) (path : String)
  /-- Reserved: a download is never given up. -/
  | failed (file : File)
deriving DecidableEq

structure Fetcher where
  options : Options
  /-- The active downloads, in ascending order of their files. -/
  downloads : List Download
  peers : List Peer
  /-- The requests without an answer, in the order they were sent. -/
  tickets : List Ticket

namespace Fetcher

def empty (options : Options) : Fetcher :=
  { options, downloads := [], peers := [], tickets := [] }

def download? (fetcher : Fetcher) (file : File) : Option Download :=
  fetcher.downloads.find? (fun download => download.file == file)

def isActive (fetcher : Fetcher) (file : File) : Bool :=
  (fetcher.download? file).isSome

/-- What a scheduler sees at `now`. -/
def view (fetcher : Fetcher) (now : Nat) : Fetch.View Float where
  files := fetcher.downloads.map Download.file
  peers := fetcher.peers
  tickets := fetcher.tickets
  availability file peer :=
    match fetcher.download? file with
    | some download => download.reputation.availability peer now
    | none => .expired
  progress file :=
    match fetcher.download? file with
    | some download => download.coverage.progress
    | none => 0
  firstWaiting file limit :=
    match fetcher.download? file with
    | some download => download.coverage.firstWaiting limit
    | none => []
  hasWaiting file :=
    match fetcher.download? file with
    | some download => download.hasWaiting
    | none => false

def replace (fetcher : Fetcher) (download : Download) : Fetcher :=
  { fetcher with
    downloads := fetcher.downloads.map fun other =>
      if other.file == download.file then download else other }

/-- Puts a new download where the order of files has it. -/
def insertInOrder (download : Download) : List Download → List Download
  | [] => [download]
  | next :: rest =>
    if (download.file.compare next.file).isLE then download :: next :: rest
    else next :: insertInOrder download rest

def drop (fetcher : Fetcher) (file : File) : Fetcher :=
  { fetcher with
    downloads := fetcher.downloads.filter (fun download => !(download.file == file))
    tickets := fetcher.tickets.filter (fun ticket => !(ticket.file == file)) }

def join (fetcher : Fetcher) (peer : Peer) : Fetcher :=
  if peer ∈ fetcher.peers then fetcher else { fetcher with peers := fetcher.peers ++ [peer] }

/-- Gives the chunk of an abandoned request back to its download, where that is still possible. -/
def giveBack (fetcher : Fetcher) (ticket : Ticket) : Fetcher :=
  match fetcher.download? ticket.file with
  | some download =>
    match download.release ticket.extent.index with
    | .ok released => fetcher.replace released
    | .error _ => fetcher
  | none => fetcher

/-- Forgets a peer; the chunks that were asked of it wait again. -/
def leave (fetcher : Fetcher) (peer : Peer) : Fetcher :=
  let abandoned := fetcher.tickets.filter (fun ticket => ticket.peer == peer)
  let kept : Fetcher :=
    { fetcher with
      downloads := fetcher.downloads.map (·.forget peer)
      peers := fetcher.peers.filter (fun other => !(other == peer))
      tickets := fetcher.tickets.filter (fun ticket => !(ticket.peer == peer)) }
  abandoned.foldl giveBack kept

/-- A change of the fetching side with what it told and did. -/
structure Change where
  fetcher : Fetcher
  notices : List Notice
  effects : List Fetch.Effect

/-- Drops every download with the same identifier, which the new descriptor replaces. -/
def supersede (fetcher : Fetcher) (file : File) : Fetcher :=
  let replaced := (fetcher.downloads.map Download.file).filter (fun other => other.id == file.id)
  replaced.foldl drop fetcher

/-- Begins a download of an inactive file; one without chunks is complete at once. -/
def activate (fetcher : Fetcher) (file : File) (path : String) : Except Fault Change := do
  let cleared := fetcher.supersede file
  let download ← Download.start file path fetcher.options.chunkSize fetcher.options.downloadRetry
  if download.isComplete then
    return { fetcher := cleared, notices := [.completed file path], effects := [.close path] }
  else
    return {
      fetcher := { cleared with downloads := insertInOrder download cleared.downloads }
      notices := [], effects := [] }

/-- Stores a chunk that is due: writes the data up to the announced size, and closes the file when
it was the last chunk. -/
def store (fetcher : Fetcher) (download : Download) (extent : Extent) (data : Bytes) (peer : Peer)
    (now : Nat) : Except Rejection Change := do
  let write : Fetch.Effect :=
    .write download.path (download.extent extent.index).offset (data.take extent.size)
  let received ← download.received extent.index peer now
  let settled : Fetcher :=
    { fetcher.replace received with
      tickets := fetcher.tickets.filter (fun ticket =>
        !(ticket.isFor download.file extent.index)) }
  let progress : Notice := .progress download.file received.bytesReceived
  if received.isComplete then
    return {
      fetcher := settled.drop download.file
      notices := [progress, .completed download.file download.path]
      effects := [write, .close download.path] }
  else
    return { fetcher := settled, notices := [progress], effects := [write] }

/-- Takes a delivered chunk. Only a chunk that was asked for, at its own offset and no longer than
it should be, is stored; chunks of inactive files and chunks that arrived before are ignored. -/
def receive (fetcher : Fetcher) (file : File) (extent : Extent) (data : Bytes) (peer : Peer)
    (now : Nat) : Except Rejection Change := do
  let ignored : Change := { fetcher, notices := [], effects := [] }
  match fetcher.download? file with
  | none => return ignored
  | some download =>
    match ← download.coverage.state extent.index with
    | .received => return ignored
    | .waiting => throw (.invalidTransition extent.index .waiting .received)
    | .pending =>
      let expected := download.extent extent.index
      if extent.offset = expected.offset ∧ extent.size ≤ expected.size then
        fetcher.store download extent data peer now
      else
        throw (.extentMismatch extent.index expected extent)

/-- A change with the refusal that came with it, if any. -/
structure Blame where
  fetcher : Fetcher
  refusal : Option Rejection

/-- Takes a report that `peer` does not have chunk `index`. The peer is blamed in any case; the
chunk waits again only if it was asked of this peer. -/
def miss (fetcher : Fetcher) (file : File) (index : Nat) (peer : Peer) (now : Nat) : Blame :=
  match fetcher.download? file with
  | none => { fetcher, refusal := none }
  | some download =>
    let isAnswer := fun (ticket : Ticket) => ticket.matchesKey file index peer
    let failure := download.missing index peer now (fetcher.tickets.any isAnswer)
    let blamed := fetcher.replace failure.download
    match failure.refusal with
    | some refusal => { fetcher := blamed, refusal := some refusal }
    | none =>
      { fetcher := { blamed with tickets := fetcher.tickets.eraseP isAnswer }, refusal := none }

/-- Blames the peer of an expired request, which is no longer listed, and gives its chunk back. The
first refusal is kept. -/
def timeOut (now : Nat) (blame : Blame) (ticket : Ticket) : Blame :=
  match blame.fetcher.download? ticket.file with
  | none => blame
  | some download =>
    let failure := download.missing ticket.extent.index ticket.peer now true
    { fetcher := blame.fetcher.replace failure.download
      refusal := blame.refusal <|> failure.refusal }

/-- Ends every request whose time is over at `now`, as if its peer did not have the chunk. -/
def expire (fetcher : Fetcher) (now : Nat) : Blame :=
  let expired := fetcher.tickets.filter (·.isExpired now)
  let kept : Fetcher :=
    { fetcher with tickets := fetcher.tickets.filter (fun ticket => !ticket.isExpired now) }
  expired.foldl (timeOut now) { fetcher := kept, refusal := none }

/-- Sends a request for a waiting chunk of an active file; nothing happens for any other pick. -/
def issue? (fetcher : Fetcher) (pick : Fetch.Pick) (now : Nat) : Option Fetcher := do
  let download ← fetcher.download? pick.file
  guard (download.coverage.isIn pick.extent.index .waiting)
  let requested ← (download.requested pick.extent.index).toOption
  let ticket :=
    Ticket.first pick.file pick.extent pick.peer now fetcher.options.requestTimeout
  return { fetcher.replace requested with tickets := fetcher.tickets ++ [ticket] }

def totalWaiting (fetcher : Fetcher) : Nat :=
  (fetcher.downloads.map (·.coverage.waiting)).foldr (· + ·) 0

variable {Memory : Type}

/-- The fetching side and the memory of its scheduler after some requests were sent. -/
structure Dispatch (Memory : Type) where
  fetcher : Fetcher
  memory : Memory
  picks : List Fetch.Pick

/-- Sends what the scheduler picks until it declines or picks what cannot be sent, at most `budget`
requests. -/
def dispatchWithin (scheduler : Fetch.Scheduler Memory) (now : Nat) :
    (budget : Nat) → Fetcher → Memory → Dispatch Memory
  | budget, fetcher, memory =>
    let (pick, memory) := scheduler.choose memory (fetcher.view now)
    match pick.bind (fun pick => (fetcher.issue? pick now).map (pick, ·)), budget with
    | some (pick, next), budget + 1 =>
      let rest := dispatchWithin scheduler now budget next memory
      { rest with picks := pick :: rest.picks }
    | _, _ => { fetcher, memory, picks := [] }

/-- Sends requests until the scheduler declines. Each one takes a waiting chunk, so their number
bounds the requests. -/
def dispatch (scheduler : Fetch.Scheduler Memory) (fetcher : Fetcher) (memory : Memory)
    (now : Nat) : Dispatch Memory :=
  dispatchWithin scheduler now fetcher.totalWaiting fetcher memory

end Fetcher

end ChunkExchange
