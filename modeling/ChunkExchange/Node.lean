import ChunkExchange.Config
import ChunkExchange.Fetch.Greedy
import ChunkExchange.Fetch.Step
import ChunkExchange.Supplier

/-! A node: the fetching and the supplying side behind one queue of commands. A command is handled
to its end before the next one, and answered once. -/

namespace ChunkExchange

/-- Why a node does not do what it was told. -/
inductive NodeError where
  | config (cause : ConfigError)
  | transfer (rejection : Rejection)
  | closed
deriving DecidableEq

def NodeError.message : NodeError → String
  | .config cause => "configuration error: " ++ cause.message
  | .transfer rejection => "transfer error: " ++ rejection.message
  | .closed => "service channel closed"

namespace Node

/-- A message to a peer. -/
inductive Message where
  | get (file : File) (extent : Extent) (peer : Peer)
  | chunk (file : File) (extent : Extent) (peer : Peer) (data : Bytes)
  | missing (file : File) (extent : Extent) (peer : Peer)
deriving DecidableEq

inductive Effect where
  | send (message : Message)
  | notify (notice : Notice)
  | write (path : String) (offset : Nat) (data : Bytes)
  | close (path : String)
  | read (path : String) (offset : Nat) (buffer : Bytes)
deriving DecidableEq

def Effect.ofFetch : Fetch.Effect → Effect
  | .get pick => .send (.get pick.file pick.extent pick.peer)
  | .write path offset data => .write path offset data
  | .close path => .close path

def Effect.ofSupply : Supply.Effect → Effect
  | .read path offset buffer => .read path offset buffer
  | .chunk file extent peer data => .send (.chunk file extent peer data)
  | .missing file extent peer => .send (.missing file extent peer)

/-- What a node is told by the network or asked by a local caller. -/
inductive Command where
  | join (peer : Peer)
  | leave (peer : Peer)
  | supply (file : File) (extent : Extent) (peer : Peer)
  | deliver (file : File) (extent : Extent) (peer : Peer) (data : Bytes)
  | miss (file : File) (extent : Extent) (peer : Peer)
  | request (file : File) (path : String)
  | cancel (file : File)
  | share (file : File) (path : String)
  | unshare (file : File)
  | status
  | shutdown
deriving DecidableEq

/-- The state of a node as a caller sees it. -/
structure Status where
  downloads : List File
  peers : List Peer
  pendingGets : Nat
  queuedUploads : Nat
deriving DecidableEq

/-- What a caller is answered. -/
inductive Reply where
  | done
  /-- Whether there was something to end. -/
  | found (truth : Bool)
  | status (status : Status)
deriving DecidableEq

end Node

/-- Both sides of a participant, and whether it still runs. -/
structure Node where
  fetcher : Fetcher
  supplier : Supplier
  running : Bool

namespace Node

def start (options : Options) : Node :=
  { fetcher := .empty options, supplier := .empty options, running := true }

def snapshot (node : Node) : Status :=
  { downloads := node.fetcher.downloads.map Download.file
    peers := node.fetcher.peers
    pendingGets := node.fetcher.tickets.length
    queuedUploads := node.supplier.queue.length }

variable {Source : Type}

/-- A node and the source of its reads after some work, and what it did. -/
structure Run (Source : Type) where
  node : Node
  source : Source
  effects : List Effect

def fetch (node : Node) (operation : Fetch.Operation) (now : Nat) :
    Fetch.Reply × Node × List Effect :=
  let scheduler := (Fetch.Greedy.ofOptions node.fetcher.options).scheduler
  let turn := node.fetcher.step scheduler () operation now
  (turn.reply, { node with fetcher := turn.fetcher }, turn.effects.map Effect.ofFetch)

def ofSupply (node : Node) (run : Supplier.Run Source) : Run Source :=
  { node := { node with supplier := run.supplier }, source := run.source
    effects := run.effects.map Effect.ofSupply }

/-- Carries out what the network told. Nobody waits for an answer, so a refusal is lost. -/
def handleNews (node : Node) (source : Source) (operation : Fetch.Operation) (now : Nat) :
    Run Source :=
  let (reply, node, effects) := node.fetch operation now
  match reply with
  | .told notices => { node, source, effects := effects ++ notices.map .notify }
  | _ => { node, source, effects }

/-- Carries out a request of a local caller. A fault ends the node. -/
def handleRequest (node : Node) (source : Source) (file : File) (path : String) (now : Nat) :
    Except NodeError Reply × Run Source :=
  let (reply, node, effects) := node.fetch (.request file path) now
  match reply with
  | .told notices => (.ok .done, { node, source, effects := effects ++ notices.map .notify })
  | .refused rejection => (.error (.transfer rejection), { node, source, effects })
  | .faulted _ => (.error .closed, { node := { node with running := false }, source, effects })
  | _ => (.ok .done, { node, source, effects })

def handleRunning (reader : Supply.Reader Source) (node : Node) (source : Source)
    (command : Command) (now : Nat) : Except NodeError Reply × Run Source :=
  match command with
  | .join peer => (.ok .done, node.handleNews source (.join peer) now)
  | .leave peer => (.ok .done, node.handleNews source (.leave peer) now)
  | .supply file extent peer =>
    (.ok .done, node.ofSupply (node.supplier.ask reader source file extent peer now))
  | .deliver file extent peer data =>
    (.ok .done, node.handleNews source (.deliver file extent data peer) now)
  | .miss file extent peer => (.ok .done, node.handleNews source (.miss file extent peer) now)
  | .request file path => node.handleRequest source file path now
  | .cancel file =>
    (.ok (.found (node.fetcher.isActive file)), node.handleNews source (.cancel file) now)
  | .share file path =>
    (.ok .done,
      { node := { node with supplier := node.supplier.share file path }, source, effects := [] })
  | .unshare file =>
    let (supplier, effects) := node.supplier.withdraw file
    (.ok (.found (node.supplier.isShared file)),
      node.ofSupply { supplier, source, effects })
  | .status => (.ok (.status node.snapshot), { node, source, effects := [] })
  | .shutdown => (.ok .done, { node := { node with running := false }, source, effects := [] })

/-- Carries out a command. A stopped node refuses everything. -/
def handle (reader : Supply.Reader Source) (node : Node) (source : Source) (command : Command)
    (now : Nat) : Except NodeError Reply × Run Source :=
  if node.running then node.handleRunning reader source command now
  else (.error .closed, { node, source, effects := [] })

/-- Ends the requests to peers whose time is over, then tries failed reads again. A stopped node
does nothing. -/
def tick (reader : Supply.Reader Source) (node : Node) (source : Source) (now : Nat) :
    Run Source :=
  if node.running then
    let fetched := node.handleNews source .tick now
    let supplied :=
      fetched.node.ofSupply (fetched.node.supplier.tick reader fetched.source now)
    { supplied with effects := fetched.effects ++ supplied.effects }
  else { node, source, effects := [] }

end Node

end ChunkExchange
