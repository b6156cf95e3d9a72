import ChunkExchange.Node
import ChunkExchange.Proofs.History
import ChunkExchange.Proofs.SupplyHistory

/-! What a node makes of a command or a tick: each side takes its part, first fetching, then
supplying, and a caller is told what the node was when its command came. Only a shutdown stops the
node. -/

namespace ChunkExchange

theorem Config.accepted_options {config : Config} {options : Options}
    (accepted : config.options = .ok options) :
    options = config.transfer ∧ 0 < options.chunkSize := by
  simp only [Config.options, bind_eq_ok_iff] at accepted
  obtain ⟨_, positive, _, _, _, _, _, _, _, _, _, _, _, _, used⟩ := accepted
  have same : config.transfer = options := Except.ok.inj used
  subst same
  refine ⟨rfl, Nat.pos_of_ne_zero fun empty => ?_⟩
  simp [requirePositive, empty] at positive

namespace Fetcher

variable {fetcher : Fetcher}

private theorem reply_settleRequest (positive : 0 < fetcher.options.chunkSize) (file : File)
    (path : String) :
    (fetcher.isActive file = true ∧
        (fetcher.settleRequest file path).reply = .refused (.alreadyRequested file)) ∨
      (fetcher.isActive file = false ∧
        ∃ notices, (fetcher.settleRequest file path).reply = .told notices) := by
  obtain ⟨change, activated⟩ := activate_of_pos positive file path
  unfold settleRequest
  cases active : fetcher.isActive file with
  | true => exact .inl ⟨rfl, rfl⟩
  | false => exact .inr ⟨rfl, change.notices, by simp [activated]⟩

theorem reply_step {Memory : Type} (scheduler : Fetch.Scheduler Memory) (fetcher : Fetcher)
    (memory : Memory) (operation : Fetch.Operation) (now : Nat) :
    (fetcher.step scheduler memory operation now).reply = (fetcher.settle operation now).reply := by
  simp only [step]
  split <;> rfl

end Fetcher

namespace Node

open Supply (Reader)

/-- What a node works through, one at a time. -/
inductive Input where
  | command (command : Command)
  | tick

/-- What an input means for the fetching side. -/
def Input.fetch? : Input → Option Fetch.Operation
  | .command (.join peer) => some (.join peer)
  | .command (.leave peer) => some (.leave peer)
  | .command (.deliver file extent peer data) => some (.deliver file extent data peer)
  | .command (.miss file extent peer) => some (.miss file extent peer)
  | .command (.request file path) => some (.request file path)
  | .command (.cancel file) => some (.cancel file)
  | .tick => some .tick
  | .command (.supply _ _ _) | .command (.share _ _) | .command (.unshare _)
  | .command .status | .command .shutdown => none

/-- What an input means for the supplying side. -/
def Input.supply? : Input → Option Supply.Command
  | .command (.supply file extent peer) => some (.ask file extent peer)
  | .command (.share file path) => some (.share file path)
  | .command (.unshare file) => some (.withdraw file)
  | .tick => some .tick
  | .command (.join _) | .command (.leave _) | .command (.deliver _ _ _ _)
  | .command (.miss _ _ _) | .command (.request _ _) | .command (.cancel _)
  | .command .status | .command .shutdown => none

/-- Whether an input stops a node. -/
def Input.stops : Input → Bool
  | .command told => told == .shutdown
  | .tick => false

/-- What a caller is told about a node as its command finds it. -/
def answer (node : Node) : Command → Except NodeError Reply
  | .request file _ =>
    if node.fetcher.isActive file then .error (.transfer (.alreadyRequested file)) else .ok .done
  | .cancel file => .ok (.found (node.fetcher.isActive file))
  | .unshare file => .ok (.found (node.supplier.isShared file))
  | .status => .ok (.status node.snapshot)
  | .join _ | .leave _ | .supply _ _ _ | .deliver _ _ _ _ | .miss _ _ _ | .share _ _
  | .shutdown => .ok .done

variable {Source : Type}

/-- What the fetching side makes of its part in an input. What it tells comes last. -/
def fetchPart (fetcher : Fetcher) (input : Input) (now : Nat) : Fetcher × List Effect :=
  match input.fetch? with
  | some operation =>
    let scheduler := (Fetch.Greedy.ofOptions fetcher.options).scheduler
    let turn := fetcher.step scheduler () operation now
    (turn.fetcher, turn.effects.map .ofFetch ++ turn.reply.notices.map .notify)
  | none => (fetcher, [])

/-- What the supplying side makes of its part in an input. -/
def supplyPart (reader : Reader Source) (supplier : Supplier) (source : Source) (input : Input)
    (now : Nat) : Supplier.Run Source :=
  match input.supply? with
  | some command => supplier.step reader source command now
  | none => { supplier, source, effects := [] }

/-- Each side takes its part in an input at the same time, whatever the other one comes to. -/
def take (reader : Reader Source) (node : Node) (source : Source) (input : Input) (now : Nat) :
    Run Source :=
  let (fetcher, effects) := fetchPart node.fetcher input now
  let run := supplyPart reader node.supplier source input now
  { node := { fetcher, supplier := run.supplier, running := !input.stops }
    source := run.source
    effects := effects ++ run.effects.map .ofSupply }

section Turns

variable {node : Node}

/-- News are the part of the fetching side, and whether it refuses them makes no difference. -/
private theorem handleNews_eq {input : Input} {operation : Fetch.Operation}
    (fetches : input.fetch? = some operation) (node : Node) (source : Source) (now : Nat) :
    node.handleNews source operation now =
      { node := { node with fetcher := (fetchPart node.fetcher input now).1 }, source
        effects := (fetchPart node.fetcher input now).2 } := by
  simp only [handleNews, fetch, fetchPart, fetches]
  generalize node.fetcher.step _ () operation now = turn
  cases turn.reply <;> simp [Fetch.Reply.notices]

private theorem take_of_fetch {input : Input} {operation : Fetch.Operation}
    (running : node.running = true)
    (fetches : input.fetch? = some operation) (supplies : input.supply? = none)
    (goesOn : input.stops = false) (reader : Reader Source) (source : Source) (now : Nat) :
    node.take reader source input now = node.handleNews source operation now := by
  simp only [handleNews_eq fetches, take, supplyPart, supplies, goesOn, running, List.map_nil,
    List.append_nil, Bool.not_false]

private theorem take_of_supply {input : Input} {command : Supply.Command}
    (running : node.running = true)
    (fetches : input.fetch? = none) (supplies : input.supply? = some command)
    (goesOn : input.stops = false) (reader : Reader Source) (source : Source) (now : Nat) :
    node.take reader source input now =
      node.ofSupply (node.supplier.step reader source command now) := by
  simp only [take, fetchPart, supplyPart, fetches, supplies, goesOn, ofSupply, running,
    List.nil_append, Bool.not_false]

/-- A caller who asks for a file is told whether it is active, and the node goes on. -/
theorem handleRequest_eq (positive : 0 < node.fetcher.options.chunkSize) (source : Source)
    (file : File) (path : String) (now : Nat) :
    node.handleRequest source file path now =
      (node.answer (.request file path), node.handleNews source (.request file path) now) := by
  simp only [handleRequest, handleNews, fetch, Fetcher.reply_step, Fetcher.settle]
  rcases Fetcher.reply_settleRequest positive file path with
    ⟨active, reply⟩ | ⟨inactive, _, reply⟩
  · simp only [reply, answer, active, ↓reduceIte]
  · simp only [reply, answer, inactive, Bool.false_eq_true, ↓reduceIte]

theorem handle_eq (reader : Reader Source) (positive : 0 < node.fetcher.options.chunkSize)
    (running : node.running = true) (source : Source) (command : Command) (now : Nat) :
    node.handle reader source command now =
      (node.answer command, node.take reader source (.command command) now) := by
  rw [handle, if_pos running]
  cases command with
  | join | leave | deliver | miss | cancel =>
    rw [take_of_fetch running rfl rfl rfl]
    rfl
  | request file path =>
    rw [take_of_fetch running rfl rfl rfl]
    exact handleRequest_eq positive source file path now
  | supply | share | unshare =>
    rw [take_of_supply running rfl rfl rfl]
    rfl
  | status =>
    obtain ⟨fetcher, supplier, _⟩ := node
    subst running
    rfl
  | shutdown => rfl

/-- A tick runs both sides at one time, first fetching and then, in any case, supplying. -/
theorem tick_eq (reader : Reader Source) (running : node.running = true) (source : Source)
    (now : Nat) : node.tick reader source now = node.take reader source .tick now := by
  have fetches : Input.fetch? .tick = some .tick := rfl
  rw [tick, if_pos running, handleNews_eq fetches]
  simp only [ofSupply, take, supplyPart, Input.supply?, Supplier.step, Input.stops, running,
    Bool.not_false]

end Turns

/-- The two sides of a node, each with its own history. -/
structure Sides (Source : Type) where
  fetching : Fetch.History Unit
  supplying : Supply.History Source

namespace Sides

/-- Both sides after some inputs, each with its time. A side takes its part in one after the other,
and does not see the other side. -/
def run (reader : Reader Source) (options : Options) (source : Source)
    (inputs : List (Input × Nat)) : Sides Source :=
  { fetching :=
      .run (Fetch.Greedy.ofOptions options).scheduler options ()
        (inputs.filterMap fun timed => timed.1.fetch?.map (·, timed.2))
    supplying :=
      .run reader options.uploadRetry (.empty options.chunkSize options.maxParallelChunks) source
        (inputs.filterMap fun timed => timed.1.supply?.map (·, timed.2)) }

/-- The node that the two sides make up. -/
def toNode (sides : Sides Source) (running : Bool) : Node :=
  { fetcher := sides.fetching.fetcher, supplier := sides.supplying.supplier, running }

def source (sides : Sides Source) : Source :=
  sides.supplying.source

/-- What a caller is told as its command finds the sides. -/
def answer (sides : Sides Source) (command : Command) : Except NodeError Reply :=
  (sides.toNode true).answer command

def effects (reader : Reader Source) (sides : Sides Source) (input : Input) (now : Nat) :
    List Effect :=
  ((sides.toNode true).take reader sides.source input now).effects

theorem effects_of_none {input : Input} (fetches : input.fetch? = none)
    (supplies : input.supply? = none) (reader : Reader Source) (sides : Sides Source) (now : Nat) :
    sides.effects reader input now = [] := by
  simp [effects, take, fetchPart, supplyPart, fetches, supplies]

theorem options_run (reader : Reader Source) (options : Options) (source : Source)
    (inputs : List (Input × Nat)) :
    (run reader options source inputs).fetching.fetcher.options = options :=
  (Fetch.History.lawful_run _ options () _).configured

section Step

variable (reader : Reader Source) (options : Options) (source : Source)
variable (inputs : List (Input × Nat)) (input : Input) (now : Nat)

theorem fetchPart_run :
    (fetchPart (run reader options source inputs).fetching.fetcher input now).1 =
      (run reader options source (inputs ++ [(input, now)])).fetching.fetcher := by
  simp only [fetchPart, run, List.filterMap_append, List.filterMap_cons, List.filterMap_nil]
  cases input.fetch? with
  | none => simp
  | some operation =>
    have configured := options_run reader options source inputs
    simp only [run] at configured
    simp only [Option.map_some, Fetch.History.run_append_singleton, configured]
    rfl

theorem supplyPart_run :
    let sides := run reader options source inputs
    let next := run reader options source (inputs ++ [(input, now)])
    let part := supplyPart reader sides.supplying.supplier sides.source input now
    part.supplier = next.supplying.supplier ∧ part.source = next.source := by
  simp only [supplyPart, run, Sides.source, List.filterMap_append, List.filterMap_cons,
    List.filterMap_nil]
  cases input.supply? with
  | none => simp
  | some command =>
    simp only [Option.map_some, Supply.History.run_append_singleton]
    exact ⟨rfl, rfl⟩

theorem run_append_singleton :
    let sides := run reader options source inputs
    let next := run reader options source (inputs ++ [(input, now)])
    let result := (sides.toNode true).take reader sides.source input now
    result.node = next.toNode (!input.stops) ∧ result.source = next.source := by
  intro sides next result
  obtain ⟨supplied, read⟩ := supplyPart_run reader options source inputs input now
  refine ⟨?_, read⟩
  rw [toNode, ← fetchPart_run, ← supplied]
  rfl

theorem run_append_of_none (fetches : input.fetch? = none) (supplies : input.supply? = none) :
    run reader options source (inputs ++ [(input, now)]) = run reader options source inputs := by
  simp [run, fetches, supplies]

end Step

end Sides

end Node

end ChunkExchange
