import ChunkExchange.Proofs.Assembly
import ChunkExchange.Proofs.GreedyChoice
import ChunkExchange.Proofs.Supplying

/-! One fetching participant and any number of suppliers, which exchange messages over a network
that may lose, repeat, delay and reorder them. -/

namespace ChunkExchange

open Fetch (Event Effect History Operation Pick Scheduler)

/-- What a message of a supplier means for the fetching side. -/
def Supply.Effect.arrival? (sender : Peer) : Supply.Effect → Option Operation
  | .chunk file extent _ data => some (.deliver file extent data sender)
  | .missing file extent _ => some (.miss file extent sender)
  | .read _ _ _ => none

/-- Whether an operation is not an answer of a peer. -/
def Fetch.Operation.isLocal : Operation → Bool
  | .deliver _ _ _ _ | .miss _ _ _ => false
  | _ => true

/-- A fetching participant with everything that happened to it, the supplier at every peer, and all
answers that were ever sent. -/
structure Swarm where
  history : History Unit
  suppliers : Peer → Supplier
  arrivals : List Operation

namespace Swarm

def start (options : Options) : Swarm :=
  { history := .start options (), suppliers := fun _ => .empty options, arrivals := [] }

def scheduler (options : Options) : Scheduler Unit :=
  (Fetch.Greedy.ofOptions options).scheduler

def fetch (options : Options) (swarm : Swarm) (operation : Operation) (now : Nat) : Swarm :=
  { swarm with history := swarm.history.next (scheduler options) operation now }

/-- A supplier changes and sends something. -/
def supply (swarm : Swarm) (peer : Peer) (supplier : Supplier) (effects : List Supply.Effect) :
    Swarm :=
  { swarm with
    suppliers := fun other => if other = peer then supplier else swarm.suppliers other
    arrivals := swarm.arrivals ++ effects.filterMap (Supply.Effect.arrival? peer) }

/-- A supplier has worked. -/
def serve {Source : Type} (swarm : Swarm) (peer : Peer) (run : Supplier.Run Source) : Swarm :=
  swarm.supply peer run.supplier run.effects

/-- One step of a swarm, where `self` names the fetching participant and all reads of `file` that
succeed bring its content. What was sent may arrive now or later, again, or never. -/
inductive Step (options : Options) (self : Peer) (file : File) (content : Bytes) (swarm : Swarm) :
    Swarm → Prop where
  | act (operation : Operation) (now : Nat) (own : operation.isLocal = true) :
    Step options self file content swarm (swarm.fetch options operation now)
  | hear (operation : Operation) (now : Nat) (sent : operation ∈ swarm.arrivals) :
    Step options self file content swarm (swarm.fetch options operation now)
  | ask {Source : Type} (reader : Supply.Reader Source) (source : Source) (pick : Pick)
      (now : Nat) (sent : pick ∈ swarm.history.sent)
      (faithful : pick.file = file →
        ∀ path, (swarm.suppliers pick.peer).path? file = some path →
          Supplier.Faithful reader content
            { supplier := swarm.suppliers pick.peer, source, effects := [] } path file
            pick.extent) :
    Step options self file content swarm (swarm.serve pick.peer
      ((swarm.suppliers pick.peer).ask reader source pick.file pick.extent self now))
  | tick {Source : Type} (reader : Supply.Reader Source) (source : Source) (peer : Peer)
      (now : Nat)
      (faithful : Supplier.RetriesFaithful reader file content now
        { supplier := { swarm.suppliers peer with
            queue := (swarm.suppliers peer).queue.filter (fun ticket => !ticket.isExpired now) }
          source, effects := [] }
        ((swarm.suppliers peer).queue.filter (·.isExpired now))) :
    Step options self file content swarm
      (swarm.serve peer ((swarm.suppliers peer).tick reader source now))
  | share (peer : Peer) (named : File) (path : String) :
    Step options self file content swarm
      (swarm.supply peer ((swarm.suppliers peer).share named path) [])
  | withdraw (peer : Peer) (named : File) :
    Step options self file content swarm (swarm.supply peer
      ((swarm.suppliers peer).withdraw named).1 ((swarm.suppliers peer).withdraw named).2)
  | restart (peer : Peer) (backoff : Backoff) (pool : Supply.BufferPool) :
    Step options self file content swarm (swarm.supply peer (.withPool backoff pool) [])

inductive Reachable (options : Options) (self : Peer) (file : File) (content : Bytes) :
    Swarm → Prop where
  | start : Reachable options self file content (start options)
  | step {swarm next : Swarm} (earlier : Reachable options self file content swarm)
      (move : Step options self file content swarm next) :
      Reachable options self file content next

/-- A delivered chunk of a file is a whole one and has the bytes of the content. -/
def Brings (file : File) (content : Bytes) (chunkSize : Nat) : Operation → Prop
  | .deliver named extent data _ =>
    named = file → extent.IsChunk file chunkSize ∧ data = extent.bytes content
  | _ => True

/-- Everything in a swarm that is about a file is about whole chunks of its content. -/
structure Genuine (swarm : Swarm) (options : Options) (file : File) (content : Bytes) : Prop where
  ran : ∃ commands, swarm.history = History.run (scheduler options) options () commands
  asked : ∀ pick ∈ swarm.history.sent, pick.file = file →
    pick.extent.IsChunk file options.chunkSize
  queued : ∀ peer, (swarm.suppliers peer).QueuesChunks file options.chunkSize
  brings : ∀ operation ∈ swarm.arrivals, Brings file content options.chunkSize operation
  written : ∀ event ∈ swarm.history.events, ∀ write ∈ event.writes file,
    write.Genuine file content options.chunkSize

variable {options : Options} {self : Peer} {file : File} {content : Bytes} {swarm next : Swarm}

private theorem isChunk_of_chosen {picks : List Pick}
    (chosen : Fetcher.Dispatch.Chosen (scheduler options) picks) {pick : Pick}
    (listed : pick ∈ picks) : pick.extent.IsChunk pick.file options.chunkSize := by
  obtain ⟨memory, view, choice⟩ := chosen pick listed
  obtain ⟨_, _, _, extent⟩ := Fetch.Greedy.choose_eq_some choice
  exact extent

theorem genuine_start : (start options).Genuine options file content where
  ran := ⟨[], rfl⟩
  asked := by simp [start, Fetch.History.sent, Fetch.History.start]
  queued := by
    intro peer ticket listed
    simp [start, Supplier.empty, Supplier.withPool] at listed
  brings := by simp [start]
  written := by simp [start, Fetch.History.start]

theorem Genuine.supply (genuine : swarm.Genuine options file content) {peer : Peer}
    {supplier : Supplier} {effects : List Supply.Effect}
    (queue : supplier.QueuesChunks file options.chunkSize)
    (truthful : ∀ effect ∈ effects, Supplier.Truthful file content options.chunkSize effect) :
    (swarm.supply peer supplier effects).Genuine options file content where
  ran := genuine.ran
  asked := genuine.asked
  queued := by
    intro other
    simp only [Swarm.supply]
    split
    · exact queue
    · exact genuine.queued other
  brings := by
    intro operation listed
    rcases List.mem_append.mp listed with old | new
    · exact genuine.brings operation old
    · obtain ⟨effect, sent, same⟩ := List.mem_filterMap.mp new
      have truth := truthful effect sent
      cases effect with
      | read => cases same
      | chunk => cases same; exact truth
      | missing => cases same; trivial
  written := genuine.written

private theorem genuine_of_writes {event : Event} {scheduler : Scheduler Unit}
    (lawful : event.Lawful scheduler options)
    (brings : Brings file content options.chunkSize event.operation) :
    ∀ write ∈ event.writes file, write.Genuine file content options.chunkSize := by
  intro write listed
  cases lawful.touches file with
  | kept silent | opened silent =>
    rw [silent] at listed
    cases listed
  | @written download _ extent data _ member named operation pending _ _ writes =>
    rw [writes, List.mem_singleton] at listed
    subst listed
    rw [operation] at brings
    obtain ⟨whole, same⟩ := brings rfl
    have bound := Coverage.lt_count_of_isIn pending
    have sound := lawful.before.sound download member
    rw [sound.count, lawful.configured, named] at bound
    refine ⟨bound, congrArg Extent.offset whole, ?_⟩
    change data.take extent.size = (content.drop extent.offset).take _
    rw [same, Extent.bytes, List.take_take, Nat.min_self]
    exact congrArg (fun size => (content.drop extent.offset).take size)
      (congrArg Extent.size whole)

theorem Genuine.fetch (genuine : swarm.Genuine options file content) {operation : Operation}
    (brings : Brings file content options.chunkSize operation) (now : Nat) :
    (swarm.fetch options operation now).Genuine options file content := by
  obtain ⟨commands, ran⟩ := genuine.ran
  have lawful : swarm.history.Lawful (scheduler options) options :=
    ran ▸ History.lawful_run (scheduler options) options () commands
  have event := lawful.event operation now
  have events : (swarm.fetch options operation now).history.events =
      swarm.history.events ++ [swarm.history.event (scheduler options) operation now] := rfl
  refine ⟨⟨commands ++ [(operation, now)], ?_⟩, ?_, genuine.queued, genuine.brings, ?_⟩
  · rw [History.run_append_singleton, ← ran]
    rfl
  · intro pick listed named
    rw [History.sent, events, List.flatMap_append, List.mem_append] at listed
    rcases listed with old | new
    · exact genuine.asked pick old named
    · rw [List.flatMap_singleton, List.mem_filterMap] at new
      obtain ⟨effect, done, same⟩ := new
      cases effect with
      | get other =>
        cases same
        obtain ⟨picks, chosen, among⟩ := event.chosen_of_get done
        exact named ▸ isChunk_of_chosen chosen among
      | write | close => cases same
  · intro other member
    rw [events] at member
    rcases List.mem_append.mp member with old | new
    · exact genuine.written other old
    · cases List.mem_singleton.mp new
      exact genuine_of_writes event brings

theorem Genuine.step (genuine : swarm.Genuine options file content)
    (measured : content.length = file.size) {self : Peer}
    (move : Step options self file content swarm next) : next.Genuine options file content := by
  cases move with
  | act operation now own =>
    apply genuine.fetch
    cases operation with
    | deliver => cases own
    | _ => trivial
  | hear operation now sent => exact genuine.fetch (genuine.brings operation sent) now
  | ask reader source pick now sent faithful =>
    have whole (same : pick.file = file) := genuine.asked pick sent same
    have serves := Supplier.serves_ask measured (genuine.queued pick.peer) source self now whole
      faithful
    exact genuine.supply serves.queue serves.effects
  | tick reader source peer now faithful =>
    have serves := Supplier.serves_tick measured (genuine.queued peer) source now faithful
    exact genuine.supply serves.queue serves.effects
  | share peer named path => exact genuine.supply (genuine.queued peer) (by simp)
  | withdraw peer named =>
    obtain ⟨queue, truthful⟩ := Supplier.serves_withdraw (genuine.queued peer) named
    exact genuine.supply queue truthful
  | restart peer backoff pool =>
    refine genuine.supply ?_ (by simp)
    intro ticket listed
    cases listed

theorem genuine_of_reachable (measured : content.length = file.size) {self : Peer}
    (reachable : Reachable options self file content swarm) :
    swarm.Genuine options file content := by
  induction reachable with
  | start => exact genuine_start
  | step _ move ih => exact ih.step measured move

/-- What a run wrote for a file is its content. -/
structure Assembles (options : Options) (file : File) (content : Bytes) (events : List Event) :
    Prop where
  genuine : ∀ event ∈ events, ∀ write ∈ event.writes file,
    write.Genuine file content options.chunkSize
  /-- When a file is told to be complete, what was written since it was asked for makes the content
  of any bytes, and keeps what is behind it. -/
  whole : ∀ earlier event later, events = earlier ++ event :: later →
    ∀ path, .completed file path ∈ event.notices →
      (∀ write ∈ Fetch.writesSince file (earlier ++ [event]), write.path = path) ∧
      ∀ old, Fetch.layWrites (Fetch.writesSince file (earlier ++ [event])) old =
        content ++ old.drop file.size

/-- Whatever the network does with the messages, a complete file has its content. -/
theorem assembles (measured : content.length = file.size) (fits : file.Fits options.chunkSize)
    (reachable : Reachable options self file content swarm) :
    Assembles options file content swarm.history.events := by
  have genuine := genuine_of_reachable measured reachable
  refine ⟨genuine.written, ?_⟩
  intro earlier event later events path told
  obtain ⟨commands, ran⟩ := genuine.ran
  have finishes := History.run_finishes (ran ▸ events) told
  have written : ∀ write ∈ Fetch.writesSince file (earlier ++ [event]),
      write.Genuine file content options.chunkSize := by
    intro write listed
    obtain ⟨source, member, own⟩ := Fetch.mem_writesSince listed
    refine genuine.written source ?_ write own
    rw [events]
    simp only [List.mem_append, List.mem_cons, List.not_mem_nil, or_false] at member ⊢
    tauto
  exact ⟨finishes.writes_path, Fetch.layWrites_of_finishes measured fits finishes written⟩

/-- A file of three bytes, cut into chunks of two, comes from one supplier in two answers, the later
one first. -/
theorem assembles_three_bytes :
    let file : File := { id := 1, hash := "", size := 3 }
    let options : Options := { chunkSize := 2 }
    ∃ swarm, Reachable options (.ofNat 0) file [1, 2, 3] swarm ∧
      (∃ event ∈ swarm.history.events, .completed file "target" ∈ event.notices) ∧
      Assembles options file [1, 2, 3] swarm.history.events := by
  intro file options
  let supplier : Peer := .ofNat 1
  have faithful (run : Supplier.Run Unit) (path : String) (extent : Extent) :
      Supplier.Faithful (.ofContent [1, 2, 3]) [1, 2, 3] run path file extent :=
    Supplier.faithful_ofContent rfl run path extent
  have shared : Reachable options (.ofNat 0) file [1, 2, 3] _ :=
    Reachable.start.step (.share supplier file "source")
  have joined := shared.step (.act (.join supplier) 0 rfl)
  have requested := joined.step (.act (.request file "target") 0 rfl)
  have first := requested.step (.ask (.ofContent [1, 2, 3]) () ⟨file, ⟨1, 2, 1⟩, supplier⟩ 0
    (by decide +kernel) (fun _ path _ => faithful _ path _))
  have second := first.step (.ask (.ofContent [1, 2, 3]) () ⟨file, ⟨0, 0, 2⟩, supplier⟩ 0
    (by decide +kernel) (fun _ path _ => faithful _ path _))
  have half := second.step (.hear (.deliver file ⟨1, 2, 1⟩ [3] supplier) 0 (by decide +kernel))
  have whole := half.step (.hear (.deliver file ⟨0, 0, 2⟩ [1, 2] supplier) 0 (by decide +kernel))
  exact ⟨_, whole, by decide +kernel, assembles rfl (by decide) whole⟩

end Swarm

end ChunkExchange
