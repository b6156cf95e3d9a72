import ChunkExchange.Proofs.RetrySchedule

/-! Served bytes. Every read is lent zeros for what was asked for and lies in the file; a chunk
brings no more than the read filled of them, whatever it claims, and nothing that a buffer held for
another request. -/

namespace ChunkExchange

namespace Supply

/-- The zeros that are lent for a read: as many as were asked for, but none past the end of the
file. -/
def Request.zeros (request : Request) : Bytes :=
  List.replicate (min request.extent.size (request.file.size - request.extent.offset)) 0

/-- A chunk of an extent with its data answers a request when a read has claimed to fill `claimed`
bytes of the buffer. -/
structure Request.Carries (request : Request) (claimed : Nat) (extent : Extent) (data : Bytes) :
    Prop where
  length : data.length =
    min claimed (min request.extent.size (request.file.size - request.extent.offset))
  size : extent.size = data.length
  index : extent.index = request.extent.index
  offset : extent.offset = request.extent.offset
  inside : extent.size = 0 ∨ extent.offset + extent.size ≤ request.file.size

/-- One read for a request of a file at a path, with all that is done for the request and what the
source is then. -/
inductive Attempt {Source : Type} (reader : Reader Source) (path : String) (request : Request)
    (source : Source) : List Effect → Source → Prop where
  | failed {told : List Effect}
      (unclaimed :
        (reader.read source path request.extent.offset request.zeros).1.claimed = none)
      (declined : told = [] ∨ told = [.missing request.file request.extent request.peer]) :
    Attempt reader path request source
      (.read path request.extent.offset request.zeros :: told)
      (reader.read source path request.extent.offset request.zeros).2
  | sent {claimed : Nat} {extent : Extent} {data : Bytes}
      (claims :
        (reader.read source path request.extent.offset request.zeros).1.claimed = some claimed)
      (filled : data = (reader.read source path request.extent.offset
        request.zeros).1.contents.toList.take claimed)
      (carries : request.Carries claimed extent data) :
    Attempt reader path request source
      [.read path request.extent.offset request.zeros,
        .chunk request.file extent request.peer data]
      (reader.read source path request.extent.offset request.zeros).2

/-- Reads for some requests in turn, each from where its file is. -/
inductive Attempts {Source : Type} (reader : Reader Source) (path? : File → Option String) :
    List Request → Source → List Effect → Source → Prop where
  | nil (source : Source) : Attempts reader path? [] source [] source
  | cons {request : Request} {requests : List Request} {path : String}
      {source between last : Source} {first later : List Effect}
      (shared : path? request.file = some path)
      (attempt : Attempt reader path request source first between)
      (rest : Attempts reader path? requests between later last) :
    Attempts reader path? (request :: requests) source (first ++ later) last

/-- What comes of an event: some requests are declined without a read, and then each request that
is at work is read for once. -/
structure Event.Serves {Source : Type} (reader : Reader Source) (event : Event)
    (before after : Source) : Prop where
  effects : ∃ declined served, event.effects = declined ++ served ∧
    (∀ effect ∈ declined, ∃ file extent peer, effect = .missing file extent peer) ∧
    Attempts reader event.before.path? (event.before.readers event.command event.now) before
      served after

private theorem Request.carries_take (request : Request) {contents : Bytes}
    (lent : contents.length =
      min request.extent.size (request.file.size - request.extent.offset)) (claimed : Nat) :
    request.Carries claimed (request.extent.resize (contents.take claimed).length)
      (contents.take claimed) := by
  have length : (contents.take claimed).length =
      min claimed (min request.extent.size (request.file.size - request.extent.offset)) := by
    rw [List.length_take, lent]
  refine ⟨length, rfl, rfl, rfl, ?_⟩
  simp only [Extent.resize, length]
  omega

end Supply

open Supply (Attempt Attempts BufferPool Command Effect Reader Request)

namespace Supplier

variable {Source : Type} {reader : Reader Source} {supplier : Supplier} {ticket : Ticket}
variable {path : String}

section Attempts

private theorem effects_requeue (run : Run Source) (ticket : Ticket) (retry : Nat → Ticket)
    (attempt : Nat) :
    ∃ told, (requeue run ticket retry attempt).effects = run.effects ++ told ∧
      (requeue run ticket retry attempt).source = run.source ∧
      (told = [] ∨ told = [.missing ticket.file ticket.extent ticket.peer]) := by
  unfold requeue
  split
  · exact ⟨[], (List.append_nil _).symm, rfl, .inl rfl⟩
  · exact ⟨_, rfl, rfl, .inr rfl⟩

private theorem attempt_of_brought {request : Request} {source : Source} {data : Bytes}
    (brought : reader.data? source path request = some data) :
    Attempt reader path request source [request.read path, request.chunk data]
      (reader.readFor source path request).2 := by
  obtain ⟨claimed, claims, filled⟩ := Option.map_eq_some_iff.mp brought
  have carries := request.carries_take (Vector.length_toList.trans List.length_replicate :
    (reader.readFor source path request).1.contents.toList.length = _) claimed
  rw [filled] at carries
  exact .sent claims filled.symm carries

/-- A read that succeeds is over, and one that fails is over once it is settled. -/
private theorem attempt_readAndReply (reader : Reader Source) (run : Run Source) (path : String)
    (request : Request) {answer : Bool × Run Source}
    (answers : readAndReply reader run path request.file request.extent request.peer = answer) :
    ∃ served, answer.2.effects = run.effects ++ served ∧
      if answer.1 then Attempt reader path request run.source served answer.2.source
      else ∀ told, (told = [] ∨ told = [.missing request.file request.extent request.peer]) →
        Attempt reader path request run.source (served ++ told) answer.2.source := by
  obtain ⟨pool, result⟩ := readAndReply_eq reader run path request
  rw [← answers, result]
  refine ⟨_, rfl, ?_⟩
  cases brought : reader.data? run.source path request with
  | some data => exact attempt_of_brought brought
  | none =>
    intro told declined
    exact .failed (Option.map_eq_none_iff.mp brought) declined

private theorem attempt_retry (reader : Reader Source) (now : Nat) (run : Run Source)
    (shared : run.supplier.path? ticket.file = some path) :
    ∃ served, (retry reader now run ticket).effects = run.effects ++ served ∧
      Attempt reader path ticket.request run.source served
        (retry reader now run ticket).source := by
  unfold retry
  simp only [shared]
  cases answers : readAndReply reader run path ticket.file ticket.extent ticket.peer with
  | mk succeeded after =>
    obtain ⟨served, effects, attempt⟩ :=
      attempt_readAndReply reader run path ticket.request answers
    cases succeeded with
    | true => exact ⟨served, effects, attempt⟩
    | false =>
      obtain ⟨told, more, source, declined⟩ := effects_requeue after ticket
        (fun delay => ticket.retried (now + delay)) ticket.attempts
      refine ⟨served ++ told, ?_, ?_⟩
      · exact more.trans (by rw [effects, List.append_assoc])
      · exact source ▸ attempt told declined

private theorem attempt_ask (reader : Reader Source) (supplier : Supplier) (source : Source)
    (request : Request) (now : Nat) (shared : supplier.path? request.file = some path) :
    let run := supplier.ask reader source request.file request.extent request.peer now
    Attempt reader path request source run.effects run.source := by
  unfold ask
  simp only [shared]
  cases answers : readAndReply reader { supplier, source, effects := [] } path request.file
      request.extent request.peer with
  | mk succeeded after =>
    obtain ⟨served, effects, attempt⟩ := attempt_readAndReply reader _ path request answers
    have same : after.effects = served := effects
    subst same
    cases succeeded with
    | true => exact attempt
    | false =>
      let first := Ticket.first request.file request.extent request.peer now
      let cleared : Run Source := { after with supplier := { after.supplier with
        queue := after.supplier.queue.filter (fun ticket =>
          !ticket.matchesKey request.file request.extent.index request.peer) } }
      obtain ⟨told, more, left, declined⟩ := effects_requeue cleared (first 0) first 0
      exact (congrArg₂ (Attempt reader path request source) more left).mpr (attempt told declined)

private theorem attempts_foldl_retry (reader : Reader Source) (now : Nat) (due : List Ticket)
    (run : Run Source) {path? : File → Option String} (paths : run.supplier.path? = path?)
    (shared : ∀ ticket ∈ due, run.supplier.isShared ticket.file = true) :
    ∃ served, (due.foldl (retry reader now) run).effects = run.effects ++ served ∧
      Attempts reader path? (due.map Ticket.request) run.source served
        (due.foldl (retry reader now) run).source := by
  subst paths
  induction due generalizing run with
  | nil => exact ⟨[], (List.append_nil _).symm, .nil run.source⟩
  | cons ticket rest ih =>
    obtain ⟨path, found⟩ := Option.isSome_iff_exists.mp (shared ticket List.mem_cons_self)
    obtain ⟨first, effects, attempt⟩ := attempt_retry reader now run found
    have same := (handles_retry reader now run ticket).shared
    obtain ⟨later, more, attempts⟩ := ih (retry reader now run ticket) (fun other listed => by
      rw [isShared_of_shared same]
      exact shared other (List.mem_cons_of_mem ticket listed))
    have paths : (retry reader now run ticket).supplier.path? = run.supplier.path? := by
      funext file
      rw [path?, path?, same]
    rw [paths] at attempts
    refine ⟨first ++ later, ?_, .cons found attempt attempts⟩
    rw [List.foldl_cons, more, effects, List.append_assoc]

end Attempts

section Buffers

def Run.withBuffers (run : Run Source) (pool : BufferPool) : Run Source :=
  { run with supplier := { run.supplier with pool } }

private theorem readAndReply_withBuffers (reader : Reader Source) (run : Run Source)
    (pool : BufferPool) (path : String) (file : File) (extent : Extent) (peer : Peer) :
    ∃ left, readAndReply reader (run.withBuffers pool) path file extent peer =
      ((readAndReply reader run path file extent peer).1,
        (readAndReply reader run path file extent peer).2.withBuffers left) := by
  obtain ⟨_, plain⟩ := readAndReply_eq reader run path { file, extent, peer }
  obtain ⟨left, other⟩ :=
    readAndReply_eq reader (run.withBuffers pool) path { file, extent, peer }
  exact ⟨left, other.trans (congrArg (fun answer => (answer.1, answer.2.withBuffers left))
    plain.symm)⟩

private theorem requeue_withBuffers (run : Run Source) (pool : BufferPool) (ticket : Ticket)
    (retry : Nat → Ticket) (attempt : Nat) :
    requeue (run.withBuffers pool) ticket retry attempt =
      (requeue run ticket retry attempt).withBuffers pool := by
  unfold requeue
  simp only [Run.withBuffers]
  split <;> rfl

private theorem retry_withBuffers (reader : Reader Source) (now : Nat) (run : Run Source)
    (pool : BufferPool) (ticket : Ticket) :
    ∃ left, retry reader now (run.withBuffers pool) ticket =
      (retry reader now run ticket).withBuffers left := by
  cases shared : run.supplier.path? ticket.file with
  | none =>
    have alike : (run.withBuffers pool).supplier.path? ticket.file = none := shared
    simp only [retry, shared, alike]
    exact ⟨pool, rfl⟩
  | some path =>
    have alike : (run.withBuffers pool).supplier.path? ticket.file = some path := shared
    obtain ⟨left, same⟩ :=
      readAndReply_withBuffers reader run pool path ticket.file ticket.extent ticket.peer
    refine ⟨left, ?_⟩
    simp only [retry, shared, alike, same]
    split
    · rfl
    · exact requeue_withBuffers ..

private theorem foldl_retry_withBuffers (reader : Reader Source) (now : Nat) (due : List Ticket)
    (run : Run Source) (pool : BufferPool) :
    ∃ left, due.foldl (retry reader now) (run.withBuffers pool) =
      (due.foldl (retry reader now) run).withBuffers left := by
  induction due generalizing run pool with
  | nil => exact ⟨pool, rfl⟩
  | cons ticket rest ih =>
    obtain ⟨between, first⟩ := retry_withBuffers reader now run pool ticket
    rw [List.foldl_cons, first]
    exact ih (retry reader now run ticket) between

/-- What a command does depends on the buffers in the pool in nothing but what they are then. -/
theorem step_withBuffers (reader : Reader Source) (supplier : Supplier) (source : Source)
    (command : Command) (now : Nat) (pool : BufferPool) :
    ∃ left, step reader { supplier with pool } source command now =
      (supplier.step reader source command now).withBuffers left := by
  cases command with
  | share | withdraw => exact ⟨pool, rfl⟩
  | ask file extent peer =>
    cases shared : supplier.path? file with
    | none =>
      have alike : path? { supplier with pool } file = none := shared
      simp only [step, ask, shared, alike]
      exact ⟨pool, rfl⟩
    | some path =>
      have alike : path? { supplier with pool } file = some path := shared
      obtain ⟨left, same⟩ := readAndReply_withBuffers reader
        { supplier, source, effects := [] } pool path file extent peer
      simp only [Run.withBuffers] at same
      refine ⟨left, ?_⟩
      simp only [step, ask, shared, alike, same]
      generalize readAndReply reader { supplier, source, effects := [] } path file extent peer =
        answer
      let cleared : Run Source := { answer.2 with supplier := { answer.2.supplier with
        queue := answer.2.supplier.queue.filter (fun ticket =>
          !ticket.matchesKey file extent.index peer) } }
      split
      · rfl
      · exact requeue_withBuffers cleared left _ _ _
  | tick =>
    exact foldl_retry_withBuffers reader now _
      { supplier := { supplier with queue := _ }, source, effects := [] } pool

end Buffers

end Supplier

namespace Supply

/-- A request that a command puts to work is one that a peer made, then or earlier. -/
def Event.Asked (event : Event) (earlier : List Event) : Prop :=
  ∀ request ∈ event.before.readers event.command event.now,
    ∃ asking ∈ earlier ++ [event],
      asking.command = .ask request.file request.extent request.peer

namespace History

variable {Source : Type} {reader : Reader Source} {history : History Source}

/-- Every request that a command puts to work is answered from one read of its own. -/
private theorem serves_event (queues : history.supplier.QueuesShared) (reader : Reader Source)
    (command : Command) (now : Nat) :
    (history.event reader command now).Serves reader history.source
      (history.next reader command now).source := by
  constructor
  cases command with
  | share file path => exact ⟨[], [], rfl, nofun, .nil _⟩
  | withdraw file =>
    refine ⟨_, [], (List.append_nil _).symm, ?_, .nil _⟩
    intro effect listed
    obtain ⟨ticket, _, declined⟩ := List.mem_map.mp listed
    exact ⟨ticket.file, ticket.extent, ticket.peer, declined.symm⟩
  | ask file extent peer =>
    cases shared : history.supplier.path? file with
    | none =>
      have idle : history.supplier.readers (.ask file extent peer) now = [] := by
        simp [Supplier.readers, Supplier.isShared, shared]
      have declined : history.supplier.ask reader history.source file extent peer now =
          { supplier := history.supplier, source := history.source
            effects := [.missing file extent peer] } := by
        simp only [Supplier.ask, shared]
      simp only [event, next, Supplier.step, idle, declined]
      refine ⟨[.missing file extent peer], [], rfl, ?_, .nil _⟩
      intro effect listed
      exact ⟨file, extent, peer, List.mem_singleton.mp listed⟩
    | some path =>
      have single : history.supplier.readers (.ask file extent peer) now =
          [{ file, extent, peer }] := by
        simp [Supplier.readers, Supplier.isShared, shared]
      have attempt := Supplier.attempt_ask reader history.supplier history.source
        { file, extent, peer } now shared
      have attempts := Attempts.cons shared attempt (.nil _)
      rw [← single, List.append_nil] at attempts
      exact ⟨[], _, rfl, nofun, attempts⟩
  | tick =>
    obtain ⟨served, effects, attempts⟩ := Supplier.attempts_foldl_retry reader now _
      { supplier := { history.supplier with
          queue := history.supplier.queue.filter (fun ticket => !ticket.isExpired now) }
        source := history.source, effects := [] }
      rfl (fun ticket due => queues ticket (List.mem_filter.mp due).1)
    exact ⟨[], served, effects, nofun, attempts⟩

theorem asked_run (reader : Reader Source) (backoff : Backoff) (pool : BufferPool)
    (source : Source) (commands : List (Command × Nat)) :
    let history := run reader backoff pool source commands
    ∀ ticket ∈ history.supplier.queue, ∃ asking ∈ history.events,
      asking.command = .ask ticket.file ticket.extent ticket.peer := by
  refine run_induction (motive := fun history => ∀ ticket ∈ history.supplier.queue,
    ∃ asking ∈ history.events, asking.command = .ask ticket.file ticket.extent ticket.peer)
    nofun ?_ commands
  intro history command now earlier ticket queued
  rcases Supplier.request_of_mem_queue_step queued with ⟨old, listed, same⟩ | asked
  · obtain ⟨asking, present, asks⟩ := earlier old listed
    refine ⟨asking, List.mem_append_left _ present, asks.trans ?_⟩
    exact congrArg (fun request : Request =>
      Command.ask request.file request.extent request.peer) same
  · exact ⟨_, List.mem_append_right _ (List.mem_singleton.mpr rfl), asked⟩

private theorem asked_event (asked : ∀ ticket ∈ history.supplier.queue, ∃ asking ∈ history.events,
      asking.command = .ask ticket.file ticket.extent ticket.peer) (command : Command)
    (now : Nat) : (history.event reader command now).Asked history.events := by
  intro request listed
  cases command with
  | share | withdraw => cases listed
  | ask file extent peer =>
    have listed : request ∈ history.supplier.readers (.ask file extent peer) now := listed
    rw [Supplier.readers] at listed
    split at listed
    · rw [List.mem_singleton.mp listed]
      exact ⟨_, List.mem_append_right _ (List.mem_singleton.mpr rfl), rfl⟩
    · cases listed
  | tick =>
    obtain ⟨ticket, due, same⟩ := List.mem_map.mp listed
    obtain ⟨asking, present, asks⟩ := asked ticket (List.mem_filter.mp due).1
    subst same
    exact ⟨asking, List.mem_append_left _ present, asks⟩

/-- The same history with other buffers in the pool. -/
def withBuffers (history : History Source) (pool : BufferPool) : History Source :=
  { history with supplier := { history.supplier with pool } }

/-- The history of some commands when somebody else leaves other buffers in the pool before each of
them. -/
def runAmid (reader : Reader Source) (backoff : Backoff) (pool : BufferPool) (source : Source)
    (commands : List (BufferPool × Command × Nat)) : History Source :=
  commands.foldl (fun history timed =>
    (history.withBuffers timed.1).next reader timed.2.1 timed.2.2) (start backoff pool source)

/-- Two histories have told the same, and differ in the buffers of the pool only. -/
structure Alike (first second : History Source) : Prop where
  supplier : ∃ pool, second.supplier = { first.supplier with pool }
  source : second.source = first.source
  effects : second.events.map Event.effects = first.events.map Event.effects

theorem Alike.withBuffers {second : History Source} (alike : history.Alike second)
    (pool : BufferPool) : history.Alike (second.withBuffers pool) := by
  obtain ⟨old, same⟩ := alike.supplier
  exact ⟨⟨pool, by rw [History.withBuffers, same]⟩, alike.source, alike.effects⟩

theorem Alike.next {second : History Source} (alike : history.Alike second)
    (reader : Reader Source) (command : Command) (now : Nat) :
    (history.next reader command now).Alike (second.next reader command now) := by
  obtain ⟨pool, same⟩ := alike.supplier
  obtain ⟨left, moved⟩ :=
    Supplier.step_withBuffers reader history.supplier history.source command now pool
  have step : second.supplier.step reader second.source command now =
      (history.supplier.step reader history.source command now).withBuffers left := by
    rw [same, alike.source]
    exact moved
  refine ⟨⟨left, ?_⟩, ?_, ?_⟩
  · simp only [History.next, step]
    rfl
  · simp only [History.next, step]
    rfl
  · simp only [History.next, History.event, List.map_append, List.map_singleton, alike.effects,
      step]
    rfl

theorem alike_runAmid (reader : Reader Source) (backoff : Backoff) (pool other : BufferPool)
    (source : Source) (commands : List (BufferPool × Command × Nat)) :
    (run reader backoff pool source (commands.map Prod.snd)).Alike
      (runAmid reader backoff other source commands) := by
  induction commands using List.reverseRecOn with
  | nil => exact ⟨⟨other, rfl⟩, rfl, rfl⟩
  | append_singleton commands timed ih =>
    rw [List.map_append, List.map_singleton, run_append_singleton, runAmid, List.foldl_append]
    exact (ih.withBuffers timed.1).next reader timed.2.1 timed.2.2

end History

/-- Whatever peers ask for and whatever the reads come to: each request is answered from one read of
its own, which is lent zeros and lies in the file, and what the buffers of the pool held before
makes no difference to the reads and the answers. -/
theorem chunks_discreet {Source : Type} (reader : Reader Source) (backoff : Backoff)
    (pool : BufferPool) (source : Source) :
    (∀ commands command now,
      let history := History.run reader backoff pool source commands
      let event := history.event reader command now
      event.Serves reader history.source (history.next reader command now).source ∧
        event.Asked history.events) ∧
    ∀ other commands,
      let plain := History.run reader backoff pool source (commands.map Prod.snd)
      let disturbed := History.runAmid reader backoff other source commands
      disturbed.events.map Event.effects = plain.events.map Event.effects ∧
        disturbed.source = plain.source := by
  constructor
  · intro commands command now
    have queues := History.queuesShared_run reader backoff pool source commands
    have asked := History.asked_run reader backoff pool source commands
    exact ⟨History.serves_event queues reader command now, History.asked_event asked command now⟩
  · intro other commands
    have alike := History.alike_runAmid reader backoff pool other source commands
    exact ⟨alike.effects, alike.source⟩

end Supply

end ChunkExchange
