import ChunkExchange.Proofs.Lists
import ChunkExchange.Proofs.Supplying
import Mathlib.Data.List.Induction

namespace ChunkExchange

namespace Supply

/-- What the supplying side is told or asked to do. -/
inductive Command where
  | share (file : File) (path : String)
  | withdraw (file : File)
  | ask (file : File) (extent : Extent) (peer : Peer)
  | tick
deriving DecidableEq

/-- A request for a chunk of a file, as a peer made it. -/
structure Request where
  file : File
  extent : Extent
  peer : Peer
deriving DecidableEq

def Effect.isRead : Effect → Bool
  | .read _ _ _ => true
  | _ => false

private theorem isRead_of_mem (path : String) (offset : Nat) (buffer : Bytes) :
    ∀ effect ∈ [Effect.read path offset buffer], effect.isRead = true := by
  intro effect listed
  cases List.mem_singleton.mp listed
  rfl

end Supply

def Ticket.request (ticket : Ticket) : Supply.Request :=
  { file := ticket.file, extent := ticket.extent, peer := ticket.peer }

namespace Supplier

open Supply (Effect Command Reader)

variable {Source : Type}

def step (reader : Reader Source) (supplier : Supplier) (source : Source) (command : Command)
    (now : Nat) : Run Source :=
  match command with
  | .share file path => { supplier := supplier.share file path, source, effects := [] }
  | .withdraw file =>
    { supplier := (supplier.withdraw file).1, source, effects := (supplier.withdraw file).2 }
  | .ask file extent peer => supplier.ask reader source file extent peer now
  | .tick => supplier.tick reader source now

/-- What becomes of a request at work: it is declined, a chunk is sent, or it is queued. Only the
buffers and the source change besides. -/
inductive Handles (ticket : Ticket) (before : Run Source) : Run Source → Prop where
  | declined {pool : Supply.BufferPool} {source : Source} {reads : List Effect}
      (only : ∀ effect ∈ reads, effect.isRead = true) :
    Handles ticket before
      { supplier := { before.supplier with pool }, source
        effects := before.effects ++ (reads ++ [decline ticket]) }
  | sent {pool : Supply.BufferPool} {source : Source} {reads : List Effect} {size : Nat}
      {data : Bytes} (only : ∀ effect ∈ reads, effect.isRead = true) :
    Handles ticket before
      { supplier := { before.supplier with pool }, source
        effects := before.effects ++
          (reads ++ [.chunk ticket.file (ticket.extent.resize size) ticket.peer data]) }
  | queued {pool : Supply.BufferPool} {source : Source} {reads : List Effect} {later : Ticket}
      (only : ∀ effect ∈ reads, effect.isRead = true) (same : later.request = ticket.request) :
    Handles ticket before
      { supplier := { before.supplier with pool, queue := before.supplier.queue ++ [later] }
        source, effects := before.effects ++ reads }

variable {reader : Reader Source} {before after : Run Source} {ticket : Ticket} {now : Nat}
variable {supplier : Supplier} {file : File} {path : String} {extent : Extent} {peer : Peer}

theorem Handles.shared (handles : Handles ticket before after) :
    after.supplier.shared = before.supplier.shared := by
  cases handles <;> rfl

theorem Handles.backoff (handles : Handles ticket before after) :
    after.supplier.backoff = before.supplier.backoff := by
  cases handles <;> rfl

private theorem handles_requeue (before : Run Source) (ticket : Ticket) {pool : Supply.BufferPool}
    {source : Source} {reads : List Effect} (only : ∀ effect ∈ reads, effect.isRead = true)
    (retry : Nat → Ticket) (same : ∀ delay, (retry delay).request = ticket.request)
    (attempt : Nat) :
    Handles ticket before
      (requeue { supplier := { before.supplier with pool }, source
                 effects := before.effects ++ reads } ticket retry attempt) := by
  unfold requeue
  split
  · rename_i delay _
    exact .queued only (same delay)
  · rw [List.append_assoc]
    exact .declined only

theorem handles_retry (reader : Reader Source) (now : Nat) (run : Run Source) (ticket : Ticket) :
    Handles ticket run (retry reader now run ticket) := by
  unfold retry
  split
  · have declined : Handles ticket run
        { supplier := { run.supplier with pool := run.supplier.pool }, source := run.source
          effects := run.effects ++ ([] ++ [decline ticket]) } := .declined (by simp)
    exact declined
  · rename_i path shared
    obtain ⟨pool, source, ⟨_, result⟩ | ⟨claimed, _, result⟩⟩ :=
      readAndReply_cases reader run path ticket.file ticket.extent ticket.peer
    · simp only [result, Bool.false_eq_true, ↓reduceIte]
      exact handles_requeue run ticket (Supply.isRead_of_mem path _ _)
        (fun delay => ticket.retried (now + delay)) (fun _ => rfl) ticket.attempts
    · simp only [result, ↓reduceIte, List.append_assoc]
      exact .sent (Supply.isRead_of_mem path _ _)

theorem handles_ask (reader : Reader Source) (source : Source) (extent : Extent) (peer : Peer)
    (now : Nat) (shared : supplier.path? file = some path) :
    Handles (Ticket.first file extent peer now 0)
      { supplier := { supplier with
          queue := supplier.queue.filter (fun ticket => !ticket.matchesKey file extent.index peer) }
        source, effects := [] }
      (supplier.ask reader source file extent peer now) := by
  unfold ask
  simp only [shared]
  obtain ⟨pool, left, ⟨_, result⟩ | ⟨claimed, _, result⟩⟩ :=
    readAndReply_cases reader { supplier, source, effects := [] } path file extent peer
  · simp only [result, Bool.false_eq_true, ↓reduceIte]
    exact handles_requeue { supplier := { supplier with queue := _ }, source, effects := [] }
      (Ticket.first file extent peer now 0) (Supply.isRead_of_mem path _ _)
      (Ticket.first file extent peer now) (fun _ => rfl) 0
  · simp only [result, ↓reduceIte, List.append_assoc]
    exact .sent (Supply.isRead_of_mem path _ _)

/-- What is queued after a request was at work was queued before, or is that request. -/
theorem Handles.request_of_mem_queue (handles : Handles ticket before after) {later : Ticket}
    (queued : later ∈ after.supplier.queue) :
    (∃ old ∈ before.supplier.queue, old.request = later.request) ∨
      ticket.request = later.request := by
  cases handles with
  | declined | sent => exact .inl ⟨later, queued, rfl⟩
  | queued only same =>
    rcases List.mem_append.mp queued with old | new
    · exact .inl ⟨later, old, rfl⟩
    · exact .inr (List.mem_singleton.mp new ▸ same.symm)

private theorem request_of_mem_foldl_retry (reader : Reader Source) (now : Nat) (due : List Ticket)
    (run : Run Source) {later : Ticket}
    (queued : later ∈ (due.foldl (retry reader now) run).supplier.queue) :
    ∃ old ∈ run.supplier.queue ++ due, old.request = later.request := by
  induction due generalizing run with
  | nil => exact ⟨later, by simpa using queued, rfl⟩
  | cons ticket rest ih =>
    obtain ⟨old, listed, same⟩ := ih _ queued
    rcases List.mem_append.mp listed with kept | waiting
    · rcases (handles_retry reader now run ticket).request_of_mem_queue kept with
        ⟨first, present, alike⟩ | own
      · exact ⟨first, List.mem_append_left _ present, alike.trans same⟩
      · exact ⟨ticket, List.mem_append_right _ List.mem_cons_self, own.trans same⟩
    · exact ⟨old, List.mem_append_right _ (List.mem_cons_of_mem ticket waiting), same⟩

/-- What is queued after a command was queued before, or is asked for by it. -/
theorem request_of_mem_queue_step {source : Source} {command : Command} {later : Ticket}
    (queued : later ∈ (supplier.step reader source command now).supplier.queue) :
    (∃ old ∈ supplier.queue, old.request = later.request) ∨
      command = .ask later.file later.extent later.peer := by
  cases command with
  | share file path => exact .inl ⟨later, queued, rfl⟩
  | withdraw file => exact .inl ⟨later, (List.mem_filter.mp queued).1, rfl⟩
  | ask file extent peer =>
    cases shared : supplier.path? file with
    | none =>
      simp only [step, ask, shared] at queued
      exact .inl ⟨later, queued, rfl⟩
    | some path =>
      rcases (handles_ask reader source extent peer now shared).request_of_mem_queue queued with
        ⟨old, kept, same⟩ | own
      · exact .inl ⟨old, (List.mem_filter.mp kept).1, same⟩
      · right
        exact congrArg (fun request : Supply.Request =>
          Command.ask request.file request.extent request.peer) own
  | tick =>
    obtain ⟨old, listed, same⟩ := request_of_mem_foldl_retry reader now _ _ queued
    rcases List.mem_append.mp listed with waiting | due
    · exact .inl ⟨old, (List.mem_filter.mp waiting).1, same⟩
    · exact .inl ⟨old, (List.mem_filter.mp due).1, same⟩

def QueuesShared (supplier : Supplier) : Prop :=
  ∀ ticket ∈ supplier.queue, supplier.isShared ticket.file = true

theorem isShared_iff : supplier.isShared file = true ↔ ∃ path, (file, path) ∈ supplier.shared := by
  rw [isShared, path?, Option.isSome_iff_ne_none, ne_eq, List.lookup_eq_none_iff]
  simp

theorem isShared_of_shared (same : after.supplier.shared = before.supplier.shared) (file : File) :
    after.supplier.isShared file = before.supplier.isShared file := by
  rw [isShared, isShared, path?, path?, same]

theorem Handles.queuesShared (handles : Handles ticket before after)
    (queues : QueuesShared before.supplier)
    (shared : before.supplier.isShared ticket.file = true) : QueuesShared after.supplier := by
  cases handles with
  | declined | sent => exact queues
  | @queued pool source reads later only same =>
    intro other listed
    rcases List.mem_append.mp listed with old | new
    · exact queues other old
    · have file : later.file = ticket.file := congrArg Supply.Request.file same
      rw [List.mem_singleton.mp new, file]
      exact shared

private theorem queuesShared_foldl_retry (reader : Reader Source) (now : Nat) (due : List Ticket)
    (run : Run Source) (queues : QueuesShared run.supplier)
    (shared : ∀ ticket ∈ due, run.supplier.isShared ticket.file = true) :
    QueuesShared (due.foldl (retry reader now) run).supplier := by
  induction due generalizing run with
  | nil => exact queues
  | cons ticket rest ih =>
    have handles := handles_retry reader now run ticket
    apply ih
    · exact handles.queuesShared queues (shared ticket List.mem_cons_self)
    · intro other listed
      rw [isShared_of_shared handles.shared]
      exact shared other (List.mem_cons_of_mem ticket listed)

theorem queuesShared_step (queues : QueuesShared supplier) (reader : Reader Source)
    (source : Source) (command : Command) (now : Nat) :
    QueuesShared (supplier.step reader source command now).supplier := by
  cases command with
  | share file path =>
    intro ticket listed
    obtain ⟨old, shared⟩ := isShared_iff.mp (queues ticket listed)
    apply isShared_iff.mpr
    by_cases same : ticket.file = file
    · exact ⟨path, same ▸ List.mem_cons_self⟩
    · exact ⟨old, List.mem_cons_of_mem _ (List.mem_filter.mpr ⟨shared, by simp [same]⟩)⟩
  | withdraw file =>
    intro ticket listed
    obtain ⟨queued, other⟩ := List.mem_filter.mp listed
    obtain ⟨path, shared⟩ := isShared_iff.mp (queues ticket queued)
    exact isShared_iff.mpr ⟨path, List.mem_filter.mpr ⟨shared, other⟩⟩
  | ask file extent peer =>
    cases shared : supplier.path? file with
    | none =>
      simp only [step, ask, shared]
      exact queues
    | some path =>
      apply (handles_ask reader source extent peer now shared).queuesShared
      · intro ticket listed
        exact queues ticket (List.mem_filter.mp listed).1
      · simp only [Ticket.first, isShared, path?] at shared ⊢
        rw [shared]
        rfl
  | tick =>
    apply queuesShared_foldl_retry
    · intro ticket listed
      exact queues ticket (List.mem_filter.mp listed).1
    · intro ticket listed
      exact queues ticket (List.mem_filter.mp listed).1

end Supplier

namespace Supply

structure Event where
  before : Supplier
  command : Command
  now : Nat
  after : Supplier
  effects : List Effect

/-- A supplier with its source and everything that happened, in order. -/
structure History (Source : Type) where
  supplier : Supplier
  source : Source
  events : List Event

namespace History

variable {Source : Type}

def start (backoff : Backoff) (pool : BufferPool) (source : Source) : History Source :=
  { supplier := .withPool backoff pool, source, events := [] }

def event (reader : Reader Source) (history : History Source) (command : Command) (now : Nat) :
    Event :=
  let run := history.supplier.step reader history.source command now
  { before := history.supplier, command, now, after := run.supplier, effects := run.effects }

def next (reader : Reader Source) (history : History Source) (command : Command) (now : Nat) :
    History Source :=
  let run := history.supplier.step reader history.source command now
  { supplier := run.supplier, source := run.source
    events := history.events ++ [history.event reader command now] }

/-- The history of some commands, each with its time, from a supplier that shares nothing. The
reader may answer each read in any way. -/
def run (reader : Reader Source) (backoff : Backoff) (pool : BufferPool) (source : Source)
    (commands : List (Command × Nat)) : History Source :=
  commands.foldl (fun history timed => history.next reader timed.1 timed.2)
    (start backoff pool source)

variable {reader : Reader Source} {backoff : Backoff} {pool : BufferPool} {source : Source}

theorem run_append_singleton (commands : List (Command × Nat)) (timed : Command × Nat) :
    run reader backoff pool source (commands ++ [timed]) =
      (run reader backoff pool source commands).next reader timed.1 timed.2 := by
  simp [run]

/-- What holds at the start and is kept by each command holds after every run. -/
theorem run_induction {motive : History Source → Prop}
    (initial : motive (start backoff pool source))
    (step : ∀ history command now, motive history →
      motive (history.next reader command now))
    (commands : List (Command × Nat)) :
    motive (run reader backoff pool source commands) := by
  induction commands using List.reverseRecOn with
  | nil => exact initial
  | append_singleton commands timed ih =>
    rw [run_append_singleton]
    exact step _ timed.1 timed.2 ih

theorem run_split {commands : List (Command × Nat)} {earlier later : List Event} {event : Event}
    (events : (run reader backoff pool source commands).events = earlier ++ event :: later) :
    ∃ front command now, (run reader backoff pool source front).events = earlier ∧
      event = (run reader backoff pool source front).event reader command now := by
  induction commands using List.reverseRecOn generalizing later with
  | nil => simp [run, start] at events
  | append_singleton commands timed ih =>
    rw [run_append_singleton] at events
    rcases eq_or_of_concat_eq events with ⟨_, same, last⟩ | ⟨rest, _, within⟩
    · exact ⟨commands, timed.1, timed.2, same.symm, last⟩
    · exact ih within

theorem queuesShared_run (reader : Reader Source) (backoff : Backoff) (pool : BufferPool)
    (source : Source) (commands : List (Command × Nat)) :
    (run reader backoff pool source commands).supplier.QueuesShared :=
  run_induction (motive := fun history => history.supplier.QueuesShared)
    (fun _ listed => by cases listed)
    (fun history command now queues =>
      Supplier.queuesShared_step queues reader history.source command now) commands

end History

end Supply

end ChunkExchange
