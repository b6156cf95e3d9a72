import ChunkExchange.Proofs.RetrySchedule

/-! Withdrawal is final: a file that is no longer shared is neither read nor sent, and whoever asks
for a chunk of it is told at once that it is missing. -/

namespace ChunkExchange

open Supply (Command Effect Reader)

def Supply.Command.Shares (file : File) : Command → Prop
  | .share other _ => other = file
  | .withdraw _ | .ask _ _ _ | .tick => False

namespace Supplier

variable {Source : Type} {reader : Reader Source} {before after : Run Source} {ticket : Ticket}
variable {supplier : Supplier} {file : File} {extent : Extent} {peer : Peer} {data : Bytes}
variable {command : Command} {now : Nat}

theorem shared_foldl_retry (reader : Reader Source) (now : Nat) (due : List Ticket)
    (run : Run Source) :
    (due.foldl (retry reader now) run).supplier.shared = run.supplier.shared := by
  induction due generalizing run with
  | nil => rfl
  | cons ticket rest ih => exact (ih _).trans (handles_retry reader now run ticket).shared

private theorem shared_ask (reader : Reader Source) (supplier : Supplier) (source : Source)
    (file : File) (extent : Extent) (peer : Peer) (now : Nat) :
    (supplier.ask reader source file extent peer now).supplier.shared = supplier.shared := by
  cases shared : supplier.path? file with
  | none => simp only [ask, shared]
  | some path => exact (handles_ask reader source extent peer now shared).shared

private theorem ask_of_unshared (unshared : supplier.isShared file = false) (reader : Reader Source)
    (source : Source) (extent : Extent) (peer : Peer) (now : Nat) :
    supplier.ask reader source file extent peer now =
      { supplier, source, effects := [.missing file extent peer] } := by
  have unknown : supplier.path? file = none := by
    simpa [isShared] using unshared
  simp only [ask, unknown]

theorem isShared_step_of_unshared (unshared : supplier.isShared file = false)
    (unasked : ¬ command.Shares file) (reader : Reader Source) (source : Source) (now : Nat) :
    (supplier.step reader source command now).supplier.isShared file = false := by
  cases command with
  | share other path =>
    rw [Bool.eq_false_iff, ne_eq, isShared_iff] at unshared ⊢
    rintro ⟨found, listed⟩
    rcases List.mem_cons.mp listed with new | old
    · cases new
      exact unasked rfl
    · exact unshared ⟨found, (List.mem_filter.mp old).1⟩
  | withdraw other =>
    rw [Bool.eq_false_iff, ne_eq, isShared_iff] at unshared ⊢
    rintro ⟨found, listed⟩
    exact unshared ⟨found, (List.mem_filter.mp listed).1⟩
  | ask named extent peer =>
    rw [step, isShared, path?, shared_ask]
    exact unshared
  | tick =>
    rw [step, tick, isShared, path?, shared_foldl_retry]
    exact unshared

theorem isShared_withdraw (supplier : Supplier) (file other : File) :
    (supplier.withdraw file).1.isShared other = (supplier.isShared other && other != file) := by
  rw [Bool.eq_iff_iff, Bool.and_eq_true, isShared_iff, isShared_iff]
  simp [withdraw]

/-- A chunk that is sent while a request is at work answers it. -/
theorem Handles.chunk (handles : Handles ticket before after)
    (sent : .chunk file extent peer data ∈ after.effects) :
    .chunk file extent peer data ∈ before.effects ∨ ticket.file = file := by
  have unread {reads : List Effect} (only : ∀ effect ∈ reads, effect.isRead = true) :
      .chunk file extent peer data ∉ reads :=
    fun listed => Bool.false_ne_true (only _ listed)
  cases handles with
  | declined only =>
    simp only [List.mem_append, List.mem_singleton, decline, reduceCtorEq, or_false] at sent
    exact .inl (sent.resolve_right (unread only))
  | sent only =>
    simp only [List.mem_append, List.mem_singleton, Effect.chunk.injEq] at sent
    rcases sent with old | read | ⟨same, _⟩
    · exact .inl old
    · exact absurd read (unread only)
    · exact .inr same.symm
  | queued only _ =>
    exact .inl ((List.mem_append.mp sent).resolve_right (unread only))

private theorem chunk_foldl_retry (due : List Ticket) (run : Run Source)
    (sent : .chunk file extent peer data ∈ (due.foldl (retry reader now) run).effects) :
    .chunk file extent peer data ∈ run.effects ∨ ∃ ticket ∈ due, ticket.file = file := by
  induction due generalizing run with
  | nil => exact .inl sent
  | cons ticket rest ih =>
    rcases ih _ sent with before | ⟨other, listed, same⟩
    · rcases (handles_retry reader now run ticket).chunk before with old | own
      · exact .inl old
      · exact .inr ⟨ticket, List.mem_cons_self, own⟩
    · exact .inr ⟨other, List.mem_cons_of_mem ticket listed, same⟩

/-- Only chunks of shared files are sent. -/
theorem isShared_of_chunk (queues : QueuesShared supplier) {source : Source}
    (sent : .chunk file extent peer data ∈
      (supplier.step reader source command now).effects) : supplier.isShared file = true := by
  cases command with
  | share other path => cases sent
  | withdraw other =>
    obtain ⟨ticket, _, told⟩ := List.mem_map.mp sent
    cases told
  | ask named asked requester =>
    cases shared : supplier.path? named with
    | none => simp [step, ask, shared] at sent
    | some path =>
      have handles := handles_ask reader source asked requester now shared
      have own : named = file := (handles.chunk sent).resolve_left List.not_mem_nil
      rw [← own, isShared, shared]
      rfl
  | tick =>
    obtain ⟨ticket, due, own⟩ := (chunk_foldl_retry _ _ sent).resolve_left List.not_mem_nil
    exact own ▸ queues ticket (List.mem_filter.mp due).1

theorem isShared_of_mem_readers (queues : QueuesShared supplier) {request : Supply.Request}
    (listed : request ∈ supplier.readers command now) :
    supplier.isShared request.file = true := by
  cases command with
  | share | withdraw => cases listed
  | ask file extent peer =>
    rw [readers] at listed
    split at listed
    · rename_i shared
      cases List.mem_singleton.mp listed
      exact shared
    · cases listed
  | tick =>
    obtain ⟨ticket, due, same⟩ := List.mem_map.mp listed
    exact same ▸ queues ticket (List.mem_filter.mp due).1

end Supplier

namespace Supply

open Supplier (decline midTick)

variable {Source : Type} {reader : Reader Source} {history : History Source} {file : File}

def Event.Shares (event : Event) (file : File) : Prop :=
  event.command.Shares file

/-- What becomes of a file that is withdrawn: its queued requests are declined in the order of the
queue, and nothing else changes. -/
structure Event.Withdraws (event : Event) (file : File) : Prop where
  effects : event.effects =
    (event.before.queue.filter (fun ticket => ticket.file == file)).map decline
  queue : event.after.queue = event.before.queue.filter (fun ticket => !(ticket.file == file))
  shared : ∀ other, event.after.isShared other = (event.before.isShared other && other != file)

/-- A request for a chunk is declined at once, and the supplier stays as it is. -/
structure Event.Declines (event : Event) (request : Request) : Prop where
  effects : event.effects = [.missing request.file request.extent request.peer]
  unchanged : event.after = event.before

/-- An event reads for requests of shared files only, and sends chunks of such files only. -/
structure Event.ServesShared (event : Event) : Prop where
  reads : (event.effects.filter Effect.isRead).map some =
    (event.before.readers event.command event.now).map event.before.readFor?
  read : ∀ request ∈ event.before.readers event.command event.now,
    event.before.isShared request.file = true
  chunk : ∀ file extent peer data, .chunk file extent peer data ∈ event.effects →
    event.before.isShared file = true

namespace History

private theorem servesShared_event (queues : history.supplier.QueuesShared) (reader : Reader Source)
    (command : Command) (now : Nat) : (history.event reader command now).ServesShared where
  reads := (Supplier.step_reads queues reader history.source command now).2.2
  read _ listed := Supplier.isShared_of_mem_readers queues listed
  chunk _ _ _ _ sent := Supplier.isShared_of_chunk queues sent

private theorem withdraws_event (history : History Source) (reader : Reader Source) (file : File)
    (now : Nat) : (history.event reader (.withdraw file) now).Withdraws file where
  effects := rfl
  queue := rfl
  shared := Supplier.isShared_withdraw history.supplier file

private theorem declines_event (unshared : history.supplier.isShared file = false)
    (reader : Reader Source) (extent : Extent) (peer : Peer) (now : Nat) :
    (history.event reader (.ask file extent peer) now).Declines { file, extent, peer } := by
  have declined := Supplier.ask_of_unshared unshared reader history.source extent peer now
  exact ⟨congrArg Supplier.Run.effects declined, congrArg Supplier.Run.supplier declined⟩

/-- After a withdrawal a file is not shared until it is shared again. -/
theorem isShared_run_of_withdrawn {backoff : Backoff} {pool : BufferPool} {source : Source}
    {commands : List (Command × Nat)} {earlier between : List Event} {withdrawal : Event}
    (events : (run reader backoff pool source commands).events =
      earlier ++ withdrawal :: between)
    (withdrawn : withdrawal.command = .withdraw file)
    (unasked : ∀ event ∈ between, ¬ event.Shares file) :
    (run reader backoff pool source commands).supplier.isShared file = false := by
  induction commands using List.reverseRecOn generalizing between with
  | nil => simp [run, start] at events
  | append_singleton commands timed ih =>
    rw [run_append_singleton] at events ⊢
    rcases eq_or_of_concat_eq events with ⟨_, _, last⟩ | ⟨rest, more, within⟩
    · subst last
      have withdrawn : timed.1 = .withdraw file := withdrawn
      rw [next, withdrawn]
      simp [Supplier.step, Supplier.isShared_withdraw]
    · subst more
      have before := ih within fun event listed => unasked event (List.mem_append_left _ listed)
      exact Supplier.isShared_step_of_unshared before
        (unasked _ (List.mem_append_right rest (List.mem_singleton.mpr rfl))) reader _ timed.2

/-- A request that is tried again while others are worked through is for a shared file. -/
private theorem path?_midTick (queues : history.supplier.QueuesShared) (reader : Reader Source)
    (now : Nat) {done rest : List Ticket} {ticket : Ticket}
    (due : history.supplier.queue.filter (·.isExpired now) = done ++ ticket :: rest) :
    (midTick reader history.supplier history.source now done).supplier.path? ticket.file ≠
      none := by
  have listed : ticket ∈ history.supplier.queue.filter (·.isExpired now) := by
    rw [due]
    exact List.mem_append_right done List.mem_cons_self
  have shared := queues ticket (List.mem_filter.mp listed).1
  rw [Supplier.path?, midTick, Supplier.shared_foldl_retry]
  exact Option.isSome_iff_ne_none.mp shared

end History

/-- A history in which withdrawals are final. -/
structure HonoursWithdrawals (reader : Reader Source) (history : History Source) : Prop where
  queued : ∀ ticket ∈ history.supplier.queue, history.supplier.isShared ticket.file = true
  found : ∀ now done ticket rest,
    history.supplier.queue.filter (·.isExpired now) = done ++ ticket :: rest →
      (midTick reader history.supplier history.source now done).supplier.path? ticket.file ≠ none
  served : ∀ event ∈ history.events, event.ServesShared
  withdrawn : ∀ event ∈ history.events, ∀ file, event.command = .withdraw file →
    event.Withdraws file
  refused : ∀ earlier withdrawal between event later file,
    history.events = earlier ++ withdrawal :: (between ++ event :: later) →
      withdrawal.command = .withdraw file → (∀ other ∈ between, ¬ other.Shares file) →
        event.before.isShared file = false ∧ ∀ extent peer,
          event.command = .ask file extent peer → event.Declines { file, extent, peer }

/-- Whatever is shared, withdrawn and asked for, and whatever the reads come to: what is withdrawn
is neither read nor sent. -/
theorem withdrawal_final (reader : Reader Source) (backoff : Backoff) (pool : BufferPool)
    (source : Source) (commands : List (Command × Nat)) :
    HonoursWithdrawals reader (History.run reader backoff pool source commands) := by
  have queues (front : List (Command × Nat)) :=
    History.queuesShared_run reader backoff pool source front
  constructor
  · exact queues commands
  · exact fun now done ticket rest => History.path?_midTick (queues commands) reader now
  · intro event listed
    obtain ⟨earlier, later, events⟩ := List.append_of_mem listed
    obtain ⟨front, command, now, _, same⟩ := History.run_split events
    exact same ▸ History.servesShared_event (queues front) reader command now
  · intro event listed file withdraws
    obtain ⟨earlier, later, events⟩ := List.append_of_mem listed
    obtain ⟨front, command, now, _, same⟩ := History.run_split events
    subst same
    have withdraws : command = .withdraw file := withdraws
    subst withdraws
    exact History.withdraws_event _ reader file now
  · intro earlier withdrawal between event later file events withdraws unasked
    rw [← List.cons_append, ← List.append_assoc] at events
    obtain ⟨front, command, now, before, same⟩ := History.run_split events
    have unshared := History.isShared_run_of_withdrawn before withdraws unasked
    subst same
    refine ⟨unshared, fun extent peer asks => ?_⟩
    have asks : command = .ask file extent peer := asks
    subst asks
    exact History.declines_event unshared reader extent peer now

end Supply

end ChunkExchange
