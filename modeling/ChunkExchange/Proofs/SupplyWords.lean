import ChunkExchange.Proofs.RetrySchedule
import ChunkExchange.Proofs.Words

/-! The supplying side in machine words. Where the sizes that are asked for have 32 bits, a command
in words does what the plain one does, or stops at a request of which the attempts are too many. -/

namespace ChunkExchange

open Words (countLimit increment narrow takeTo)

def Ticket.retriedInWords (ticket : Ticket) (expires : Nat) : Option Ticket := do
  let attempts ← increment ticket.attempts
  return { ticket with attempts, expires }

/-- The size that a peer asks for has 32 bits. -/
def Supply.Command.Typed : Supply.Command → Prop
  | .ask _ extent _ => extent.size ≤ countLimit
  | .share _ _ | .withdraw _ | .tick => True

namespace Supplier

open Supply (Command Effect Reader Request Trial)

variable {Source : Type}

/-- The bytes that a read claims are cut to the buffer, and counted in 32 bits. -/
def readAndReplyInWords (reader : Reader Source) (run : Run Source) (path : String) (file : File)
    (extent : Extent) (peer : Peer) : Option (Bool × Run Source) := do
  let (buffer, pool) := run.supplier.pool.acquire (replyLength file extent)
  let (reply, source) := reader.read run.source path extent.offset buffer.contents
  let contents := reply.contents.toList
  let supplier := { run.supplier with pool := pool.release { buffer with contents } }
  let effects := run.effects ++ [.read path extent.offset buffer.contents]
  match reply.claimed with
  | some claimed =>
    let filled := min claimed contents.length
    let size ← narrow filled
    let data ← takeTo contents filled
    return (true, { supplier, source
                    effects := effects ++ [.chunk file (extent.resize size) peer data] })
  | none => return (false, { supplier, source, effects })

def requeueInWords (run : Run Source) (ticket : Ticket) (retry : Nat → Option Ticket)
    (attempt : Nat) : Option (Run Source) :=
  match run.supplier.backoff.delay? attempt with
  | some delay => do
    let later ← retry delay
    return { run with
      supplier := { run.supplier with queue := run.supplier.queue ++ [later] } }
  | none => some { run with effects := run.effects ++ [decline ticket] }

def askInWords (reader : Reader Source) (supplier : Supplier) (source : Source) (file : File)
    (extent : Extent) (peer : Peer) (now : Nat) : Option (Run Source) :=
  match supplier.path? file with
  | none => some { supplier, source, effects := [.missing file extent peer] }
  | some path => do
    let (succeeded, run) ←
      readAndReplyInWords reader { supplier, source, effects := [] } path file extent peer
    let queue :=
      run.supplier.queue.filter (fun ticket => !ticket.matchesKey file extent.index peer)
    let run := { run with supplier := { run.supplier with queue } }
    if succeeded then
      return run
    else
      let first := Ticket.first file extent peer now
      requeueInWords run (first 0) (fun delay => some (first delay)) 0

def retryInWords (reader : Reader Source) (now : Nat) (run : Run Source) (ticket : Ticket) :
    Option (Run Source) :=
  match run.supplier.path? ticket.file with
  | none => some { run with effects := run.effects ++ [decline ticket] }
  | some path => do
    let (succeeded, run) ←
      readAndReplyInWords reader run path ticket.file ticket.extent ticket.peer
    if succeeded then
      -- The attempt that succeeds is counted too, though the count is only logged.
      let _ ← increment ticket.attempts
      return run
    else
      requeueInWords run ticket (fun delay => ticket.retriedInWords (now + delay))
        ticket.attempts

def tickInWords (reader : Reader Source) (supplier : Supplier) (source : Source) (now : Nat) :
    Option (Run Source) :=
  let due := supplier.queue.filter (·.isExpired now)
  let waiting := supplier.queue.filter (fun ticket => !ticket.isExpired now)
  due.foldlM (retryInWords reader now)
    { supplier := { supplier with queue := waiting }, source, effects := [] }

def stepInWords (reader : Reader Source) (supplier : Supplier) (source : Source)
    (command : Command) (now : Nat) : Option (Run Source) :=
  match command with
  | .share _ _ | .withdraw _ => some (supplier.step reader source command now)
  | .ask file extent peer => supplier.askInWords reader source file extent peer now
  | .tick => supplier.tickInWords reader source now

variable {reader : Reader Source} {run : Run Source} {supplier : Supplier} {source : Source}
variable {file : File} {path : String} {extent : Extent} {peer : Peer} {ticket : Ticket}
variable {now attempt : Nat}

theorem readAndReplyInWords_eq (sizes : extent.size ≤ countLimit) (reader : Reader Source)
    (run : Run Source) (path : String) (file : File) (peer : Peer) :
    readAndReplyInWords reader run path file extent peer =
      some (readAndReply reader run path file extent peer) := by
  have asked : replyLength file extent ≤ countLimit := Nat.le_trans (Nat.min_le_left _ _) sizes
  have lent := Supply.BufferPool.length_acquire run.supplier.pool (replyLength file extent)
  unfold readAndReplyInWords readAndReply
  dsimp only
  cases told : (reader.read run.source path extent.offset
      (run.supplier.pool.acquire (replyLength file extent)).1.contents).1.claimed with
  | none => rfl
  | some claimed =>
    have filled : min claimed (reader.read run.source path extent.offset
        (run.supplier.pool.acquire (replyLength file extent)).1.contents).1.contents.toList.length ≤
          countLimit := by
      rw [Vector.length_toList, lent]
      exact Nat.le_trans (Nat.min_le_right _ _) asked
    simp only [Words.narrow_eq filled, Words.takeTo_eq (Nat.min_le_right _ _), List.length_take,
      ← List.take_eq_take_min, Option.bind_eq_bind, Option.bind_some]
    rfl

theorem requeueInWords_eq {inWords : Nat → Option Ticket} {retry : Nat → Ticket}
    (exact : ∀ delay, run.supplier.backoff.delay? attempt = some delay →
      inWords delay = some (retry delay)) (ticket : Ticket) :
    requeueInWords run ticket inWords attempt = some (requeue run ticket retry attempt) := by
  unfold requeueInWords requeue
  cases allowed : run.supplier.backoff.delay? attempt with
  | none => rfl
  | some delay =>
    dsimp only
    rw [exact delay allowed]
    rfl

theorem askInWords_eq (sizes : extent.size ≤ countLimit) (reader : Reader Source)
    (supplier : Supplier) (source : Source) (file : File) (peer : Peer) (now : Nat) :
    supplier.askInWords reader source file extent peer now =
      some (supplier.ask reader source file extent peer now) := by
  unfold askInWords ask
  cases supplier.path? file with
  | none => rfl
  | some path =>
    simp only [readAndReplyInWords_eq sizes, Option.bind_eq_bind, Option.bind_some]
    cases (readAndReply reader { supplier, source, effects := [] } path file extent peer).1 with
    | true => rfl
    | false => exact requeueInWords_eq (fun _ _ => rfl) _

/-- The attempt that a ticket is read for can be counted, or is not: the read fails and was the last
one. -/
def Countable (backoff : Backoff) (ticket : Ticket) (trial : Trial) : Prop :=
  ticket.attempts < countLimit ∨
    trial.succeeded = false ∧ backoff.delay? ticket.attempts = none

/-- A retry in words stops exactly where its attempt is counted and there are too many. -/
theorem retryInWords_cases (sizes : ticket.extent.size ≤ countLimit) (reader : Reader Source)
    (now : Nat) (shared : run.supplier.path? ticket.file = some path) :
    let made := trial reader now path run ticket.request
    Countable run.supplier.backoff ticket made ∧
        retryInWords reader now run ticket = some (retry reader now run ticket) ∨
      ¬ Countable run.supplier.backoff ticket made ∧
        retryInWords reader now run ticket = none := by
  intro made
  unfold retryInWords retry
  simp only [shared, readAndReplyInWords_eq sizes, Option.bind_eq_bind, Option.bind_some]
  obtain ⟨pool, ⟨failed, result⟩ | ⟨succeeded, size, data, result⟩⟩ :=
    readAndReply_readFor reader run path ticket.request
  · simp only [Ticket.request] at result
    simp only [result, Bool.false_eq_true, ↓reduceIte]
    by_cases countable : Countable run.supplier.backoff ticket made
    · refine .inl ⟨countable, requeueInWords_eq (fun delay allowed => ?_) ticket⟩
      have room : ticket.attempts < countLimit := countable.resolve_right fun last =>
        absurd (allowed.symm.trans last.2) (Option.some_ne_none delay)
      rw [Ticket.retriedInWords, Words.increment_eq room]
      rfl
    · refine .inr ⟨countable, ?_⟩
      have full : ¬ ticket.attempts < countLimit := fun room => countable (.inl room)
      obtain ⟨delay, allowed⟩ := Option.ne_none_iff_exists'.mp fun last =>
        countable (.inr ⟨failed, last⟩)
      simp only [requeueInWords, allowed, Ticket.retriedInWords, Words.increment_eq_none full]
      rfl
  · simp only [Ticket.request] at result
    simp only [result, ↓reduceIte]
    by_cases room : ticket.attempts < countLimit
    · refine .inl ⟨.inl room, ?_⟩
      rw [Words.increment_eq room]
      rfl
    · refine .inr ⟨?_, ?_⟩
      · rintro (less | ⟨failed, _⟩)
        · exact room less
        · exact absurd (failed.symm.trans succeeded) Bool.false_ne_true
      · rw [Words.increment_eq_none room]
        rfl

def QueuesTyped (supplier : Supplier) : Prop :=
  ∀ ticket ∈ supplier.queue, ticket.extent.size ≤ countLimit

/-- Every attempt that a tick makes for a request can be counted, or is not. -/
def TickCountable (reader : Reader Source) (supplier : Supplier) (source : Source) (now : Nat) :
    Prop :=
  ∀ ticket ∈ supplier.queue, ticket.isExpired now = true →
    ∀ made ∈ trialsFor ticket.request.key
        (supplier.trials reader now source (supplier.readers .tick now)).1,
      Countable supplier.backoff ticket made

section Tick

variable (queues : QueuesShared supplier) (typed : QueuesTyped supplier)
variable (single : ∀ key, (supplier.queuedFor key).length ≤ 1)

include queues typed single

/-- In the middle of a tick a retry in words stops exactly where its attempt cannot be counted. -/
theorem retryInWords_midTick (reader : Reader Source) (source : Source) {front back : List Ticket}
    (split : supplier.queue.filter (·.isExpired now) = front ++ ticket :: back) :
    let reached := midTick reader supplier source now front
    ∃ made, trialsFor ticket.request.key
        (supplier.trials reader now source (supplier.readers .tick now)).1 = [made] ∧
      (Countable supplier.backoff ticket made ∧
          retryInWords reader now reached ticket = some (retry reader now reached ticket) ∨
        ¬ Countable supplier.backoff ticket made ∧
          retryInWords reader now reached ticket = none) := by
  intro reached
  let started : Run Source :=
    { supplier := { supplier with
        queue := supplier.queue.filter (fun ticket => !ticket.isExpired now) }
      source, effects := [] }
  have shared (other : Ticket) (listed : other ∈ front ++ ticket :: back) :
      started.supplier.isShared other.file = true :=
    queues other (List.mem_filter.mp (split ▸ listed)).1
  have queued : ticket ∈ supplier.queue :=
    (List.mem_filter.mp (split ▸ List.mem_append_right front List.mem_cons_self)).1
  obtain ⟨path, found⟩ := Option.isSome_iff_exists.mp
    (shared ticket (List.mem_append_right front List.mem_cons_self))
  have same : started.supplier.shared = supplier.shared := rfl
  have before := foldl_retry_reads reader now started
    fun other listed => shared other (List.mem_append_left _ listed)
  have kept : reached.supplier.shared = supplier.shared := before.1
  have backoff : reached.supplier.backoff = supplier.backoff := before.2.1
  have own := trialsFor_retry_own shared (alone_of_single (single _) split) reader now found
  rw [trials_of_shared same, ← split] at own
  refine ⟨_, own, ?_⟩
  have there : reached.supplier.path? ticket.file = some path := by
    rw [path?, kept]
    exact found
  rw [← backoff]
  exact retryInWords_cases (typed ticket queued) reader now there

private theorem retryInWords_agrees (reader : Reader Source) (source : Source)
    {front back : List Ticket}
    (split : supplier.queue.filter (·.isExpired now) = front ++ ticket :: back) :
    let reached := midTick reader supplier source now front
    Words.Agrees (retryInWords reader now reached ticket) (retry reader now reached ticket) := by
  obtain ⟨_, _, ⟨_, goes⟩ | ⟨_, stops⟩⟩ :=
    retryInWords_midTick queues typed single reader source split
  · exact .inr goes
  · exact .inl stops

theorem tickInWords_agrees (reader : Reader Source) (source : Source) (now : Nat) :
    Words.Agrees (supplier.tickInWords reader source now) (supplier.tick reader source now) := by
  rw [tick_eq_midTick]
  exact Words.foldlM_agrees fun _ _ _ split =>
    retryInWords_agrees queues typed single reader source split

theorem tickInWords_eq_iff (reader : Reader Source) (source : Source) (now : Nat) :
    supplier.tickInWords reader source now = some (supplier.tick reader source now) ↔
      TickCountable reader supplier source now := by
  rw [tick_eq_midTick]
  refine (Words.foldlM_eq_iff fun _ _ _ split =>
    retryInWords_agrees queues typed single reader source split).trans ⟨?_, ?_⟩
  · intro steps ticket queued due trial listed
    have member : ticket ∈ supplier.queue.filter (·.isExpired now) :=
      List.mem_filter.mpr ⟨queued, due⟩
    obtain ⟨front, back, split⟩ := List.append_of_mem member
    obtain ⟨made, own, ⟨countable, _⟩ | ⟨_, stops⟩⟩ :=
      retryInWords_midTick queues typed single reader source split
    · rw [own, List.mem_singleton] at listed
      exact listed ▸ countable
    · exact absurd ((steps front ticket back split).symm.trans stops) (Option.some_ne_none _)
  · intro countable front ticket back split
    obtain ⟨queued, due⟩ := List.mem_filter.mp
      (split ▸ List.mem_append_right front List.mem_cons_self)
    obtain ⟨made, own, ⟨_, goes⟩ | ⟨uncountable, _⟩⟩ :=
      retryInWords_midTick queues typed single reader source split
    · exact goes
    · exact absurd (countable ticket queued due made (own ▸ List.mem_singleton_self made))
        uncountable

theorem stepInWords_agrees (reader : Reader Source) (source : Source) {command : Command}
    (asked : command.Typed) (now : Nat) :
    Words.Agrees (supplier.stepInWords reader source command now)
      (supplier.step reader source command now) := by
  cases command with
  | share | withdraw => exact .inr rfl
  | ask file extent peer => exact .inr (askInWords_eq asked reader supplier source file peer now)
  | tick => exact tickInWords_agrees queues typed single reader source now

/-- Only a tick can stop. -/
theorem stepInWords_eq_iff (reader : Reader Source) (source : Source) {command : Command}
    (asked : command.Typed) (now : Nat) :
    supplier.stepInWords reader source command now =
        some (supplier.step reader source command now) ↔
      (command = .tick → TickCountable reader supplier source now) := by
  cases command with
  | share | withdraw => exact ⟨nofun, fun _ => rfl⟩
  | ask file extent peer =>
    exact ⟨nofun, fun _ => askInWords_eq asked reader supplier source file peer now⟩
  | tick =>
    exact (tickInWords_eq_iff queues typed single reader source now).trans
      ⟨fun countable _ => countable, fun countable => countable rfl⟩

end Tick

theorem queuesTyped_step (queues : QueuesTyped supplier) (reader : Reader Source)
    (source : Source) {command : Command} (typed : command.Typed) (now : Nat) :
    QueuesTyped (supplier.step reader source command now).supplier := by
  intro ticket queued
  rcases request_of_mem_queue_step queued with ⟨old, listed, same⟩ | asked
  · have extent : old.extent = ticket.extent := congrArg Request.extent same
    exact extent ▸ queues old listed
  · subst asked
    exact typed

end Supplier

end ChunkExchange
