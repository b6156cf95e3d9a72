import ChunkExchange.Proofs.CountedRetries
import ChunkExchange.Proofs.DispatchWords
import ChunkExchange.Proofs.NodeTurns

/-! Runs in machine words. With an accepted configuration both sides do in words what they do in
plain numbers, unless a request is retried so often that its attempts cannot be counted. -/

namespace ChunkExchange

open Words (countLimit)

namespace Fetch.History

def nextInWords (greedy : Greedy) (history : History Unit) (operation : Operation) (now : Nat) :
    Option (History Unit) := do
  let turn ← history.fetcher.stepInWords greedy operation now
  let event : Event :=
    { before := history.fetcher, operation, now, after := turn.fetcher, reply := turn.reply
      effects := turn.effects }
  return { fetcher := turn.fetcher, memory := turn.memory, events := history.events ++ [event] }

/-- The history of some operations in words, with the greedy scheduler. -/
def runInWords (greedy : Greedy) (options : Options) (commands : List (Operation × Nat)) :
    Option (History Unit) :=
  commands.foldlM (fun history command => history.nextInWords greedy command.1 command.2)
    (start options ())

variable {options : Options}

theorem runInWords_eq (positive : 0 < options.chunkSize) (sizes : options.chunkSize ≤ countLimit)
    (commands : List (Operation × Nat)) :
    runInWords (.ofOptions options) options commands =
      some (run (Greedy.ofOptions options).scheduler options () commands) := by
  refine Words.foldlM_eq (fun _ history =>
    history.Lawful (Greedy.ofOptions options).scheduler options) ?_ _ _ lawful_start
  intro history command rest lawful
  refine ⟨?_, lawful.next command.1 command.2⟩
  have configured := lawful.configured
  rw [nextInWords, Fetcher.stepInWords_eq lawful.consistent (configured ▸ positive)
    (configured ▸ sizes) sizes]
  rfl

end Fetch.History

namespace Config

/-- The chunk size and the limit of retries have 32 bits, as they are written down. -/
structure Typed (config : Config) : Prop where
  chunkSize : config.transfer.chunkSize ≤ countLimit
  uploadRetry : ∀ limit, config.transfer.uploadRetry.limit = some limit → limit ≤ countLimit

end Config

/-- With an accepted configuration every run of the fetching side can be calculated in words, and is
the same as in plain numbers. So is a run of the supplying side, whatever peers ask for and whatever
reads come to, exactly if no request is retried too often: without a limit as often as 32 bits
count, and with the greatest limit that often and then served. -/
theorem accepted_runs_exact {Source : Type} {config : Config} {options : Options}
    (accepted : config.options = .ok options) (typed : config.Typed)
    (operations : List (Fetch.Operation × Nat)) (reader : Supply.Reader Source) (source : Source)
    {commands : List (Supply.Command × Nat)} (asked : ∀ timed ∈ commands, timed.1.Typed) :
    let backoff := options.uploadRetry
    let pool := .empty options.chunkSize options.maxParallelChunks
    Fetch.History.runInWords (.ofOptions options) options operations =
        some (.run (Fetch.Greedy.ofOptions options).scheduler options () operations) ∧
      (Supply.History.runInWords reader backoff pool source commands =
          some (.run reader backoff pool source commands) ↔
        (backoff.limit = none → Supply.RetriesCounted reader backoff pool source commands) ∧
          (backoff.limit = some countLimit →
            Supply.LastRetriesFail reader backoff pool source commands)) := by
  intro backoff pool
  obtain ⟨same, positive⟩ := Config.accepted_options accepted
  have sizes : options.chunkSize ≤ countLimit := same ▸ typed.chunkSize
  have within : ∀ limit, options.uploadRetry.limit = some limit → limit ≤ countLimit :=
    same ▸ typed.uploadRetry
  exact ⟨Fetch.History.runInWords_eq positive sizes operations,
    (Supply.History.runInWords_eq_iff within asked reader pool source).trans
      (Supply.countable_iff reader backoff pool source commands)⟩

/-- Chunks of two bytes, and reads that are tried again without end. -/
def Config.patient : Config :=
  { transfer := { chunkSize := 2, uploadRetry := { limit := none, pace := .constant 5 } } }

/-- A file of three chunks is asked for, and another request fails twice and waits again. -/
theorem accepted_runs_exact_patient_config :
    let options := Config.patient.transfer
    let file : File := { id := 1, hash := "", size := 5 }
    let peer : Peer := .ofNat 1
    let failing : Supply.Reader Unit :=
      { read := fun _ _ _ _ => ({ claimed := none, contents := .replicate _ 0 }, ()) }
    let operations : List (Fetch.Operation × Nat) := [(.join peer, 0), (.request file "target", 0)]
    let commands : List (Supply.Command × Nat) :=
      [(.share file "source", 0), (.ask file ⟨2, 4, 4294967295⟩ peer, 0), (.tick, 6)]
    Config.patient.options = .ok options ∧
      (Fetch.History.runInWords (.ofOptions options) options operations).map
          (fun history => history.fetcher.tickets.map (fun ticket => ticket.extent.size)) =
        some [2, 2, 1] ∧
      (Supply.History.runInWords failing options.uploadRetry
          (.empty options.chunkSize options.maxParallelChunks) () commands).map
          (fun history => history.supplier.queue.map Ticket.attempts) = some [2] := by
  intro options file peer failing operations commands
  have accepted : Config.patient.options = .ok options := by rfl
  have typed : Config.patient.Typed := ⟨by decide, fun limit limited => by cases limited⟩
  have asked : ∀ timed ∈ commands, timed.1.Typed := by
    simp [commands, Supply.Command.Typed, countLimit]
  obtain ⟨fetched, exact_iff⟩ := accepted_runs_exact accepted typed operations failing () asked
  have supplied := exact_iff.mpr ⟨fun _ => Supply.retriesCounted_of_length (by decide),
    fun limited => absurd limited.symm (Option.some_ne_none countLimit)⟩
  refine ⟨accepted, ?_, ?_⟩
  · rw [fetched]
    decide +kernel
  · rw [supplied]
    decide +kernel

/-- As many reads of a request as 32 bits count, and one more. -/
def Config.stubborn : Config :=
  { transfer := { uploadRetry := { limit := some countLimit, pace := .immediate } } }

namespace Supply

/-- A reader that fails as often as 32 bits count, and never after that. -/
def Reader.stubborn : Reader Nat where
  read made _ _ _ :=
    ({ claimed := if made < countLimit then none else some 0, contents := .replicate _ 0 },
      made + 1)

/-- A chunk is asked for, and then the clock ticks. -/
def longWait (file : File) (peer : Peer) (ticks : Nat) : List (Command × Nat) :=
  (.share file "source", 0) :: (.ask file ⟨0, 0, 1⟩ peer, 0) ::
    (List.range ticks).map (fun tick => (.tick, tick + 1))

private theorem longWait_succ (file : File) (peer : Peer) (ticks : Nat) :
    longWait file peer (ticks + 1) = longWait file peer ticks ++ [(.tick, ticks + 1)] := by
  simp [longWait, List.range_succ]

private theorem typed_longWait (file : File) (peer : Peer) (ticks : Nat) :
    ∀ timed ∈ longWait file peer ticks, timed.1.Typed := by
  intro timed listed
  simp only [longWait, List.mem_cons, List.mem_map] at listed
  obtain rfl | rfl | ⟨_, _, rfl⟩ := listed
  · trivial
  · exact Nat.succ_le_succ (Nat.zero_le _)
  · trivial

/-- Of a file one request is queued, for which as many reads were made as were made at all. -/
structure WaitsAlone (file : File) (attempts : Nat) (supplier : Supplier) (made : Nat) : Prop where
  backoff : supplier.backoff = Config.stubborn.transfer.uploadRetry
  made : made = attempts
  shared : supplier.path? file = some "source"
  queue : ∃ ticket, supplier.queue = [ticket] ∧ ticket.file = file ∧
    ticket.extent.size ≤ countLimit ∧ ticket.attempts = attempts ∧ ticket.expires + 1 = attempts

private theorem waitsAlone_of_tries {request : Request} {attempt now : Nat}
    {before after : Supplier.Run Nat} {path : String}
    (tries : Supplier.Tries .stubborn now request attempt path before after)
    (backoff : before.supplier.backoff = Config.stubborn.transfer.uploadRetry)
    (made : before.source = attempt) (few : attempt < countLimit)
    (shared : before.supplier.path? request.file = some "source")
    (none : before.supplier.queue = []) (sizes : request.extent.size ≤ countLimit)
    (present : now = attempt) :
    WaitsAlone request.file (attempt + 1) after.supplier after.source := by
  have fails : (Supplier.trial .stubborn now path before request).succeeded = false := by
    simp [Supplier.trial, Reader.readFor, Reader.stubborn, made, few]
  have allowed : before.supplier.backoff.delay? attempt = some 0 := by
    rw [backoff]
    simp [Config.stubborn, Backoff.delay?, Backoff.exhausted, Pace.delay, few]
  cases tries with
  | sent succeeded => exact absurd (fails.symm.trans succeeded) Bool.false_ne_true
  | gaveUp _ exhausted => exact absurd (allowed.symm.trans exhausted) (Option.some_ne_none 0)
  | @queued pool later delay _ granted same attempts expires =>
    obtain rfl : delay = 0 := Option.some.inj (granted.symm.trans allowed)
    subst same
    refine ⟨backoff, congrArg (· + 1) made, shared, later, ?_, rfl, sizes, attempts, ?_⟩
    · exact congrArg (· ++ [later]) none
    · rw [expires, present]

/-- A tick comes to one retry. -/
private theorem WaitsAlone.tick {file : File} {attempts made : Nat} {supplier : Supplier}
    (waits : WaitsAlone file attempts supplier made) {Source : Type} (reader : Reader Source)
    (source : Source) :
    let started : Supplier.Run Source :=
      { supplier := { supplier with queue := [] }, source, effects := [] }
    ∃ ticket, ticket.file = file ∧ ticket.extent.size ≤ countLimit ∧
      ticket.attempts = attempts ∧ started.supplier.path? ticket.file = some "source" ∧
      supplier.tick reader source attempts = Supplier.retry reader attempts started ticket ∧
      supplier.tickInWords reader source attempts =
        Supplier.retryInWords reader attempts started ticket := by
  obtain ⟨ticket, alone, own, sizes, attempts, expires⟩ := waits.queue
  have due : ticket.isExpired (ticket.expires + 1) = true :=
    decide_eq_true (Nat.lt_succ_self ticket.expires)
  rw [expires] at due
  refine ⟨ticket, own, sizes, attempts, own ▸ waits.shared, ?_, ?_⟩
  · simp [Supplier.tick, alone, due]
  · simp [Supplier.tickInWords, alone, due]

private theorem waitsAlone_longWait (file : File) (peer : Peer) (pool : BufferPool) {ticks : Nat}
    (few : ticks < countLimit) :
    let history := History.run .stubborn Config.stubborn.transfer.uploadRetry pool 0
      (longWait file peer ticks)
    WaitsAlone file (ticks + 1) history.supplier history.source := by
  intro history
  induction ticks with
  | zero =>
    let sharing := (Supplier.withPool Config.stubborn.transfer.uploadRetry pool).share file "source"
    have found : sharing.path? file = some "source" := by
      simp [sharing, Supplier.share, Supplier.path?]
    let request : Request := { file, extent := ⟨0, 0, 1⟩, peer }
    have sizes : request.extent.size ≤ countLimit := Nat.succ_le_succ (Nat.zero_le _)
    have tries := Supplier.tries_ask .stubborn sharing 0 request 0 found
    exact waitsAlone_of_tries tries rfl rfl few found rfl sizes rfl
  | succ ticks ih =>
    have before := ih (Nat.lt_of_succ_lt few)
    unfold history
    rw [longWait_succ, History.run_append_singleton]
    generalize History.run .stubborn Config.stubborn.transfer.uploadRetry pool 0
      (longWait file peer ticks) = past at before ⊢
    obtain ⟨ticket, own, sizes, attempts, found, retries, _⟩ := before.tick .stubborn past.source
    have tries := Supplier.tries_retry .stubborn (ticks + 1) _ found
    rw [attempts] at tries
    simp only [History.next, Supplier.step]
    rw [retries, ← own]
    exact waitsAlone_of_tries tries before.backoff before.made few found rfl sizes rfl

private theorem runInWords_longWait (file : File) (peer : Peer) (pool : BufferPool) {ticks : Nat}
    (last : ticks + 1 = countLimit) :
    History.runInWords .stubborn Config.stubborn.transfer.uploadRetry pool 0
      (longWait file peer countLimit) = none := by
  have before := waitsAlone_longWait file peer pool (show ticks < countLimit by omega)
  have within : ∀ limit, Config.stubborn.transfer.uploadRetry.limit = some limit →
      limit ≤ countLimit := fun limit same => Nat.le_of_eq (Option.some.inj same).symm
  have agrees := History.runInWords_agrees within (typed_longWait file peer ticks) .stubborn pool 0
  rw [← last, longWait_succ]
  unfold History.runInWords at agrees ⊢
  rw [List.foldlM_append]
  rcases agrees with stops | goes
  · rw [stops]
    rfl
  · rw [goes]
    generalize History.run .stubborn Config.stubborn.transfer.uploadRetry pool 0
      (longWait file peer ticks) = past at before ⊢
    obtain ⟨ticket, _, sizes, attempts, found, _, retries⟩ := before.tick .stubborn past.source
    let started : Supplier.Run Nat :=
      { supplier := { past.supplier with queue := [] }, source := past.source, effects := [] }
    -- The read that is due succeeds, and its attempt is one more than 32 bits count.
    have succeeds : (Supplier.trial .stubborn (ticks + 1) "source" started
        ticket.request).succeeded = true := by
      simp [Supplier.trial, Reader.readFor, Reader.stubborn, started, before.made, last]
    have stops : Supplier.retryInWords .stubborn (ticks + 1) started ticket = none := by
      rcases Supplier.retryInWords_cases sizes .stubborn (ticks + 1) found with
        ⟨less | ⟨fails, _⟩, _⟩ | ⟨_, stops⟩
      · omega
      · exact absurd (fails.symm.trans succeeds) Bool.false_ne_true
      · exact stops
    simp only [Option.bind_eq_bind, Option.bind_some, List.foldlM_cons, History.nextInWords,
      Supplier.stepInWords]
    rw [retries, stops]
    rfl

end Supply

/-- A chunk is read in vain as often as 32 bits count. The last retry reads it, and its attempt
cannot be counted. -/
theorem not_exact_stubborn_config :
    let options := Config.stubborn.transfer
    let commands := Supply.longWait { id := 1, hash := "", size := 1 } (.ofNat 1) countLimit
    Config.stubborn.options = .ok options ∧ Config.stubborn.Typed ∧
      options.uploadRetry.limit ≠ none ∧ (∀ timed ∈ commands, timed.1.Typed) ∧
      Supply.History.runInWords .stubborn options.uploadRetry
        (.empty options.chunkSize options.maxParallelChunks) 0 commands = none := by
  intro options commands
  refine ⟨rfl, ⟨by decide, fun limit same => ?_⟩, nofun, Supply.typed_longWait _ _ _, ?_⟩
  · exact Nat.le_of_eq (Option.some.inj same).symm
  · exact Supply.runInWords_longWait _ _ _ (show 4294967294 + 1 = countLimit from rfl)

end ChunkExchange
