import ChunkExchange.Proofs.SupplyWords

namespace ChunkExchange.Supply

open Words (countLimit)

variable {Source : Type} {reader : Reader Source} {backoff : Backoff} {pool : BufferPool}
variable {source : Source} {tracked : Tracked Source} {ticket : Ticket} {course : Course}
variable {commands : List (Command × Nat)} {command : Command} {now : Nat}

/-- How often a request was read for again. -/
def Course.retries (course : Course) : Nat :=
  course.trials.length - 1

/-- At no time of a run has a request been retried as often as 32 bits count. -/
def RetriesCounted (reader : Reader Source) (backoff : Backoff) (pool : BufferPool)
    (source : Source) (commands : List (Command × Nat)) : Prop :=
  ∀ front, front <+: commands → ∀ key course,
    (Tracked.run reader backoff pool source front).course? key = some course →
      course.retries < countLimit

/-- At no time of a run has a request that was retried as often as 32 bits count been served. -/
def LastRetriesFail (reader : Reader Source) (backoff : Backoff) (pool : BufferPool)
    (source : Source) (commands : List (Command × Nat)) : Prop :=
  ∀ front, front <+: commands → ∀ key course,
    (Tracked.run reader backoff pool source front).course? key = some course →
      course.retries = countLimit → ∀ trial ∈ course.trials, trial.succeeded = false

/-- The attempts of a request can be counted, and the last one that is made is not if it fails. -/
structure Course.Countable (backoff : Backoff) (course : Course) : Prop where
  unlimited : backoff.limit = none → course.retries < countLimit
  limited : backoff.limit = some countLimit → course.retries = countLimit →
    ∀ trial ∈ course.trials, trial.succeeded = false

theorem Course.countable_of_lt (few : course.retries < countLimit) : course.Countable backoff :=
  ⟨fun _ => few, fun _ full => absurd full (Nat.ne_of_lt few)⟩

theorem Course.Waits.countable_iff (waits : course.Waits backoff ticket)
    (within : ∀ limit, backoff.limit = some limit → limit ≤ countLimit) (made : Trial) :
    ({ course with trials := course.trials ++ [made] } : Course).Countable backoff ↔
      Supplier.Countable backoff ticket made := by
  let later : Course := { course with trials := course.trials ++ [made] }
  have retries : later.retries = ticket.attempts := by
    rw [Course.retries, List.length_append, waits.counted]
    rfl
  by_cases room : ticket.attempts < countLimit
  · exact ⟨fun _ => .inl room, fun _ => countable_of_lt (retries ▸ room)⟩
  · cases limit : backoff.limit with
    | none =>
      constructor
      · intro countable
        exact absurd (retries ▸ countable.unlimited limit) room
      · rintro (less | ⟨_, exhausted⟩)
        · exact absurd less room
        · obtain ⟨_, limited, _⟩ := Course.exists_limit_of_delay? exhausted
          rw [limit] at limited
          cases limited
    | some bound =>
      -- The attempts are as many as 32 bits count, and as many as the backoff allows.
      have least := waits.limited bound limit
      have most := within bound limit
      have same : bound = countLimit := by omega
      have full : ticket.attempts = countLimit := by omega
      subst same
      have exhausted : backoff.delay? ticket.attempts = none := by
        by_contra goes
        obtain ⟨delay, allowed⟩ := Option.ne_none_iff_exists'.mp goes
        exact absurd (Course.lt_of_delay? allowed limit) room
      constructor
      · intro countable
        exact .inr ⟨countable.limited limit (retries.trans full) made (by simp), exhausted⟩
      · rintro (less | ⟨fails, _⟩)
        · exact absurd less room
        · refine ⟨fun unlimited => ?_, fun _ _ other listed => ?_⟩
          · rw [limit] at unlimited
            cases unlimited
          · rcases List.mem_append.mp listed with old | new
            · exact waits.failed other old
            · exact List.mem_singleton.mp new ▸ fails

namespace Tracked

def Countable (backoff : Backoff) (tracked : Tracked Source) : Prop :=
  ∀ key course, tracked.course? key = some course → course.Countable backoff

/-- The course of a queued request goes on with the read that a tick makes for it. -/
theorem Consistent.course?_tick (consistent : Consistent backoff tracked) {made : Trial}
    (listed : made ∈ Supplier.trialsFor ticket.request.key
      (tracked.history.trials reader .tick now))
    (known : tracked.course? ticket.request.key = some course) :
    (tracked.next reader .tick now).course? ticket.request.key =
      some { course with trials := course.trials ++ [made] } := by
  have only := eq_singleton_of_mem
    (consistent.treats reader .tick now ticket.request.key).length_le listed
  change Course.next .tick ticket.request.key _ (tracked.course? ticket.request.key) = _
  rw [only, known]
  rfl

theorem Consistent.tickCountable_iff (consistent : Consistent backoff tracked)
    (within : ∀ limit, backoff.limit = some limit → limit ≤ countLimit)
    (before : tracked.Countable backoff) (reader : Reader Source) (now : Nat) :
    Supplier.TickCountable reader tracked.history.supplier tracked.history.source now ↔
      (tracked.next reader .tick now).Countable backoff := by
  constructor
  · intro countable key course known
    change Course.next .tick key _ (tracked.course? key) = some course at known
    obtain ⟨earlier, old, same⟩ := Option.map_eq_some_iff.mp known
    cases made : Supplier.trialsFor key (tracked.history.trials reader .tick now) with
    | nil =>
      rw [made, List.append_nil] at same
      exact same ▸ before key earlier old
    | cons trial rest =>
      have listed : trial ∈ Supplier.trialsFor key (tracked.history.trials reader .tick now) :=
        made ▸ List.mem_cons_self
      obtain ⟨read, own⟩ := List.mem_filter.mp listed
      obtain ⟨ticket, due, asked⟩ := List.mem_map.mp (Supplier.request_of_mem_trials read).1
      obtain ⟨queued, expired⟩ := List.mem_filter.mp due
      obtain rfl : ticket.request.key = key := asked ▸ of_decide_eq_true own
      obtain ⟨present, found, waits⟩ := consistent.waits queued
      obtain rfl : earlier = present := Option.some.inj (old.symm.trans found)
      have later := consistent.course?_tick listed old
      rw [show (tracked.next reader .tick now).course? ticket.request.key = some course
        from known] at later
      obtain rfl := Option.some.inj later
      rw [waits.countable_iff within, ← consistent.constant]
      exact countable ticket queued expired trial listed
  · intro countable ticket queued expired trial listed
    obtain ⟨course, known, waits⟩ := consistent.waits queued
    rw [consistent.constant, ← waits.countable_iff within]
    exact countable _ _ (consistent.course?_tick listed known)

theorem countable_next (before : tracked.Countable backoff)
    (consistent : Consistent backoff tracked) (ticks : command ≠ .tick) (reader : Reader Source)
    (now : Nat) : (tracked.next reader command now).Countable backoff := by
  intro key course known
  change Course.next command key _ (tracked.course? key) = some course at known
  unfold Course.next at known
  split at known
  · obtain rfl := Option.some.inj known
    have single := (consistent.treats reader command now key).length_le
    apply Course.countable_of_lt
    rw [Course.retries]
    exact Nat.lt_of_le_of_lt (Nat.sub_le_of_le_add single) (by decide)
  · rename_i unasked
    obtain ⟨earlier, old, same⟩ := Option.map_eq_some_iff.mp known
    have unread : Supplier.trialsFor key (tracked.history.trials reader command now) = [] := by
      apply Supplier.trialsFor_eq_nil
      intro trial read own
      have asked := (Supplier.request_of_mem_trials read).1
      cases command with
      | share | withdraw => cases asked
      | tick => exact ticks rfl
      | ask file extent peer =>
        rw [Supplier.readers] at asked
        split at asked
        · rw [List.mem_singleton] at asked
          rw [asked] at own
          simp [Command.asked?, own] at unasked
        · cases asked
    rw [unread, List.append_nil] at same
    exact same ▸ before key earlier old

end Tracked

namespace History

def nextInWords (reader : Reader Source) (history : History Source) (command : Command)
    (now : Nat) : Option (History Source) := do
  let run ← history.supplier.stepInWords reader history.source command now
  let event : Event :=
    { before := history.supplier, command, now, after := run.supplier, effects := run.effects }
  return { supplier := run.supplier, source := run.source, events := history.events ++ [event] }

/-- The history of some commands in words. -/
def runInWords (reader : Reader Source) (backoff : Backoff) (pool : BufferPool) (source : Source)
    (commands : List (Command × Nat)) : Option (History Source) :=
  commands.foldlM (fun history timed => history.nextInWords reader timed.1 timed.2)
    (start backoff pool source)

theorem queuesTyped_run (reader : Reader Source) (backoff : Backoff) (pool : BufferPool)
    (source : Source) {commands : List (Command × Nat)}
    (typed : ∀ timed ∈ commands, timed.1.Typed) :
    (run reader backoff pool source commands).supplier.QueuesTyped := by
  induction commands using List.reverseRecOn with
  | nil => simp [run, start, Supplier.withPool, Supplier.QueuesTyped]
  | append_singleton commands timed ih =>
    rw [run_append_singleton]
    have before := ih (fun other listed => typed other (List.mem_append_left _ listed))
    exact Supplier.queuesTyped_step before reader _ (typed timed (by simp)) timed.2

theorem nextInWords_cases (consistent : Tracked.Consistent backoff tracked)
    (within : ∀ limit, backoff.limit = some limit → limit ≤ countLimit)
    (queues : tracked.history.supplier.QueuesTyped) (asked : command.Typed)
    (reader : Reader Source) (now : Nat) :
    Words.Agrees (tracked.history.nextInWords reader command now)
        (tracked.history.next reader command now) ∧
      (tracked.Countable backoff →
        (tracked.history.nextInWords reader command now =
            some (tracked.history.next reader command now) ↔
          (tracked.next reader command now).Countable backoff)) := by
  have agrees := Supplier.stepInWords_agrees consistent.shared queues consistent.single reader
    tracked.history.source asked now
  have exact_iff := Supplier.stepInWords_eq_iff consistent.shared queues consistent.single reader
    tracked.history.source asked now
  have goes (follows : tracked.history.supplier.stepInWords reader tracked.history.source command
      now = some (tracked.history.supplier.step reader tracked.history.source command now)) :
      tracked.history.nextInWords reader command now =
        some (tracked.history.next reader command now) := by
    rw [nextInWords, follows]
    rfl
  have stops (stopped : tracked.history.supplier.stepInWords reader tracked.history.source command
      now = none) : tracked.history.nextInWords reader command now = none := by
    rw [nextInWords, stopped]
    rfl
  refine ⟨agrees.imp stops goes, fun before => ?_⟩
  have same : tracked.history.nextInWords reader command now =
      some (tracked.history.next reader command now) ↔
        (command = .tick →
          Supplier.TickCountable reader tracked.history.supplier tracked.history.source now) := by
    refine Iff.trans ⟨fun follows => ?_, goes⟩ exact_iff
    rcases agrees with stopped | done
    · rw [stops stopped] at follows
      cases follows
    · exact done
  rw [same]
  by_cases ticks : command = .tick
  · subst ticks
    exact ⟨fun countable => (consistent.tickCountable_iff within before reader now).mp
      (countable rfl), fun countable _ =>
        (consistent.tickCountable_iff within before reader now).mpr countable⟩
  · exact ⟨fun _ => Tracked.countable_next before consistent ticks reader now,
      fun _ tick => absurd tick ticks⟩

section Run

variable (within : ∀ limit, backoff.limit = some limit → limit ≤ countLimit)
variable (typed : ∀ timed ∈ commands, timed.1.Typed)

include within typed

theorem nextInWords_run (reader : Reader Source) (pool : BufferPool) (source : Source)
    {front back : List (Command × Nat)} {timed : Command × Nat}
    (split : commands = front ++ timed :: back) :
    let reached := Tracked.run reader backoff pool source front
    Words.Agrees ((run reader backoff pool source front).nextInWords reader timed.1 timed.2)
        ((run reader backoff pool source front).next reader timed.1 timed.2) ∧
      (reached.Countable backoff →
        ((run reader backoff pool source front).nextInWords reader timed.1 timed.2 =
            some ((run reader backoff pool source front).next reader timed.1 timed.2) ↔
          (reached.next reader timed.1 timed.2).Countable backoff)) := by
  intro reached
  have earlier : ∀ other ∈ front, other.1.Typed := fun other listed =>
    typed other (split ▸ List.mem_append_left _ listed)
  have queues := queuesTyped_run reader backoff pool source earlier
  rw [← Tracked.history_run] at queues ⊢
  exact nextInWords_cases (Tracked.consistent_run reader backoff pool source front) within queues
    (typed timed (split ▸ List.mem_append_right front List.mem_cons_self)) reader timed.2

theorem runInWords_agrees (reader : Reader Source) (pool : BufferPool) (source : Source) :
    Words.Agrees (runInWords reader backoff pool source commands)
      (run reader backoff pool source commands) :=
  Words.foldlM_agrees fun _ _ _ split =>
    (nextInWords_run within typed reader pool source split).1

/-- A run in words comes to what the plain one comes to exactly if all courses of it are
countable. -/
theorem runInWords_eq_iff (reader : Reader Source) (pool : BufferPool) (source : Source) :
    runInWords reader backoff pool source commands =
        some (run reader backoff pool source commands) ↔
      ∀ front, front <+: commands →
        (Tracked.run reader backoff pool source front).Countable backoff := by
  refine (Words.foldlM_eq_iff fun _ _ _ split =>
    (nextInWords_run within typed reader pool source split).1).trans ⟨?_, ?_⟩
  · intro steps front ahead
    induction front using List.reverseRecOn with
    | nil =>
      intro key course known
      cases known
    | append_singleton front timed ih =>
      obtain ⟨back, whole⟩ := ahead
      rw [List.append_assoc, List.singleton_append] at whole
      have before := ih ⟨_, whole⟩
      rw [Tracked.run_append_singleton]
      exact ((nextInWords_run within typed reader pool source whole.symm).2 before).mp
        (steps front timed back whole.symm)
  · intro countable front timed back split
    have before := countable front ⟨_, split.symm⟩
    have after := countable (front ++ [timed]) ⟨back, by rw [split]; simp⟩
    rw [Tracked.run_append_singleton] at after
    exact ((nextInWords_run within typed reader pool source split).2 before).mpr after

end Run

end History

/-- All courses are countable where the backoff keeps the attempts below what 32 bits count, or the
requests are not retried as often, or at least the last retry fails. -/
theorem countable_iff (reader : Reader Source) (backoff : Backoff) (pool : BufferPool)
    (source : Source) (commands : List (Command × Nat)) :
    (∀ front, front <+: commands →
        (Tracked.run reader backoff pool source front).Countable backoff) ↔
      (backoff.limit = none → RetriesCounted reader backoff pool source commands) ∧
        (backoff.limit = some countLimit →
          LastRetriesFail reader backoff pool source commands) := by
  constructor
  · intro countable
    exact ⟨fun unlimited front ahead key course known =>
        (countable front ahead key course known).unlimited unlimited,
      fun limited front ahead key course known =>
        (countable front ahead key course known).limited limited⟩
  · rintro ⟨counted, fail⟩ front ahead key course known
    exact ⟨fun unlimited => counted unlimited front ahead key course known,
      fun limited => fail limited front ahead key course known⟩

theorem Tracked.length_le_of_run {commands : List (Command × Nat)} {key : Key} {course : Course}
    (known : (run reader backoff pool source commands).course? key = some course) :
    course.trials.length ≤ commands.length := by
  induction commands using List.reverseRecOn generalizing course with
  | nil => cases known
  | append_singleton commands timed ih =>
    have single := ((consistent_run reader backoff pool source commands).treats reader timed.1
      timed.2 key).length_le
    rw [run_append_singleton] at known
    change Course.next timed.1 key _ ((run reader backoff pool source commands).course? key) =
      some course at known
    rw [List.length_append]
    unfold Course.next at known
    split at known
    · cases known
      exact Nat.le_trans single (Nat.le_add_left _ _)
    · obtain ⟨earlier, before, same⟩ := Option.map_eq_some_iff.mp known
      subst same
      rw [List.length_append]
      exact Nat.add_le_add (ih before) single

/-- In a run of fewer commands than 32 bits count no request is retried more often than that. -/
theorem retriesCounted_of_length {commands : List (Command × Nat)}
    (short : commands.length ≤ countLimit) :
    RetriesCounted reader backoff pool source commands := by
  intro front ahead key course known
  have read := Tracked.length_le_of_run known
  have shorter := ahead.length_le
  have positive : 0 < countLimit := by decide
  rw [Course.retries]
  omega

end ChunkExchange.Supply
