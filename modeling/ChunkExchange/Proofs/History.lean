import ChunkExchange.Proofs.Dispatch
import Mathlib.Data.List.Induction

namespace ChunkExchange

/-- The file whose completion a notice tells, with its path. -/
def Notice.completion? : Notice → Option (File × String)
  | .completed file path => some (file, path)
  | _ => none

namespace Fetch

def Effect.pick? : Effect → Option Pick
  | .get pick => some pick
  | _ => none

/-- One operation of a run, with the fetcher before it and what came of it. -/
structure Event where
  before : Fetcher
  operation : Operation
  now : Nat
  after : Fetcher
  reply : Reply
  effects : List Effect

def Event.notices (event : Event) : List Notice :=
  event.reply.notices

variable {Memory : Type}

/-- A fetcher with the memory of its scheduler and everything that happened, in order. -/
structure History (Memory : Type) where
  fetcher : Fetcher
  memory : Memory
  events : List Event

/-- All requests that were ever sent. -/
def History.sent (history : History Memory) : List Pick :=
  history.events.flatMap (fun event => event.effects.filterMap Effect.pick?)

namespace History

def start (options : Options) (memory : Memory) : History Memory :=
  { fetcher := .empty options, memory, events := [] }

def event (scheduler : Scheduler Memory) (history : History Memory) (operation : Operation)
    (now : Nat) : Event :=
  let turn := history.fetcher.step scheduler history.memory operation now
  { before := history.fetcher, operation, now, after := turn.fetcher, reply := turn.reply
    effects := turn.effects }

def next (scheduler : Scheduler Memory) (history : History Memory) (operation : Operation)
    (now : Nat) : History Memory :=
  let turn := history.fetcher.step scheduler history.memory operation now
  { fetcher := turn.fetcher, memory := turn.memory
    events := history.events ++ [history.event scheduler operation now] }

/-- The history of some operations, each with its time, from a fetcher without downloads. -/
def run (scheduler : Scheduler Memory) (options : Options) (memory : Memory)
    (commands : List (Operation × Nat)) : History Memory :=
  commands.foldl (fun history command => history.next scheduler command.1 command.2)
    (start options memory)

variable {scheduler : Scheduler Memory} {options : Options} {memory : Memory}

theorem run_append_singleton (commands : List (Operation × Nat)) (command : Operation × Nat) :
    run scheduler options memory (commands ++ [command]) =
      (run scheduler options memory commands).next scheduler command.1 command.2 := by
  simp [run]

/-- What holds at the start and is kept by each operation holds after every run. -/
theorem run_induction {motive : History Memory → Prop} (initial : motive (start options memory))
    (step : ∀ history operation now, motive history →
      motive (history.next scheduler operation now))
    (commands : List (Operation × Nat)) : motive (run scheduler options memory commands) := by
  induction commands using List.reverseRecOn with
  | nil => exact initial
  | append_singleton commands command ih =>
    rw [run_append_singleton]
    exact step _ command.1 command.2 ih

theorem run_split {commands : List (Operation × Nat)} {earlier later : List Event} {event : Event}
    (events : (run scheduler options memory commands).events = earlier ++ event :: later) :
    ∃ front operation now, (run scheduler options memory front).events = earlier ∧
      event = (run scheduler options memory front).event scheduler operation now := by
  induction commands using List.reverseRecOn generalizing later with
  | nil => simp [run, start] at events
  | append_singleton commands command ih =>
    rw [run_append_singleton] at events
    rcases eq_or_of_concat_eq events with ⟨_, same, last⟩ | ⟨rest, _, within⟩
    · exact ⟨commands, command.1, command.2, same.symm, last⟩
    · exact ih within

theorem event_of_mem {commands : List (Operation × Nat)} {event : Event}
    (member : event ∈ (run scheduler options memory commands).events) :
    ∃ front operation now,
      event = (run scheduler options memory front).event scheduler operation now := by
  obtain ⟨earlier, later, events⟩ := List.append_of_mem member
  obtain ⟨front, operation, now, _, same⟩ := run_split events
  exact ⟨front, operation, now, same⟩

theorem run_prefix {commands : List (Operation × Nat)} {earlier later : List Event}
    (events : (run scheduler options memory commands).events = earlier ++ later) :
    ∃ front, (run scheduler options memory front).events = earlier := by
  cases later with
  | nil => exact ⟨commands, by simpa using events⟩
  | cons event rest =>
    obtain ⟨front, _, _, same, _⟩ := run_split events
    exact ⟨front, same⟩

end History

/-- An event is one turn of a consistent fetcher, whose scheduler picks the requests. -/
structure Event.Lawful (scheduler : Scheduler Memory) (options : Options) (event : Event) :
    Prop where
  configured : event.before.options = options
  before : Fetcher.Consistent [] event.before
  after : Fetcher.Consistent [] event.after
  settles : ∃ settled picks, Settles event.before event.operation settled ∧
    settled.fetcher.Continues event.after ∧ event.reply = settled.reply ∧
    event.effects = settled.effects ++ picks.map .get ∧
    Fetcher.Dispatch.Chosen scheduler picks

theorem Event.Lawful.chosen_of_get {Memory : Type} {scheduler : Scheduler Memory}
    {options : Options} {event : Event} {pick : Pick} (lawful : event.Lawful scheduler options)
    (asked : .get pick ∈ event.effects) :
    ∃ picks, Fetcher.Dispatch.Chosen scheduler picks ∧ pick ∈ picks := by
  obtain ⟨settled, picks, settles, _, _, effects, chosen⟩ := lawful.settles
  refine ⟨picks, chosen, ?_⟩
  rw [effects, List.mem_append] at asked
  rcases asked with before | sent
  · exact absurd rfl (settles.ne_get before pick)
  · simpa using sent

/-- The fetcher of a history is consistent, and all its events are lawful. -/
structure History.Lawful (scheduler : Scheduler Memory) (options : Options)
    (history : History Memory) : Prop where
  configured : history.fetcher.options = options
  consistent : Fetcher.Consistent [] history.fetcher
  events : ∀ event ∈ history.events, event.Lawful scheduler options

namespace History

variable {scheduler : Scheduler Memory} {options : Options} {memory : Memory}
variable {history : History Memory}

theorem lawful_start : (start options memory).Lawful scheduler options :=
  ⟨rfl, Fetcher.consistent_empty options, by simp [start]⟩

theorem Lawful.event (lawful : history.Lawful scheduler options) (operation : Operation)
    (now : Nat) : (history.event scheduler operation now).Lawful scheduler options := by
  obtain ⟨kept, settles⟩ :=
    Fetcher.step_spec scheduler history.memory lawful.consistent operation now
  exact ⟨lawful.configured, lawful.consistent, kept, settles⟩

theorem Lawful.next (lawful : history.Lawful scheduler options) (operation : Operation)
    (now : Nat) : (history.next scheduler operation now).Lawful scheduler options := by
  have event := lawful.event operation now
  obtain ⟨settled, picks, settles, continues, _⟩ := event.settles
  refine ⟨?_, event.after, ?_⟩
  · exact continues.options.trans (settles.options.trans lawful.configured)
  · intro other member
    rcases List.mem_append.mp member with old | new
    · exact lawful.events other old
    · exact List.mem_singleton.mp new ▸ event

theorem lawful_run (scheduler : Scheduler Memory) (options : Options) (memory : Memory)
    (commands : List (Operation × Nat)) :
    (run scheduler options memory commands).Lawful scheduler options :=
  run_induction lawful_start (fun _ operation now lawful => lawful.next operation now) commands

end History

end Fetch

end ChunkExchange
