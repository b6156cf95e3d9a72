import ChunkExchange.Node

namespace ChunkExchange.Node

/-- A node with the source of its reads, the time between its ticks, and the time since it started,
in nanoseconds. -/
structure Clocked (Source : Type) where
  node : Node
  source : Source
  period : Nat
  now : Nat

namespace Clocked

variable {Source : Type}

/-- Starts a node as configured. The options are checked first, then the tick, then the queue. -/
def start (config : Config) (source : Source) : Except ConfigError (Clocked Source) := do
  let options ← config.options
  let period ← config.tick
  Config.requirePositive "service.command_buffer" config.commandBuffer
  return { node := .start options, source, period, now := 0 }

def after (clocked : Clocked Source) (run : Run Source) : Clocked Source :=
  { clocked with node := run.node, source := run.source }

def handle (reader : Supply.Reader Source) (clocked : Clocked Source) (command : Command) :
    Except NodeError Reply × Clocked Source × List Effect :=
  let (answer, run) := clocked.node.handle reader clocked.source command clocked.now
  (answer, clocked.after run, run.effects)

/-- The times of the ticks after `start` that come within `duration`. -/
def ticksWithin (period start duration : Nat) : List Nat :=
  let passed := start / period
  (List.range ((start + duration) / period - passed)).map fun index =>
    (passed + index + 1) * period

def tickRun (reader : Supply.Reader Source) (run : Run Source) (now : Nat) : Run Source :=
  let next := run.node.tick reader run.source now
  { next with effects := run.effects ++ next.effects }

/-- Lets some time pass, with the ticks that come in it. -/
def sleep (reader : Supply.Reader Source) (clocked : Clocked Source) (duration : Nat) :
    Clocked Source × List Effect :=
  let run := (ticksWithin clocked.period clocked.now duration).foldl (tickRun reader)
    { node := clocked.node, source := clocked.source, effects := [] }
  ({ clocked.after run with now := clocked.now + duration }, run.effects)

end Clocked

end ChunkExchange.Node
