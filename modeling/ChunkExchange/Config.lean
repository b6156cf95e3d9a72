import ChunkExchange.Decimal.Shortest
import ChunkExchange.Options

namespace ChunkExchange

/-- The configuration of a node as it is written down. Durations are in nanoseconds. -/
structure Config where
  transfer : Options := {}
  tickPeriod : Nat := 500000000
  commandBuffer : Nat := 1024
  logLevel : String := "info"
deriving DecidableEq

/-- Why a configuration cannot be used. -/
inductive ConfigError where
  | unreadable
  | malformed
  | zero (key : String)
  | fractionOutOfRange (fraction : Float)
  | multiplierOutOfRange (key : String) (multiplier : Float)
deriving DecidableEq

/-- The texts of the outside causes end where the cause would be named. -/
def ConfigError.message : ConfigError → String
  | .unreadable => "failed to read config file: "
  | .malformed => "failed to parse config: "
  | .zero key => s!"{key} must be non-zero"
  | .fractionOutOfRange fraction =>
    s!"transfer.small_file_fraction must be within [0, 1], got {Decimal.text fraction}"
  | .multiplierOutOfRange key multiplier =>
    s!"{key}.multiplier must be a finite value >= 1, got {Decimal.text multiplier}"

namespace Config

def requirePositive (key : String) (quantity : Nat) : Except ConfigError Unit :=
  if quantity = 0 then .error (.zero key) else .ok ()

/-- A fraction between zero and one, both included. -/
def requireFraction (fraction : Float) : Except ConfigError Unit :=
  if 0 ≤ fraction ∧ fraction ≤ 1 then .ok () else .error (.fractionOutOfRange fraction)

/-- Exponential delays must not shrink, and their multiplier must be finite. -/
def requireGrowth (key : String) (backoff : Backoff) : Except ConfigError Unit :=
  match backoff.pace with
  | .exponential _ multiplier _ =>
    if 1 ≤ multiplier ∧ multiplier < 1 / 0 then .ok ()
    else .error (.multiplierOutOfRange key multiplier)
  | _ => .ok ()

/-- The options of the exchange. Of several faults the first in this order is reported. -/
def options (config : Config) : Except ConfigError Options := do
  let transfer := config.transfer
  requirePositive "transfer.chunk_size" transfer.chunkSize
  requirePositive "transfer.max_parallel_chunks" transfer.maxParallelChunks
  requirePositive "transfer.max_parallel_per_file" transfer.maxParallelPerFile
  requirePositive "transfer.max_parallel_per_peer" transfer.maxParallelPerPeer
  requireFraction transfer.smallFileFraction
  requireGrowth "transfer.download_retry" transfer.downloadRetry
  requireGrowth "transfer.upload_retry" transfer.uploadRetry
  return transfer

/-- The time between two ticks. -/
def tick (config : Config) : Except ConfigError Nat := do
  requirePositive "service.tick_interval_ms" config.tickPeriod
  return config.tickPeriod

end Config

end ChunkExchange
