import ChunkExchange.Backoff

namespace ChunkExchange

/-- Tunables of fetching and supplying. Durations are in nanoseconds, sizes in bytes. -/
structure Options where
  chunkSize : Nat := 1048576
  maxParallelChunks : Nat := 10
  maxParallelPerFile : Nat := 5
  maxParallelPerPeer : Nat := 5
  requestTimeout : Nat := 2000000000
  downloadRetry : Backoff :=
    { limit := some 3, pace := .exponential 1000000000 1.5 10000000000 }
  uploadRetry : Backoff := { limit := some 5, pace := .constant 2000000000 }
  /-- Files up to this size count as small. -/
  smallFileThreshold : Nat := 5242880
  smallFileFraction : Float := 0.25
deriving DecidableEq

/-- The number of parallel chunks that small files get first, rounded up. -/
def Options.smallFileSlots (options : Options) : Nat :=
  Binary64.ceilWord (Float.ofNat options.maxParallelChunks * options.smallFileFraction)

end ChunkExchange
