import ChunkExchange.Binary64

namespace ChunkExchange

/-- How the delay depends on the attempt. Durations are in nanoseconds. -/
inductive Pace where
  | constant (delay : Nat)
  | exponential (initial : Nat) (multiplier : Float) (cap : Nat)
  | immediate
deriving DecidableEq

/-- A pace of attempts and the number of them; without a limit they never end. -/
structure Backoff where
  limit : Option Nat
  pace : Pace
deriving DecidableEq

/-- The greatest exponent used; later attempts repeat its delay. -/
def Pace.exponentLimit : Nat := 2147483647

/-- The delay that follows attempt `attempt`, counted from zero. An exponential pace grows to its
cap, and to it at once where the growth is not a finite number. -/
def Pace.delay (attempt : Nat) : Pace → Nat
  | .constant delay => delay
  | .immediate => 0
  | .exponential initial multiplier cap =>
    let exponent := min attempt Pace.exponentLimit
    match Binary64.nearestNat? (Float.ofNat initial * Binary64.power multiplier exponent) with
    | some delay => if delay < Binary64.roundNat cap then min delay wordLimit else cap
    | none => cap

def Backoff.exhausted (backoff : Backoff) (attempt : Nat) : Bool :=
  backoff.limit.any (fun limit => decide (limit ≤ attempt))

/-- The delay that follows attempt `attempt`, or nothing once the attempts have run out. -/
def Backoff.delay? (backoff : Backoff) (attempt : Nat) : Option Nat :=
  if backoff.exhausted attempt then none else some (backoff.pace.delay attempt)

end ChunkExchange
