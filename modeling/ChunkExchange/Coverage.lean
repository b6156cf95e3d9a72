import ChunkExchange.ChunkState

namespace ChunkExchange

structure Coverage where
  states : Array ChunkState
  pending : Nat
  received : Nat
  /-- Every chunk below this index has arrived. -/
  frontier : Nat
deriving DecidableEq

namespace Coverage

/-- `count` chunks that all wait. -/
def fresh (count : Nat) : Coverage :=
  { states := Array.replicate count .waiting, pending := 0, received := 0, frontier := 0 }

def count (coverage : Coverage) : Nat :=
  coverage.states.size

def waiting (coverage : Coverage) : Nat :=
  coverage.count - coverage.pending - coverage.received

def isComplete (coverage : Coverage) : Bool :=
  coverage.received == coverage.count

/-- The arrived fraction; a file without chunks is wholly there. -/
def progress (coverage : Coverage) : Float :=
  if coverage.count = 0 then 1
  else Float.ofNat coverage.received / Float.ofNat coverage.count

def state (coverage : Coverage) (index : Nat) : Except Rejection ChunkState :=
  match coverage.states[index]? with
  | some state => .ok state
  | none => .error (.outOfRange index coverage.count)

/-- Whether chunk `index` exists and is in the given state. -/
def isIn (coverage : Coverage) (index : Nat) (state : ChunkState) : Bool :=
  coverage.states[index]? == some state

/-- The end of the run of arrived chunks that starts at `start`, within `span` chunks. -/
def arrivedEnd (states : Array ChunkState) : (span start : Nat) → Nat
  | 0, start => start
  | span + 1, start =>
    if states[start]? = some .received then arrivedEnd states span (start + 1) else start

/-- Records a legal move of chunk `index`. -/
def record (coverage : Coverage) (index : Nat) (current target : ChunkState) : Coverage :=
  let states := coverage.states.setIfInBounds index target
  match current, target with
  | .waiting, .pending => { coverage with states, pending := coverage.pending + 1 }
  | .pending, .waiting => { coverage with states, pending := coverage.pending - 1 }
  | .pending, .received =>
    { states
      pending := coverage.pending - 1
      received := coverage.received + 1
      frontier := arrivedEnd states (states.size - coverage.frontier) coverage.frontier }
  | _, _ => coverage

/-- Moves chunk `index` to `target`. Staying in place changes nothing; any other move must be a
legal one. -/
def move (coverage : Coverage) (index : Nat) (target : ChunkState) : Except Rejection Coverage := do
  let current ← coverage.state index
  if current = target then
    return coverage
  else if current.canBecome target then
    return coverage.record index current target
  else
    throw (.invalidTransition index current target)

/-- The first `limit` waiting indices among the `span` chunks from `start` on. -/
def scan (states : Array ChunkState) : (span start limit : Nat) → List Nat
  | 0, _, _ => []
  | _ + 1, _, 0 => []
  | span + 1, start, limit + 1 =>
    if states[start]? = some .waiting then start :: scan states span (start + 1) limit
    else scan states span (start + 1) (limit + 1)

/-- The lowest waiting indices, at most `limit` of them, in ascending order. -/
def firstWaiting (coverage : Coverage) (limit : Nat) : List Nat :=
  scan coverage.states (coverage.count - coverage.frontier) coverage.frontier limit

end Coverage

end ChunkExchange
