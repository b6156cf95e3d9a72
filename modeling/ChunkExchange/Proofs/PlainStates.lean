import ChunkExchange.Proofs.WaitingChunks

/-! A coverage answers as a plain list of chunk states does, which knows its counts by looking at
every chunk. The running counts and the frontier are exact after any moves, legal or not. -/

namespace ChunkExchange

/-- A call that moves one chunk. -/
structure Move where
  index : Nat
  target : ChunkState
deriving DecidableEq

namespace Move

/-- A chunk stays in its state, or makes one of the three legal steps. -/
def Allowed (current target : ChunkState) : Prop :=
  current = target ∨
    (current, target) ∈ [(.waiting, .pending), (.pending, .waiting), (.pending, .received)]

instance (current target : ChunkState) : Decidable (Allowed current target) :=
  inferInstanceAs (Decidable (_ ∨ _))

/-- What a plain list of states makes of a move. -/
def onStates (states : List ChunkState) (move : Move) : Except Rejection (List ChunkState) :=
  match states[move.index]? with
  | none => .error (.outOfRange move.index states.length)
  | some current =>
    if Allowed current move.target then .ok (states.set move.index move.target)
    else .error (.invalidTransition move.index current move.target)

def onCoverage (coverage : Coverage) (move : Move) : Except Rejection Coverage :=
  coverage.move move.index move.target

/-- Makes moves in turn, where a refused one changes nothing, and tells each refusal. -/
def makeAll {State : Type} (make : State → Move → Except Rejection State) (state : State) :
    List Move → State × List (Option Rejection)
  | [] => (state, [])
  | move :: rest =>
    match make state move with
    | .ok next => ((makeAll make next rest).1, none :: (makeAll make next rest).2)
    | .error refusal => ((makeAll make state rest).1, some refusal :: (makeAll make state rest).2)

end Move

namespace Coverage

variable {coverage next : Coverage} {states : List ChunkState} {index span start : Nat}
variable {current target : ChunkState}

/-- Where the search over arrived chunks may reach the end, it stops at no arrived chunk. -/
theorem arrivedEnd_stops {all : Array ChunkState} (reaches : all.size ≤ start + span) :
    all[arrivedEnd all span start]? ≠ some .received := by
  induction span generalizing start with
  | zero =>
    intro arrived
    obtain ⟨inside, _⟩ := Array.getElem?_eq_some_iff.mp arrived
    exact absurd inside (Nat.not_lt.mpr reaches)
  | succ span ih =>
    unfold arrivedEnd
    split
    · exact ih (by omega)
    · rename_i here
      exact here

private theorem frontier_stops_move (moved : coverage.move index target = .ok next)
    (stops : coverage.isIn coverage.frontier .received = false) :
    next.isIn next.frontier .received = false := by
  rcases frontier_cases moved with same | ⟨elsewhere, kept⟩ | ⟨_, reached⟩
  · exact same ▸ stops
  · rw [kept, isIn_received_move moved elsewhere]
    exact stops
  · have reaches : next.states.size ≤ coverage.frontier + (next.count - coverage.frontier) := by
      rw [count]
      omega
    rw [Bool.eq_false_iff, ne_eq, isIn_iff, reached]
    exact arrivedEnd_stops reaches

/-- A coverage has these states, and its counts and its frontier are exact. -/
structure Tracks (coverage : Coverage) (states : List ChunkState) : Prop where
  states : coverage.states.toList = states
  counted : coverage.Counted
  stops : coverage.isIn coverage.frontier .received = false

theorem tracks_fresh (count : Nat) : (fresh count).Tracks (List.replicate count .waiting) where
  states := by simp [fresh]
  counted := counted_fresh count
  stops := by simp [isIn_fresh]

section Tracked

variable (tracks : coverage.Tracks states)

include tracks

theorem Tracks.getElem? (index : Nat) : coverage.states[index]? = states[index]? := by
  rw [← tracks.states, Array.getElem?_toList]

theorem Tracks.count : coverage.count = states.length := by
  rw [← tracks.states, Array.length_toList]
  rfl

theorem Tracks.isIn_iff : coverage.isIn index current = true ↔ states[index]? = some current := by
  rw [Coverage.isIn_iff, tracks.getElem?]

theorem Tracks.state_eq (index : Nat) : coverage.state index =
    match states[index]? with
    | some state => .ok state
    | none => .error (.outOfRange index states.length) := by
  cases here : states[index]? with
  | none => simp only [state, tracks.getElem?, here, tracks.count]
  | some current => simp only [state, tracks.getElem?, here]

theorem Tracks.move_of_allowed (present : states[index]? = some current)
    (allowed : Move.Allowed current target) :
    ∃ next, coverage.move index target = .ok next ∧ next.Tracks (states.set index target) := by
  have here : coverage.isIn index current = true := tracks.isIn_iff.mpr present
  have moves : ∃ next, coverage.move index target = .ok next := by
    by_cases stays : current = target
    · subst stays
      exact ⟨coverage, by simp [move, state_of_isIn here, bind, Except.bind, pure, Except.pure]⟩
    · have legal : current.canBecome target = true := by
        cases current <;> cases target <;> simp [Move.Allowed] at allowed stays <;> rfl
      exact ⟨_, move_of_canBecome here legal⟩
  obtain ⟨next, moved⟩ := moves
  refine ⟨next, moved, ?_, tracks.counted.move moved, frontier_stops_move moved tracks.stops⟩
  rw [states_move moved, Array.toList_setIfInBounds, tracks.states]

private theorem Tracks.move_of_not_allowed (present : states[index]? = some current)
    (refused : ¬ Move.Allowed current target) :
    coverage.move index target = .error (.invalidTransition index current target) := by
  have here : coverage.isIn index current = true := tracks.isIn_iff.mpr present
  have leaves : current ≠ target := fun same => refused (.inl same)
  have illegal : current.canBecome target = false := by
    cases current <;> cases target <;> simp [Move.Allowed] at refused <;> rfl
  simp [move, state_of_isIn here, bind, Except.bind, leaves, illegal, throw, throwThe,
    MonadExceptOf.throw]

/-- Either both sides refuse a move in the same way, or both make it. -/
theorem Tracks.move (move : Move) :
    (∃ refusal, move.onCoverage coverage = .error refusal ∧
      move.onStates states = .error refusal) ∨
      ∃ next after, move.onCoverage coverage = .ok next ∧ move.onStates states = .ok after ∧
        next.Tracks after := by
  unfold Move.onCoverage Move.onStates
  cases present : states[move.index]? with
  | none =>
    have outside : coverage.state move.index =
        .error (.outOfRange move.index states.length) := by
      rw [tracks.state_eq, present]
    exact .inl ⟨_, by simp [Coverage.move, outside, bind, Except.bind], rfl⟩
  | some current =>
    by_cases allowed : Move.Allowed current move.target
    · obtain ⟨next, moved, kept⟩ := tracks.move_of_allowed present allowed
      exact .inr ⟨next, _, moved, if_pos allowed, kept⟩
    · exact .inl ⟨_, tracks.move_of_not_allowed present allowed, if_neg allowed⟩

/-- Any moves are answered alike, and the coverage has the states of the list afterwards. -/
theorem Tracks.makeAll (moves : List Move) :
    (Move.makeAll Move.onCoverage coverage moves).2 = (Move.makeAll Move.onStates states moves).2 ∧
      (Move.makeAll Move.onCoverage coverage moves).1.Tracks
        (Move.makeAll Move.onStates states moves).1 := by
  induction moves generalizing coverage states with
  | nil => exact ⟨rfl, tracks⟩
  | cons move rest ih =>
    rcases tracks.move move with ⟨refusal, actual, plain⟩ | ⟨next, after, actual, plain, kept⟩
    · obtain ⟨answers, final⟩ := ih tracks
      simp only [Move.makeAll, actual, plain, answers]
      exact ⟨trivial, final⟩
    · obtain ⟨answers, final⟩ := ih kept
      simp only [Move.makeAll, actual, plain, answers]
      exact ⟨trivial, final⟩

end Tracked

/-- A beginning of arrived chunks that one follows which has not arrived is the longest one. -/
private theorem eq_length_takeWhile {length : Nat}
    (arrived : ∀ index < length, states[index]? = some .received)
    (stops : states[length]? ≠ some .received) :
    length = (states.takeWhile (· == .received)).length := by
  induction states generalizing length with
  | nil =>
    cases length with
    | zero => rfl
    | succ length => cases arrived 0 (Nat.succ_pos length)
  | cons state rest ih =>
    cases length with
    | zero =>
      have waits : state ≠ .received := by simpa using stops
      simp [waits]
    | succ length =>
      have first : state = .received := by simpa using arrived 0 (Nat.succ_pos length)
      have others : length = (rest.takeWhile (· == .received)).length :=
        ih (fun index below => by simpa using arrived (index + 1) (Nat.succ_lt_succ below))
          (by simpa using stops)
      simp [first, ← others]

/-- A coverage answers every question as a look at each of the states does. -/
structure Refines (coverage : Coverage) (states : List ChunkState) : Prop where
  state : ∀ index, coverage.state index =
    match states[index]? with
    | some state => .ok state
    | none => .error (.outOfRange index states.length)
  count : coverage.count = states.length
  pending : coverage.pending = states.count .pending
  received : coverage.received = states.count .received
  waiting : coverage.waiting = states.count .waiting
  total : coverage.waiting + coverage.pending + coverage.received = coverage.count
  frontier : coverage.frontier = (states.takeWhile (· == .received)).length
  isComplete : coverage.isComplete = true ↔ ∀ state ∈ states, state = .received
  firstWaiting : ∀ limit, coverage.firstWaiting limit =
    ((List.range states.length).filter (fun index => states[index]? == some .waiting)).take limit

theorem Tracks.refines (tracks : coverage.Tracks states) : coverage.Refines states := by
  have counts (state : ChunkState) : coverage.states.count state = states.count state := by
    rw [← tracks.states, Array.count_toList]
  have pending : coverage.pending = states.count .pending := by
    rw [tracks.counted.pending, counts]
  have received : coverage.received = states.count .received := by
    rw [tracks.counted.received, counts]
  have waiting : coverage.waiting = states.count .waiting := by
    rw [tracks.counted.waiting_eq, counts]
  constructor
  · exact tracks.state_eq
  · exact tracks.count
  · exact pending
  · exact received
  · exact waiting
  · exact tracks.counted.total
  · apply eq_length_takeWhile
    · exact fun index below => tracks.isIn_iff.mp (tracks.counted.frontier index below)
    · intro arrived
      have here := tracks.isIn_iff.mpr arrived
      rw [tracks.stops] at here
      cases here
  · rw [Coverage.isComplete, beq_iff_eq, received, tracks.count, List.count_eq_length]
    exact forall₂_congr fun _ _ => eq_comm
  · intro limit
    rw [tracks.counted.firstWaiting_eq, tracks.count]
    congr 1
    apply List.filter_congr
    intro index _
    rw [isIn, tracks.getElem?]

/-- Any number of chunks and any moves, legal or not: each move is made or refused as on a plain
list of states, where a refused one changes nothing, and the coverage answers as that list does. -/
theorem refines_plain_states (count : Nat) (moves : List Move) :
    let actual := Move.makeAll Move.onCoverage (fresh count) moves
    let plain := Move.makeAll Move.onStates (List.replicate count .waiting) moves
    actual.2 = plain.2 ∧ actual.1.Refines plain.1 := by
  obtain ⟨answers, final⟩ := (tracks_fresh count).makeAll moves
  exact ⟨answers, final.refines⟩

end Coverage

end ChunkExchange
