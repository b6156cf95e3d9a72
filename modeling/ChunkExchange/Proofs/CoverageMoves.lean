import ChunkExchange.Coverage

namespace ChunkExchange.Coverage

/-- The running counts are the numbers of chunks in these states, and all chunks below the frontier
have arrived. -/
structure Counted (coverage : Coverage) : Prop where
  pending : coverage.pending = coverage.states.count .pending
  received : coverage.received = coverage.states.count .received
  frontier : ∀ index < coverage.frontier, coverage.isIn index .received = true

variable {coverage next : Coverage} {index other : Nat} {current target state : ChunkState}

theorem isIn_iff : coverage.isIn index state = true ↔ coverage.states[index]? = some state := by
  simp [isIn]

theorem lt_count_of_isIn (present : coverage.isIn index state = true) : index < coverage.count := by
  obtain ⟨bound, _⟩ := Array.getElem?_eq_some_iff.mp (isIn_iff.mp present)
  exact bound

theorem eq_of_isIn (first : coverage.isIn index state = true)
    (second : coverage.isIn index current = true) : state = current :=
  Option.some.inj ((isIn_iff.mp first).symm.trans (isIn_iff.mp second))

theorem state_of_isIn (present : coverage.isIn index state = true) :
    coverage.state index = .ok state := by
  simp [Coverage.state, isIn_iff.mp present]

theorem isIn_of_state (found : coverage.state index = .ok state) :
    coverage.isIn index state = true := by
  unfold Coverage.state at found
  split at found
  · rename_i actual present
    have same : actual = state := Except.ok.inj found
    exact isIn_iff.mpr (same ▸ present)
  · cases found

theorem isIn_fresh (count : Nat) :
    (fresh count).isIn index state = (decide (index < count) && decide (state = .waiting)) := by
  by_cases inside : index < count
  · cases state <;> simp [isIn, fresh, inside]
  · cases state <;> simp [isIn, fresh, inside]

theorem isComplete_fresh (count : Nat) : (fresh count).isComplete = decide (count = 0) := by
  have size : (fresh count).count = count := by simp [fresh, Coverage.count]
  have received : (fresh count).received = 0 := rfl
  rw [isComplete, size, received, Bool.eq_iff_iff, beq_iff_eq, decide_eq_true_iff]
  exact eq_comm

theorem counted_fresh (count : Nat) : (fresh count).Counted := by
  constructor <;> simp [fresh, Array.count_replicate]

private theorem received_of_lt_arrivedEnd {states : Array ChunkState} {span start : Nat}
    (below : ∀ index < start, states[index]? = some .received) :
    ∀ index < arrivedEnd states span start, states[index]? = some .received := by
  induction span generalizing start with
  | zero => exact below
  | succ span ih =>
    unfold arrivedEnd
    split
    · rename_i here
      apply ih
      intro index bound
      rcases Nat.lt_succ_iff_lt_or_eq.mp bound with earlier | last
      · exact below index earlier
      · exact last ▸ here
    · exact below

theorem states_record (legal : current.canBecome target = true) :
    (coverage.record index current target).states =
      coverage.states.setIfInBounds index target := by
  cases current <;> cases target <;> simp [ChunkState.canBecome] at legal <;> rfl

/-- A successful move leaves everything as it is, or makes a legal step. -/
theorem move_cases (moved : coverage.move index target = .ok next) :
    (coverage.isIn index target = true ∧ next = coverage) ∨
      ∃ current, coverage.isIn index current = true ∧ current.canBecome target = true ∧
        next = coverage.record index current target := by
  cases found : coverage.state index with
  | error refusal => simp [move, found, bind, Except.bind] at moved
  | ok current =>
    have present := isIn_of_state found
    by_cases same : current = target
    · left
      simp only [move, found, bind, Except.bind, same, ↓reduceIte, pure, Except.pure] at moved
      exact ⟨same ▸ present, (Except.ok.inj moved).symm⟩
    · by_cases legal : current.canBecome target = true
      · right
        simp only [move, found, bind, Except.bind, same, legal, ↓reduceIte, pure,
          Except.pure] at moved
        exact ⟨current, present, legal, (Except.ok.inj moved).symm⟩
      · simp [move, found, bind, Except.bind, same, legal, throw, throwThe,
          MonadExceptOf.throw] at moved

theorem move_of_canBecome (present : coverage.isIn index current = true)
    (legal : current.canBecome target = true) :
    coverage.move index target = .ok (coverage.record index current target) := by
  have different : current ≠ target := by
    intro same
    subst same
    cases current <;> cases legal
  simp [move, state_of_isIn present, bind, Except.bind, different, legal, pure, Except.pure]

theorem states_move (moved : coverage.move index target = .ok next) :
    next.states = coverage.states.setIfInBounds index target := by
  rcases move_cases moved with ⟨present, same⟩ | ⟨current, _, legal, same⟩
  · subst same
    obtain ⟨bound, here⟩ := Array.getElem?_eq_some_iff.mp (isIn_iff.mp present)
    simp [Array.setIfInBounds_def, bound, ← here]
  · rw [same, states_record legal]

theorem count_move (moved : coverage.move index target = .ok next) :
    next.count = coverage.count := by
  simp [count, states_move moved]

theorem lt_count_of_move (moved : coverage.move index target = .ok next) :
    index < coverage.count := by
  rcases move_cases moved with ⟨present, _⟩ | ⟨current, present, _, _⟩
  · exact lt_count_of_isIn present
  · exact lt_count_of_isIn present

theorem getElem?_move (moved : coverage.move index target = .ok next) (other : Nat) :
    next.states[other]? = if index = other then some target else coverage.states[other]? := by
  have bound : index < coverage.states.size := lt_count_of_move moved
  rw [states_move moved, Array.getElem?_setIfInBounds, if_pos bound]

theorem isIn_move_self (moved : coverage.move index target = .ok next) :
    next.isIn index state = decide (target = state) := by
  rw [isIn, getElem?_move moved, if_pos rfl]
  cases target <;> cases state <;> rfl

theorem isIn_move_ne (moved : coverage.move index target = .ok next) (different : index ≠ other) :
    next.isIn other state = coverage.isIn other state := by
  rw [isIn, getElem?_move moved, if_neg different, isIn]

/-- Chunks that have arrived stay, and no chunk arrives unless it is moved to. -/
theorem isIn_received_move (moved : coverage.move index target = .ok next)
    (elsewhere : target ≠ .received) :
    next.isIn other .received = coverage.isIn other .received := by
  by_cases same : index = other
  · subst same
    rw [isIn_move_self moved, decide_eq_false elsewhere]
    symm
    rw [Bool.eq_false_iff]
    intro arrived
    rcases move_cases moved with ⟨present, _⟩ | ⟨current, present, legal, _⟩
    · exact elsewhere (eq_of_isIn present arrived)
    · have stuck : current = .received := eq_of_isIn present arrived
      subst stuck
      cases target <;> cases legal
  · exact isIn_move_ne moved same

theorem received_move (moved : coverage.move index target = .ok next)
    (elsewhere : target ≠ .received) : next.received = coverage.received := by
  rcases move_cases moved with ⟨_, same⟩ | ⟨current, _, legal, same⟩
  · rw [same]
  · subst same
    cases current <;> cases target <;> simp [ChunkState.canBecome] at legal elsewhere <;> rfl

/-- The frontier only moves when a chunk arrives, over the chunks that have arrived then. -/
theorem frontier_cases (moved : coverage.move index target = .ok next) :
    next = coverage ∨ (target ≠ .received ∧ next.frontier = coverage.frontier) ∨
      (target = .received ∧ next.frontier =
        arrivedEnd next.states (next.count - coverage.frontier) coverage.frontier) := by
  rcases move_cases moved with ⟨_, same⟩ | ⟨current, _, legal, same⟩
  · exact .inl same
  · subst same
    by_cases arrives : target = .received
    · subst arrives
      cases current with
      | pending => exact .inr (.inr ⟨rfl, rfl⟩)
      | waiting | received => cases legal
    · refine .inr (.inl ⟨arrives, ?_⟩)
      cases current <;> cases target <;> simp [ChunkState.canBecome] at legal arrives <;> rfl

private theorem Counted.frontier_move (counted : coverage.Counted)
    (moved : coverage.move index target = .ok next) :
    ∀ other < next.frontier, next.isIn other .received = true := by
  rcases frontier_cases moved with same | ⟨elsewhere, kept⟩ | ⟨arrives, reached⟩
  · exact same ▸ counted.frontier
  · intro other bound
    rw [isIn_received_move moved elsewhere]
    exact counted.frontier other (kept ▸ bound)
  · subst arrives
    intro other bound
    rw [isIn_iff]
    refine received_of_lt_arrivedEnd ?_ other (reached ▸ bound)
    intro earlier below
    rw [← isIn_iff]
    by_cases own : index = earlier
    · simp [← own, isIn_move_self moved]
    · rw [isIn_move_ne moved own]
      exact counted.frontier earlier below

theorem count_pos_of_isIn (present : coverage.isIn index state = true) :
    0 < coverage.states.count state := by
  obtain ⟨bound, here⟩ := Array.getElem?_eq_some_iff.mp (isIn_iff.mp present)
  exact Array.count_pos_iff.mpr (here ▸ Array.getElem_mem bound)

theorem Counted.move (counted : coverage.Counted)
    (moved : coverage.move index target = .ok next) : next.Counted := by
  have frontier := counted.frontier_move moved
  rcases move_cases moved with ⟨_, same⟩ | ⟨current, present, legal, same⟩
  · exact same ▸ counted
  · obtain ⟨bound, here⟩ := Array.getElem?_eq_some_iff.mp (isIn_iff.mp present)
    have states : (coverage.record index current target).states =
        coverage.states.set index target bound := by
      rw [states_record legal, Array.setIfInBounds_def, dif_pos bound]
    have counts (state : ChunkState) := Array.count_set bound (a := target) (b := state)
    have occupied := count_pos_of_isIn present
    subst same
    constructor
    · rw [states, counts, here]
      have pending := counted.pending
      cases current <;> cases target <;> simp [ChunkState.canBecome] at legal <;>
        simp [record, pending]
    · rw [states, counts, here]
      have received := counted.received
      cases current <;> cases target <;> simp [ChunkState.canBecome] at legal <;>
        simp [record, received]
    · exact frontier

theorem received_record (coverage : Coverage) (index : Nat) :
    (coverage.record index .pending .received).received = coverage.received + 1 := rfl

theorem isIn_received_of_complete (counted : coverage.Counted)
    (complete : coverage.isComplete = true) (bound : index < coverage.count) :
    coverage.isIn index .received = true := by
  have full : coverage.states.count .received = coverage.states.size := by
    rw [← counted.received]
    simpa [isComplete, count] using complete
  have arrived := Array.count_eq_size.mp full _ (Array.getElem_mem bound)
  rw [isIn_iff, Array.getElem?_eq_getElem bound, ← arrived]

end ChunkExchange.Coverage
