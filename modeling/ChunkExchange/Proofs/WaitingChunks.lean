import ChunkExchange.Proofs.CoverageMoves

namespace ChunkExchange.Coverage

variable {coverage next : Coverage} {index : Nat}

theorem scan_eq (states : Array ChunkState) (span start limit : Nat) :
    scan states span start limit =
      ((List.range' start span).filter (fun index => states[index]? == some .waiting)).take
        limit := by
  induction span generalizing start limit with
  | zero => simp [scan]
  | succ span ih =>
    cases limit with
    | zero => simp [scan]
    | succ limit =>
      rw [List.range'_succ]
      by_cases waits : states[start]? = some .waiting
      · simp [scan, waits, ih]
      · simp [scan, waits, ih]

theorem Counted.frontier_le (counted : coverage.Counted) : coverage.frontier ≤ coverage.count := by
  rcases Nat.lt_or_ge coverage.count coverage.frontier with beyond | bound
  · exact absurd (lt_count_of_isIn (counted.frontier _ beyond)) (Nat.lt_irrefl _)
  · exact bound

/-- The scan from the frontier finds the lowest waiting chunks of all. -/
theorem Counted.firstWaiting_eq (counted : coverage.Counted) (limit : Nat) :
    coverage.firstWaiting limit =
      ((List.range coverage.count).filter (coverage.isIn · .waiting)).take limit := by
  have arrived : (List.range' 0 coverage.frontier).filter (coverage.isIn · .waiting) = [] := by
    rw [List.filter_eq_nil_iff]
    intro index listed waits
    have below : index < coverage.frontier := by simpa using listed
    cases eq_of_isIn waits (counted.frontier index below)
  have split : List.range coverage.count = List.range' 0 coverage.frontier ++
      List.range' coverage.frontier (coverage.count - coverage.frontier) := by
    have whole : coverage.count = coverage.frontier + (coverage.count - coverage.frontier) :=
      (Nat.add_sub_of_le counted.frontier_le).symm
    rw [List.range_eq_range', whole, ← List.range'_append_1, ← whole, Nat.zero_add]
  rw [split, List.filter_append, arrived, List.nil_append]
  exact scan_eq _ _ _ _

theorem Counted.head?_firstWaiting (counted : coverage.Counted) :
    (coverage.firstWaiting 1).head? =
      (List.range coverage.count).find? (coverage.isIn · .waiting) := by
  rw [counted.firstWaiting_eq, List.head?_take, if_neg Nat.one_ne_zero, List.head?_filter]

/-- The first waiting chunk waits, and no chunk below it does. -/
theorem Counted.head?_firstWaiting_eq_some_iff (counted : coverage.Counted) :
    (coverage.firstWaiting 1).head? = some index ↔
      coverage.isIn index .waiting = true ∧
        ∀ other < index, coverage.isIn other .waiting = false := by
  rw [counted.head?_firstWaiting, List.find?_range_eq_some]
  constructor
  · rintro ⟨waits, _, earlier⟩
    exact ⟨waits, fun other below => by simpa using earlier other below⟩
  · rintro ⟨waits, earlier⟩
    refine ⟨waits, List.mem_range.mpr (lt_count_of_isIn waits), ?_⟩
    intro other below
    simp [earlier other below]

private theorem length_eq_count_add_count (states : List ChunkState) :
    states.length = states.count .waiting + states.count .pending + states.count .received := by
  induction states with
  | nil => rfl
  | cons state rest ih =>
    cases state <;> simp [ih] <;> omega

theorem Counted.count_eq (counted : coverage.Counted) : coverage.count =
    coverage.states.count .waiting + coverage.pending + coverage.received := by
  have whole := length_eq_count_add_count coverage.states.toList
  simp only [Array.length_toList, Array.count_toList] at whole
  rw [count, counted.pending, counted.received]
  exact whole

theorem Counted.waiting_eq (counted : coverage.Counted) :
    coverage.waiting = coverage.states.count .waiting := by
  have whole := counted.count_eq
  rw [waiting]
  omega

theorem Counted.total (counted : coverage.Counted) :
    coverage.waiting + coverage.pending + coverage.received = coverage.count := by
  rw [counted.waiting_eq, counted.count_eq]

theorem Counted.waiting_pos_iff (counted : coverage.Counted) :
    0 < coverage.waiting ↔ ∃ index, coverage.isIn index .waiting = true := by
  rw [counted.waiting_eq, Array.count_pos_iff, Array.mem_iff_getElem?]
  simp only [isIn_iff]

theorem Counted.waiting_of_requested (counted : coverage.Counted)
    (waits : coverage.isIn index .waiting = true)
    (moved : coverage.move index .pending = .ok next) :
    next.waiting + 1 = coverage.waiting := by
  have positive := counted.waiting_pos_iff.mpr ⟨index, waits⟩
  have legal : ChunkState.canBecome .waiting .pending = true := rfl
  rw [move_of_canBecome waits legal] at moved
  cases moved
  have count : (coverage.record index .waiting .pending).count = coverage.count := by
    simp [Coverage.count, states_record legal]
  have pending : (coverage.record index .waiting .pending).pending = coverage.pending + 1 := rfl
  have received : (coverage.record index .waiting .pending).received = coverage.received := rfl
  unfold waiting at positive ⊢
  rw [count, pending, received]
  omega

theorem Counted.received_lt (counted : coverage.Counted)
    (incomplete : coverage.isComplete = false) : coverage.received < coverage.count := by
  have lacking : coverage.received ≠ coverage.count := by simpa [isComplete] using incomplete
  have bound : coverage.received ≤ coverage.count := by
    rw [counted.received]
    exact Array.count_le_size
  exact Nat.lt_of_le_of_ne bound lacking

/-- While no chunk is asked for and some have not arrived, a chunk waits. -/
theorem Counted.exists_waiting (counted : coverage.Counted)
    (incomplete : coverage.isComplete = false)
    (idle : ∀ index, coverage.isIn index .pending = false) :
    ∃ index, coverage.isIn index .waiting = true := by
  have none : coverage.pending = 0 := by
    rw [counted.pending, Array.count_eq_zero, Array.mem_iff_getElem?]
    rintro ⟨index, asked⟩
    rw [← isIn_iff, idle index] at asked
    cases asked
  have lacking := counted.received_lt incomplete
  apply counted.waiting_pos_iff.mp
  rw [waiting, none]
  omega

/-- The waiting chunks are those from `start` on. -/
structure WaitsFrom (coverage : Coverage) (start : Nat) : Prop where
  bound : start ≤ coverage.count
  waits : ∀ index, coverage.isIn index .waiting = true ↔ start ≤ index ∧ index < coverage.count

section Order

variable {start : Nat}

theorem waitsFrom_fresh (count : Nat) : (fresh count).WaitsFrom 0 where
  bound := Nat.zero_le _
  waits index := by
    have size : (fresh count).count = count := by simp [Coverage.count, fresh]
    rw [size, isIn_fresh]
    simp

theorem WaitsFrom.lowest (order : coverage.WaitsFrom start) (counted : coverage.Counted)
    (first : (coverage.firstWaiting 1).head? = some index) : index = start := by
  obtain ⟨waits, below⟩ := counted.head?_firstWaiting_eq_some_iff.mp first
  obtain ⟨reached, inside⟩ := (order.waits index).mp waits
  rcases Nat.lt_or_ge start index with earlier | last
  · have waiting := (order.waits start).mpr ⟨Nat.le_refl _, Nat.lt_trans earlier inside⟩
    rw [below start earlier] at waiting
    cases waiting
  · exact Nat.le_antisymm last reached

theorem WaitsFrom.requested (order : coverage.WaitsFrom start)
    (moved : coverage.move start .pending = .ok next) : next.WaitsFrom (start + 1) where
  bound := by
    rw [count_move moved]
    exact lt_count_of_move moved
  waits index := by
    rw [count_move moved]
    by_cases here : start = index
    · subst here
      simp only [isIn_move_self moved, reduceCtorEq, decide_false, Bool.false_eq_true, false_iff]
      omega
    · rw [isIn_move_ne moved here, order.waits index]
      omega

theorem WaitsFrom.arrived (order : coverage.WaitsFrom start)
    (pending : coverage.isIn index .pending = true)
    (moved : coverage.move index .received = .ok next) : next.WaitsFrom start where
  bound := by
    rw [count_move moved]
    exact order.bound
  waits other := by
    rw [count_move moved, ← order.waits other]
    by_cases here : index = other
    · subst here
      have asked : ¬ coverage.isIn index .waiting = true := by
        intro waits
        cases eq_of_isIn waits pending
      simp [isIn_move_self moved, asked]
    · rw [isIn_move_ne moved here]

theorem WaitsFrom.complete (order : coverage.WaitsFrom start) (counted : coverage.Counted)
    (complete : coverage.isComplete = true) : start = coverage.count := by
  apply Nat.le_antisymm order.bound
  rcases Nat.lt_or_ge start coverage.count with lacking | whole
  · have waits := (order.waits start).mpr ⟨Nat.le_refl _, lacking⟩
    cases eq_of_isIn waits (isIn_received_of_complete counted complete lacking)
  · exact whole

end Order

end ChunkExchange.Coverage
