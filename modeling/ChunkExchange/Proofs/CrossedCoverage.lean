import ChunkExchange.Proofs.PlainStates

/-! Two chunks of one file that arrive in either order. Between the two arrivals the coverages
differ in nothing that shows which chunks wait or how many there are, and after both they are
equal. -/

namespace ChunkExchange.Coverage

variable {coverage first second next : Coverage} {states : List ChunkState}
variable {one other index limit : Nat}

/-- The states and the exact counts are all there is to a coverage. -/
theorem Tracks.unique (tracks : first.Tracks states) (same : second.Tracks states) :
    first = second := by
  have shown := tracks.refines
  have shownAlso := same.refines
  have states : first.states = second.states :=
    Array.toList_inj.mp (tracks.states.trans same.states.symm)
  have pending := shown.pending.trans shownAlso.pending.symm
  have received := shown.received.trans shownAlso.received.symm
  have frontier := shown.frontier.trans shownAlso.frontier.symm
  cases first
  cases second
  simp only at states pending received frontier
  rw [states, pending, received, frontier]

/-- When a chunk arrives the frontier is searched for, whatever it was before. -/
theorem Counted.tracks_arrived (counted : coverage.Counted)
    (asked : coverage.isIn index .pending = true)
    (moved : coverage.move index .received = .ok next) :
    next.Tracks (coverage.states.toList.set index .received) := by
  refine ⟨?_, counted.move moved, ?_⟩
  · rw [states_move moved, Array.toList_setIfInBounds]
  · rcases frontier_cases moved with same | ⟨elsewhere, _⟩ | ⟨_, reached⟩
    · have arrived : next.isIn index .received = true := by simp [isIn_move_self moved]
      rw [same] at arrived
      cases eq_of_isIn asked arrived
    · exact absurd rfl elsewhere
    · have reaches : next.states.size ≤ coverage.frontier + (next.count - coverage.frontier) := by
        rw [count]
        omega
      rw [Bool.eq_false_iff, ne_eq, isIn_iff, reached]
      exact arrivedEnd_stops reaches

/-- Of two chunks that were asked for, each coverage has got another one, and otherwise they have
the same states. -/
def Crossed (one other : Nat) (first second : Coverage) : Prop :=
  ∃ states : List ChunkState, states[one]? = some .pending ∧ states[other]? = some .pending ∧
    first.Tracks (states.set one .received) ∧ second.Tracks (states.set other .received)

theorem crossed_of_moves (counted : coverage.Counted)
    (asked : coverage.isIn one .pending = true) (askedOther : coverage.isIn other .pending = true)
    (moved : coverage.move one .received = .ok first)
    (movedOther : coverage.move other .received = .ok second) : Crossed one other first second :=
  ⟨coverage.states.toList, by simpa [isIn_iff] using asked, by simpa [isIn_iff] using askedOther,
    counted.tracks_arrived asked moved, counted.tracks_arrived askedOther movedOther⟩

theorem Crossed.symm (crossed : Crossed one other first second) :
    Crossed other one second first := by
  obtain ⟨states, asked, askedOther, tracks, tracksOther⟩ := crossed
  exact ⟨states, askedOther, asked, tracksOther, tracks⟩

section Arrived

private theorem count_set_received (asked : states[index]? = some .pending) (state : ChunkState) :
    (states.set index .received).count state =
      states.count state - (if state = .pending then 1 else 0) +
        (if state = .received then 1 else 0) := by
  obtain ⟨bound, here⟩ := List.getElem?_eq_some_iff.mp asked
  rw [List.count_set bound, here]
  cases state <;> rfl

private theorem getElem?_set_received_waiting (asked : states[index]? = some .pending)
    (place : Nat) :
    (states.set index .received)[place]? = some .waiting ↔ states[place]? = some .waiting := by
  by_cases here : index = place
  · subst here
    obtain ⟨bound, asks⟩ := List.getElem?_eq_some_iff.mp asked
    simp [bound, asks]
  · rw [List.getElem?_set_ne here]

end Arrived

section Seen

variable (crossed : Crossed one other first second)

include crossed

theorem Crossed.count : second.count = first.count := by
  obtain ⟨states, _, _, tracks, tracksOther⟩ := crossed
  rw [tracks.count, tracksOther.count, List.length_set, List.length_set]

theorem Crossed.received : second.received = first.received := by
  obtain ⟨states, asked, askedOther, tracks, tracksOther⟩ := crossed
  rw [tracks.refines.received, tracksOther.refines.received, count_set_received asked,
    count_set_received askedOther]

theorem Crossed.waiting : second.waiting = first.waiting := by
  obtain ⟨states, asked, askedOther, tracks, tracksOther⟩ := crossed
  rw [tracks.refines.waiting, tracksOther.refines.waiting, count_set_received asked,
    count_set_received askedOther]

theorem Crossed.progress : second.progress = first.progress := by
  rw [Coverage.progress, Coverage.progress, crossed.count, crossed.received]

theorem Crossed.isIn_waiting (index : Nat) :
    second.isIn index .waiting = first.isIn index .waiting := by
  obtain ⟨states, asked, askedOther, tracks, tracksOther⟩ := crossed
  rw [Bool.eq_iff_iff, tracks.isIn_iff, tracksOther.isIn_iff, getElem?_set_received_waiting asked,
    getElem?_set_received_waiting askedOther]

theorem Crossed.firstWaiting (limit : Nat) :
    second.firstWaiting limit = first.firstWaiting limit := by
  have same (index : Nat) := crossed.isIn_waiting index
  have count := crossed.count
  obtain ⟨states, _, _, tracks, tracksOther⟩ := crossed
  rw [tracks.counted.firstWaiting_eq, tracksOther.counted.firstWaiting_eq, count]
  simp only [same]

theorem Crossed.incomplete (apart : one ≠ other) : first.isComplete = false := by
  obtain ⟨states, _, askedOther, tracks, _⟩ := crossed
  rw [Bool.eq_false_iff]
  intro complete
  have lacking : (states.set one .received)[other]? = some .pending := by
    rw [List.getElem?_set_ne apart, askedOther]
  cases tracks.refines.isComplete.mp complete _ (List.mem_of_getElem? lacking)

theorem Crossed.ne_of_waiting (waits : first.isIn index .waiting = true) :
    index ≠ one ∧ index ≠ other := by
  obtain ⟨states, asked, askedOther, tracks, _⟩ := crossed
  have here := (getElem?_set_received_waiting asked index).mp (tracks.isIn_iff.mp waits)
  constructor
  · rintro rfl
    rw [here] at asked
    cases asked
  · rintro rfl
    rw [here] at askedOther
    cases askedOther

theorem Crossed.requested (waits : first.isIn index .waiting = true) :
    ∃ next after, first.move index .pending = .ok next ∧ second.move index .pending = .ok after ∧
      Crossed one other next after := by
  obtain ⟨apart, apartOther⟩ := crossed.ne_of_waiting waits
  have waitsAlso : second.isIn index .waiting = true := (crossed.isIn_waiting index).trans waits
  obtain ⟨states, asked, askedOther, tracks, tracksOther⟩ := crossed
  have allowed : Move.Allowed .waiting .pending := by decide
  obtain ⟨next, moved, kept⟩ := tracks.move_of_allowed (tracks.isIn_iff.mp waits) allowed
  obtain ⟨after, movedAlso, keptAlso⟩ :=
    tracksOther.move_of_allowed (tracksOther.isIn_iff.mp waitsAlso) allowed
  rw [List.set_comm _ _ apart.symm] at kept
  rw [List.set_comm _ _ apartOther.symm] at keptAlso
  refine ⟨next, after, moved, movedAlso, states.set index .pending, ?_, ?_, kept, keptAlso⟩
  · rw [List.getElem?_set_ne apart, asked]
  · rw [List.getElem?_set_ne apartOther, askedOther]

/-- When the other chunk arrives as well, the coverages are equal. -/
theorem Crossed.arrived (apart : one ≠ other) :
    ∃ final, first.move other .received = .ok final ∧ second.move one .received = .ok final := by
  obtain ⟨states, asked, askedOther, tracks, tracksOther⟩ := crossed
  have allowed : Move.Allowed .pending .received := by decide
  rw [← List.getElem?_set_ne apart] at askedOther
  rw [← List.getElem?_set_ne apart.symm] at asked
  obtain ⟨final, moved, kept⟩ := tracks.move_of_allowed askedOther allowed
  obtain ⟨same, movedOther, keptOther⟩ := tracksOther.move_of_allowed asked allowed
  rw [List.set_comm _ _ apart] at kept
  exact ⟨final, moved, kept.unique keptOther ▸ movedOther⟩

theorem Crossed.isIn_pending (apart : one ≠ other) : first.isIn other .pending = true := by
  obtain ⟨states, _, askedOther, tracks, _⟩ := crossed
  rw [tracks.isIn_iff, List.getElem?_set_ne apart, askedOther]

end Seen

end ChunkExchange.Coverage
