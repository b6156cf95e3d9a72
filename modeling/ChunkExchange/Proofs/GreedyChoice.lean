import ChunkExchange.Fetch.Greedy

namespace ChunkExchange.Fetch.Greedy

variable {Number : Type}

/-- A file and a peer that may take another request. -/
structure Eligible (greedy : Greedy) (view : View Number) (file : File) (peer : Peer) : Prop where
  active : file ∈ view.files
  waits : view.hasWaiting file = true
  fileRoom : view.tickets.countP (fun ticket => ticket.file == file) < greedy.maxParallelPerFile
  known : peer ∈ view.peers
  peerRoom : view.tickets.countP (fun ticket => ticket.peer == peer) < greedy.maxParallelPerPeer
  promising : view.availability file peer ≠ .unavailable

variable [Scoring Number] {greedy : Greedy} {view : View Number} {pick : Pick}
variable {best : Option (Candidate Number)} {leader next : Candidate Number}
variable {candidates : List (Candidate Number)}

theorem mem_candidates_iff {candidate : Candidate Number} :
    candidate ∈ greedy.candidates view ↔
      Eligible greedy view candidate.file candidate.peer ∧
        candidate.score = pairScore (fileScore greedy view candidate.file)
          (view.availability candidate.file candidate.peer) := by
  simp only [Greedy.candidates, List.mem_flatMap, List.mem_map, List.mem_filter, admitsFile,
    admitsPeer, Bool.and_eq_true, decide_eq_true_iff, bne_iff_ne]
  constructor
  · rintro ⟨file, ⟨active, fileRoom, waits⟩, peer, ⟨known, peerRoom, promising⟩, same⟩
    subst same
    exact ⟨⟨active, waits, fileRoom, known, peerRoom, promising⟩, rfl⟩
  · rintro ⟨eligible, score⟩
    refine ⟨candidate.file, ⟨eligible.active, eligible.fileRoom, eligible.waits⟩, candidate.peer,
      ⟨eligible.known, eligible.peerRoom, eligible.promising⟩, ?_⟩
    rw [← score]

private theorem eq_or_eq_of_better (kept : better best next = some leader) :
    leader = next ∨ best = some leader := by
  unfold better at kept
  split at kept
  · exact .inl (Option.some.inj kept).symm
  · split at kept
    · exact .inl (Option.some.inj kept).symm
    · exact .inr kept

private theorem better_ne_none (best : Option (Candidate Number)) (next : Candidate Number) :
    better best next ≠ none := by
  unfold better
  split
  · exact Option.some_ne_none _
  · split <;> exact Option.some_ne_none _

private theorem mem_of_foldl_better (found : candidates.foldl better best = some leader) :
    leader ∈ candidates ∨ best = some leader := by
  induction candidates generalizing best with
  | nil => exact .inr found
  | cons next rest ih =>
    rcases ih found with later | kept
    · exact .inl (List.mem_cons_of_mem next later)
    · rcases eq_or_eq_of_better kept with here | before
      · exact .inl (here ▸ List.mem_cons_self)
      · exact .inr before

theorem foldl_better_eq_none_iff :
    candidates.foldl better best = none ↔ best = none ∧ candidates = [] := by
  induction candidates generalizing best with
  | nil => simp
  | cons next rest ih => simp [ih, better_ne_none]

private theorem best_eq_none_iff :
    greedy.best view = none ↔ ∀ file peer, ¬ Eligible greedy view file peer := by
  rw [Greedy.best, foldl_better_eq_none_iff, and_iff_right rfl]
  constructor
  · intro empty file peer eligible
    let candidate : Candidate Number :=
      { score := pairScore (fileScore greedy view file) (view.availability file peer), file, peer }
    have listed : candidate ∈ greedy.candidates view := mem_candidates_iff.mpr ⟨eligible, rfl⟩
    rw [empty] at listed
    cases listed
  · intro none
    apply List.eq_nil_iff_forall_not_mem.mpr
    intro candidate listed
    exact none _ _ (mem_candidates_iff.mp listed).1

theorem eligible_of_best (found : greedy.best view = some leader) :
    Eligible greedy view leader.file leader.peer := by
  rcases mem_of_foldl_better found with listed | nothing
  · exact (mem_candidates_iff.mp listed).1
  · cases nothing

theorem choose_of_full (full : greedy.maxParallelChunks ≤ view.tickets.length) :
    greedy.choose view = none := by
  have room : greedy.hasRoom view = false := decide_eq_false (Nat.not_lt.mpr full)
  unfold choose
  rw [room]
  rfl

theorem choose_of_room (room : view.tickets.length < greedy.maxParallelChunks) :
    greedy.choose view = (greedy.best view).bind fun leader =>
      (view.firstWaiting leader.file 1).head?.map fun index =>
        { file := leader.file, extent := leader.file.extent index greedy.chunkSize,
          peer := leader.peer } := by
  have room : greedy.hasRoom view = true := decide_eq_true room
  unfold choose
  rw [room]
  cases greedy.best view with
  | none => rfl
  | some leader =>
    change (view.firstWaiting leader.file 1).head?.bind _ = _
    exact Option.map_eq_bind.symm

/-- A pick is an eligible pair with the lowest waiting chunk of its file. -/
theorem choose_eq_some (chosen : greedy.choose view = some pick) :
    view.tickets.length < greedy.maxParallelChunks ∧
      Eligible greedy view pick.file pick.peer ∧
      (view.firstWaiting pick.file 1).head? = some pick.extent.index ∧
      pick.extent = pick.file.extent pick.extent.index greedy.chunkSize := by
  rcases Nat.lt_or_ge view.tickets.length greedy.maxParallelChunks with room | full
  · rw [choose_of_room room] at chosen
    obtain ⟨leader, best, picked⟩ := Option.bind_eq_some_iff.mp chosen
    obtain ⟨index, first, same⟩ := Option.map_eq_some_iff.mp picked
    subst same
    exact ⟨room, eligible_of_best best, first, rfl⟩
  · rw [choose_of_full full] at chosen
    cases chosen

/-- The scheduler declines exactly when no further request is allowed at all or for any pair, where
files that have waiting chunks can name one. -/
theorem choose_eq_none_iff
    (named : ∀ file ∈ view.files, view.hasWaiting file = true →
      (view.firstWaiting file 1).head? ≠ none) :
    greedy.choose view = none ↔
      greedy.maxParallelChunks ≤ view.tickets.length ∨
        ∀ file peer, ¬ Eligible greedy view file peer := by
  rcases Nat.lt_or_ge view.tickets.length greedy.maxParallelChunks with room | full
  · rw [choose_of_room room, or_iff_right (Nat.not_le.mpr room), ← best_eq_none_iff]
    cases found : greedy.best view with
    | none => simp
    | some leader =>
      have eligible := eligible_of_best found
      have first := named leader.file eligible.active eligible.waits
      simp [first]
  · simp [choose_of_full full, full]

end ChunkExchange.Fetch.Greedy
