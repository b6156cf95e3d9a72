import ChunkExchange.Download
import ChunkExchange.Options
import ChunkExchange.Proofs.CoverageMoves

namespace ChunkExchange.Download

/-- A download that is cut as the options say, counts its chunks rightly and still lacks some. -/
structure Sound (download : Download) (options : Options) : Prop where
  chunkSize : download.chunkSize = options.chunkSize
  count : download.coverage.count = download.file.chunkCount options.chunkSize
  counted : download.coverage.Counted
  incomplete : download.isComplete = false

/-- The same download with the same chunks arrived. -/
structure Kin (download next : Download) : Prop where
  file : next.file = download.file
  path : next.path = download.path
  chunkSize : next.chunkSize = download.chunkSize
  count : next.coverage.count = download.coverage.count
  received : next.coverage.received = download.coverage.received
  arrived : ∀ index, next.coverage.isIn index .received = download.coverage.isIn index .received
  counted : download.coverage.Counted → next.coverage.Counted

variable {download middle next : Download} {options : Options} {index : Nat} {target : ChunkState}

theorem Kin.refl (download : Download) : Kin download download :=
  ⟨rfl, rfl, rfl, rfl, rfl, fun _ => rfl, id⟩

theorem Kin.trans (first : Kin download middle) (second : Kin middle next) :
    Kin download next where
  file := second.file.trans first.file
  path := second.path.trans first.path
  chunkSize := second.chunkSize.trans first.chunkSize
  count := second.count.trans first.count
  received := second.received.trans first.received
  arrived index := (second.arrived index).trans (first.arrived index)
  counted := second.counted ∘ first.counted

theorem Kin.sound (kin : Kin download next) (sound : download.Sound options) :
    next.Sound options where
  chunkSize := kin.chunkSize.trans sound.chunkSize
  count := by rw [kin.count, kin.file, sound.count]
  counted := kin.counted sound.counted
  incomplete := by
    have same : next.isComplete = download.isComplete := by
      simp [isComplete, Coverage.isComplete, kin.received, kin.count]
    exact same.trans sound.incomplete

theorem kin_report (download : Download) (peer : Peer) (delivered : Bool) (now : Nat) :
    Kin download (download.report peer delivered now) :=
  ⟨rfl, rfl, rfl, rfl, rfl, fun _ => rfl, id⟩

theorem kin_forget (download : Download) (peer : Peer) : Kin download (download.forget peer) :=
  ⟨rfl, rfl, rfl, rfl, rfl, fun _ => rfl, id⟩

theorem move_cases (moved : download.move index target = .ok next) :
    ∃ coverage, download.coverage.move index target = .ok coverage ∧
      next = { download with coverage } := by
  cases found : download.coverage.move index target with
  | error refusal => simp [move, found, bind, Except.bind] at moved
  | ok coverage =>
    simp only [move, found, bind, Except.bind, pure, Except.pure] at moved
    exact ⟨coverage, rfl, (Except.ok.inj moved).symm⟩

theorem move_of_coverage {coverage : Coverage}
    (moved : download.coverage.move index target = .ok coverage) :
    download.move index target = .ok { download with coverage } := by
  simp [move, moved, bind, Except.bind, pure, Except.pure]

theorem kin_move (moved : download.move index target = .ok next)
    (elsewhere : target ≠ .received) : Kin download next := by
  obtain ⟨coverage, changed, same⟩ := move_cases moved
  subst same
  exact {
    file := rfl
    path := rfl
    chunkSize := rfl
    count := Coverage.count_move changed
    received := Coverage.received_move changed elsewhere
    arrived := fun _ => Coverage.isIn_received_move changed elsewhere
    counted := fun counted => counted.move changed }

theorem kin_missing (download : Download) (index : Nat) (peer : Peer) (now : Nat)
    (giveBack : Bool) : Kin download (download.missing index peer now giveBack).download := by
  have blamed := kin_report download peer false now
  unfold missing
  cases giveBack with
  | false => exact blamed
  | true =>
    simp only [↓reduceIte]
    split
    · rename_i released moved
      exact blamed.trans (kin_move moved (by decide))
    · exact blamed

theorem release_of_pending (pending : download.coverage.isIn index .pending = true) :
    ∃ coverage, download.coverage.move index .waiting = .ok coverage ∧
      download.release index = .ok { download with coverage } := by
  have legal : ChunkState.canBecome .pending .waiting = true := rfl
  have moved := Coverage.move_of_canBecome pending legal
  exact ⟨_, moved, move_of_coverage moved⟩

theorem missing_of_pending (pending : download.coverage.isIn index .pending = true)
    (peer : Peer) (now : Nat) :
    ∃ coverage, download.coverage.move index .waiting = .ok coverage ∧
      download.missing index peer now true =
        { download := { download.report peer false now with coverage }, refusal := none } := by
  have stillPending : (download.report peer false now).coverage.isIn index .pending = true :=
    pending
  obtain ⟨coverage, moved, released⟩ := release_of_pending stillPending
  exact ⟨coverage, moved, by simp only [missing, ↓reduceIte, released]⟩

theorem received_of_pending (pending : download.coverage.isIn index .pending = true)
    (peer : Peer) (now : Nat) :
    ∃ coverage, download.coverage.move index .received = .ok coverage ∧
      coverage.received = download.coverage.received + 1 ∧
      download.received index peer now =
        .ok (report { download with coverage } peer true now) := by
  have legal : ChunkState.canBecome .pending .received = true := rfl
  have moved := Coverage.move_of_canBecome pending legal
  refine ⟨_, moved, Coverage.received_record _ _, ?_⟩
  simp [received, move_of_coverage moved, bind, Except.bind, pure, Except.pure]

theorem start_eq_ok {file : File} {path : String}
    (started : start file path options.chunkSize options.downloadRetry = .ok download) :
    0 < options.chunkSize ∧ download.file = file ∧ download.path = path ∧
      download.chunkSize = options.chunkSize ∧
      download.coverage = .fresh (file.chunkCount options.chunkSize) := by
  by_cases zero : options.chunkSize = 0
  · simp [start, File.chunkCount?, zero, bind, Except.bind] at started
  · simp only [start, File.chunkCount?, zero, ↓reduceIte, bind, Except.bind, pure,
      Except.pure] at started
    cases started
    exact ⟨Nat.pos_of_ne_zero zero, rfl, rfl, rfl, rfl⟩

theorem sound_of_fresh (chunkSize : download.chunkSize = options.chunkSize)
    (fresh : download.coverage = .fresh (download.file.chunkCount options.chunkSize))
    (lacking : 0 < download.file.chunkCount options.chunkSize) : download.Sound options where
  chunkSize := chunkSize
  count := by rw [fresh]; simp [Coverage.fresh, Coverage.count]
  counted := by rw [fresh]; exact Coverage.counted_fresh _
  incomplete := by
    rw [isComplete, fresh, Coverage.isComplete_fresh]
    exact decide_eq_false (Nat.ne_of_gt lacking)

end ChunkExchange.Download
