import ChunkExchange.Proofs.WriteLog

namespace ChunkExchange.Fetch

namespace Event

variable {Memory : Type} {scheduler : Scheduler Memory} {options : Options} {event : Event}

/-- What an event amounts to that tells of the completion of a file. -/
inductive Completes (event : Event) (options : Options) (file : File) (path : String) : Prop where
  | empty {picks : List Pick} (positive : 0 < options.chunkSize)
      (none : file.chunkCount options.chunkSize = 0)
      (operation : event.operation = .request file path) (asks : event.opens file = true)
      (effects : event.effects = .close path :: picks.map .get)
  | filled {download : Download} {coverage : Coverage} {extent : Extent} {data : Bytes}
      {picks : List Pick} (member : download ∈ event.before.downloads)
      (named : download.file = file) (placed : download.path = path)
      (writes : event.writes file = [.ofChunk download extent data])
      (moved : download.coverage.move extent.index .received = .ok coverage)
      (complete : coverage.isComplete = true) (quiet : event.opens file = false)
      (effects : event.effects =
        .write path extent.offset (data.take extent.size) :: .close path :: picks.map .get)

/-- A completion is told with the last write or for an empty file, and ends the download. -/
theorem Lawful.completes {file : File} {path : String} (lawful : event.Lawful scheduler options)
    (told : .completed file path ∈ event.notices) :
    event.Completes options file path ∧ event.after.isActive file = false := by
  obtain ⟨settled, picks, settles, continues, reply, effects, _⟩ := lawful.settles
  have configured := lawful.configured
  rw [notices, reply] at told
  generalize named : event.operation = operation at settles
  cases settles with
  | quiet silent => simp [silent] at told
  | begun => simp [Reply.notices] at told
  | empty inactive positive none =>
    simp only [Reply.notices, List.mem_singleton] at told
    cases told
    have cleared := Fetcher.continues_supersede event.before file
    refine ⟨.empty (configured ▸ positive) (configured ▸ none) named ?_ effects, ?_⟩
    · exact opens_iff.mpr ⟨⟨path, named⟩, inactive⟩
    · exact (cleared.trans continues).isActive_eq_false inactive
  | arrived => simp [Reply.notices] at told
  | @finished download received extent data peer member _ _ _ moved complete =>
    simp only [Reply.notices, List.mem_cons, List.not_mem_nil, or_false] at told
    rcases told with progress | told
    · cases progress
    · cases told
      have writes := writes_of_stored named effects fun _ => rfl
      refine ⟨.filled member rfl rfl writes moved complete (by simp [opens, named]) effects, ?_⟩
      apply continues.isActive_eq_false
      rw [Fetcher.isActive_eq_false_iff]
      intro next present
      exact (Fetcher.mem_drop.mp present).2

end Event

inductive Event.Finishes (event : Event) (options : Options) (earlier : List Event) (file : File)
    (path : String) : Prop where
  | empty (picks : List Pick) (positive : 0 < options.chunkSize)
      (none : file.chunkCount options.chunkSize = 0)
      (operation : event.operation = .request file path)
      (effects : event.effects = .close path :: picks.map .get)
      (unwritten : writesSince file (earlier ++ [event]) = [])
  | filled (write : Write) (picks : List Pick)
      (lacking : 0 < file.chunkCount options.chunkSize) (writes : event.writes file = [write])
      (effects : event.effects =
        .write path write.offset write.data :: .close path :: picks.map .get)
      (path : ∀ other ∈ writesSince file (earlier ++ [event]), other.path = path)
      (whole : ((writesSince file (earlier ++ [event])).map Write.index).Perm
        (List.range (file.chunkCount options.chunkSize)))

theorem Event.Finishes.writes_path {event : Event} {options : Options} {earlier : List Event}
    {file : File} {path : String} (finishes : event.Finishes options earlier file path) :
    ∀ write ∈ writesSince file (earlier ++ [event]), write.path = path := by
  cases finishes with
  | empty _ _ _ _ _ unwritten => simp [unwritten]
  | filled _ _ _ _ _ placed => exact placed

namespace History

variable {Memory : Type} {scheduler : Scheduler Memory} {options : Options} {memory : Memory}
variable {commands : List (Operation × Nat)}

private theorem Logged.writes_whole {history : History Memory} (logged : history.Logged)
    (lawful : history.Lawful scheduler options) {download : Download} {coverage : Coverage}
    {write : Write} (member : download ∈ history.fetcher.downloads)
    (moved : download.coverage.move write.index .received = .ok coverage)
    (complete : coverage.isComplete = true)
    (unique : ((writesSince download.file history.events ++ [write]).map Write.index).Nodup) :
    ((writesSince download.file history.events ++ [write]).map Write.index).Perm
      (List.range (download.file.chunkCount options.chunkSize)) := by
  have sound := lawful.consistent.sound download member
  rw [lawful.configured] at sound
  rw [List.perm_ext_iff_of_nodup unique List.nodup_range]
  intro index
  rw [List.map_append, List.mem_append, logged.arrived download member, List.mem_range,
    ← sound.count, ← Coverage.count_move moved]
  constructor
  · rintro (arrived | last)
    · rw [Coverage.count_move moved]
      exact Coverage.lt_count_of_isIn arrived
    · cases List.mem_singleton.mp last
      rw [Coverage.count_move moved]
      exact Coverage.lt_count_of_move moved
  · intro bound
    have arrived := Coverage.isIn_received_of_complete (sound.counted.move moved) complete bound
    by_cases last : write.index = index
    · exact .inr (by simp [last])
    · exact .inl ((Coverage.isIn_move_ne moved last).symm.trans arrived)

theorem Logged.finishes {history : History Memory} (logged : history.Logged)
    (lawful : history.Lawful scheduler options) (operation : Operation) (now : Nat) {file : File}
    {path : String}
    (told : .completed file path ∈ (history.event scheduler operation now).notices) :
    (history.event scheduler operation now).Finishes options history.events file path := by
  have next := logged.next lawful operation now
  have unique : ((writesSince file (history.events ++
      [history.event scheduler operation now])).map Write.index).Nodup := next.once file
  cases ((lawful.event operation now).completes told).1 with
  | empty positive none operation asks effects =>
    exact .empty _ positive none operation effects (writesSince_of_opens asks _)
  | @filled download coverage extent data _ member named placed writes moved complete goes
      effects =>
    subst named
    have since := writesSince_of_not_opens goes history.events
    rw [writes] at since
    rw [since] at unique
    have lacking : 0 < download.file.chunkCount options.chunkSize := by
      have bound := Coverage.lt_count_of_move moved
      rw [(lawful.consistent.sound download member).count, lawful.configured] at bound
      omega
    refine .filled (.ofChunk download extent data) _ lacking writes effects ?_ ?_
    · intro write listed
      rw [since, List.mem_append, List.mem_singleton] at listed
      rcases listed with old | last
      · exact (logged.path download member write old).trans placed
      · exact (congrArg Write.path last).trans placed
    · rw [since]
      exact logged.writes_whole lawful member moved complete unique

/-- In every run a completion follows the last of all writes, unless the file has no chunks. -/
theorem run_finishes {earlier later : List Event} {event : Event} {file : File} {path : String}
    (events : (run scheduler options memory commands).events = earlier ++ event :: later)
    (told : .completed file path ∈ event.notices) : event.Finishes options earlier file path := by
  obtain ⟨front, operation, now, before, current⟩ := run_split events
  subst current
  rw [← before]
  exact (logged_run scheduler options memory front).finishes
    (lawful_run scheduler options memory front) operation now told

end History

end ChunkExchange.Fetch
