import ChunkExchange.Fetch.Greedy
import ChunkExchange.Proofs.PrivateReputation
import ChunkExchange.Proofs.ReplyOrder
import ChunkExchange.Proofs.Tiling

namespace ChunkExchange

namespace File

variable {file : File} {number chunkSize : Nat}

/-- The bytes that are told after so many chunks: whole chunks, up to the size of the file. -/
def bytesIn (file : File) (number chunkSize : Nat) : Nat :=
  min (number * chunkSize) file.size

def countUp (file : File) (number chunkSize : Nat) : List Nat :=
  (List.range number).map (fun before => file.bytesIn (before + 1) chunkSize)

private theorem countUp_succ (file : File) (number chunkSize : Nat) :
    file.countUp (number + 1) chunkSize =
      file.countUp number chunkSize ++ [file.bytesIn (number + 1) chunkSize] := by
  rw [countUp, List.range_succ, List.map_append]
  rfl

@[simp]
theorem length_countUp : (file.countUp number chunkSize).length = number := by
  rw [countUp, List.length_map, List.length_range]

private theorem le_size_of_mem_countUp {bytes : Nat}
    (told : bytes ∈ file.countUp number chunkSize) : bytes ≤ file.size := by
  obtain ⟨before, _, rfl⟩ := List.mem_map.mp told
  exact Nat.min_le_right _ _

private theorem bytesIn_lt_size (bound : number < file.chunkCount chunkSize) :
    file.bytesIn number chunkSize = number * chunkSize ∧ number * chunkSize < file.size := by
  have inside : number * chunkSize < file.size := offset_lt_size bound
  exact ⟨Nat.min_eq_left (Nat.le_of_lt inside), inside⟩

theorem bytesIn_eq_size_iff (fits : file.Fits chunkSize) (some : 0 < number)
    (bound : number ≤ file.chunkCount chunkSize) :
    file.bytesIn number chunkSize = file.size ↔ number = file.chunkCount chunkSize := by
  rcases Nat.lt_or_eq_of_le bound with earlier | last
  · obtain ⟨whole, inside⟩ := bytesIn_lt_size earlier
    omega
  · have positive : 0 < chunkSize := chunkSize_pos (last ▸ some)
    have filled : file.bytesIn number chunkSize = file.size := by
      rw [bytesIn, last, Nat.min_comm, min_chunkCount_mul positive]
      exact (reach_eq_size_iff positive).mpr fits
    exact ⟨fun _ => last, fun _ => filled⟩

theorem countUp_increasing (bound : number ≤ file.chunkCount chunkSize) :
    (file.countUp number chunkSize).Pairwise (· < ·) := by
  rw [countUp, List.pairwise_map]
  refine List.pairwise_lt_range.imp_of_mem ?_
  intro before later _ listed less
  have counted : later < file.chunkCount chunkSize :=
    Nat.lt_of_lt_of_le (List.mem_range.mp listed) bound
  have positive := chunkSize_pos counted
  have inside : later * chunkSize < file.size := offset_lt_size counted
  have reached : (before + 1) * chunkSize ≤ later * chunkSize := Nat.mul_le_mul_right _ less
  rw [bytesIn, bytesIn, Nat.add_one_mul later]
  omega

end File

def Notice.bytesOf? (file : File) : Notice → Option Nat
  | .progress other bytes => if other = file then some bytes else none
  | .completed _ _ | .failed _ => none

private theorem Notice.bytesOf?_eq_some_iff {file : File} {notice : Notice} {bytes : Nat} :
    notice.bytesOf? file = some bytes ↔ notice = .progress file bytes := by
  cases notice with
  | progress other told => simp [bytesOf?]
  | completed | failed => simp [bytesOf?]

/-- The same download with one chunk more. -/
structure Download.Gains (download next : Download) : Prop where
  file : next.file = download.file
  path : next.path = download.path
  chunkSize : next.chunkSize = download.chunkSize
  count : next.coverage.count = download.coverage.count
  received : next.coverage.received = download.coverage.received + 1

/-- A chunk that is due is accepted, and its download gains a chunk. -/
theorem Fetcher.Due.settle {fetcher : Fetcher} {file : File} {extent : Extent}
    (due : fetcher.Due file extent) (consistent : Consistent [] fetcher) (data : Bytes)
    (peer : Peer) (now : Nat) :
    ∃ download next, fetcher.download? file = some download ∧ download.Gains next ∧
      fetcher.settleDelivery file extent data peer now = fetcher.acceptance next extent data := by
  obtain ⟨download, found⟩ := due.exists_found
  have pending := due.pending found
  obtain ⟨coverage, moved, more, _⟩ := Download.received_of_pending pending peer now
  exact ⟨download, Download.report { download with coverage } peer true now, found,
    ⟨rfl, rfl, rfl, Coverage.count_move moved, more⟩,
    settleDelivery_of_pending found pending (due.fits consistent rfl found) moved data peer now⟩

namespace Fetch

open Fetcher (Consistent)

def Event.progress (event : Event) (file : File) : List Nat :=
  event.notices.filterMap (Notice.bytesOf? file)

theorem Event.mem_progress {event : Event} {file : File} {bytes : Nat} :
    bytes ∈ event.progress file ↔ .progress file bytes ∈ event.notices := by
  simp [progress, Notice.bytesOf?_eq_some_iff]

def progressOf (events : List Event) (file : File) : List Nat :=
  events.flatMap (·.progress file)

private theorem progressOf_append_singleton (events : List Event) (event : Event) (file : File) :
    progressOf (events ++ [event]) file = progressOf events file ++ event.progress file := by
  simp [progressOf]

/-- The notices with which the arrival of a chunk is told, the last one with the completion. -/
def arrivalNotices (file : File) (path : String) (number chunkSize : Nat) : List Notice :=
  .progress file (file.bytesIn number chunkSize) ::
    if number = file.chunkCount chunkSize then [.completed file path] else []

private theorem filterMap_arrivalNotices (file : File) (path : String) (number chunkSize : Nat) :
    (arrivalNotices file path number chunkSize).filterMap (Notice.bytesOf? file) =
      [file.bytesIn number chunkSize] := by
  unfold arrivalNotices
  split <;> simp [Notice.bytesOf?]

private theorem notices_acceptance {fetcher : Fetcher} {next : Download} {extent : Extent}
    {data : Bytes} (counted : next.coverage.count = next.file.chunkCount next.chunkSize) :
    (fetcher.acceptance next extent data).reply.notices =
      arrivalNotices next.file next.path next.coverage.received next.chunkSize := by
  rw [arrivalNotices, ← counted]
  simp only [Fetcher.acceptance, Reply.notices, Download.isComplete, Coverage.isComplete,
    beq_iff_eq]
  rfl

private theorem length_writes_acceptance (fetcher : Fetcher) (next : Download) (extent : Extent)
    (data : Bytes) (index : Nat) :
    ((fetcher.acceptance next extent data).effects.filterMap (Effect.write? index)).length = 1 := by
  unfold Fetcher.acceptance
  split <;> rfl

/-- Progress of a file is told of a chunk of it that is due, and of nothing else. -/
theorem Settles.silent {fetcher : Fetcher} {operation : Operation} {settled : Settled} {file : File}
    (settles : Settles fetcher operation settled) (consistent : Consistent [] fetcher)
    (undue : ∀ extent data peer, operation = .deliver file extent data peer →
      ¬ fetcher.Due file extent) :
    settled.reply.notices.filterMap (Notice.bytesOf? file) = [] := by
  cases settles with
  | quiet silent => rw [silent, List.filterMap_nil]
  | begun => rfl
  | empty => rfl
  | @arrived download _ extent data peer _ member pending placed fitting
  | @finished download _ extent data peer member pending placed fitting =>
    have other : download.file ≠ file := by
      rintro rfl
      exact undue extent data peer rfl
        (Fetcher.due_of_pending consistent member pending placed fitting)
    simp [Reply.notices, Notice.bytesOf?, other]

/-- What one event tells of the progress of a file. -/
inductive Event.Counts (event : Event) (options : Options) (file : File) : Prop where
  | silent (silent : event.progress file = []) (unwritten : event.writes file = [])
      (kept : event.opens file = false → ∀ next ∈ event.after.downloads, next.file = file →
        ∃ download ∈ event.before.downloads, Download.Kin download next)
  | told {download : Download} (member : download ∈ event.before.downloads)
      (named : download.file = file) (asksNot : event.opens file = false)
      (lacking : download.coverage.received < file.chunkCount options.chunkSize)
      (written : (event.writes file).length = 1)
      (notices : event.notices =
        arrivalNotices file download.path (download.coverage.received + 1) options.chunkSize)
      (counts : ∀ next ∈ event.after.downloads, next.file = file →
        next.coverage.received = download.coverage.received + 1)

namespace History

variable {Memory : Type} {scheduler : Scheduler Memory} {options : Options}
variable {history : History Memory}

private theorem Lawful.counts_due (lawful : history.Lawful scheduler options) {file : File}
    {extent : Extent} (due : history.fetcher.Due file extent) (data : Bytes) (peer : Peer)
    (now : Nat) :
    (history.event scheduler (.deliver file extent data peer) now).Counts options file := by
  have consistent := lawful.consistent
  have continues := Fetcher.continues_step scheduler history.memory consistent
    (.deliver file extent data peer) now
  have reply := (Fetcher.adds_step scheduler history.memory consistent
    (.deliver file extent data peer) now).2
  obtain ⟨download, next, found, gains, settled⟩ := due.settle consistent data peer now
  obtain ⟨member, named⟩ := Fetcher.mem_of_download? found
  have sound := consistent.sound download member
  rw [lawful.configured] at sound
  change history.fetcher.settle (.deliver file extent data peer) now = _ at settled
  rw [settled] at continues reply
  refine .told member named rfl ?_ ?_ ?_ ?_
  · rw [← named, ← sound.count]
    exact sound.counted.received_lt sound.incomplete
  · obtain ⟨picks, effects⟩ := Fetcher.effects_step scheduler history.memory consistent
      (.deliver file extent data peer) now
    rw [settled] at effects
    have whole : (history.event scheduler (.deliver file extent data peer) now).effects = _ :=
      effects
    rw [Event.writes_deliver rfl, if_pos rfl, whole, List.filterMap_append,
      filterMap_write?_get, List.append_nil, length_writes_acceptance]
  · have counted : next.coverage.count = next.file.chunkCount next.chunkSize := by
      rw [gains.count, sound.count, gains.file, gains.chunkSize, sound.chunkSize]
    have told : (history.event scheduler (.deliver file extent data peer) now).notices =
        arrivalNotices next.file next.path next.coverage.received next.chunkSize :=
      (congrArg Reply.notices reply).trans (notices_acceptance counted)
    rw [told, gains.file, named, gains.path, gains.received, gains.chunkSize,
      sound.chunkSize]
  · intro other present alike
    obtain ⟨first, held, kin⟩ := continues.downloads other present
    rw [kin.received]
    rcases Fetcher.mem_accepted held with ⟨_, different⟩ | last
    · rw [gains.file, named] at different
      exact absurd (kin.file.symm.trans alike) different
    · exact last ▸ gains.received

/-- Progress of a file is told with each chunk of it that arrives, and with nothing else. -/
theorem Lawful.counts (lawful : history.Lawful scheduler options) (operation : Operation)
    (now : Nat) (file : File) :
    (history.event scheduler operation now).Counts options file := by
  by_cases arrives : ∃ extent data peer, operation = .deliver file extent data peer ∧
      history.fetcher.Due file extent
  · obtain ⟨extent, data, peer, rfl, due⟩ := arrives
    exact lawful.counts_due due data peer now
  · have undue (extent : Extent) (data : Bytes) (peer : Peer)
        (same : operation = .deliver file extent data peer) :
        ¬ history.fetcher.Due file extent :=
      fun due => arrives ⟨extent, data, peer, same, due⟩
    have silent : (history.event scheduler operation now).progress file = [] := by
      have settles := (Fetcher.settles_settle lawful.consistent operation now).1
      have reply := (Fetcher.adds_step scheduler history.memory lawful.consistent operation now).2
      rw [← settles.silent lawful.consistent undue, ← reply]
      rfl
    cases (lawful.event operation now).touches file with
    | kept unwritten continues => exact .silent silent unwritten fun _ => continues
    | opened unwritten asks =>
      exact .silent silent unwritten fun goes => absurd (asks.symm.trans goes) (by decide)
    | written member named same pending placed fitting =>
      subst named
      exact absurd (Fetcher.due_of_pending lawful.consistent member pending placed fitting)
        (undue _ _ _ same)

/-- After so many chunks of a file since it was last asked for while it was not active, that many
have been told, and that many have arrived where it is active. -/
structure Tally (options : Options) (history : History Memory) (file : File) (number : Nat) :
    Prop where
  told : progressOf (since file history.events) file = file.countUp number options.chunkSize
  limited : number ≤ file.chunkCount options.chunkSize
  active : ∀ download ∈ history.fetcher.downloads, download.file = file →
    download.coverage.received = number

theorem tally_start (options : Options) (memory : Memory) (file : File) :
    Tally options (start options memory) file 0 where
  told := rfl
  limited := Nat.zero_le _
  active download member := by cases member

private theorem Lawful.tally_of_opens (lawful : history.Lawful scheduler options)
    {operation : Operation} {now : Nat} {file : File}
    (asks : (history.event scheduler operation now).opens file = true) :
    Tally options (history.next scheduler operation now) file 0 where
  told := by
    change progressOf (since file (history.events ++ [_])) file = _
    rw [since_of_opens asks]
    rfl
  limited := Nat.zero_le _
  active next member same := by
    have event := lawful.event operation now
    have counted := (event.after.sound next member).counted
    rw [counted.received, Array.count_eq_zero]
    intro arrived
    obtain ⟨index, here⟩ := Array.mem_iff_getElem?.mp arrived
    rw [← Coverage.isIn_iff, (event.begun_of_opens asks member same).2 index] at here
    cases here

theorem Tally.next {file : File} {number : Nat} (tally : Tally options history file number)
    (lawful : history.Lawful scheduler options) (operation : Operation) (now : Nat) :
    ∃ number, Tally options (history.next scheduler operation now) file number := by
  cases asks : (history.event scheduler operation now).opens file with
  | true => exact ⟨0, lawful.tally_of_opens asks⟩
  | false =>
    have since : progressOf (since file (history.next scheduler operation now).events) file =
        file.countUp number options.chunkSize ++
          (history.event scheduler operation now).progress file := by
      rw [← tally.told, ← progressOf_append_singleton, ← since_of_not_opens asks]
      rfl
    cases lawful.counts operation now file with
    | silent silent _ kept =>
      refine ⟨number, ?_, tally.limited, ?_⟩
      · rw [since, silent, List.append_nil]
      · intro next member same
        obtain ⟨download, present, kin⟩ := kept asks next member same
        rw [kin.received]
        exact tally.active download present (kin.file.symm.trans same)
    | @told download member named _ lacking _ notices counts =>
      rw [tally.active download member named] at lacking notices counts
      refine ⟨number + 1, ?_, lacking, counts⟩
      rw [since, Event.progress, notices, filterMap_arrivalNotices, File.countUp_succ]

theorem tally_run (scheduler : Scheduler Memory) (options : Options) (memory : Memory)
    (commands : List (Operation × Nat)) (file : File) :
    ∃ number, Tally options (run scheduler options memory commands) file number :=
  (run_induction (motive := fun history => history.Lawful scheduler options ∧
      ∃ number, Tally options history file number)
    ⟨lawful_start, 0, tally_start options memory file⟩
    (fun _ operation now ⟨lawful, _, tally⟩ =>
      ⟨lawful.next operation now, tally.next lawful operation now⟩) commands).2

private theorem length_progress {commands : List (Operation × Nat)} {memory : Memory}
    {event : Event}
    (member : event ∈ (run scheduler options memory commands).events) (file : File) :
    (event.progress file).length = (event.writes file).length := by
  obtain ⟨front, operation, now, rfl⟩ := event_of_mem member
  cases (lawful_run scheduler options memory front).counts operation now file with
  | silent silent unwritten =>
    rw [silent, unwritten]
    rfl
  | told _ _ _ _ written notices =>
    rw [written, Event.progress, notices, filterMap_arrivalNotices]
    rfl

/-- Every active download began with the last request for its file that found it inactive. -/
theorem activation_run (scheduler : Scheduler Memory) (options : Options) (memory : Memory)
    (commands : List (Operation × Nat)) :
    ∀ download ∈ (run scheduler options memory commands).fetcher.downloads,
      ∃ past opening recent, Activation (run scheduler options memory commands).events
        download.file download.path past opening recent := by
  induction commands using List.reverseRecOn with
  | nil =>
    intro download member
    cases member
  | append_singleton commands command ih =>
    intro next member
    rw [run_append_singleton] at member ⊢
    have event := (lawful_run scheduler options memory commands).event command.1 command.2
    rcases (event.advances member).begun_or_former with
      ⟨asks, asked⟩ | ⟨asksNot, former, present, same, path⟩
    · exact ⟨_, _, [], rfl, asked, asks, by simp⟩
    · obtain ⟨past, opening, recent, activation⟩ := ih former present
      rw [same, path] at activation
      exact ⟨past, opening, _, activation.append_singleton asksNot⟩

end History

/-- How the progress of a file counts up over the events `recent` since it was asked for. -/
structure CountsUp (file : File) (path : String) (chunkSize : Nat) (recent : List Event) :
    Prop where
  told : progressOf recent file = (List.range (progressOf recent file).length).map
    (fun before => min ((before + 1) * chunkSize) file.size)
  each : ∀ event ∈ recent, (event.progress file).length = (event.writes file).length
  increasing : (progressOf recent file).Pairwise (· < ·)
  within : ∀ bytes ∈ progressOf recent file, bytes ≤ file.size
  whole : ∀ earlier event later, recent = earlier ++ event :: later →
    ∀ bytes, .progress file bytes ∈ event.notices →
      let number := (progressOf earlier file).length + 1
      bytes = min (number * chunkSize) file.size ∧
        (bytes = file.size ↔ number = file.chunkCount chunkSize) ∧
        event.notices = .progress file bytes ::
          if number = file.chunkCount chunkSize then [.completed file path] else []

section Run

variable {Memory : Type} {scheduler : Scheduler Memory} {options : Options} {memory : Memory}
variable {commands : List (Operation × Nat)} {earlier later past recent : List Event}
variable {opening event : Event} {file : File} {path : String}

private theorem Activation.notices_eq
    (activation : Activation earlier file path past opening recent)
    (events : (History.run scheduler options memory commands).events = earlier ++ event :: later)
    {bytes : Nat} (told : .progress file bytes ∈ event.notices) :
    let number := (progressOf recent file).length + 1
    number ≤ file.chunkCount options.chunkSize ∧
      event.notices = arrivalNotices file path number options.chunkSize := by
  obtain ⟨front, operation, now, before, rfl⟩ := History.run_split events
  have lawful := History.lawful_run scheduler options memory front
  obtain ⟨number, tally⟩ := History.tally_run scheduler options memory front file
  have since := tally.told
  rw [before, activation.since_eq] at since
  rw [since, File.length_countUp]
  cases lawful.counts operation now file with
  | silent silent =>
    rw [← Event.mem_progress, silent] at told
    cases told
  | @told download member named _ lacking _ notices =>
    obtain ⟨_, _, _, began⟩ :=
      History.activation_run scheduler options memory front download member
    rw [named, before] at began
    rw [tally.active download member named] at lacking notices
    rw [activation.path_eq began] at notices
    exact ⟨lacking, notices⟩

/-- In every run, whatever the scheduler picks and in whatever order the chunks arrive. -/
theorem progress_counts_up (scheduler : Scheduler Memory) (options : Options) (memory : Memory)
    (commands : List (Operation × Nat))
    (events : (History.run scheduler options memory commands).events = earlier ++ later)
    (activation : Activation earlier file path past opening recent)
    (fits : file.Fits options.chunkSize) : CountsUp file path options.chunkSize recent := by
  obtain ⟨front, before⟩ := History.run_prefix events
  obtain ⟨number, tally⟩ := History.tally_run scheduler options memory front file
  have told := tally.told
  rw [before, activation.since_eq] at told
  refine ⟨?_, ?_, ?_, ?_, ?_⟩
  · rw [told, File.length_countUp]
    rfl
  · intro event listed
    have member : event ∈ (History.run scheduler options memory commands).events := by
      rw [events, activation.events]
      simp [listed]
    exact History.length_progress member file
  · rw [told]
    exact File.countUp_increasing tally.limited
  · intro bytes listed
    rw [told] at listed
    exact File.le_size_of_mem_countUp listed
  · intro front event back whole bytes noted number
    have place : (History.run scheduler options memory commands).events =
        (past ++ opening :: front) ++ event :: (back ++ later) := by
      rw [events, activation.events, whole]
      simp
    obtain ⟨limited, notices⟩ := (activation.before whole).notices_eq place noted
    have bytes_eq : bytes = file.bytesIn number options.chunkSize := by
      rw [← Event.mem_progress, Event.progress, notices, filterMap_arrivalNotices] at noted
      exact List.mem_singleton.mp noted
    refine ⟨bytes_eq, ?_, bytes_eq ▸ notices⟩
    rw [bytes_eq]
    exact File.bytesIn_eq_size_iff fits (Nat.succ_pos _) limited

end Run

/-- The short last chunk comes first. It counts as a whole one, and again after the file was
cancelled and asked for anew; it does not count twice, nor when the peer leaves and comes back. -/
theorem progress_counts_up_last_first :
    let options : Options := { chunkSize := 2 }
    let file : File := { id := 1, hash := "", size := 5 }
    let peer : Peer := .ofNat 1
    let scheduler := (Greedy.ofOptions options).scheduler
    let history := History.run scheduler options ()
      [(.join peer, 0), (.request file "former", 0), (.deliver file ⟨2, 4, 1⟩ [5] peer, 1),
        (.cancel file, 2), (.request file "latter", 3), (.deliver file ⟨2, 4, 1⟩ [5] peer, 4),
        (.deliver file ⟨2, 4, 1⟩ [5] peer, 5), (.leave peer, 6), (.join peer, 7),
        (.deliver file ⟨0, 0, 2⟩ [1, 2] peer, 8), (.deliver file ⟨1, 2, 2⟩ [3, 4] peer, 9)]
    ∃ past opening recent, Activation history.events file "latter" past opening recent ∧
      file.Fits 2 ∧ progressOf recent file = [2, 4, 5] ∧ CountsUp file "latter" 2 recent := by
  intro options file peer scheduler history
  have activation : Activation history.events file "latter" (history.events.take 4) _
      (history.events.drop 5) :=
    ⟨rfl, rfl, by decide +kernel, by decide +kernel⟩
  have fits : file.Fits 2 := by decide
  exact ⟨_, _, _, activation, fits, by decide +kernel,
    progress_counts_up scheduler options () _ (List.append_nil _).symm activation fits⟩

end Fetch

end ChunkExchange
