import ChunkExchange.Proofs.Completion

namespace ChunkExchange

namespace Fetch

def Effect.closed? : Effect → Option String
  | .close path => some path
  | _ => none

private theorem filterMap_closed?_get (picks : List Pick) :
    (picks.map Effect.get).filterMap Effect.closed? = [] := by
  induction picks with
  | nil => rfl
  | cons pick rest ih => exact ih

structure WriteDiscipline (options : Options) (events : List Event) : Prop where
  placed : ∀ event ∈ events, ∀ path offset data, Effect.write path offset data ∈ event.effects →
    ∃ download ∈ event.before.downloads, ∃ index,
      event.writes download.file = [{ index, path, offset, data }] ∧
      path = download.path ∧ download.coverage.isIn index .pending = true ∧
      offset = (download.file.extent index options.chunkSize).offset ∧
      data.length ≤ (download.file.extent index options.chunkSize).size ∧
      offset + data.length ≤ download.file.size
  once : ∀ earlier later, events = earlier ++ later → ∀ file,
    ((writesSince file earlier).map Write.index).Nodup
  closed : ∀ event ∈ events,
    event.effects.filterMap Effect.closed? =
      (event.notices.filterMap Notice.completion?).map Prod.snd
  finishes : ∀ earlier event later, events = earlier ++ event :: later →
    ∀ file path, .completed file path ∈ event.notices →
      event.Finishes options earlier file path
  /-- A complete file is not active and nothing is asked for it; it is written again only after it
  was asked for again. -/
  ended : ∀ earlier event later, events = earlier ++ event :: later →
    ∀ file path, .completed file path ∈ event.notices →
      event.after.isActive file = false ∧
      (∀ ticket ∈ event.after.tickets, ticket.file ≠ file) ∧
      ∀ middle next rest, later = middle ++ next :: rest → next.writes file ≠ [] →
        ∃ again ∈ middle, ∃ target, again.operation = .request file target

namespace Event

variable {Memory : Type} {scheduler : Scheduler Memory} {options : Options} {event : Event}

theorem Lawful.closed (lawful : event.Lawful scheduler options) :
    event.effects.filterMap Effect.closed? =
      (event.notices.filterMap Notice.completion?).map Prod.snd := by
  obtain ⟨settled, picks, settles, _, reply, effects, _⟩ := lawful.settles
  rw [effects, notices, reply, List.filterMap_append, filterMap_closed?_get, List.append_nil]
  generalize event.operation = operation at settles
  cases settles with
  | quiet silent still => rw [silent, still]; rfl
  | begun | empty | arrived | finished => rfl

theorem Lawful.writes_eq_nil {file : File} (lawful : event.Lawful scheduler options)
    (inactive : event.before.isActive file = false) : event.writes file = [] := by
  cases lawful.touches file with
  | kept silent | opened silent => exact silent
  | written member named =>
    exact absurd named (Fetcher.isActive_eq_false_iff.mp inactive _ member)

theorem Lawful.ticket_ne {file : File} (lawful : event.Lawful scheduler options)
    (inactive : event.after.isActive file = false) :
    ∀ ticket ∈ event.after.tickets, ticket.file ≠ file :=
  lawful.after.ticket_ne inactive

private theorem Lawful.delivers_of_write {path : String} {offset : Nat} {data : Bytes}
    (lawful : event.Lawful scheduler options)
    (written : Effect.write path offset data ∈ event.effects) :
    ∃ file extent received peer, event.operation = .deliver file extent received peer := by
  obtain ⟨settled, picks, settles, _, _, effects, _⟩ := lawful.settles
  rw [effects, List.mem_append] at written
  have settledWrite : Effect.write path offset data ∈ settled.effects := by
    rcases written with own | sent
    · exact own
    · obtain ⟨pick, _, same⟩ := List.mem_map.mp sent
      cases same
  generalize event.operation = operation at settles
  cases settles with
  | quiet _ still => simp [still] at settledWrite
  | begun | empty => simp at settledWrite
  | arrived | finished => exact ⟨_, _, _, _, rfl⟩

private theorem Lawful.write_of_mem {path : String} {offset : Nat} {data : Bytes}
    (lawful : event.Lawful scheduler options)
    (written : Effect.write path offset data ∈ event.effects) :
    ∃ download ∈ event.before.downloads, ∃ index,
      event.writes download.file = [{ index, path, offset, data }] ∧
      path = download.path ∧ download.coverage.isIn index .pending = true ∧
      offset = (download.file.extent index options.chunkSize).offset ∧
      data.length ≤ (download.file.extent index options.chunkSize).size ∧
      offset + data.length ≤ download.file.size := by
  obtain ⟨file, extent, received, peer, operation⟩ := lawful.delivers_of_write written
  have listed : (⟨extent.index, path, offset, data⟩ : Write) ∈ event.writes file := by
    rw [writes_deliver operation, if_pos rfl, List.mem_filterMap]
    exact ⟨_, written, rfl⟩
  cases lawful.touches file with
  | kept silent | opened silent =>
    rw [silent] at listed
    cases listed
  | @written download coverage other data' _ member named _ pending placed fitting writes =>
    rw [writes, List.mem_singleton] at listed
    obtain ⟨_, rfl, rfl, rfl⟩ := Write.mk.inj listed
    have sound := lawful.before.sound download member
    rw [lawful.configured] at sound
    rw [Download.extent, sound.chunkSize] at placed fitting
    have bound := Coverage.lt_count_of_isIn pending
    rw [sound.count] at bound
    have stop := File.stop_le_size bound
    have short := List.length_take_le other.size data'
    subst named
    refine ⟨download, member, other.index, writes, rfl, pending, placed, ?_, ?_⟩
    · exact short.trans fitting
    · rw [placed]
      omega

end Event

namespace History

variable {Memory : Type} {scheduler : Scheduler Memory} {options : Options} {memory : Memory}
variable {commands : List (Operation × Nat)}

private theorem isActive_eq_false_of_completed {earlier middle : List Event} {event : Event}
    {file : File} {path : String}
    (events : (run scheduler options memory commands).events = earlier ++ event :: middle)
    (told : .completed file path ∈ event.notices)
    (unasked : ∀ again ∈ middle, ∀ target, again.operation ≠ .request file target) :
    (run scheduler options memory commands).fetcher.isActive file = false := by
  induction commands using List.reverseRecOn generalizing middle with
  | nil => simp [run, start] at events
  | append_singleton commands command ih =>
    rw [run_append_singleton] at events ⊢
    have lawful := (lawful_run scheduler options memory commands).event command.1 command.2
    rcases eq_or_of_concat_eq events with ⟨_, _, last⟩ | ⟨rest, whole, within⟩
    · exact (lawful.completes (last ▸ told)).2
    · subst whole
      have inactive := ih within (fun again member =>
        unasked again (List.mem_append_left _ member))
      exact lawful.isActive_eq_false inactive (unasked _ (by simp))

end History

/-- Every run, whatever the scheduler picks and whatever is delivered, writes each chunk once and
closes each file once. The fetching side never learns what becomes of a write or a close, so this
holds also where they fail. -/
theorem write_once {Memory : Type} (scheduler : Scheduler Memory) (options : Options)
    (memory : Memory) (commands : List (Operation × Nat)) :
    WriteDiscipline options (History.run scheduler options memory commands).events := by
  have lawful := History.lawful_run scheduler options memory commands
  constructor
  · intro event member path offset data written
    exact (lawful.events event member).write_of_mem written
  · intro earlier later events file
    obtain ⟨front, same⟩ := History.run_prefix events
    exact same ▸ (History.logged_run scheduler options memory front).once file
  · intro event member
    exact (lawful.events event member).closed
  · intro earlier event later events file path told
    exact History.run_finishes events told
  · intro earlier event later events file path told
    have current := lawful.events event (by simp [events])
    have inactive := (current.completes told).2
    refine ⟨inactive, current.ticket_ne inactive, ?_⟩
    rintro middle next rest rfl written
    -- The run up to the later write is a run itself, and its file is inactive at the end.
    by_contra unasked
    rw [← List.cons_append, ← List.append_assoc] at events
    obtain ⟨front, operation, now, before, rfl⟩ := History.run_split events
    have still := History.isActive_eq_false_of_completed before told (by
      intro again member target asked
      exact unasked ⟨again, member, target, asked⟩)
    exact written (((History.lawful_run scheduler options memory front).event operation
      now).writes_eq_nil still)

end Fetch

end ChunkExchange
