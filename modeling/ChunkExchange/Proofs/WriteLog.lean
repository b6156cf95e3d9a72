import ChunkExchange.Proofs.History
import ChunkExchange.Proofs.Tiling
import Mathlib.Data.List.DropRight

namespace ChunkExchange

namespace Fetch

/-- Bytes that were written for one chunk of a file. -/
structure Write where
  index : Nat
  path : String
  offset : Nat
  data : Bytes

/-- The write of a delivered chunk of a download, cut to its announced size. -/
def Write.ofChunk (download : Download) (extent : Extent) (data : Bytes) : Write where
  index := extent.index
  path := download.path
  offset := extent.offset
  data := data.take extent.size

/-- The write that an effect is, when chunk `index` was delivered. -/
def Effect.write? (index : Nat) : Effect → Option Write
  | .write path offset data => some { index, path, offset, data }
  | _ => none

theorem filterMap_write?_get (index : Nat) (picks : List Pick) :
    (picks.map Effect.get).filterMap (Effect.write? index) = [] := by
  induction picks with
  | nil => rfl
  | cons pick rest ih => exact ih

namespace Event

/-- What an event writes for a file. -/
def writes (event : Event) (file : File) : List Write :=
  match event.operation with
  | .deliver delivered extent _ _ =>
    if delivered = file then event.effects.filterMap (Effect.write? extent.index) else []
  | _ => []

/-- Whether an event asks for a file that is not active. -/
def opens (event : Event) (file : File) : Bool :=
  match event.operation with
  | .request requested _ => decide (requested = file) && !event.before.isActive file
  | _ => false

/-- What one event means for the download of one file. -/
inductive Touches (event : Event) (file : File) : Prop where
  | kept (silent : event.writes file = [])
      (continues : ∀ next ∈ event.after.downloads, next.file = file →
        ∃ download ∈ event.before.downloads, Download.Kin download next)
  | opened (silent : event.writes file = []) (opens : event.opens file = true)
      (fresh : ∀ next ∈ event.after.downloads, next.file = file →
        event.operation = .request file next.path ∧
        ∀ index, next.coverage.isIn index .received = false)
  | written {download : Download} {coverage : Coverage} {extent : Extent} {data : Bytes}
      {peer : Peer} (member : download ∈ event.before.downloads) (named : download.file = file)
      (operation : event.operation = .deliver file extent data peer)
      (pending : download.coverage.isIn extent.index .pending = true)
      (placed : extent.offset = (download.extent extent.index).offset)
      (fitting : extent.size ≤ (download.extent extent.index).size)
      (writes : event.writes file = [.ofChunk download extent data])
      (moved : download.coverage.move extent.index .received = .ok coverage)
      (continues : ∀ next ∈ event.after.downloads, next.file = file →
        next.path = download.path ∧
        ∀ index, next.coverage.isIn index .received = coverage.isIn index .received)

variable {Memory : Type} {scheduler : Scheduler Memory} {options : Options} {event : Event}

theorem writes_eq_nil_of_silent (file : File)
    (silent : ∀ index, event.effects.filterMap (Effect.write? index) = []) :
    event.writes file = [] := by
  unfold writes
  split
  · split
    · exact silent _
    · rfl
  · rfl

theorem writes_deliver {file delivered : File} {extent : Extent} {data : Bytes} {peer : Peer}
    (operation : event.operation = .deliver delivered extent data peer) :
    event.writes file =
      if delivered = file then event.effects.filterMap (Effect.write? extent.index) else [] := by
  simp [writes, operation]

theorem writes_request {file requested : File} {path : String}
    (operation : event.operation = .request requested path) : event.writes file = [] := by
  simp [writes, operation]

theorem writes_of_stored {download : Download} {extent : Extent} {data : Bytes} {peer : Peer}
    {closing : List Effect} {picks : List Pick}
    (operation : event.operation = .deliver download.file extent data peer)
    (effects : event.effects =
      .write download.path extent.offset (data.take extent.size) :: closing ++ picks.map .get)
    (closes : ∀ index, closing.filterMap (Effect.write? index) = []) :
    event.writes download.file = [.ofChunk download extent data] := by
  rw [writes_deliver operation, if_pos rfl, effects, List.filterMap_append, filterMap_write?_get]
  simp [Effect.write?, closes, Write.ofChunk]

/-- A request begins the download of its file and goes on with those that it leaves. -/
private theorem touches_of_request {download : Download}
    (operation : event.operation = .request download.file download.path)
    (inactive : event.before.isActive download.file = false)
    (nothing : ∀ index, download.coverage.isIn index .received = false)
    (continues : ∀ next ∈ event.after.downloads, ∃ first, Download.Kin first next ∧
      (first = download ∨ first ∈ event.before.downloads)) (file : File) :
    event.Touches file := by
  by_cases own : download.file = file
  · subst own
    refine .opened (writes_request operation) (by simp [opens, operation, inactive]) ?_
    intro next member alike
    obtain ⟨first, kin, same | present⟩ := continues next member
    · subst same
      exact ⟨by rw [operation, kin.path], fun index => by rw [kin.arrived, nothing]⟩
    · exact absurd (kin.file.symm.trans alike)
        (Fetcher.isActive_eq_false_iff.mp inactive first present)
  · refine .kept (writes_request operation) ?_
    intro next member alike
    obtain ⟨first, kin, same | present⟩ := continues next member
    · exact absurd (same ▸ kin.file.symm.trans alike) own
    · exact ⟨first, present, kin⟩

theorem touches_of_stored {download : Download} {coverage : Coverage} {extent : Extent}
    {data : Bytes} {peer : Peer} (member : download ∈ event.before.downloads)
    (operation : event.operation = .deliver download.file extent data peer)
    (pending : download.coverage.isIn extent.index .pending = true)
    (placed : extent.offset = (download.extent extent.index).offset)
    (fitting : extent.size ≤ (download.extent extent.index).size)
    (writes : event.writes download.file = [.ofChunk download extent data])
    (moved : download.coverage.move extent.index .received = .ok coverage)
    (advances : ∀ next ∈ event.after.downloads, next.file = download.file →
      next.path = download.path ∧
      ∀ index, next.coverage.isIn index .received = coverage.isIn index .received)
    (continues : ∀ next ∈ event.after.downloads, next.file ≠ download.file →
      ∃ first ∈ event.before.downloads, Download.Kin first next) (file : File) :
    event.Touches file := by
  by_cases own : download.file = file
  · subst own
    exact .written member rfl operation pending placed fitting writes moved advances
  · refine .kept (by rw [writes_deliver operation, if_neg own]) ?_
    intro next present alike
    exact continues next present fun same => own (same.symm.trans alike)

/-- A lawful event keeps, begins or advances the download of each file. -/
theorem Lawful.touches (lawful : event.Lawful scheduler options) (file : File) :
    event.Touches file := by
  obtain ⟨settled, picks, settles, continues, _, effects, _⟩ := lawful.settles
  generalize named : event.operation = operation at settles
  cases settles with
  | quiet _ still earlier =>
    refine .kept ?_ (fun next member _ => (earlier.trans continues).downloads next member)
    apply writes_eq_nil_of_silent
    intro index
    rw [effects, still, List.nil_append, filterMap_write?_get]
  | @begun requested path download inactive same placed _ nothing =>
    subst same placed
    apply touches_of_request named inactive nothing
    intro next member
    obtain ⟨first, present, kin⟩ := continues.downloads next member
    refine ⟨first, kin, (Fetcher.mem_insertInOrder.mp present).imp_right fun kept => ?_⟩
    exact (Fetcher.mem_supersede.mp kept).1
  | @empty requested path _ _ _ =>
    have cleared := Fetcher.continues_supersede event.before requested
    exact .kept (writes_request named)
      (fun next member _ => (cleared.trans continues).downloads next member)
  | @arrived download received extent data peer middle member pending placed fitting same path
      moved _ downloads =>
    have traced (next : Download) (present : next ∈ event.after.downloads) :
        ∃ first, Download.Kin first next ∧
          ((first ∈ event.before.downloads ∧ first.file ≠ download.file) ∨ first = received) := by
      obtain ⟨first, held, kin⟩ := continues.downloads next present
      rw [downloads] at held
      exact ⟨first, kin, (same ▸ Fetcher.mem_replace.mp held).imp_right And.left⟩
    apply touches_of_stored member named pending placed fitting
      (writes_of_stored named effects fun _ => rfl) moved
    · intro next present alike
      obtain ⟨first, kin, ⟨_, different⟩ | last⟩ := traced next present
      · exact absurd (kin.file.symm.trans alike) different
      · subst last
        exact ⟨kin.path.trans path, kin.arrived⟩
    · intro next present different
      obtain ⟨first, kin, ⟨old, _⟩ | last⟩ := traced next present
      · exact ⟨first, old, kin⟩
      · exact absurd (kin.file.trans (last ▸ same)) different
  | @finished download received extent data peer member pending placed fitting moved _ =>
    have dropped := (Fetcher.continues_drop event.before download.file).trans continues
    apply touches_of_stored member named pending placed fitting
      (writes_of_stored named effects fun _ => rfl) moved
    · intro next present alike
      obtain ⟨first, held, kin⟩ := continues.downloads next present
      exact absurd (kin.file.symm.trans alike) (Fetcher.mem_drop.mp held).2
    · intro next present _
      exact dropped.downloads next present

theorem opens_iff {file : File} :
    event.opens file = true ↔
      (∃ path, event.operation = .request file path) ∧ event.before.isActive file = false := by
  unfold opens
  split
  · rename_i requested path operation
    simp [operation]
  · rename_i other
    constructor
    · intro asks
      cases asks
    · rintro ⟨⟨path, operation⟩, _⟩
      exact absurd operation (other file path)

theorem Lawful.isActive_eq_false {file : File} (lawful : event.Lawful scheduler options)
    (inactive : event.before.isActive file = false)
    (unasked : ∀ path, event.operation ≠ .request file path) :
    event.after.isActive file = false := by
  rw [Fetcher.isActive_eq_false_iff] at inactive ⊢
  intro next member same
  cases lawful.touches file with
  | kept _ continues =>
    obtain ⟨download, present, kin⟩ := continues next member same
    exact inactive download present (kin.file.symm.trans same)
  | opened _ asks _ =>
    obtain ⟨path, operation⟩ := (opens_iff.mp asks).1
    exact unasked path operation
  | written present named => exact inactive _ present named

theorem Lawful.begun_of_opens {file : File} (lawful : event.Lawful scheduler options)
    (asks : event.opens file = true) {next : Download} (member : next ∈ event.after.downloads)
    (same : next.file = file) :
    event.operation = .request file next.path ∧
      ∀ index, next.coverage.isIn index .received = false := by
  have inactive := Fetcher.isActive_eq_false_iff.mp (opens_iff.mp asks).2
  cases lawful.touches file with
  | kept _ continues =>
    obtain ⟨download, present, kin⟩ := continues next member same
    exact absurd (kin.file.symm.trans same) (inactive download present)
  | opened _ _ fresh => exact fresh next member same
  | written present named => exact absurd named (inactive _ present)

/-- What one event means for a download that is active after it. -/
inductive Advances (event : Event) (next : Download) : Prop where
  | begun (asks : event.opens next.file = true)
      (operation : event.operation = .request next.file next.path)
      (nothing : ∀ index, next.coverage.isIn index .received = false)
  | kept {download : Download} (asksNot : event.opens next.file = false)
      (member : download ∈ event.before.downloads) (kin : Download.Kin download next)
      (silent : event.writes download.file = [])
  | written {download : Download} {coverage : Coverage} {extent : Extent} {data : Bytes}
      (asksNot : event.opens next.file = false) (member : download ∈ event.before.downloads)
      (file : next.file = download.file) (path : next.path = download.path)
      (writes : event.writes download.file = [.ofChunk download extent data])
      (moved : download.coverage.move extent.index .received = .ok coverage)
      (arrived : ∀ index, next.coverage.isIn index .received = coverage.isIn index .received)

theorem Lawful.advances (lawful : event.Lawful scheduler options) {next : Download}
    (member : next ∈ event.after.downloads) : event.Advances next := by
  cases asks : event.opens next.file with
  | true =>
    obtain ⟨operation, nothing⟩ := lawful.begun_of_opens asks member rfl
    exact .begun asks operation nothing
  | false =>
    cases lawful.touches next.file with
    | kept silent continues =>
      obtain ⟨download, present, kin⟩ := continues next member rfl
      exact .kept asks present kin (kin.file ▸ silent)
    | opened _ opens => exact absurd opens (by simp [asks])
    | written present named _ _ _ _ writes moved continues =>
      obtain ⟨path, arrived⟩ := continues next member rfl
      exact .written asks present named.symm path (named ▸ writes) moved arrived

end Event

/-- The events after the last one that asked for a file while it was not active. -/
def since (file : File) (events : List Event) : List Event :=
  events.rtakeWhile (fun event => !event.opens file)

theorem since_of_opens {file : File} {event : Event} (opens : event.opens file = true)
    (events : List Event) : since file (events ++ [event]) = [] := by
  rw [since, List.rtakeWhile_concat_neg (h := by simp [opens])]

theorem since_of_not_opens {file : File} {event : Event} (goes : event.opens file = false)
    (events : List Event) :
    since file (events ++ [event]) = since file events ++ [event] := by
  rw [since, List.rtakeWhile_concat_pos (h := by simp [goes])]
  rfl

/-- Where the request that began a download stands among events. -/
structure Activation (events : List Event) (file : File) (path : String) (past : List Event)
    (opening : Event) (recent : List Event) : Prop where
  events : events = past ++ opening :: recent
  operation : opening.operation = .request file path
  asks : opening.opens file = true
  latest : ∀ event ∈ recent, event.opens file = false

theorem Activation.append_singleton {events past recent : List Event} {opening event : Event}
    {file : File} {path : String} (activation : Activation events file path past opening recent)
    (asksNot : event.opens file = false) :
    Activation (events ++ [event]) file path past opening (recent ++ [event]) where
  events := by rw [activation.events, List.append_assoc, List.cons_append]
  operation := activation.operation
  asks := activation.asks
  latest := by
    intro other member
    rcases List.mem_append.mp member with old | last
    · exact activation.latest other old
    · exact List.mem_singleton.mp last ▸ asksNot

section Activation

variable {file : File} {path pathAlso : String} {opening openingAlso : Event}
variable {events past pastAlso recent recentAlso : List Event}

theorem Activation.since_eq (activation : Activation events file path past opening recent) :
    since file events = recent := by
  have goes (event : Event) (listed : event ∈ recent.reverse) :
      (!event.opens file) = true := by
    simp [activation.latest event (List.mem_reverse.mp listed)]
  rw [activation.events, since, List.rtakeWhile, List.reverse_append, List.reverse_cons,
    List.append_assoc, List.takeWhile_append_of_pos goes, List.singleton_append,
    List.takeWhile_cons_of_neg (by simp [activation.asks]), List.append_nil, List.reverse_reverse]

theorem Activation.before {rest : List Event}
    (activation : Activation events file path past opening recentAlso)
    (whole : recentAlso = recent ++ rest) :
    Activation (past ++ opening :: recent) file path past opening recent where
  events := rfl
  operation := activation.operation
  asks := activation.asks
  latest event listed := activation.latest event (whole ▸ List.mem_append_left rest listed)

/-- One request is the last that began a download of a file, so that it tells the path. -/
theorem Activation.path_eq (activation : Activation events file path past opening recent)
    (other : Activation events file pathAlso pastAlso openingAlso recentAlso) :
    pathAlso = path := by
  have same : recentAlso = recent := other.since_eq.symm.trans activation.since_eq
  have whole := other.events.symm.trans activation.events
  rw [same, List.append_cons pastAlso, List.append_cons past, List.append_cancel_right_eq] at whole
  have began : openingAlso = opening :=
    List.singleton_inj.mp (List.append_inj_right' whole rfl)
  have asked := other.operation.symm.trans (began ▸ activation.operation)
  cases asked
  rfl

end Activation

/-- What was written for a file since it was last asked for while it was not active. -/
def writesSince (file : File) (events : List Event) : List Write :=
  (since file events).flatMap (Event.writes · file)

theorem mem_writesSince {file : File} {events : List Event} {write : Write}
    (listed : write ∈ writesSince file events) : ∃ event ∈ events, write ∈ event.writes file := by
  obtain ⟨event, recent, written⟩ := List.mem_flatMap.mp listed
  exact ⟨event, (List.rtakeWhile_suffix _ events).subset recent, written⟩

theorem writesSince_of_opens {file : File} {event : Event} (opens : event.opens file = true)
    (events : List Event) : writesSince file (events ++ [event]) = [] := by
  rw [writesSince, since_of_opens opens]
  rfl

theorem writesSince_of_not_opens {file : File} {event : Event} (goes : event.opens file = false)
    (events : List Event) :
    writesSince file (events ++ [event]) = writesSince file events ++ event.writes file := by
  rw [writesSince, since_of_not_opens goes, List.flatMap_append, List.flatMap_singleton]
  rfl

/-- The chunks that were written since a file was asked for are those that have arrived. -/
structure History.Logged {Memory : Type} (history : History Memory) : Prop where
  once : ∀ file, ((writesSince file history.events).map Write.index).Nodup
  arrived : ∀ download ∈ history.fetcher.downloads, ∀ index,
    index ∈ (writesSince download.file history.events).map Write.index ↔
      download.coverage.isIn index .received = true
  path : ∀ download ∈ history.fetcher.downloads,
    ∀ write ∈ writesSince download.file history.events, write.path = download.path

namespace History

variable {Memory : Type} {scheduler : Scheduler Memory} {options : Options}
variable {memory : Memory} {history : History Memory}

theorem logged_start : (start options memory).Logged := by
  constructor
  · intro file
    exact List.nodup_nil
  · intro download member
    cases member
  · intro download member
    cases member

private theorem Logged.writes_new (logged : history.Logged) {download : Download} {write : Write}
    (member : download ∈ history.fetcher.downloads)
    (pending : download.coverage.isIn write.index .pending = true) :
    write.index ∉ (writesSince download.file history.events).map Write.index := by
  intro written
  cases Coverage.eq_of_isIn pending ((logged.arrived download member write.index).mp written)

section Next

variable {operation : Operation} {now : Nat}

private theorem Logged.once_next (logged : history.Logged)
    (lawful : (history.event scheduler operation now).Lawful scheduler options) (file : File) :
    ((writesSince file (history.next scheduler operation now).events).map Write.index).Nodup := by
  change ((writesSince file (history.events ++ [_])).map Write.index).Nodup
  cases asks : (history.event scheduler operation now).opens file with
  | true => simp [writesSince_of_opens asks]
  | false =>
    rw [writesSince_of_not_opens asks]
    cases lawful.touches file with
    | kept silent | opened silent =>
      rw [silent, List.append_nil]
      exact logged.once file
    | written member named _ pending _ _ writes =>
      rw [writes, List.map_append, List.nodup_append]
      refine ⟨logged.once file, by simp, ?_⟩
      intro index old other new same
      cases List.mem_singleton.mp new
      exact logged.writes_new member pending (named ▸ same ▸ old)

private theorem Logged.arrived_next (logged : history.Logged)
    (lawful : (history.event scheduler operation now).Lawful scheduler options) {next : Download}
    (member : next ∈ (history.next scheduler operation now).fetcher.downloads) (index : Nat) :
    index ∈ (writesSince next.file (history.next scheduler operation now).events).map
        Write.index ↔ next.coverage.isIn index .received = true := by
  change index ∈ (writesSince next.file (history.events ++ [_])).map Write.index ↔ _
  cases lawful.advances member with
  | begun asks _ nothing => simp [writesSince_of_opens asks, nothing index]
  | kept asksNot present kin silent =>
    rw [writesSince_of_not_opens asksNot, kin.file, silent, List.append_nil, kin.arrived]
    exact logged.arrived _ present index
  | @written download _ extent _ asksNot present file _ writes moved arrived =>
    rw [writesSince_of_not_opens asksNot, file, writes, List.map_append, List.mem_append,
      logged.arrived download present, arrived]
    by_cases own : extent.index = index
    · subst own
      simp [Coverage.isIn_move_self moved, Write.ofChunk]
    · have other : index ≠ extent.index := fun same => own same.symm
      simp [Coverage.isIn_move_ne moved own, Write.ofChunk, other]

private theorem Logged.path_next (logged : history.Logged)
    (lawful : (history.event scheduler operation now).Lawful scheduler options) {next : Download}
    (member : next ∈ (history.next scheduler operation now).fetcher.downloads) {write : Write}
    (listed : write ∈ writesSince next.file (history.next scheduler operation now).events) :
    write.path = next.path := by
  change write ∈ writesSince next.file (history.events ++ [_]) at listed
  cases lawful.advances member with
  | begun asks => simp [writesSince_of_opens asks] at listed
  | kept asksNot present kin silent =>
    rw [writesSince_of_not_opens asksNot, kin.file, silent, List.append_nil] at listed
    exact (logged.path _ present write listed).trans kin.path.symm
  | written asksNot present file path writes =>
    rw [writesSince_of_not_opens asksNot, file, writes] at listed
    rw [path]
    rcases List.mem_append.mp listed with old | new
    · exact logged.path _ present write old
    · cases List.mem_singleton.mp new
      rfl

end Next

theorem Logged.next (logged : history.Logged) (lawful : history.Lawful scheduler options)
    (operation : Operation) (now : Nat) : (history.next scheduler operation now).Logged where
  once := logged.once_next (lawful.event operation now)
  arrived _ member := logged.arrived_next (lawful.event operation now) member
  path _ member _ listed := logged.path_next (lawful.event operation now) member listed

/-- In every run the writes since a file was asked for tell its chunks. -/
theorem logged_run (scheduler : Scheduler Memory) (options : Options) (memory : Memory)
    (commands : List (Operation × Nat)) : (run scheduler options memory commands).Logged :=
  (run_induction (motive := fun history => history.Lawful scheduler options ∧ history.Logged)
    ⟨lawful_start, logged_start⟩
    (fun _ operation now kept =>
      ⟨kept.1.next operation now, kept.2.next kept.1 operation now⟩) commands).2

end History

end Fetch

end ChunkExchange
