import ChunkExchange.Proofs.Saturation
import ChunkExchange.Proofs.Tiling

/-! How the active downloads fit to what was requested, answered and completed while no answer gets
lost: the chunks of each file are asked for in order, and each one once. -/

namespace ChunkExchange

namespace Reputation

variable {reputation : Reputation}

/-- Every peer that was reported on delivered last. -/
def Spotless (reputation : Reputation) : Prop :=
  ∀ entry ∈ reputation.standings, entry.2.delivered = true

theorem spotless_fresh (backoff : Backoff) : (fresh backoff).Spotless := by
  intro entry listed
  cases listed

theorem Spotless.report (spotless : reputation.Spotless) (peer : Peer) (now : Nat) :
    (reputation.report peer true now).Spotless := by
  intro entry listed
  rcases List.mem_cons.mp listed with new | old
  · subst new
    rfl
  · exact spotless entry (List.mem_filter.mp old).1

theorem Spotless.availability_ne (spotless : reputation.Spotless) (peer : Peer) (now : Nat) :
    reputation.availability peer now ≠ .unavailable := by
  unfold availability
  split
  · rename_i standing found
    obtain ⟨front, back, whole, _⟩ := List.lookup_eq_some_iff.mp found
    have listed : (peer, standing) ∈ reputation.standings := by
      rw [whole]
      exact List.mem_append_right front List.mem_cons_self
    have delivered : standing.delivered = true := spotless _ listed
    simp [Standing.availability, delivered]
  · exact Availability.noConfusion

end Reputation

/-- What was asked for by a download: its file, and where it goes. -/
def Download.target (download : Download) : File × String :=
  (download.file, download.path)

namespace Fetch

def Operation.request? : Operation → Option (File × String)
  | .request file path => some (file, path)
  | _ => none

def Operation.isDelivery : Operation → Bool
  | .deliver _ _ _ _ => true
  | _ => false

/-- The chunks of one file that are asked for, in the order of the requests. -/
def indicesOf (file : File) (picks : List Pick) : List Nat :=
  (picks.filter (fun pick => pick.file == file)).map (fun pick => pick.extent.index)

/-- What was asked of a fetcher, and what came of it. -/
structure Tally where
  requested : List (File × String)
  completed : List (File × String)
  answers : Nat
  sent : List Pick

namespace Tally

def empty : Tally :=
  { requested := [], completed := [], answers := 0, sent := [] }

def note (tally : Tally) (operation : Operation) (notices : List Notice) : Tally :=
  { tally with
    requested := tally.requested ++ operation.request?.toList
    completed := tally.completed ++ notices.filterMap Notice.completion?
    answers := tally.answers + if operation.isDelivery then 1 else 0 }

def send (tally : Tally) (picks : List Pick) : Tally :=
  { tally with sent := tally.sent ++ picks }

/-- The chunks of a file that were ever asked for, in order. -/
def asked (tally : Tally) (file : File) : List Nat :=
  indicesOf file tally.sent

private theorem note_join (tally : Tally) (peer : Peer) : tally.note (.join peer) [] = tally := by
  simp [note, Operation.request?, Operation.isDelivery]

private theorem note_request (tally : Tally) (file : File) (path : String) :
    tally.note (.request file path) [] =
      { tally with requested := tally.requested ++ [(file, path)] } := by
  simp [note, Operation.request?, Operation.isDelivery]

private theorem note_progress (tally : Tally) (file other : File) (extent : Extent) (data : Bytes)
    (peer : Peer) (bytes : Nat) :
    tally.note (.deliver file extent data peer) [.progress other bytes] =
      { tally with answers := tally.answers + 1 } := by
  simp [note, Operation.request?, Operation.isDelivery, Notice.completion?]

private theorem note_completed (tally : Tally) (file other : File) (path : String) (extent : Extent)
    (data : Bytes) (peer : Peer) (bytes : Nat) :
    tally.note (.deliver file extent data peer) [.progress other bytes, .completed other path] =
      { tally with
        completed := tally.completed ++ [(other, path)], answers := tally.answers + 1 } := by
  have told : [Notice.progress other bytes, .completed other path].filterMap
      Notice.completion? = [(other, path)] := rfl
  simp [note, Operation.request?, Operation.isDelivery, told]

private theorem asked_send (tally : Tally) (picks : List Pick) (file : File) :
    (tally.send picks).asked file = tally.asked file ++ indicesOf file picks := by
  simp [asked, send, indicesOf]

private theorem send_send (tally : Tally) (first second : List Pick) :
    (tally.send first).send second = tally.send (first ++ second) := by
  simp [send]

end Tally

def History.tally (history : History Unit) : Tally :=
  history.events.foldl (fun tally event =>
    (tally.note event.operation event.notices).send (event.effects.filterMap Effect.pick?)) .empty

/-- How many chunks some requested files have. -/
def chunksOf (options : Options) (requests : List (File × String)) : Nat :=
  (requests.map (fun request => request.1.chunkCount options.chunkSize)).foldr (· + ·) 0

/-- The active downloads of a run without losses account for what is not complete. -/
structure OnCourse (options : Options) (tally : Tally) (downloads : List Download) : Prop where
  ids : (tally.requested.map (fun request => request.1.id)).Nodup
  parted : tally.requested.Perm (tally.completed ++ downloads.map Download.target)
  answers : tally.answers =
    chunksOf options tally.completed + Fetcher.total (·.coverage.received) downloads
  trusting : ∀ download ∈ downloads, download.reputation.Spotless
  ascending : ∀ download ∈ downloads, ∃ start,
    tally.asked download.file = List.range start ∧ download.coverage.WaitsFrom start
  whole : ∀ request ∈ tally.completed,
    tally.asked request.1 = List.range (request.1.chunkCount options.chunkSize)
  wanted : ∀ pick ∈ tally.sent, ∃ path, (pick.file, path) ∈ tally.requested

namespace OnCourse

variable {options : Options} {tally : Tally} {downloads : List Download} {fetcher next : Fetcher}
variable {download : Download} {file : File} {path : String} {pick : Pick} {ticket : Ticket}
variable {now : Nat}

private theorem requested_of_mem (course : OnCourse options tally downloads)
    (member : download ∈ downloads) : download.target ∈ tally.requested :=
  course.parted.mem_iff.mpr
    (List.mem_append_right _ (List.mem_map.mpr ⟨download, member, rfl⟩))

/-- The chunks of a file that were asked for are a beginning of it. -/
theorem asked_eq_range (course : OnCourse options tally downloads) (file : File) :
    ∃ bound, tally.asked file = List.range bound := by
  by_cases unasked : tally.asked file = []
  · exact ⟨0, unasked⟩
  · obtain ⟨index, listed⟩ := List.exists_mem_of_ne_nil _ unasked
    obtain ⟨pick, sent, _⟩ := List.mem_map.mp listed
    obtain ⟨sent, same⟩ := List.mem_filter.mp sent
    obtain ⟨path, wanted⟩ := course.wanted pick sent
    rw [← beq_iff_eq.mp same]
    rcases List.mem_append.mp (course.parted.mem_iff.mp wanted) with complete | active
    · exact ⟨_, course.whole _ complete⟩
    · obtain ⟨download, member, target⟩ := List.mem_map.mp active
      obtain ⟨start, asked, _⟩ := course.ascending download member
      have named : download.file = pick.file := congrArg Prod.fst target
      exact ⟨start, named ▸ asked⟩

theorem apart (course : OnCourse options tally downloads) {request : File × String}
    (complete : request ∈ tally.completed) (member : download ∈ downloads) :
    download.file ≠ request.1 := by
  intro same
  have ids := (course.parted.map (fun request => request.1.id)).nodup_iff.mp course.ids
  rw [List.map_append] at ids
  obtain ⟨_, _, disjoint⟩ := List.nodup_append.mp ids
  refine disjoint _ (List.mem_map.mpr ⟨request, complete, rfl⟩) _
    (List.mem_map.mpr ⟨_, List.mem_map.mpr ⟨download, member, rfl⟩, rfl⟩) ?_
  rw [← same]
  rfl

theorem begun (course : OnCourse options tally downloads)
    (new : ∀ request ∈ tally.requested, request.1.id ≠ download.file.id)
    (fresh : download.coverage = .fresh (download.file.chunkCount options.chunkSize))
    (unknown : download.reputation = .fresh options.downloadRetry) :
    OnCourse options { tally with requested := tally.requested ++ [download.target] }
      (Fetcher.insertInOrder download downloads) := by
  have perm := Fetcher.insertInOrder_perm download downloads
  -- A request for the file would have come with its identifier, which is new.
  have unasked : tally.asked download.file = [] := by
    rw [Tally.asked, indicesOf, List.map_eq_nil_iff, List.filter_eq_nil_iff]
    intro pick sent same
    obtain ⟨path, wanted⟩ := course.wanted pick sent
    exact new _ wanted (by rw [beq_iff_eq.mp same])
  constructor
  · rw [List.map_append, List.nodup_append]
    refine ⟨course.ids, by simp, ?_⟩
    intro id listed other single same
    obtain ⟨request, earlier, own⟩ := List.mem_map.mp listed
    rw [List.map_singleton, List.mem_singleton] at single
    exact new request earlier (own.trans (same.trans single))
  · have inserted := (perm.map Download.target).append_left tally.completed
    refine (List.perm_append_singleton _ _).trans ?_
    exact (course.parted.cons _).trans (List.perm_middle.symm.trans inserted.symm)
  · have none : download.coverage.received = 0 := by rw [fresh]; rfl
    have total : Fetcher.total (·.coverage.received) (Fetcher.insertInOrder download downloads) =
        Fetcher.total (·.coverage.received) (download :: downloads) :=
      foldr_add_perm (perm.map _)
    rw [total, Fetcher.total, List.map_cons, List.foldr_cons, none, Nat.zero_add]
    exact course.answers
  · intro other listed
    rcases Fetcher.mem_insertInOrder.mp listed with own | old
    · rw [own, unknown]
      exact Reputation.spotless_fresh _
    · exact course.trusting other old
  · intro other listed
    rcases Fetcher.mem_insertInOrder.mp listed with own | old
    · subst own
      exact ⟨0, unasked, fresh ▸ Coverage.waitsFrom_fresh _⟩
    · exact course.ascending other old
  · exact course.whole
  · intro pick sent
    obtain ⟨path, wanted⟩ := course.wanted pick sent
    exact ⟨path, List.mem_append_left _ wanted⟩

section Place

variable {front back : List Download} {later : Tally} {replaced : Download}

theorem goesOn (course : OnCourse options tally (front ++ download :: back))
    (distinct : Fetcher.Distinct (front ++ download :: back))
    (target : replaced.target = download.target) (trusting : replaced.reputation.Spotless)
    (requested : later.requested = tally.requested)
    (completed : later.completed = tally.completed)
    (answers : later.answers + download.coverage.received =
      tally.answers + replaced.coverage.received)
    (elsewhere : ∀ file, file ≠ download.file → later.asked file = tally.asked file)
    (ascending : ∃ start, later.asked download.file = List.range start ∧
      replaced.coverage.WaitsFrom start)
    (wanted : ∀ pick ∈ later.sent, pick ∈ tally.sent ∨ pick.file = download.file) :
    OnCourse options later (front ++ replaced :: back) := by
  have file : replaced.file = download.file := congrArg Prod.fst target
  have member : download ∈ front ++ download :: back := by simp
  have cases (other : Download) (listed : other ∈ front ++ replaced :: back) :
      other = replaced ∨ other ∈ front ++ back :=
    List.mem_cons.mp (List.perm_middle.mem_iff.mp listed)
  have old (other : Download) (listed : other ∈ front ++ back) :
      other ∈ front ++ download :: back :=
    List.perm_middle.mem_iff.mpr (List.mem_cons_of_mem download listed)
  constructor
  · rw [requested]
    exact course.ids
  · rw [requested, completed, List.map_append, List.map_cons, target, ← List.map_cons,
      ← List.map_append]
    exact course.parted
  · have before := course.answers
    rw [Fetcher.total_append_cons] at before
    rw [completed, Fetcher.total_append_cons]
    omega
  · intro other listed
    rcases cases other listed with own | apart
    · exact own ▸ trusting
    · exact course.trusting other (old other apart)
  · intro other listed
    rcases cases other listed with own | apart
    · rw [own, file]
      exact ascending
    · rw [elsewhere _ (Fetcher.ne_of_distinct distinct apart)]
      exact course.ascending other (old other apart)
  · rw [completed]
    intro request complete
    rw [elsewhere _ (course.apart complete member).symm]
    exact course.whole request complete
  · intro pick sent
    rw [requested]
    rcases wanted pick sent with earlier | own
    · exact course.wanted pick earlier
    · rw [own]
      exact ⟨_, course.requested_of_mem member⟩

theorem finished (course : OnCourse options tally (front ++ download :: back))
    (last : download.coverage.received + 1 = download.file.chunkCount options.chunkSize)
    (asked : tally.asked download.file =
      List.range (download.file.chunkCount options.chunkSize)) :
    OnCourse options
      { tally with
        completed := tally.completed ++ [download.target], answers := tally.answers + 1 }
      (front ++ back) := by
  have old (other : Download) (listed : other ∈ front ++ back) :
      other ∈ front ++ download :: back :=
    List.perm_middle.mem_iff.mpr (List.mem_cons_of_mem download listed)
  constructor
  · exact course.ids
  · rw [List.append_assoc]
    have moved : (front ++ download :: back).Perm (download :: (front ++ back)) :=
      List.perm_middle
    exact course.parted.trans ((moved.map Download.target).append_left tally.completed)
  · have before := course.answers
    rw [Fetcher.total_append_cons] at before
    have chunks : chunksOf options (tally.completed ++ [download.target]) =
        chunksOf options tally.completed + download.file.chunkCount options.chunkSize := by
      rw [chunksOf, List.map_append, foldr_add_append]
      rfl
    rw [chunks]
    simp only
    omega
  · exact fun other listed => course.trusting other (old other listed)
  · exact fun other listed => course.ascending other (old other listed)
  · intro request listed
    rcases List.mem_append.mp listed with earlier | own
    · exact course.whole request earlier
    · cases List.mem_singleton.mp own
      exact asked
  · exact course.wanted

end Place

/-- A request that the greedy scheduler picks is for the first chunk of its file that was not asked
for. -/
theorem issue (course : OnCourse options tally fetcher.downloads)
    (consistent : Fetcher.Consistent [] fetcher)
    (chosen : (Greedy.ofOptions options).choose (fetcher.view now) = some pick)
    (issued : fetcher.issue? pick now = some next) :
    OnCourse options (tally.send [pick]) next.downloads := by
  obtain ⟨download, coverage, found, waits, moved, result⟩ := Fetcher.issue?_cases issued
  obtain ⟨member, same⟩ := Fetcher.mem_of_download? found
  obtain ⟨_, _, first, _⟩ := Greedy.choose_eq_some chosen
  obtain ⟨start, asked, order⟩ := course.ascending download member
  have counted := (consistent.sound download member).counted
  -- The lowest waiting chunk is the first one that was not asked for.
  have index : pick.extent.index = start := by
    rw [← same, (Fetcher.view_of_mem consistent.distinct member now).2.1] at first
    exact order.lowest counted first
  obtain ⟨front, back, whole, replaced, _⟩ := Fetcher.split_of_mem consistent.distinct member
  have downloads : next.downloads = front ++ { download with coverage } :: back := by
    rw [result]
    exact replaced { download with coverage } rfl
  have trusting := course.trusting download member
  have distinct := consistent.distinct
  rw [whole] at course distinct
  rw [downloads]
  refine course.goesOn distinct rfl trusting rfl rfl ?_ ?_ ⟨start + 1, ?_, ?_⟩ ?_
  · change tally.answers + _ = tally.answers + coverage.received
    rw [Coverage.received_move moved (by decide)]
  · intro file different
    have apart : pick.file ≠ file := fun equal => different (equal.symm.trans same.symm)
    simp [Tally.asked_send, indicesOf, apart]
  · rw [Tally.asked_send, asked, List.range_succ]
    simp [indicesOf, same, index]
  · rw [index] at moved
    exact order.requested moved
  · intro other sent
    rcases List.mem_append.mp sent with earlier | new
    · exact .inl earlier
    · exact .inr (List.mem_singleton.mp new ▸ same.symm)

theorem sends {memory : Unit} {picks : List Pick} {final : Fetcher} {last : Option Pick}
    (course : OnCourse options tally fetcher.downloads)
    (consistent : Fetcher.Consistent [] fetcher)
    (sends : Fetcher.Sends (Greedy.ofOptions options).scheduler now fetcher memory picks final
      last) : OnCourse options (tally.send picks) final.downloads := by
  induction sends generalizing tally with
  | ended =>
    rw [Tally.send, List.append_nil]
    exact course
  | @sent fetcher next final memory pick picks last chosen issued _ ih =>
    have first := course.issue consistent chosen issued
    have rest := ih first (Fetcher.consistent_issue? consistent issued).1
    rw [Tally.send_send] at rest
    exact rest

theorem join (course : OnCourse options tally fetcher.downloads) (peer : Peer) :
    OnCourse options (tally.note (.join peer) []) (fetcher.join peer).downloads := by
  have same : (fetcher.join peer).downloads = fetcher.downloads := by
    unfold Fetcher.join
    split <;> rfl
  rw [same, Tally.note_join]
  exact course

theorem request (course : OnCourse options tally fetcher.downloads)
    (configured : fetcher.options = options) (positive : 0 < options.chunkSize)
    (nonempty : 0 < file.size) (new : ∀ request ∈ tally.requested, request.1.id ≠ file.id)
    (path : String) (now : Nat) :
    (fetcher.settle (.request file path) now).dispatches = true ∧
      OnCourse options
        (tally.note (.request file path) (fetcher.settle (.request file path) now).reply.notices)
        (fetcher.settle (.request file path) now).fetcher.downloads := by
  have free (other : Download) (listed : other ∈ fetcher.downloads) :
      other.file.id ≠ file.id := new _ (course.requested_of_mem listed)
  have inactive : fetcher.isActive file = false := by
    rw [Fetcher.isActive_eq_false_iff]
    intro other listed same
    exact free other listed (by rw [same])
  have lacking : file.chunkCount options.chunkSize ≠ 0 := by
    rw [ne_eq, File.chunkCount_eq_zero_iff positive]
    exact Nat.ne_of_gt nonempty
  let download : Download :=
    { file, path, chunkSize := options.chunkSize
      coverage := .fresh (file.chunkCount options.chunkSize)
      reputation := .fresh options.downloadRetry }
  have settled : fetcher.settle (.request file path) now =
      { fetcher := { fetcher with
          downloads := Fetcher.insertInOrder download fetcher.downloads }
        reply := .told [], effects := [], dispatches := true } := by
    have sized : options.chunkSize ≠ 0 := Nat.ne_of_gt positive
    have incomplete : download.isComplete = false := by
      rw [Download.isComplete, Coverage.isComplete_fresh]
      exact decide_eq_false lacking
    have started : Download.start file path options.chunkSize options.downloadRetry =
        .ok download := by
      simp only [Download.start, File.chunkCount?, if_neg sized]
      rfl
    simp only [Fetcher.settle, Fetcher.settleRequest, inactive, Bool.false_eq_true, ↓reduceIte,
      Fetcher.activate, Fetcher.supersede_of_free free, configured, started, bind, Except.bind,
      incomplete, pure, Except.pure]
  have begun : OnCourse options { tally with requested := tally.requested ++ [download.target] }
      (Fetcher.insertInOrder download fetcher.downloads) := course.begun new rfl rfl
  rw [settled]
  refine ⟨rfl, ?_⟩
  change OnCourse options (tally.note (.request file path) []) _
  rw [Tally.note_request]
  exact begun

theorem arrival (course : OnCourse options tally fetcher.downloads)
    (configured : fetcher.options = options) (consistent : Fetcher.Consistent [] fetcher)
    (member : download ∈ fetcher.downloads) {extent : Extent}
    (pending : download.coverage.isIn extent.index .pending = true) (next : Download)
    (target : next.target = download.target)
    (moved : download.coverage.move extent.index .received = .ok next.coverage)
    (received : next.coverage.received = download.coverage.received + 1)
    (trusting : next.reputation.Spotless) (file : File) (data : Bytes) (peer : Peer) :
    OnCourse options
      (tally.note (.deliver file extent data peer)
        (fetcher.arrival download next extent data).notices)
      (fetcher.arrival download next extent data).fetcher.downloads := by
  have named : next.file = download.file := congrArg Prod.fst target
  have sound := consistent.sound download member
  obtain ⟨start, asked, order⟩ := course.ascending download member
  have later := order.arrived pending moved
  obtain ⟨front, back, whole, replaced, dropped⟩ :=
    Fetcher.split_of_mem consistent.distinct member
  have distinct := consistent.distinct
  rw [whole] at course distinct
  cases complete : next.isComplete with
  | true =>
    have count : next.coverage.count = download.file.chunkCount options.chunkSize := by
      rw [Coverage.count_move moved, sound.count, configured]
    have last : next.coverage.received = next.coverage.count := beq_iff_eq.mp complete
    -- Nothing waits in a complete download, so all its chunks were asked for.
    rw [later.complete (sound.counted.move moved) complete, count] at asked
    rw [Fetcher.arrival_of_complete named complete, Tally.note_completed, dropped]
    exact course.finished (by omega) asked
  | false =>
    rw [Fetcher.arrival_of_incomplete complete, Tally.note_progress]
    change OnCourse _ _ (fetcher.replace next).downloads
    rw [replaced next named]
    refine course.goesOn distinct target trusting rfl rfl ?_ (fun _ _ => rfl) ⟨start, asked, later⟩
      (fun _ sent => .inl sent)
    simp only
    omega

theorem answer (course : OnCourse options tally fetcher.downloads)
    (configured : fetcher.options = options) (consistent : Fetcher.Consistent [] fetcher)
    (admitted : fetcher.Admitted options) (awaited : ticket ∈ fetcher.tickets) (data : Bytes)
    (now : Nat) :
    let operation : Operation := .deliver ticket.file ticket.extent data ticket.peer
    OnCourse options (tally.note operation (fetcher.settle operation now).reply.notices)
      (fetcher.settle operation now).fetcher.downloads := by
  obtain ⟨download, member, same⟩ := consistent.owned.active ticket awaited
  have found := Fetcher.download?_of_mem consistent.distinct member
  rw [same] at found
  have pending := consistent.owned.pending awaited member same
  have extent : ticket.extent = download.extent ticket.extent.index := by
    rw [Download.extent, same, (consistent.sound download member).chunkSize, configured]
    exact (admitted.proper ticket awaited).extent
  obtain ⟨coverage, moved, more, stored⟩ :=
    Fetcher.store_of_pending pending fetcher data ticket.peer now
  have received := Fetcher.receive_of_pending found pending (congrArg Extent.offset extent)
    (Nat.le_of_eq (congrArg Extent.size extent)) data ticket.peer now
  have trusting := (course.trusting download member).report ticket.peer now
  simp only [Fetcher.settle, Fetcher.settleDelivery, received, stored]
  exact course.arrival configured consistent member pending
    (Download.report { download with coverage } ticket.peer true now) rfl moved more trusting
    ticket.file data ticket.peer

end OnCourse

end Fetch

end ChunkExchange
