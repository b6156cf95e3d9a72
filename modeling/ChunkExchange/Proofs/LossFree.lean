import ChunkExchange.Proofs.OnCourse

/-! Runs in which nothing gets lost: peers stay, and every answer is a whole chunk from the peer
that was asked. Each chunk is then asked for once, and the last answer completes the last file. -/

namespace ChunkExchange

/-- Options under which requests can be sent. -/
structure Options.Positive (options : Options) : Prop where
  chunkSize : 0 < options.chunkSize
  inAll : 0 < options.maxParallelChunks
  perFile : 0 < options.maxParallelPerFile
  perPeer : 0 < options.maxParallelPerPeer

namespace Fetch

/-- The runs in which files with different identifiers and at least one byte are requested, and
every answer is the whole chunk that was asked for from the peer that was asked. -/
inductive LossFree (options : Options) : History Unit → Prop where
  | start : LossFree options (.start options ())
  | join {history : History Unit} (earlier : LossFree options history) (peer : Peer) (now : Nat) :
    LossFree options (history.next (Greedy.ofOptions options).scheduler (.join peer) now)
  | request {history : History Unit} (earlier : LossFree options history) (file : File)
      (path : String) (now : Nat) (nonempty : 0 < file.size)
      (new : ∀ request ∈ history.tally.requested, request.1.id ≠ file.id) :
    LossFree options (history.next (Greedy.ofOptions options).scheduler (.request file path) now)
  | answer {history : History Unit} (earlier : LossFree options history) {ticket : Ticket}
      (asked : ticket ∈ history.fetcher.tickets) (data : Bytes)
      (whole : data.length = ticket.extent.size) (now : Nat) :
    LossFree options (history.next (Greedy.ofOptions options).scheduler
      (.deliver ticket.file ticket.extent data ticket.peer) now)

namespace OnCourse

variable {options : Options} {tally : Tally} {fetcher : Fetcher} {now : Nat}

theorem awaits (course : OnCourse options tally fetcher.downloads)
    (consistent : Fetcher.Consistent [] fetcher) (positive : options.Positive)
    (saturated : fetcher.Saturated options now) (known : fetcher.peers ≠ [])
    (active : fetcher.downloads ≠ []) : fetcher.tickets ≠ [] := by
  intro none
  obtain ⟨peer, known⟩ := List.exists_mem_of_ne_nil _ known
  obtain ⟨download, member⟩ := List.exists_mem_of_ne_nil _ active
  rcases saturated with full | refused
  · rw [none] at full
    exact Nat.ne_of_lt positive.inAll full
  -- Without a request nothing is pending, so a chunk waits, and nobody was put aside.
  · have idle (index : Nat) : download.coverage.isIn index .pending = false := by
      have owner := consistent.owned.owner download member index
      simpa [none] using owner
    have sound := consistent.sound download member
    obtain ⟨index, waits⟩ := sound.counted.exists_waiting sound.incomplete idle
    refine (course.trusting download member).availability_ne peer now ?_
    apply refused download member ⟨index, Coverage.isIn_iff.mp waits⟩ _ peer known
    · simpa [none] using positive.perPeer
    · simpa [none] using positive.perFile

end OnCourse

/-- A run without losses is on course, and waits for an answer while there is something to do. -/
structure History.Unhindered (options : Options) (history : History Unit) : Prop where
  lawful : history.Lawful (Greedy.ofOptions options).scheduler options
  admitted : history.fetcher.Admitted options
  course : OnCourse options history.tally history.fetcher.downloads
  awaits : history.fetcher.peers ≠ [] → history.fetcher.downloads ≠ [] →
    history.fetcher.tickets ≠ []

section Runs

variable {options : Options} {history : History Unit} {operation : Operation} {now : Nat}

private theorem filterMap_pick? {effects : List Effect} (others : ∀ effect ∈ effects, ∀ pick,
    effect ≠ .get pick) (picks : List Pick) :
    (effects ++ picks.map Effect.get).filterMap Effect.pick? = picks := by
  have none : effects.filterMap Effect.pick? = [] := by
    rw [List.filterMap_eq_nil_iff]
    intro effect listed
    cases effect with
    | get pick => exact absurd rfl (others _ listed pick)
    | write | close => rfl
  rw [List.filterMap_append, none, List.nil_append, List.filterMap_map]
  exact List.filterMap_some

private theorem tally_next (scheduler : Scheduler Unit) (history : History Unit)
    (operation : Operation) (now : Nat) : (history.next scheduler operation now).tally =
      (history.tally.note operation (history.event scheduler operation now).notices).send
        ((history.event scheduler operation now).effects.filterMap Effect.pick?) := by
  simp only [History.tally, History.next, List.foldl_append, List.foldl_cons, List.foldl_nil]
  rfl

theorem unhindered_start : (History.start options ()).Unhindered options := by
  refine ⟨History.lawful_start, ?_, ?_, fun _ active => absurd rfl active⟩
  · constructor <;> simp [History.start, Fetcher.empty]
  · constructor <;>
      simp [History.start, History.tally, Tally.empty, Fetcher.empty, chunksOf, Fetcher.total]

theorem History.Unhindered.next (unhindered : history.Unhindered options)
    (positive : options.Positive)
    (dispatches : (history.fetcher.settle operation now).dispatches = true)
    (course : OnCourse options
      (history.tally.note operation (history.fetcher.settle operation now).reply.notices)
      (history.fetcher.settle operation now).fetcher.downloads) :
    (history.next (Greedy.ofOptions options).scheduler operation now).Unhindered options := by
  have lawful := unhindered.lawful
  obtain ⟨settles, kept⟩ := Fetcher.settles_settle lawful.consistent operation now
  have exhausts := History.exhausts_event lawful unhindered.admitted dispatches
  obtain ⟨picks, sends, effects⟩ := exhausts.declined
  have reply := (Fetcher.adds_step (Greedy.ofOptions options).scheduler history.memory
    lawful.consistent operation now).2
  have sent : (history.event (Greedy.ofOptions options).scheduler operation now).effects.filterMap
      Effect.pick? = picks := by
    rw [effects]
    exact filterMap_pick? (fun effect listed => settles.ne_get listed) picks
  have tally : (history.next (Greedy.ofOptions options).scheduler operation now).tally =
      (history.tally.note operation (history.fetcher.settle operation now).reply.notices).send
        picks := by
    rw [tally_next, sent, Event.notices]
    exact congrArg (fun reply => (history.tally.note operation (Reply.notices reply)).send picks)
      reply
  have whole := course.sends kept sends
  refine ⟨lawful.next operation now,
    (History.admitted_event lawful unhindered.admitted operation now).1, tally ▸ whole, ?_⟩
  exact whole.awaits (lawful.next operation now).consistent positive exhausts.saturated

private theorem unhindered_of_lossFree (positive : options.Positive)
    (run : LossFree options history) : history.Unhindered options := by
  induction run with
  | start => exact unhindered_start
  | join _ peer now ih => exact ih.next positive rfl (ih.course.join peer)
  | request _ file path now nonempty new ih =>
    obtain ⟨dispatches, course⟩ := ih.course.request ih.lawful.configured positive.chunkSize
      nonempty new path now
    exact ih.next positive dispatches course
  | @answer history _ ticket awaited data whole now ih =>
    have course := ih.course.answer ih.lawful.configured ih.lawful.consistent ih.admitted awaited
      data now
    exact ih.next positive (Fetcher.dispatches_deliver _ _ _ _ _ _) course

private theorem chunksOf_perm {first second : List (File × String)} (perm : first.Perm second) :
    chunksOf options first = chunksOf options second :=
  foldr_add_perm (perm.map _)

/-- There are as many answers to come as chunks that have not arrived. -/
private theorem History.Unhindered.answers_add_length_le (unhindered : history.Unhindered options) :
    history.tally.answers + history.fetcher.downloads.length ≤
      chunksOf options history.tally.requested := by
  have course := unhindered.course
  have parted : chunksOf options history.tally.requested =
      chunksOf options history.tally.completed +
        Fetcher.total (·.file.chunkCount options.chunkSize) history.fetcher.downloads := by
    rw [chunksOf_perm course.parted, chunksOf, List.map_append, foldr_add_append,
      List.map_map]
    rfl
  have less : ∀ download ∈ history.fetcher.downloads,
      download.coverage.received < download.file.chunkCount options.chunkSize := by
    intro download member
    have sound := unhindered.lawful.consistent.sound download member
    have lacking := sound.counted.received_lt sound.incomplete
    rw [sound.count, unhindered.lawful.configured] at lacking
    exact lacking
  have lacking := Fetcher.total_add_length_le less
  rw [course.answers, parted]
  omega

private theorem filter_eq_singleton {requests : List (File × String)} {request : File × String}
    (ids : (requests.map (fun request => request.1.id)).Nodup) (member : request ∈ requests) :
    requests.filter (fun other => other.1 == request.1) = [request] := by
  obtain ⟨front, back, whole⟩ := List.append_of_mem member
  subst whole
  have others : ∀ other ∈ front ++ back, other.1 ≠ request.1 :=
    fun other listed same => ne_of_nodup_map ids listed (congrArg File.id same)
  have none (part : List (File × String)) (apart : ∀ other ∈ part, other.1 ≠ request.1) :
      part.filter (fun other => other.1 == request.1) = [] := by
    rw [List.filter_eq_nil_iff]
    exact fun other listed same => apart other listed (beq_iff_eq.mp same)
  rw [List.filter_append, List.filter_cons_of_pos (by simp),
    none front (fun other listed => others other (List.mem_append_left _ listed)),
    none back (fun other listed => others other (List.mem_append_right _ listed))]
  rfl

end Runs

/-- A run asks for every chunk once, and what it asks for leads to the end. -/
structure History.Completes (options : Options) (history : History Unit) : Prop where
  ascending : ∀ file, (history.tally.asked file).Pairwise (· < ·)
  awaits : history.fetcher.peers ≠ [] → history.fetcher.downloads ≠ [] →
    history.fetcher.tickets ≠ []
  bounded : history.tally.answers ≤ chunksOf options history.tally.requested
  ends : history.tally.answers = chunksOf options history.tally.requested ↔
    history.fetcher.downloads = []
  /-- At the end each requested file was told to be complete once, after one request for each
  chunk, and nothing is awaited. -/
  finished : history.tally.answers = chunksOf options history.tally.requested →
    history.fetcher.tickets = [] ∧
      ∀ request ∈ history.tally.requested,
        history.tally.completed.filter (fun other => other.1 == request.1) = [request] ∧
          history.tally.asked request.1 = List.range (request.1.chunkCount options.chunkSize)

/-- Without losses each chunk is asked for once, in ascending order for each file, requests never
run dry while there is something to do, and the last answer completes the last file. -/
theorem loss_free_completes {options : Options} (positive : options.Positive)
    {history : History Unit} (run : LossFree options history) : history.Completes options := by
  have unhindered := unhindered_of_lossFree positive run
  have course := unhindered.course
  have bounded := unhindered.answers_add_length_le
  have ends : history.tally.answers = chunksOf options history.tally.requested ↔
      history.fetcher.downloads = [] := by
    constructor
    · intro all
      apply List.eq_nil_of_length_eq_zero
      omega
    · intro inactive
      have parted := course.parted
      rw [inactive, List.map_nil, List.append_nil] at parted
      rw [course.answers, chunksOf_perm parted, inactive]
      rfl
  refine ⟨?_, unhindered.awaits, by omega, ends, ?_⟩
  · intro file
    obtain ⟨bound, asked⟩ := course.asked_eq_range file
    rw [asked]
    exact List.pairwise_lt_range
  · intro all
    have inactive := ends.mp all
    have parted := course.parted
    rw [inactive, List.map_nil, List.append_nil] at parted
    constructor
    · apply List.eq_nil_iff_forall_not_mem.mpr
      intro ticket listed
      obtain ⟨download, member, _⟩ := unhindered.lawful.consistent.owned.active ticket listed
      rw [inactive] at member
      cases member
    · intro request wanted
      have complete := parted.mem_iff.mp wanted
      exact ⟨filter_eq_singleton ((parted.map _).nodup_iff.mp course.ids) complete,
        course.whole request complete⟩

/-- Three chunks come from the only peer, two at a time and the later one first. -/
theorem loss_free_completes_three_chunks :
    let options : Options := { chunkSize := 2, maxParallelPerFile := 2 }
    let file : File := { id := 1, hash := "", size := 5 }
    options.Positive ∧ ∃ history, LossFree options history ∧ history.tally.answers = 3 ∧
      history.tally.requested = [(file, "target")] ∧ history.Completes options := by
  intro options file
  have positive : options.Positive := by constructor <;> decide
  let peer : Peer := .ofNat 1
  have joined : LossFree options _ := LossFree.start.join peer 0
  have requested := joined.request file "target" 0 (by decide) (by decide +kernel)
  have first := requested.answer
    (show Ticket.first file ⟨1, 2, 2⟩ peer 0 options.requestTimeout ∈ _ from by decide +kernel)
    [3, 4] rfl 1
  have second := first.answer
    (show Ticket.first file ⟨0, 0, 2⟩ peer 0 options.requestTimeout ∈ _ from by decide +kernel)
    [1, 2] rfl 2
  have third := second.answer
    (show Ticket.first file ⟨2, 4, 1⟩ peer 1 options.requestTimeout ∈ _ from by decide +kernel)
    [5] rfl 3
  exact ⟨positive, _, third, by decide +kernel, by decide +kernel,
    loss_free_completes positive third⟩

end Fetch

end ChunkExchange
