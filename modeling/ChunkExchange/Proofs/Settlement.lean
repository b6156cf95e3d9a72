import ChunkExchange.Proofs.Consistency

namespace ChunkExchange

namespace Fetch

def Reply.notices : Reply → List Notice
  | .told notices => notices
  | _ => []

/-- What an operation comes to before the scheduler is asked. -/
inductive Settles (fetcher : Fetcher) : Operation → Settled → Prop where
  | quiet {operation : Operation} {settled : Settled} (silent : settled.reply.notices = [])
      (still : settled.effects = []) (continues : fetcher.Continues settled.fetcher) :
      Settles fetcher operation settled
  | begun {file : File} {path : String} {download : Download}
      (inactive : fetcher.isActive file = false) (named : download.file = file)
      (placed : download.path = path)
      (lacking : 0 < file.chunkCount fetcher.options.chunkSize)
      (nothing : ∀ index, download.coverage.isIn index .received = false) :
      Settles fetcher (.request file path)
        { fetcher := { fetcher.supersede file with
            downloads := Fetcher.insertInOrder download (fetcher.supersede file).downloads }
          reply := .told [], effects := [], dispatches := true }
  | empty {file : File} {path : String} (inactive : fetcher.isActive file = false)
      (positive : 0 < fetcher.options.chunkSize)
      (none : file.chunkCount fetcher.options.chunkSize = 0) :
      Settles fetcher (.request file path)
        { fetcher := fetcher.supersede file, reply := .told [.completed file path]
          effects := [.close path], dispatches := true }
  | arrived {download next : Download} {extent : Extent} {data : Bytes} {peer : Peer}
      {settled : Fetcher} (member : download ∈ fetcher.downloads)
      (pending : download.coverage.isIn extent.index .pending = true)
      (placed : extent.offset = (download.extent extent.index).offset)
      (fitting : extent.size ≤ (download.extent extent.index).size)
      (file : next.file = download.file) (path : next.path = download.path)
      (moved : download.coverage.move extent.index .received = .ok next.coverage)
      (options : settled.options = fetcher.options)
      (downloads : settled.downloads = (fetcher.replace next).downloads) :
      Settles fetcher (.deliver download.file extent data peer)
        { fetcher := settled, reply := .told [.progress download.file next.bytesReceived]
          effects := [.write download.path extent.offset (data.take extent.size)]
          dispatches := true }
  | finished {download next : Download} {extent : Extent} {data : Bytes} {peer : Peer}
      (member : download ∈ fetcher.downloads)
      (pending : download.coverage.isIn extent.index .pending = true)
      (placed : extent.offset = (download.extent extent.index).offset)
      (fitting : extent.size ≤ (download.extent extent.index).size)
      (moved : download.coverage.move extent.index .received = .ok next.coverage)
      (complete : next.coverage.isComplete = true) :
      Settles fetcher (.deliver download.file extent data peer)
        { fetcher := fetcher.drop download.file
          reply := .told [.progress download.file next.bytesReceived,
            .completed download.file download.path]
          effects := [.write download.path extent.offset (data.take extent.size),
            .close download.path]
          dispatches := true }

theorem Settles.options {fetcher : Fetcher} {operation : Operation} {settled : Settled}
    (settles : Settles fetcher operation settled) :
    settled.fetcher.options = fetcher.options := by
  cases settles with
  | quiet _ _ continues => exact continues.options
  | begun | empty => exact (Fetcher.continues_supersede fetcher _).options
  | arrived _ _ _ _ _ _ _ options _ => exact options
  | finished => rfl

theorem Settles.ne_get {fetcher : Fetcher} {operation : Operation} {settled : Settled}
    {effect : Effect} (settles : Settles fetcher operation settled)
    (listed : effect ∈ settled.effects) (pick : Pick) : effect ≠ .get pick := by
  rintro rfl
  cases settles with
  | quiet _ still => simp [still] at listed
  | begun | empty | arrived | finished => simp at listed

end Fetch

namespace Fetcher

open Fetch (Operation Reply Settled Turn Scheduler Settles Pick)

variable {fetcher : Fetcher} {download next : Download} {file : File} {path : String}
variable {coverage : Coverage} {extent : Extent} {data : Bytes} {peer : Peer} {now : Nat}
variable {change : Change}

private theorem drop_replace (fetcher : Fetcher) (next : Download) (settles : Ticket → Bool)
    (own : ∀ ticket, settles ticket = true → ticket.file = next.file) :
    drop { fetcher.replace next with
      tickets := fetcher.tickets.filter (fun ticket => !settles ticket) } next.file =
        fetcher.drop next.file := by
  have downloads : (fetcher.replace next).downloads.filter
      (fun download => !(download.file == next.file)) =
        fetcher.downloads.filter (fun download => !(download.file == next.file)) := by
    unfold replace
    induction fetcher.downloads with
    | nil => rfl
    | cons head rest ih =>
      by_cases same : head.file = next.file
      · simpa [same] using ih
      · simpa [same] using ih
  have tickets : (fetcher.tickets.filter (fun ticket => !settles ticket)).filter
      (fun ticket => !(ticket.file == next.file)) =
        fetcher.tickets.filter (fun ticket => !(ticket.file == next.file)) := by
    rw [List.filter_filter]
    apply List.filter_congr
    intro ticket _
    cases settled : settles ticket with
    | false => simp
    | true => simp [own ticket settled]
  simp only [drop, downloads, tickets]
  rfl

/-- The change that a chunk makes when it arrives and its download becomes `next`. -/
def arrival (fetcher : Fetcher) (download next : Download) (extent : Extent) (data : Bytes) :
    Change :=
  let write : Fetch.Effect :=
    .write download.path (download.extent extent.index).offset (data.take extent.size)
  let settled : Fetcher :=
    { fetcher.replace next with
      tickets := fetcher.tickets.filter (fun ticket =>
        !(ticket.isFor download.file extent.index)) }
  let progress : Notice := .progress download.file next.bytesReceived
  if next.isComplete then
    { fetcher := settled.drop download.file
      notices := [progress, .completed download.file download.path]
      effects := [write, .close download.path] }
  else { fetcher := settled, notices := [progress], effects := [write] }

theorem arrival_of_complete (file : next.file = download.file)
    (complete : next.isComplete = true) :
    fetcher.arrival download next extent data =
      { fetcher := fetcher.drop download.file
        notices := [.progress download.file next.bytesReceived,
          .completed download.file download.path]
        effects := [.write download.path (download.extent extent.index).offset
            (data.take extent.size),
          .close download.path] } := by
  have dropped := drop_replace fetcher next
    (fun ticket => ticket.isFor download.file extent.index)
    (fun ticket wanted => (Ticket.isFor_iff.mp wanted).2.trans file.symm)
  rw [file] at dropped
  simp only [arrival, complete, ↓reduceIte, dropped]

theorem arrival_of_incomplete (incomplete : next.isComplete = false) :
    fetcher.arrival download next extent data =
      { fetcher := { fetcher.replace next with
          tickets := fetcher.tickets.filter (fun ticket =>
            !(ticket.isFor download.file extent.index)) }
        notices := [.progress download.file next.bytesReceived]
        effects := [.write download.path (download.extent extent.index).offset
          (data.take extent.size)] } := by
  simp only [arrival, incomplete, Bool.false_eq_true, ↓reduceIte]

theorem store_of_pending (pending : download.coverage.isIn extent.index .pending = true)
    (fetcher : Fetcher) (data : Bytes) (peer : Peer) (now : Nat) :
    ∃ coverage, download.coverage.move extent.index .received = .ok coverage ∧
      coverage.received = download.coverage.received + 1 ∧
      fetcher.store download extent data peer now =
        .ok (fetcher.arrival download (Download.report { download with coverage } peer true now)
          extent data) := by
  obtain ⟨coverage, moved, more, received⟩ := Download.received_of_pending pending peer now
  refine ⟨coverage, moved, more, ?_⟩
  simp only [store, received, bind, Except.bind, arrival]
  split <;> rfl

/-- A delivered chunk is ignored, or it is asked for and fits. -/
theorem receive_cases (received : fetcher.receive file extent data peer now = .ok change) :
    change = { fetcher, notices := [], effects := [] } ∨
      ∃ download, fetcher.download? file = some download ∧
        download.coverage.isIn extent.index .pending = true ∧
        extent.offset = (download.extent extent.index).offset ∧
        extent.size ≤ (download.extent extent.index).size ∧
        fetcher.store download extent data peer now = .ok change := by
  unfold receive at received
  simp only [bind, Except.bind, pure, Except.pure] at received
  cases found : fetcher.download? file with
  | none =>
    rw [found] at received
    exact .inl (Except.ok.inj received).symm
  | some download =>
    rw [found] at received
    cases known : download.coverage.state extent.index with
    | error refusal => simp [known] at received
    | ok state =>
      simp only [known] at received
      cases state with
      | received => exact .inl (Except.ok.inj received).symm
      | waiting => cases received
      | pending =>
        right
        simp only at received
        split at received
        · rename_i fits
          exact ⟨download, rfl, Coverage.isIn_of_state known, fits.1, fits.2, received⟩
        · cases received

theorem receive_of_pending (found : fetcher.download? file = some download)
    (pending : download.coverage.isIn extent.index .pending = true)
    (placed : extent.offset = (download.extent extent.index).offset)
    (fitting : extent.size ≤ (download.extent extent.index).size) (data : Bytes) (peer : Peer)
    (now : Nat) :
    fetcher.receive file extent data peer now = fetcher.store download extent data peer now := by
  unfold receive
  simp only [bind, Except.bind, found, Coverage.state_of_isIn pending]
  exact if_pos ⟨placed, fitting⟩

private theorem settles_arrival (consistent : Consistent [] fetcher)
    (member : download ∈ fetcher.downloads) (next : Download)
    (pending : download.coverage.isIn extent.index .pending = true)
    (placed : extent.offset = (download.extent extent.index).offset)
    (fitting : extent.size ≤ (download.extent extent.index).size)
    (file : next.file = download.file) (path : next.path = download.path)
    (chunkSize : next.chunkSize = download.chunkSize)
    (moved : download.coverage.move extent.index .received = .ok next.coverage)
    (data : Bytes) (peer : Peer) :
    let change := fetcher.arrival download next extent data
    Settles fetcher (.deliver download.file extent data peer)
        { fetcher := change.fetcher, reply := .told change.notices, effects := change.effects
          dispatches := true } ∧
      Consistent [] change.fetcher := by
  cases complete : next.isComplete with
  | true =>
    rw [arrival_of_complete file complete, ← placed]
    exact ⟨.finished member pending placed fitting moved complete,
      consistent_drop consistent download.file⟩
  | false =>
    rw [arrival_of_incomplete complete, ← placed]
    refine ⟨.arrived member pending placed fitting file path moved rfl rfl, ?_⟩
    have sound := consistent.sound download member
    apply consistent.replace
    · exact {
        chunkSize := chunkSize.trans sound.chunkSize
        count := by rw [Coverage.count_move moved, file, sound.count]
        counted := sound.counted.move moved
        incomplete := complete }
    · exact consistent.owned.arrived member moved file rfl

theorem settles_deliver (consistent : Consistent [] fetcher) (file : File) (extent : Extent)
    (data : Bytes) (peer : Peer) (now : Nat) :
    Settles fetcher (.deliver file extent data peer)
        (fetcher.settleDelivery file extent data peer now) ∧
      Consistent [] (fetcher.settleDelivery file extent data peer now).fetcher := by
  unfold settleDelivery
  split
  · rename_i change received
    rcases receive_cases received with ignored | ⟨download, found, pending, placed, fitting, stored⟩
    · subst ignored
      exact ⟨.quiet rfl rfl (.refl fetcher), consistent⟩
    · obtain ⟨member, same⟩ := mem_of_download? found
      subst same
      obtain ⟨coverage, moved, _, result⟩ := store_of_pending pending fetcher data peer now
      rw [result] at stored
      cases stored
      exact settles_arrival consistent member
        (Download.report { download with coverage } peer true now) pending placed fitting
        rfl rfl rfl moved data peer
  · exact ⟨.quiet rfl rfl (.refl fetcher), consistent⟩

theorem activate_of_pos (positive : 0 < fetcher.options.chunkSize) (file : File) (path : String) :
    ∃ change, fetcher.activate file path = .ok change := by
  have sized : fetcher.options.chunkSize ≠ 0 := Nat.ne_of_gt positive
  simp only [activate, Download.start, File.chunkCount?, sized, ↓reduceIte, bind, Except.bind,
    pure, Except.pure]
  split <;> exact ⟨_, rfl⟩

theorem settles_request (consistent : Consistent [] fetcher) (file : File) (path : String) :
    Settles fetcher (.request file path) (fetcher.settleRequest file path) ∧
      Consistent [] (fetcher.settleRequest file path).fetcher := by
  unfold settleRequest
  split
  · exact ⟨.quiet rfl rfl (.refl fetcher), consistent⟩
  · rename_i unknown
    have inactive : fetcher.isActive file = false := by simpa using unknown
    have cleared := consistent_supersede consistent file
    have options : (fetcher.supersede file).options = fetcher.options := (foldl_drop _ fetcher).1
    cases started : Download.start file path fetcher.options.chunkSize
        fetcher.options.downloadRetry with
    | error fault =>
      simp only [activate, started, bind, Except.bind]
      exact ⟨.quiet rfl rfl (.refl fetcher), consistent⟩
    | ok download =>
      obtain ⟨positive, named, placed, chunkSize, fresh⟩ := Download.start_eq_ok started
      have complete : download.isComplete =
          decide (file.chunkCount fetcher.options.chunkSize = 0) := by
        rw [Download.isComplete, fresh, Coverage.isComplete_fresh]
      simp only [activate, started, bind, Except.bind, pure, Except.pure, complete]
      by_cases none : file.chunkCount fetcher.options.chunkSize = 0
      · simp only [none, decide_true, ↓reduceIte]
        exact ⟨.empty inactive positive none, cleared⟩
      · simp only [none, decide_false, Bool.false_eq_true, ↓reduceIte]
        have lacking := Nat.pos_of_ne_zero none
        refine ⟨.begun inactive named placed lacking ?_, cleared.insert ?_ ?_ ?_⟩
        · intro index
          simp [fresh, Coverage.isIn_fresh]
        · rw [options]
          exact Download.sound_of_fresh chunkSize (named ▸ fresh) (named ▸ lacking)
        · intro index
          simp [fresh, Coverage.isIn_fresh]
        · intro other member
          rw [named]
          exact (mem_supersede.mp member).2

private theorem perm_cons_eraseP {selects : Ticket → Bool} {tickets : List Ticket}
    (present : tickets.any selects = true) :
    ∃ ticket, selects ticket = true ∧ tickets.Perm (ticket :: tickets.eraseP selects) := by
  obtain ⟨ticket, listed, selected⟩ := List.any_eq_true.mp present
  obtain ⟨first, front, back, _, wanted, whole, erased⟩ := List.exists_of_eraseP listed selected
  refine ⟨first, wanted, ?_⟩
  rw [erased, whole]
  exact List.perm_middle

private theorem consistent_miss_answer (consistent : Consistent [] fetcher) {index : Nat}
    (found : fetcher.download? file = some download)
    (answers : fetcher.tickets.any (fun ticket => ticket.matchesKey file index peer) = true) :
    (fetcher.miss file index peer now).refusal = none ∧
      Consistent [] (fetcher.miss file index peer now).fetcher ∧
      fetcher.Continues (fetcher.miss file index peer now).fetcher := by
  obtain ⟨member, same⟩ := mem_of_download? found
  obtain ⟨answer, key, perm⟩ := perm_cons_eraseP answers
  have wanted : answer.isFor file index = true := by
    simp only [Ticket.matchesKey, Bool.and_eq_true] at key
    exact key.1
  obtain ⟨place, named⟩ := Ticket.isFor_iff.mp wanted
  have taken := consistent.owned.perm perm
  have pending := taken.pending List.mem_cons_self member (same.trans named.symm)
  rw [place] at pending
  obtain ⟨coverage, moved, failed⟩ := Download.missing_of_pending pending peer now
  have kin := Download.kin_missing download index peer now true
  rw [failed] at kin
  simp only [miss, found, answers, failed]
  refine ⟨trivial, ?_, ⟨rfl, (continues_replace member kin).downloads⟩⟩
  apply consistent.replace (kin.sound (consistent.sound download member))
  exact taken.released member (same.trans named.symm) (place ▸ moved) rfl rfl

/-- A report that answers no request only judges the peer. -/
private theorem consistent_miss_stale (consistent : Consistent [] fetcher) {index : Nat}
    (found : fetcher.download? file = some download)
    (stale : fetcher.tickets.any (fun ticket => ticket.matchesKey file index peer) = false) :
    (fetcher.miss file index peer now).refusal = none ∧
      Consistent [] (fetcher.miss file index peer now).fetcher ∧
      fetcher.Continues (fetcher.miss file index peer now).fetcher := by
  obtain ⟨member, same⟩ := mem_of_download? found
  have kin := Download.kin_report download peer false now
  have kept : fetcher.tickets.eraseP (fun ticket => ticket.matchesKey file index peer) =
      fetcher.tickets := List.eraseP_of_forall_not (by simpa using stale)
  simp only [miss, found, stale, Download.missing, Bool.false_eq_true, ↓reduceIte, kept]
  exact ⟨trivial, consistent.judge member kin rfl, continues_replace member kin⟩

/-- A report that a peer lacks a chunk is never refused. -/
theorem consistent_miss (consistent : Consistent [] fetcher) (file : File) (index : Nat)
    (peer : Peer) (now : Nat) :
    (fetcher.miss file index peer now).refusal = none ∧
      Consistent [] (fetcher.miss file index peer now).fetcher ∧
      fetcher.Continues (fetcher.miss file index peer now).fetcher := by
  cases found : fetcher.download? file with
  | none =>
    simp only [miss, found]
    exact ⟨trivial, consistent, .refl fetcher⟩
  | some download =>
    cases answers : fetcher.tickets.any (fun ticket => ticket.matchesKey file index peer) with
    | true => exact consistent_miss_answer consistent found answers
    | false => exact consistent_miss_stale consistent found answers

theorem settles_settle (consistent : Consistent [] fetcher) (operation : Operation) (now : Nat) :
    Settles fetcher operation (fetcher.settle operation now) ∧
      Consistent [] (fetcher.settle operation now).fetcher := by
  cases operation with
  | join peer =>
    obtain ⟨kept, continued⟩ := consistent_join consistent peer
    exact ⟨.quiet rfl rfl continued, kept⟩
  | leave peer =>
    obtain ⟨kept, continued⟩ := consistent_leave consistent peer
    exact ⟨.quiet rfl rfl continued, kept⟩
  | request file path => exact settles_request consistent file path
  | cancel file =>
    exact ⟨.quiet rfl rfl (continues_drop fetcher file), consistent_drop consistent file⟩
  | deliver file extent data peer => exact settles_deliver consistent file extent data peer now
  | miss file extent peer =>
    obtain ⟨accepted, kept, continued⟩ := consistent_miss consistent file extent.index peer now
    exact ⟨.quiet (by simp [settle, accepted, Reply.ofRefusal, Reply.notices]) rfl continued, kept⟩
  | tick =>
    obtain ⟨accepted, kept, continued⟩ := consistent_expire consistent now
    exact ⟨.quiet (by simp [settle, accepted, Reply.ofRefusal, Reply.notices]) rfl continued, kept⟩

end Fetcher

end ChunkExchange
