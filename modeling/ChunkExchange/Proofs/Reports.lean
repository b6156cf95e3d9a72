import ChunkExchange.Proofs.Dispatch
import ChunkExchange.Proofs.Standings

namespace ChunkExchange

def Notice.isProgressOf (file : File) : Notice → Bool
  | .progress other _ => other == file
  | .completed _ _ | .failed _ => false

namespace Fetch

theorem exists_progress {notices : List Notice} {file : File}
    (told : notices.any (·.isProgressOf file) = true) :
    ∃ bytesReceived, .progress file bytesReceived ∈ notices := by
  obtain ⟨notice, noted, progress⟩ := List.any_eq_true.mp told
  cases notice with
  | progress other bytesReceived =>
    have same : other = file := beq_iff_eq.mp progress
    exact ⟨bytesReceived, same ▸ noted⟩
  | completed | failed => cases progress

/-- Progress is told of the file of the chunk that is delivered. -/
theorem Settles.progress {fetcher : Fetcher} {settled : Settled} {file named : File}
    {extent : Extent} {data : Bytes} {peer : Peer} {bytesReceived : Nat}
    (settles : Settles fetcher (.deliver named extent data peer) settled)
    (noted : .progress file bytesReceived ∈ settled.reply.notices) : file = named := by
  cases settles with
  | quiet silent =>
    rw [silent] at noted
    cases noted
  | arrived | finished =>
    simp only [Reply.notices, List.mem_cons, Notice.progress.injEq, reduceCtorEq, List.not_mem_nil,
      or_false] at noted
    exact noted.1

end Fetch

private theorem Download.reputation_start {file : File} {path : String} {chunkSize : Nat}
    {backoff : Backoff} {download : Download}
    (started : start file path chunkSize backoff = .ok download) :
    download.reputation = .fresh backoff := by
  by_cases zero : chunkSize = 0
  · simp [start, File.chunkCount?, zero, bind, Except.bind] at started
  · simp only [start, File.chunkCount?, zero, ↓reduceIte, bind, Except.bind, pure,
      Except.pure] at started
    cases started
    rfl

private theorem Download.reputation_move {download next : Download} {index : Nat}
    {target : ChunkState} (moved : download.move index target = .ok next) :
    next.file = download.file ∧ next.reputation = download.reputation := by
  obtain ⟨coverage, _, same⟩ := move_cases moved
  subst same
  exact ⟨rfl, rfl⟩

/-- A peer that fails is blamed even where its chunk cannot be given back. -/
private theorem Download.reputation_missing (download : Download) (index : Nat) (peer : Peer)
    (now : Nat) (giveBack : Bool) :
    let next := (download.missing index peer now giveBack).download
    next.file = download.file ∧
      next.reputation = download.reputation.take now (.failed peer) := by
  unfold missing
  cases giveBack with
  | false => exact ⟨rfl, rfl⟩
  | true =>
    simp only [↓reduceIte]
    split
    · rename_i released moved
      exact reputation_move moved
    · exact ⟨rfl, rfl⟩

namespace Fetcher

open Fetch (Operation Settled Scheduler Pick Turn)

def reportOn (named : File) (report : Report) (file : File) : List Report :=
  if named = file then [report] else []

/-- What an operation at `now` reports for a file: a delivery that was accepted, a chunk that a peer
lacks, the requests that time out, or that a peer leaves. -/
def reports (fetcher : Fetcher) (operation : Operation) (now : Nat) (file : File) : List Report :=
  match operation with
  | .leave peer => [.left peer]
  | .deliver _ _ _ peer =>
    if (fetcher.settle operation now).reply.notices.any (·.isProgressOf file) then
      [.delivered peer]
    else []
  | .miss named _ peer => reportOn named (.failed peer) file
  | .tick =>
    (fetcher.tickets.filter (fun ticket => ticket.isExpired now && ticket.file == file)).map
      (fun ticket => .failed ticket.peer)
  | .join _ | .request _ _ | .cancel _ => []

/-- The later fetcher has no other downloads, and each one took the reports for its file. -/
def Judged (now : Nat) (reports : File → List Report) (before after : Fetcher) : Prop :=
  ∀ next ∈ after.downloads, ∃ download ∈ before.downloads, download.file = next.file ∧
    next.reputation = (reports next.file).foldl (Reputation.take now) download.reputation

variable {now : Nat} {reports early late : File → List Report} {before middle after : Fetcher}
variable {fetcher settled next : Fetcher} {download replaced : Download} {file : File}
variable {ticket : Ticket} {peer : Peer} {extent : Extent} {data : Bytes} {index : Nat}

theorem judged_of_subset (now : Nat)
    (subset : ∀ download ∈ after.downloads, download ∈ before.downloads) :
    Judged now (fun _ => []) before after :=
  fun download member => ⟨download, subset download member, rfl, rfl⟩

theorem Judged.trans (first : Judged now early before middle)
    (second : Judged now late middle after) :
    Judged now (fun file => early file ++ late file) before after := by
  intro next member
  obtain ⟨between, present, same, later⟩ := second next member
  obtain ⟨download, original, alike, earlier⟩ := first between present
  refine ⟨download, original, alike.trans same, ?_⟩
  rw [List.foldl_append, later, earlier, same]

theorem Judged.congr (judged : Judged now early before after)
    (same : ∀ file, early file = late file) : Judged now late before after := by
  intro next member
  rw [← same next.file]
  exact judged next member

/-- Two downloads of one file have taken the same reports. -/
theorem Judged.reputation (judged : Judged now reports before after)
    (distinct : Distinct before.downloads) (member : download ∈ before.downloads)
    (present : replaced ∈ after.downloads) (same : replaced.file = download.file) :
    replaced.reputation =
      (reports download.file).foldl (Reputation.take now) download.reputation := by
  obtain ⟨other, original, alike, result⟩ := judged replaced present
  rw [eq_of_id distinct original member (by rw [alike, same]), same] at result
  exact result

theorem judged_replace (member : download ∈ fetcher.downloads)
    (file : replaced.file = download.file)
    (own : replaced.reputation =
      (reports download.file).foldl (Reputation.take now) download.reputation)
    (others : ∀ file, file ≠ download.file → reports file = []) :
    Judged now reports fetcher (fetcher.replace replaced) := by
  intro next present
  rcases mem_replace.mp present with ⟨original, different⟩ | ⟨same, _⟩
  · refine ⟨next, original, rfl, ?_⟩
    rw [others next.file (by rw [← file]; exact different)]
    rfl
  · subst same
    refine ⟨download, member, file.symm, ?_⟩
    rw [file]
    exact own

theorem files_replace (fetcher : Fetcher) (replaced : Download) :
    (fetcher.replace replaced).downloads.map Download.file =
      fetcher.downloads.map Download.file := by
  simp only [replace, List.map_map]
  apply List.map_congr_left
  intro download _
  by_cases same : download.file = replaced.file
  · simp [same]
  · simp [same]

private theorem judged_giveBack (fetcher : Fetcher) (ticket : Ticket) :
    Judged now (fun _ => []) fetcher (fetcher.giveBack ticket) := by
  unfold giveBack
  split
  · rename_i download found
    split
    · rename_i released moved
      obtain ⟨file, reputation⟩ := Download.reputation_move moved
      exact judged_replace (mem_of_download? found).1 file reputation (fun _ _ => rfl)
    · exact judged_of_subset _ (fun _ member => member)
  · exact judged_of_subset _ (fun _ member => member)

private theorem judged_foldl_giveBack (abandoned : List Ticket) (fetcher : Fetcher) :
    Judged now (fun _ => []) fetcher (abandoned.foldl giveBack fetcher) := by
  induction abandoned generalizing fetcher with
  | nil => exact judged_of_subset _ (fun _ member => member)
  | cons ticket rest ih => exact (judged_giveBack fetcher ticket).trans (ih _)

theorem judged_leave (fetcher : Fetcher) (peer : Peer) (now : Nat) :
    Judged now (fun _ => [.left peer]) fetcher (fetcher.leave peer) := by
  have forgotten : Judged now (fun _ => [.left peer]) fetcher
      { fetcher with
        downloads := fetcher.downloads.map (·.forget peer)
        peers := fetcher.peers.filter (fun other => !(other == peer))
        tickets := fetcher.tickets.filter (fun ticket => !(ticket.peer == peer)) } := by
    intro next member
    obtain ⟨download, present, same⟩ := List.mem_map.mp member
    subst same
    exact ⟨download, present, rfl, rfl⟩
  exact forgotten.trans (judged_foldl_giveBack _ _)

theorem judged_of_inactive (unknown : fetcher.download? file = none) (report : Report) :
    Judged now (reportOn file report) fetcher fetcher := by
  intro next member
  refine ⟨next, member, rfl, ?_⟩
  rw [reportOn, if_neg (download?_eq_none_iff.mp unknown next member).symm]
  rfl

private theorem judged_missing (found : fetcher.download? file = some download) (now index : Nat)
    (peer : Peer) (giveBack : Bool) :
    Judged now (reportOn file (.failed peer)) fetcher
      (fetcher.replace (download.missing index peer now giveBack).download) := by
  obtain ⟨member, same⟩ := mem_of_download? found
  obtain ⟨kept, reputation⟩ := download.reputation_missing index peer now giveBack
  apply judged_replace member kept
  · rw [reportOn, if_pos same.symm]
    exact reputation
  · exact fun other different => if_neg (same ▸ different.symm)

theorem judged_miss (fetcher : Fetcher) (file : File) (index : Nat) (peer : Peer) (now : Nat) :
    Judged now (reportOn file (.failed peer)) fetcher
      (fetcher.miss file index peer now).fetcher := by
  unfold miss
  split
  · rename_i unknown
    exact judged_of_inactive unknown _
  · rename_i download found
    have judged := judged_missing found now index peer
      (fetcher.tickets.any (fun ticket => ticket.matchesKey file index peer))
    dsimp only
    split <;> exact judged

private theorem judged_timeOut (now : Nat) (blame : Blame) (ticket : Ticket) :
    Judged now (reportOn ticket.file (.failed ticket.peer)) blame.fetcher
      (timeOut now blame ticket).fetcher := by
  unfold timeOut
  split
  · rename_i unknown
    exact judged_of_inactive unknown _
  · rename_i download found
    exact judged_missing found now ticket.extent.index ticket.peer true

theorem files_miss (fetcher : Fetcher) (file : File) (index : Nat) (peer : Peer) (now : Nat) :
    (fetcher.miss file index peer now).fetcher.downloads.map Download.file =
      fetcher.downloads.map Download.file := by
  unfold miss
  split
  · rfl
  · dsimp only
    split <;> exact files_replace fetcher _

theorem files_foldl_timeOut (expired : List Ticket) (now : Nat) (blame : Blame) :
    (expired.foldl (timeOut now) blame).fetcher.downloads.map Download.file =
      blame.fetcher.downloads.map Download.file := by
  induction expired generalizing blame with
  | nil => rfl
  | cons ticket rest ih =>
    rw [List.foldl_cons, ih]
    unfold timeOut
    split
    · rfl
    · exact files_replace blame.fetcher _

private theorem judged_foldl_timeOut (expired : List Ticket) (now : Nat) (blame : Blame) :
    Judged now
      (fun file => (expired.filter (fun ticket => ticket.file == file)).map
        (fun ticket => .failed ticket.peer))
      blame.fetcher (expired.foldl (timeOut now) blame).fetcher := by
  induction expired generalizing blame with
  | nil => exact judged_of_subset _ (fun _ member => member)
  | cons ticket rest ih =>
    apply ((judged_timeOut now blame ticket).trans (ih _)).congr
    intro file
    by_cases own : ticket.file = file
    · simp [reportOn, own]
    · simp [reportOn, own]

theorem judged_expire (fetcher : Fetcher) (now : Nat) :
    Judged now (fetcher.reports .tick now) fetcher (fetcher.expire now).fetcher := by
  have judged := judged_foldl_timeOut (fetcher.tickets.filter (·.isExpired now)) now
    { fetcher := { fetcher with
        tickets := fetcher.tickets.filter (fun ticket => !ticket.isExpired now) }
      refusal := none }
  apply Judged.congr judged
  intro file
  simp only [Fetcher.reports, List.filter_filter, Bool.and_comm]

private theorem judged_arrival (member : download ∈ fetcher.downloads)
    (file : replaced.file = download.file)
    (reputation : replaced.reputation = download.reputation.take now (.delivered peer)) :
    Judged now
      (fun file =>
        if (fetcher.arrival download replaced extent data).notices.any (·.isProgressOf file) then
          [.delivered peer]
        else [])
      fetcher (fetcher.arrival download replaced extent data).fetcher := by
  cases complete : replaced.isComplete with
  | true =>
    rw [arrival_of_complete file complete]
    intro next present
    obtain ⟨original, different⟩ := mem_drop.mp present
    refine ⟨next, original, rfl, ?_⟩
    simp [Notice.isProgressOf, Ne.symm different]
  | false =>
    have delivered : Judged now (reportOn download.file (.delivered peer)) fetcher
        (fetcher.replace replaced) := by
      apply judged_replace member file
      · rw [reportOn, if_pos rfl]
        exact reputation
      · exact fun file different => if_neg different.symm
    have told (other : File) : reportOn download.file (.delivered peer) other =
        if [Notice.progress download.file replaced.bytesReceived].any (·.isProgressOf other) then
          [.delivered peer]
        else [] := by
      simp [reportOn, Notice.isProgressOf]
    rw [arrival_of_incomplete complete]
    exact delivered.congr told

theorem judged_deliver (fetcher : Fetcher) (file : File) (extent : Extent) (data : Bytes)
    (peer : Peer) (now : Nat) :
    Judged now (fetcher.reports (.deliver file extent data peer) now) fetcher
      (fetcher.settleDelivery file extent data peer now).fetcher := by
  have told : fetcher.reports (.deliver file extent data peer) now = fun other =>
      if (fetcher.settleDelivery file extent data peer now).reply.notices.any
        (·.isProgressOf other) then [.delivered peer] else [] := rfl
  rw [told]
  unfold settleDelivery
  split
  · rename_i change received
    rcases receive_cases received with ignored | ⟨download, found, pending, _, _, stored⟩
    · subst ignored
      exact judged_of_subset _ (fun _ member => member)
    · obtain ⟨member, same⟩ := mem_of_download? found
      subst same
      obtain ⟨coverage, _, _, result⟩ := store_of_pending pending fetcher data peer now
      rw [result] at stored
      cases stored
      exact judged_arrival member rfl rfl
  · exact judged_of_subset _ (fun _ member => member)

private theorem reputation_request (fetcher : Fetcher) (file : File) (path : String)
    (member : download ∈ (fetcher.settleRequest file path).fetcher.downloads) :
    (∃ former ∈ fetcher.downloads, former.file = download.file ∧
      download.reputation = former.reputation) ∨
      fetcher.isActive download.file = false ∧
        download.reputation = .fresh fetcher.options.downloadRetry := by
  have unchanged (same : download ∈ fetcher.downloads) :
      ∃ former ∈ fetcher.downloads, former.file = download.file ∧
        download.reputation = former.reputation :=
    ⟨download, same, rfl, rfl⟩
  unfold settleRequest at member
  split at member
  · exact .inl (unchanged member)
  · rename_i inactive
    cases started : Download.start file path fetcher.options.chunkSize
        fetcher.options.downloadRetry with
    | error fault =>
      simp only [activate, started, bind, Except.bind] at member
      exact .inl (unchanged member)
    | ok fresh =>
      obtain ⟨_, named, _⟩ := Download.start_eq_ok started
      simp only [activate, started, bind, Except.bind, pure, Except.pure] at member
      cases complete : fresh.isComplete with
      | true =>
        simp only [complete, ↓reduceIte] at member
        exact .inl (unchanged (mem_supersede.mp member).1)
      | false =>
        simp only [complete, Bool.false_eq_true, ↓reduceIte] at member
        rcases mem_insertInOrder.mp member with new | old
        · subst new
          right
          rw [named]
          exact ⟨by simpa using inactive, Download.reputation_start started⟩
        · exact .inl (unchanged (mem_supersede.mp old).1)

theorem reputation_settle (fetcher : Fetcher) (operation : Operation) (now : Nat)
    (member : download ∈ (fetcher.settle operation now).fetcher.downloads) :
    (∃ former ∈ fetcher.downloads, former.file = download.file ∧
      download.reputation = (fetcher.reports operation now download.file).foldl
        (Reputation.take now) former.reputation) ∨
      fetcher.isActive download.file = false ∧
        download.reputation = .fresh fetcher.options.downloadRetry := by
  cases operation with
  | join peer =>
    left
    have kept : (fetcher.join peer).downloads = fetcher.downloads := by
      unfold join
      split <;> rfl
    exact judged_of_subset now (fun _ member => kept ▸ member) download member
  | leave peer => exact .inl (judged_leave fetcher peer now download member)
  | request file path => exact reputation_request fetcher file path member
  | cancel file =>
    exact .inl (judged_of_subset now (fun _ member => (mem_drop.mp member).1) download
      member)
  | deliver file extent data peer =>
    exact .inl (judged_deliver fetcher file extent data peer now download member)
  | miss file extent peer =>
    exact .inl (judged_miss fetcher file extent.index peer now download member)
  | tick => exact .inl (judged_expire fetcher now download member)

section Sending

variable {Memory : Type} {scheduler : Scheduler Memory} {memory : Memory} {final : Fetcher}
variable {picks : List Pick} {pick : Pick} {last : Option Pick}

theorem judged_issue? (issued : fetcher.issue? pick now = some next) :
    Judged now (fun _ => []) fetcher next ∧ next.peers = fetcher.peers ∧
      next.downloads.map Download.file = fetcher.downloads.map Download.file := by
  obtain ⟨download, coverage, found, _, _, result⟩ := issue?_cases issued
  have kept : Judged now (fun _ => []) fetcher (fetcher.replace { download with coverage }) :=
    judged_replace (mem_of_download? found).1 rfl rfl (fun _ _ => rfl)
  subst result
  exact ⟨kept, rfl, files_replace fetcher _⟩

theorem Sends.judged (sends : Sends scheduler now fetcher memory picks final last) :
    Judged now (fun _ => []) fetcher final ∧ final.peers = fetcher.peers ∧
      final.downloads.map Download.file = fetcher.downloads.map Download.file := by
  induction sends with
  | ended => exact ⟨judged_of_subset _ (fun _ member => member), rfl, rfl⟩
  | sent _ issued _ ih =>
    obtain ⟨first, peers, files⟩ := judged_issue? issued
    obtain ⟨later, same, alike⟩ := ih
    exact ⟨first.trans later, same.trans peers, alike.trans files⟩

theorem Adds.judged {turn : Turn Memory} {settled : Settled}
    (adds : Adds scheduler now settled memory turn) :
    Judged now (fun _ => []) settled.fetcher turn.fetcher ∧
      turn.fetcher.downloads.map Download.file = settled.fetcher.downloads.map Download.file := by
  cases adds with
  | nothing _ same => exact ⟨judged_of_subset _ (fun _ member => same ▸ member), by rw [same]⟩
  | requests _ sends => exact ⟨sends.judged.1, sends.judged.2.2⟩

/-- Whatever is sent after an operation, only its reports change what is known of the peers. -/
theorem reputation_step (scheduler : Scheduler Memory) (memory : Memory)
    (consistent : Consistent [] fetcher) (operation : Operation) (now : Nat)
    (member : download ∈ (fetcher.step scheduler memory operation now).fetcher.downloads) :
    (∃ former ∈ fetcher.downloads, former.file = download.file ∧
      download.reputation = (fetcher.reports operation now download.file).foldl
        (Reputation.take now) former.reputation) ∨
      fetcher.isActive download.file = false ∧
        download.reputation = .fresh fetcher.options.downloadRetry := by
  obtain ⟨between, settled, same, kept⟩ :=
    (adds_step scheduler memory consistent operation now).1.judged.1 download member
  rw [← same]
  have kept : download.reputation = between.reputation := kept
  rw [kept]
  exact reputation_settle fetcher operation now settled

end Sending

end Fetcher

end ChunkExchange
