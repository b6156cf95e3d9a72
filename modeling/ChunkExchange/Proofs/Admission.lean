import ChunkExchange.Proofs.GreedyChoice
import ChunkExchange.Proofs.History

namespace ChunkExchange

namespace Fetch

/-- A request that asks a known peer for one chunk of a file. -/
structure Pick.Proper (pick : Pick) (options : Options) (peers : List Peer) : Prop where
  known : pick.peer ∈ peers
  index : pick.extent.index < pick.file.chunkCount options.chunkSize
  extent : pick.extent = pick.file.extent pick.extent.index options.chunkSize

end Fetch

def Ticket.pick (ticket : Ticket) : Fetch.Pick :=
  { file := ticket.file, extent := ticket.extent, peer := ticket.peer }

namespace Fetcher

open Fetch (Operation Pick Scheduler Greedy)

/-- The requests without an answer are within the bounds of the options and as they were sent. -/
structure Admitted (options : Options) (fetcher : Fetcher) : Prop where
  total : fetcher.tickets.length ≤ options.maxParallelChunks
  perFile : ∀ file, fetcher.tickets.countP (fun ticket => ticket.file == file) ≤
    options.maxParallelPerFile
  perPeer : ∀ peer, fetcher.tickets.countP (fun ticket => ticket.peer == peer) ≤
    options.maxParallelPerPeer
  proper : ∀ ticket ∈ fetcher.tickets, ticket.pick.Proper options fetcher.peers
  first : ∀ ticket ∈ fetcher.tickets,
    ticket.attempts = 1 ∧ ticket.expires = ticket.created + options.requestTimeout

/-- The later fetcher has lost some requests, and still knows the peers of the others. -/
structure Sheds (before after : Fetcher) : Prop where
  tickets : after.tickets.Sublist before.tickets
  known : ∀ ticket ∈ after.tickets, ticket.peer ∈ before.peers → ticket.peer ∈ after.peers

variable {options : Options} {fetcher before after next : Fetcher} {pick : Pick} {now : Nat}

theorem Sheds.of_peers (tickets : after.tickets.Sublist before.tickets)
    (peers : after.peers = before.peers) : Sheds before after :=
  ⟨tickets, fun _ _ known => peers ▸ known⟩

private theorem foldl_giveBack_eq (abandoned : List Ticket) (fetcher : Fetcher) :
    ∃ downloads, abandoned.foldl giveBack fetcher = { fetcher with downloads } := by
  induction abandoned generalizing fetcher with
  | nil => exact ⟨_, rfl⟩
  | cons ticket rest ih =>
    obtain ⟨first, once⟩ : ∃ downloads, fetcher.giveBack ticket = { fetcher with downloads } := by
      unfold giveBack
      split
      · split <;> exact ⟨_, rfl⟩
      · exact ⟨_, rfl⟩
    obtain ⟨last, whole⟩ := ih { fetcher with downloads := first }
    exact ⟨last, by rw [List.foldl_cons, once, whole]⟩

theorem leave_eq (fetcher : Fetcher) (peer : Peer) :
    ∃ downloads, fetcher.leave peer =
      { fetcher with
        downloads
        peers := fetcher.peers.filter (fun other => !(other == peer))
        tickets := fetcher.tickets.filter (fun ticket => !(ticket.peer == peer)) } :=
  foldl_giveBack_eq (fetcher.tickets.filter (fun ticket => ticket.peer == peer))
    { fetcher with
      downloads := fetcher.downloads.map (·.forget peer)
      peers := fetcher.peers.filter (fun other => !(other == peer))
      tickets := fetcher.tickets.filter (fun ticket => !(ticket.peer == peer)) }

theorem foldl_timeOut_eq (expired : List Ticket) (now : Nat) (fetcher : Fetcher)
    (refusal : Option Rejection) :
    ∃ downloads, (expired.foldl (timeOut now) { fetcher, refusal }).fetcher =
      { fetcher with downloads } := by
  induction expired generalizing fetcher refusal with
  | nil => exact ⟨_, rfl⟩
  | cons ticket rest ih =>
    obtain ⟨first, again, once⟩ : ∃ downloads again, timeOut now { fetcher, refusal } ticket =
        { fetcher := { fetcher with downloads }, refusal := again } := by
      unfold timeOut
      split <;> exact ⟨_, _, rfl⟩
    obtain ⟨last, whole⟩ := ih { fetcher with downloads := first } again
    exact ⟨last, by rw [List.foldl_cons, once, whole]⟩

private theorem sheds_join (fetcher : Fetcher) (peer : Peer) :
    Sheds fetcher (fetcher.join peer) := by
  unfold join
  split
  · exact .of_peers (.refl _) rfl
  · exact ⟨.refl _, fun _ _ known => List.mem_append_left _ known⟩

private theorem sheds_leave (fetcher : Fetcher) (peer : Peer) :
    Sheds fetcher (fetcher.leave peer) := by
  obtain ⟨downloads, same⟩ := leave_eq fetcher peer
  rw [same]
  refine ⟨List.filter_sublist, ?_⟩
  intro ticket listed known
  exact List.mem_filter.mpr ⟨known, (List.mem_filter.mp listed).2⟩

private theorem sheds_drop (fetcher : Fetcher) (file : File) : Sheds fetcher (fetcher.drop file) :=
  .of_peers List.filter_sublist rfl

private theorem sheds_supersede (fetcher : Fetcher) (file : File) :
    Sheds fetcher (fetcher.supersede file) := by
  obtain ⟨_, peers, _, tickets⟩ := foldl_drop
    ((fetcher.downloads.map Download.file).filter (fun other => other.id == file.id)) fetcher
  exact .of_peers (tickets ▸ List.filter_sublist) peers

private theorem sheds_request (fetcher : Fetcher) (file : File) (path : String) :
    Sheds fetcher (fetcher.settleRequest file path).fetcher := by
  have superseded := sheds_supersede fetcher file
  unfold settleRequest activate
  split
  · exact .of_peers (.refl _) rfl
  · cases Download.start file path fetcher.options.chunkSize fetcher.options.downloadRetry with
    | error fault => exact .of_peers (.refl _) rfl
    | ok download =>
      simp only [bind, Except.bind, pure, Except.pure]
      cases download.isComplete with
      | true => exact superseded
      | false => exact ⟨superseded.tickets, superseded.known⟩

private theorem sheds_deliver (fetcher : Fetcher) (file : File) (extent : Extent) (data : Bytes)
    (peer : Peer) (now : Nat) :
    Sheds fetcher (fetcher.settleDelivery file extent data peer now).fetcher := by
  unfold settleDelivery
  split
  · rename_i change received
    rcases receive_cases received with ignored | ⟨download, _, pending, _, _, stored⟩
    · subst ignored
      exact .of_peers (.refl _) rfl
    · obtain ⟨_, _, _, result⟩ := store_of_pending pending fetcher data peer now
      rw [result] at stored
      cases stored
      unfold arrival
      dsimp only
      split
      · exact .of_peers (List.filter_sublist.trans List.filter_sublist) rfl
      · exact .of_peers List.filter_sublist rfl
  · exact .of_peers (.refl _) rfl

private theorem sheds_miss (fetcher : Fetcher) (file : File) (index : Nat) (peer : Peer)
    (now : Nat) : Sheds fetcher (fetcher.miss file index peer now).fetcher := by
  unfold miss
  split
  · exact .of_peers (.refl _) rfl
  · dsimp only
    split
    · exact .of_peers (.refl _) rfl
    · exact .of_peers List.eraseP_sublist rfl

private theorem sheds_expire (fetcher : Fetcher) (now : Nat) :
    Sheds fetcher (fetcher.expire now).fetcher := by
  unfold expire
  obtain ⟨downloads, same⟩ := foldl_timeOut_eq (fetcher.tickets.filter (·.isExpired now)) now
    { fetcher with tickets := fetcher.tickets.filter (fun ticket => !ticket.isExpired now) } none
  simp only [same]
  exact .of_peers List.filter_sublist rfl

/-- No operation by itself adds a request. -/
theorem sheds_settle (fetcher : Fetcher) (operation : Operation) (now : Nat) :
    Sheds fetcher (fetcher.settle operation now).fetcher := by
  cases operation with
  | join peer => exact sheds_join fetcher peer
  | leave peer => exact sheds_leave fetcher peer
  | request file path => exact sheds_request fetcher file path
  | cancel file => exact sheds_drop fetcher file
  | deliver file extent data peer => exact sheds_deliver fetcher file extent data peer now
  | miss file extent peer => exact sheds_miss fetcher file extent.index peer now
  | tick => exact sheds_expire fetcher now

theorem Admitted.shed (admitted : Admitted options before) (sheds : Sheds before after) :
    Admitted options after where
  total := Nat.le_trans sheds.tickets.length_le admitted.total
  perFile file := Nat.le_trans sheds.tickets.countP_le (admitted.perFile file)
  perPeer peer := Nat.le_trans sheds.tickets.countP_le (admitted.perPeer peer)
  proper ticket listed :=
    have proper := admitted.proper ticket (sheds.tickets.subset listed)
    ⟨sheds.known ticket listed proper.known, proper.index, proper.extent⟩
  first ticket listed := admitted.first ticket (sheds.tickets.subset listed)

theorem proper_of_chosen (configured : fetcher.options = options)
    (consistent : Consistent [] fetcher)
    (chosen : (Greedy.ofOptions options).choose (fetcher.view now) = some pick)
    (issued : fetcher.issue? pick now = some next) : pick.Proper options fetcher.peers := by
  obtain ⟨_, eligible, _, extent⟩ := Greedy.choose_eq_some chosen
  obtain ⟨download, _, found, waits, _⟩ := issue?_cases issued
  obtain ⟨member, same⟩ := mem_of_download? found
  have bound := Coverage.lt_count_of_isIn waits
  rw [(consistent.sound download member).count, same, configured] at bound
  exact ⟨eligible.known, bound, extent⟩

theorem Admitted.issue (admitted : Admitted options fetcher)
    (configured : fetcher.options = options) (consistent : Consistent [] fetcher)
    (chosen : (Greedy.ofOptions options).choose (fetcher.view now) = some pick)
    (issued : fetcher.issue? pick now = some next) :
    Admitted options next ∧ next.peers = fetcher.peers := by
  have proper := proper_of_chosen configured consistent chosen issued
  obtain ⟨room, eligible, _, _⟩ := Greedy.choose_eq_some chosen
  obtain ⟨download, coverage, _, _, _, result⟩ := issue?_cases issued
  have tickets : next.tickets = fetcher.tickets ++
      [Ticket.first pick.file pick.extent pick.peer now options.requestTimeout] := by
    rw [result, configured]
  have peers : next.peers = fetcher.peers := by
    rw [result]
    rfl
  refine ⟨⟨?_, ?_, ?_, ?_, ?_⟩, peers⟩
  · rw [tickets, List.length_append]
    exact room
  · intro file
    rw [tickets, List.countP_append, List.countP_singleton]
    split
    · rename_i same
      exact beq_iff_eq.mp same ▸ eligible.fileRoom
    · exact admitted.perFile file
  · intro peer
    rw [tickets, List.countP_append, List.countP_singleton]
    split
    · rename_i same
      exact beq_iff_eq.mp same ▸ eligible.peerRoom
    · exact admitted.perPeer peer
  · intro ticket listed
    rw [peers]
    rw [tickets] at listed
    rcases List.mem_append.mp listed with old | new
    · exact admitted.proper ticket old
    · cases List.mem_singleton.mp new
      exact proper
  · intro ticket listed
    rw [tickets] at listed
    rcases List.mem_append.mp listed with old | new
    · exact admitted.first ticket old
    · cases List.mem_singleton.mp new
      exact ⟨rfl, rfl⟩

/-- The bounds hold after every request, and all requests are proper. -/
theorem Sends.admitted {memory : Unit} {picks : List Pick} {final : Fetcher} {last : Option Pick}
    (sends : Sends (Greedy.ofOptions options).scheduler now fetcher memory picks final last)
    (configured : fetcher.options = options) (consistent : Consistent [] fetcher)
    (admitted : Admitted options fetcher) :
    Admitted options final ∧ final.peers = fetcher.peers ∧
      ∀ pick ∈ picks, pick.Proper options fetcher.peers := by
  induction sends with
  | ended => exact ⟨admitted, rfl, by simp⟩
  | @sent fetcher next final memory pick picks last chosen issued _ ih =>
    have proper := proper_of_chosen configured consistent chosen issued
    obtain ⟨within, peers⟩ := admitted.issue configured consistent chosen issued
    obtain ⟨kept, continues⟩ := consistent_issue? consistent issued
    obtain ⟨whole, same, others⟩ := ih (continues.options.trans configured) kept within
    refine ⟨whole, same.trans peers, ?_⟩
    intro other listed
    rcases List.mem_cons.mp listed with first | later
    · exact first ▸ proper
    · exact peers ▸ others other later

end Fetcher

namespace Fetch

namespace History

variable {options : Options} {history : History Unit}

theorem admitted_event (lawful : history.Lawful (Greedy.ofOptions options).scheduler options)
    (admitted : history.fetcher.Admitted options) (operation : Operation) (now : Nat) :
    let event := history.event (Greedy.ofOptions options).scheduler operation now
    event.after.Admitted options ∧
      ∀ pick, .get pick ∈ event.effects → pick.Proper options event.after.peers := by
  obtain ⟨settles, kept⟩ := Fetcher.settles_settle lawful.consistent operation now
  obtain ⟨adds, _⟩ := Fetcher.adds_step (Greedy.ofOptions options).scheduler history.memory
    lawful.consistent operation now
  have settled := admitted.shed (Fetcher.sheds_settle history.fetcher operation now)
  simp only [event]
  cases adds with
  | nothing _ same effects =>
    rw [same, effects]
    exact ⟨settled, fun pick listed => absurd rfl (settles.ne_get listed pick)⟩
  | requests _ sends effects =>
    obtain ⟨within, peers, proper⟩ :=
      sends.admitted (settles.options.trans lawful.configured) kept settled
    rw [peers, effects]
    refine ⟨within, ?_⟩
    intro pick listed
    rcases List.mem_append.mp listed with before | sent
    · exact absurd rfl (settles.ne_get before pick)
    · exact proper pick (by simpa using sent)

theorem admitted_run (options : Options) (commands : List (Operation × Nat)) :
    (run (Greedy.ofOptions options).scheduler options () commands).fetcher.Admitted options :=
  (run_induction (motive := fun history =>
      history.Lawful (Greedy.ofOptions options).scheduler options ∧
        history.fetcher.Admitted options)
    ⟨lawful_start, by constructor <;> simp [start, Fetcher.empty]⟩
    (fun _ operation now ⟨lawful, admitted⟩ =>
      ⟨lawful.next operation now, (admitted_event lawful admitted operation now).1⟩) commands).2

end History

/-- A run keeps to the bounds of its options: what it waits for, and all that it ever asked for. -/
structure History.Admits (options : Options) (history : History Unit) : Prop where
  waits : history.fetcher.Admitted options
  asked : ∀ event ∈ history.events, ∀ pick, .get pick ∈ event.effects →
    pick.Proper options event.after.peers

/-- After any operations at any times the bounds of the options hold, also where they are zero, and
every request without an answer, like every request ever sent, asks a known peer for a whole
chunk. -/
theorem admission_bounds (options : Options) (commands : List (Operation × Nat)) :
    (History.run (Greedy.ofOptions options).scheduler options () commands).Admits options := by
  refine ⟨History.admitted_run options commands, ?_⟩
  intro event member
  obtain ⟨front, operation, now, same⟩ := History.event_of_mem member
  rw [same]
  exact (History.admitted_event (History.lawful_run _ options () front)
    (History.admitted_run options front) operation now).2

end Fetch

end ChunkExchange
