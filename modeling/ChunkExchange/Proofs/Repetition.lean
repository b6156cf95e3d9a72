import ChunkExchange.Proofs.Timeouts

/-! With the greedy scheduler an operation that is repeated at the same moment comes to nothing:
what it settles is settled, and the scheduler has declined already. Requests are excepted, and
deliveries that were refused, since the scheduler may ask for the chunk right after. -/

namespace ChunkExchange

namespace Reputation

private theorem forget_forget (reputation : Reputation) (peer : Peer) :
    (reputation.forget peer).forget peer = reputation.forget peer := by
  simp only [forget, List.filter_filter, Bool.and_self]

private theorem put_put (reputation : Reputation) (peer : Peer) (first second : Standing) :
    (reputation.put peer first).put peer second = reputation.put peer second := by
  have skipped : ((reputation.put peer first).forget peer).standings =
      (reputation.forget peer).standings := by
    simp only [put, forget]
    rw [List.filter_cons_of_neg (by simp), List.filter_filter]
    simp only [Bool.and_self]
  unfold put at skipped ⊢
  rw [skipped]

/-- A failure that is reported again at the same moment is no news. -/
private theorem report_report (reputation : Reputation) (peer : Peer) (now : Nat) :
    (reputation.report peer false now).report peer false now =
      reputation.report peer false now := by
  have standing : (reputation.report peer false now).standing? peer =
      some (((reputation.standing? peer).getD .fresh).blame reputation.backoff now) :=
    standing?_put ..
  rw [report, standing, Option.getD_some]
  change (reputation.report peer false now).put peer
    ((((reputation.standing? peer).getD .fresh).blame reputation.backoff now).blame
      reputation.backoff now) = _
  rw [Standing.blame_blame, report, put_put]
  rfl

private theorem availability_failed (reputation : Reputation) (peer : Peer) (now : Nat) :
    (reputation.report peer false now).availability peer now = .unavailable := by
  have failed : Report.failed peer ∈ [Report.failed peer] := List.mem_singleton.mpr rfl
  obtain ⟨window, still, aside⟩ :=
    aside_foldl_take reputation now failed (by simp [Report.pardons])
  exact availability_of_aside aside still

end Reputation

namespace Fetcher

open Fetch (Operation Reply Scheduler Greedy Pick)

/-- By itself an operation changes nothing, and it asks the scheduler. -/
structure Unmoved (fetcher : Fetcher) (operation : Operation) (now : Nat) : Prop where
  same : (fetcher.settle operation now).fetcher = fetcher
  silent : (fetcher.settle operation now).effects = []
  dispatches : (fetcher.settle operation now).dispatches = true

variable {Memory : Type} {scheduler : Scheduler Memory} {memory : Memory} {options : Options}
variable {fetcher final : Fetcher} {download : Download} {file : File} {peer : Peer}
variable {extent : Extent} {data : Bytes} {index now : Nat} {operation : Operation}
variable {picks : List Pick} {last : Option Pick}

/-- Where the scheduler declines, an operation that changes nothing by itself changes nothing. -/
theorem Unmoved.step (unmoved : fetcher.Unmoved operation now) (scheduler : Scheduler Memory)
    (memory : Memory)
    (declined : (scheduler.choose memory (fetcher.view now)).1 = none) :
    (fetcher.step scheduler memory operation now).fetcher = fetcher ∧
      (fetcher.step scheduler memory operation now).effects = [] := by
  rw [step_of_dispatches scheduler memory unmoved.dispatches]
  simp only [unmoved.same, unmoved.silent, dispatch]
  rw [dispatchWithin_of_unsent _ (by rw [declined]; rfl)]
  exact ⟨rfl, rfl⟩

private theorem replace_self (distinct : Distinct fetcher.downloads)
    (member : download ∈ fetcher.downloads) : fetcher.replace download = fetcher := by
  obtain ⟨front, back, whole, replaced, _⟩ := split_of_mem distinct member
  have same : (fetcher.replace download).downloads = fetcher.downloads :=
    (replaced download rfl).trans whole.symm
  change { fetcher with downloads := (fetcher.replace download).downloads } = fetcher
  rw [same]

private theorem drop_of_inactive (consistent : Consistent [] fetcher)
    (inactive : fetcher.isActive file = false) : fetcher.drop file = fetcher := by
  have others := isActive_eq_false_iff.mp inactive
  have downloads : fetcher.downloads.filter (fun download => !(download.file == file)) =
      fetcher.downloads := by
    rw [List.filter_eq_self]
    intro download member
    simpa using others download member
  have tickets : fetcher.tickets.filter (fun ticket => !(ticket.file == file)) =
      fetcher.tickets := by
    rw [List.filter_eq_self]
    intro ticket listed
    simpa using consistent.ticket_ne inactive ticket listed
  unfold drop
  rw [downloads, tickets]

private theorem expire_of_lasting
    (lasting : ∀ ticket ∈ fetcher.tickets, ticket.isExpired now = false) :
    fetcher.expire now = { fetcher, refusal := none } := by
  have kept : fetcher.tickets.filter (fun ticket => !ticket.isExpired now) = fetcher.tickets := by
    rw [List.filter_eq_self]
    intro ticket listed
    rw [lasting ticket listed]
    rfl
  have expired : fetcher.tickets.filter (fun ticket => ticket.isExpired now) = [] := by
    rw [List.filter_eq_nil_iff]
    intro ticket listed
    simp [lasting ticket listed]
  unfold expire
  rw [kept, expired]
  rfl

private theorem leave_of_unknown (unknown : peer ∉ fetcher.peers)
    (unasked : ∀ ticket ∈ fetcher.tickets, ticket.peer ≠ peer)
    (forgotten : ∀ download ∈ fetcher.downloads, download.forget peer = download) :
    fetcher.leave peer = fetcher := by
  have abandoned : fetcher.tickets.filter (fun ticket => ticket.peer == peer) = [] := by
    rw [List.filter_eq_nil_iff]
    intro ticket listed
    simpa using unasked ticket listed
  have tickets : fetcher.tickets.filter (fun ticket => !(ticket.peer == peer)) =
      fetcher.tickets := by
    rw [List.filter_eq_self]
    intro ticket listed
    simpa using unasked ticket listed
  have peers : fetcher.peers.filter (fun other => !(other == peer)) = fetcher.peers := by
    rw [List.filter_eq_self]
    intro other known
    simpa using fun same : other = peer => unknown (same ▸ known)
  have downloads : fetcher.downloads.map (·.forget peer) = fetcher.downloads :=
    (List.map_congr_left forgotten).trans (List.map_id _)
  unfold leave
  rw [abandoned, tickets, peers, downloads]
  rfl

private theorem tickets_leave (fetcher : Fetcher) (peer : Peer) :
    (fetcher.leave peer).tickets =
      fetcher.tickets.filter (fun ticket => !(ticket.peer == peer)) := by
  obtain ⟨downloads, same⟩ := leave_eq fetcher peer
  rw [same]

private theorem miss_of_blamed (distinct : Distinct fetcher.downloads)
    (blamed : ∀ download ∈ fetcher.downloads, download.file = file →
      download.reputation.report peer false now = download.reputation)
    (unasked : ∀ ticket ∈ fetcher.tickets, ticket.matchesKey file index peer = false) :
    fetcher.miss file index peer now = { fetcher, refusal := none } := by
  have stale : fetcher.tickets.any (fun ticket => ticket.matchesKey file index peer) = false := by
    simpa using unasked
  have kept : fetcher.tickets.eraseP (fun ticket => ticket.matchesKey file index peer) =
      fetcher.tickets := List.eraseP_of_forall_not (by simpa using unasked)
  unfold miss
  split
  · rfl
  · rename_i download found
    obtain ⟨member, named⟩ := mem_of_download? found
    have same : download.report peer false now = download := by
      unfold Download.report
      rw [blamed download member named]
    simp only [stale, Download.missing, Bool.false_eq_true, ↓reduceIte, same, kept,
      replace_self distinct member]

private theorem tickets_miss (consistent : Consistent [] fetcher) (file : File) (index : Nat)
    (peer : Peer) (now : Nat) : (fetcher.miss file index peer now).fetcher.tickets =
      fetcher.tickets.eraseP (fun ticket => ticket.matchesKey file index peer) := by
  have accepted := (consistent_miss consistent file index peer now).1
  unfold miss at accepted ⊢
  split at accepted
  · rename_i inactive
    symm
    apply List.eraseP_of_forall_not
    intro ticket listed matching
    obtain ⟨wanted, _⟩ := Ticket.matchesKey_iff.mp matching
    exact consistent.ticket_ne (by rw [isActive, inactive]; rfl) ticket listed
      (Ticket.isFor_iff.mp wanted).2
  · dsimp only at accepted ⊢
    split at accepted
    · cases accepted
    · rfl

private theorem reputation_miss
    (member : download ∈ (fetcher.miss file index peer now).fetcher.downloads)
    (named : download.file = file) :
    ∃ former : Reputation, download.reputation = former.report peer false now := by
  obtain ⟨former, _, _, reputation⟩ := judged_miss fetcher file index peer now download member
  rw [reportOn, if_pos named.symm] at reputation
  exact ⟨former.reputation, reputation⟩

/-- The answer to a request ends it, and a chunk has no second one. -/
private theorem unanswered_miss (consistent : Consistent [] fetcher) {ticket : Ticket}
    (listed : ticket ∈ (fetcher.miss file index peer now).fetcher.tickets) :
    ticket.matchesKey file index peer = false := by
  have single : fetcher.tickets.countP (fun ticket => ticket.matchesKey file index peer) ≤ 1 :=
    Nat.le_trans
      (List.countP_mono_left fun _ _ matching => (Ticket.matchesKey_iff.mp matching).1)
      (consistent.countP_isFor_le file index)
  rw [tickets_miss consistent] at listed
  have unanswered := unselected_of_mem_eraseP single listed
  exact unanswered

/-- A chunk of a file has arrived, or the file is not active. -/
def Arrived (fetcher : Fetcher) (file : File) (index : Nat) : Prop :=
  ∀ download ∈ fetcher.downloads, download.file = file →
    download.coverage.isIn index .received = true

theorem Arrived.continues (arrived : fetcher.Arrived file index)
    (continues : fetcher.Continues final) : final.Arrived file index := by
  intro download member named
  obtain ⟨former, original, kin⟩ := continues.downloads download member
  rw [kin.arrived]
  exact arrived former original (kin.file.symm.trans named)

private theorem Arrived.not_due (arrived : fetcher.Arrived file extent.index) :
    ¬ fetcher.Due file extent := by
  rintro ⟨pending, _⟩
  obtain ⟨download, found, asked⟩ := Option.bind_eq_some_iff.mp pending
  obtain ⟨member, named⟩ := mem_of_download? found
  cases Coverage.eq_of_isIn (arrived download member named) (Coverage.isIn_iff.mpr asked)

private theorem arrived_of_told {notices : List Notice} (consistent : Consistent [] fetcher)
    (told : (fetcher.settleDelivery file extent data peer now).reply = .told notices) :
    (fetcher.settleDelivery file extent data peer now).fetcher.Arrived file extent.index := by
  obtain ⟨settles, _⟩ := settles_deliver consistent file extent data peer now
  have reception := reception_deliver consistent file extent data peer now
  generalize fetcher.settleDelivery file extent data peer now = settled
    at told settles reception ⊢
  cases reception with
  | inactive inactive =>
    intro download member named
    exact absurd named (isActive_eq_false_iff.mp inactive download member)
  | arrived arrived =>
    intro download member named
    subst named
    rw [chunk?_of_found (download?_of_mem consistent.distinct member)] at arrived
    exact Coverage.isIn_iff.mpr arrived
  | beyond | unasked | misplaced => cases told
  | accepted _ accepted some =>
    cases settles with
    | quiet silent =>
      rw [accepted] at silent
      exact absurd silent some
    | arrived _ _ _ _ same _ moved _ downloads =>
      intro other member named
      rw [downloads] at member
      rcases mem_replace.mp member with ⟨_, different⟩ | ⟨rfl, _⟩
      · exact absurd (named.trans same.symm) different
      · exact Coverage.isIn_move_self moved
    | finished =>
      intro other member named
      exact absurd named (mem_drop.mp member).2

private theorem unmoved_join
    (sends : Sends scheduler now (fetcher.join peer) memory picks final last) :
    final.Unmoved (.join peer) now := by
  have known : peer ∈ (fetcher.join peer).peers := by
    unfold join
    split
    · assumption
    · simp
  have still : final.join peer = final := if_pos (sends.judged.2.1 ▸ known)
  exact ⟨still, rfl, rfl⟩

private theorem unmoved_tick
    (sends : Sends scheduler now (fetcher.expire now).fetcher memory picks final last) :
    final.Unmoved .tick now := by
  have still := expire_of_lasting (lasting_expire sends)
  exact ⟨by simp only [settle, still], rfl, rfl⟩

private theorem unmoved_leave {memory : Unit}
    (sends : Sends (Greedy.ofOptions options).scheduler now (fetcher.leave peer) memory picks final
      last) :
    final.Unmoved (.leave peer) now := by
  have unknown : peer ∉ (fetcher.leave peer).peers := by
    rw [peers_leave]
    simp
  have still : final.leave peer = final := by
    apply leave_of_unknown
    · rw [sends.judged.2.1]
      exact unknown
    · intro ticket listed same
      rw [sends.tickets, tickets_leave] at listed
      rcases List.mem_append.mp listed with kept | new
      · simpa [same] using (List.mem_filter.mp kept).2
      · obtain ⟨pick, picked, rfl⟩ := List.mem_map.mp new
        exact unknown (same ▸ (sends.promising picked).1)
    · intro download member
      obtain ⟨between, settled, _, later⟩ := sends.judged.1 download member
      obtain ⟨former, _, _, left⟩ := judged_leave fetcher peer now between settled
      have reputation : download.reputation = former.reputation.forget peer := later.trans left
      unfold Download.forget
      rw [reputation, Reputation.forget_forget, ← reputation]
  exact ⟨still, rfl, rfl⟩

section Consistent

variable (consistent : Consistent [] fetcher)

include consistent

private theorem unmoved_cancel
    (sends : Sends scheduler now (fetcher.drop file) memory picks final last) :
    final.Unmoved (.cancel file) now := by
  obtain ⟨kept, _⟩ := sends.consistent (consistent_drop consistent file)
  have gone : (fetcher.drop file).isActive file = false :=
    isActive_eq_false_iff.mpr fun _ member => (mem_drop.mp member).2
  have inactive := (isActive_of_files sends.judged.2.2).trans gone
  exact ⟨drop_of_inactive kept inactive, rfl, rfl⟩

/-- Once a peer is reported no request for the chunk waits for it, and its failure is known. -/
private theorem unmoved_miss {memory : Unit}
    (sends : Sends (Greedy.ofOptions options).scheduler now
      (fetcher.miss file extent.index peer now).fetcher memory picks final last) :
    final.Unmoved (.miss file extent peer) now := by
  obtain ⟨_, settled, _⟩ := consistent_miss consistent file extent.index peer now
  have kept := (sends.consistent settled).1
  have still : final.miss file extent.index peer now = { fetcher := final, refusal := none } := by
    apply miss_of_blamed kept.distinct
    · intro download member named
      obtain ⟨between, present, same, reputation⟩ := sends.judged.1 download member
      obtain ⟨former, blamed⟩ := reputation_miss present (same.trans named)
      have reputation : download.reputation = between.reputation := reputation
      rw [reputation, blamed, Reputation.report_report]
    · intro ticket listed
      rw [sends.tickets] at listed
      rcases List.mem_append.mp listed with old | new
      · exact unanswered_miss consistent old
      · -- The chunk may be asked for again at once, but not of the peer that was just reported.
        obtain ⟨pick, picked, rfl⟩ := List.mem_map.mp new
        obtain ⟨_, download, member, named, promising⟩ := sends.promising picked
        apply Bool.eq_false_iff.mpr
        intro again
        obtain ⟨wanted, asked⟩ := Ticket.matchesKey_iff.mp again
        obtain ⟨former, blamed⟩ :=
          reputation_miss member (named.trans (Ticket.isFor_iff.mp wanted).2)
        apply promising
        rw [blamed]
        exact asked ▸ Reputation.availability_failed former _ now
  exact ⟨by simp only [settle, still], rfl, rfl⟩

private theorem unmoved_deliver {notices : List Notice}
    (told : (fetcher.settleDelivery file extent data peer now).reply = .told notices)
    (sends : Sends scheduler now (fetcher.settleDelivery file extent data peer now).fetcher memory
      picks final last) :
    final.Unmoved (.deliver file extent data peer) now := by
  obtain ⟨_, settled⟩ := settles_deliver consistent file extent data peer now
  obtain ⟨kept, continues⟩ := sends.consistent settled
  have undue := ((arrived_of_told consistent told).continues continues).not_due
  have reception := reception_deliver kept file extent data peer now
  obtain ⟨same, silent⟩ := reception.harmless undue
  exact ⟨same, silent, reception.dispatches⟩

end Consistent

/-- What may be repeated: a delivery unless it was refused, and all else but requests. -/
def Repeatable (reply : Reply) : Operation → Prop
  | .request _ _ => False
  | .deliver _ _ _ _ => ∃ notices, reply = .told notices
  | .join _ | .leave _ | .cancel _ | .miss _ _ _ | .tick => True

theorem Repeatable.dispatches
    (repeatable : Repeatable (fetcher.settle operation now).reply operation) :
    (fetcher.settle operation now).dispatches = true := by
  cases operation with
  | request => exact repeatable.elim
  | deliver file extent data peer => exact dispatches_deliver fetcher file extent data peer now
  | join | leave | cancel | miss | tick => rfl

private theorem unmoved_settle {memory : Unit} (consistent : Consistent [] fetcher)
    (repeatable : Repeatable (fetcher.settle operation now).reply operation)
    (sends : Sends (Greedy.ofOptions options).scheduler now (fetcher.settle operation now).fetcher
      memory picks final last) :
    final.Unmoved operation now := by
  cases operation with
  | request file path => exact repeatable.elim
  | join peer => exact unmoved_join sends
  | leave peer => exact unmoved_leave sends
  | cancel file => exact unmoved_cancel consistent sends
  | miss file extent peer => exact unmoved_miss consistent sends
  | tick => exact unmoved_tick sends
  | deliver file extent data peer =>
    obtain ⟨notices, told⟩ := repeatable
    exact unmoved_deliver consistent told sends

end Fetcher

namespace Fetch

/-- An event changes nothing, and sends, writes and closes nothing. -/
structure Event.Idles (event : Event) : Prop where
  same : event.after = event.before
  silent : event.effects = []

/-- In every reachable state of a fetching side with the greedy scheduler, and at any time. -/
theorem repetition_idle (options : Options) (commands : List (Operation × Nat))
    (operation : Operation) (now : Nat)
    (repeatable : Fetcher.Repeatable
      ((History.run (Greedy.ofOptions options).scheduler options () commands).event
        (Greedy.ofOptions options).scheduler operation now).reply operation) :
    ((History.run (Greedy.ofOptions options).scheduler options ()
      (commands ++ [(operation, now)])).event (Greedy.ofOptions options).scheduler operation
        now).Idles := by
  rw [History.run_append_singleton]
  have lawful := History.lawful_run (Greedy.ofOptions options).scheduler options () commands
  generalize History.run (Greedy.ofOptions options).scheduler options () commands = history
    at lawful repeatable ⊢
  have settled := (Fetcher.settles_settle lawful.consistent operation now).2
  obtain ⟨adds, reply⟩ := Fetcher.adds_step (Greedy.ofOptions options).scheduler history.memory
    lawful.consistent operation now
  have repeatable : Fetcher.Repeatable (history.fetcher.settle operation now).reply operation :=
    reply ▸ repeatable
  cases adds with
  | nothing refused =>
    rw [repeatable.dispatches] at refused
    cases refused
  | requests _ sends _ =>
    -- The scheduler remembers nothing, so it declines once more.
    obtain ⟨same, silent⟩ := (Fetcher.unmoved_settle lawful.consistent repeatable sends).step
      (Greedy.ofOptions options).scheduler () (sends.declined settled).2
    exact ⟨same, silent⟩

/-- The first of three chunks is delivered twice. The second delivery does not even ask for the
third chunk, which the first one left for later. -/
theorem repetition_idle_delivery :
    let options : Options := { chunkSize := 2, maxParallelChunks := 1 }
    let file : File := { id := 1, hash := "", size := 6 }
    let peer : Peer := .ofNat 1
    let scheduler := (Greedy.ofOptions options).scheduler
    let commands : List (Operation × Nat) := [(.join peer, 0), (.request file "target", 0)]
    let delivery : Operation := .deliver file ⟨0, 0, 2⟩ [7, 8] peer
    let first := (History.run scheduler options () commands).event scheduler delivery 1
    let second := (History.run scheduler options () (commands ++ [(delivery, 1)])).event scheduler
      delivery 1
    first.reply = .told [.progress file 2] ∧
      first.effects = [.write "target" 0 [7, 8], .get ⟨file, ⟨1, 2, 2⟩, peer⟩] ∧
      second.Idles := by
  intro options file peer scheduler commands delivery first second
  have told : first.reply = .told [.progress file 2] := by decide +kernel
  exact ⟨told, by decide +kernel, repetition_idle options commands delivery 1 ⟨_, told⟩⟩

end Fetch

end ChunkExchange
