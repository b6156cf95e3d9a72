import ChunkExchange.Fetch.Greedy
import ChunkExchange.Proofs.Episodes
import ChunkExchange.Proofs.Reports
import ChunkExchange.Proofs.WriteLog

/-! What is known of the peers for an active file is what was reported for this file since it was
asked for. Other files, and earlier downloads of the same file, have no part in it. -/

namespace ChunkExchange

namespace Reputation

variable {backoff : Backoff}

private theorem replay_append_moment (history : List (Report × Nat)) (reports : List Report)
    (now : Nat) : replay backoff (history ++ reports.map (·, now)) =
      reports.foldl (take now) (replay backoff history) := by
  rw [replay, replay, List.foldl_append, List.foldl_map]

end Reputation

namespace Fetcher

variable {fetcher : Fetcher} {file : File} {extent : Extent}

/-- Whether a chunk is due: it was asked for, and it is at its own offset and no longer than it
should be. -/
def expects (fetcher : Fetcher) (file : File) (extent : Extent) : Bool :=
  match fetcher.download? file with
  | some download =>
    download.coverage.isIn extent.index .pending &&
      decide (extent.offset = (download.extent extent.index).offset ∧
        extent.size ≤ (download.extent extent.index).size)
  | none => false

theorem expects_iff :
    fetcher.expects file extent = true ↔
      ∃ download, fetcher.download? file = some download ∧
        download.coverage.isIn extent.index .pending = true ∧
        extent.offset = (download.extent extent.index).offset ∧
        extent.size ≤ (download.extent extent.index).size := by
  cases found : fetcher.download? file with
  | none => simp [expects, found]
  | some download => simp [expects, found]

private theorem any_isProgressOf_arrival (fetcher : Fetcher) (download next : Download)
    (extent : Extent) (data : Bytes) (file : File) :
    (fetcher.arrival download next extent data).notices.any (·.isProgressOf file) =
      decide (download.file = file) := by
  unfold arrival
  split <;> simp [Notice.isProgressOf, beq_eq_decide]

private theorem notices_settleDelivery_of_not_expects (due : fetcher.expects file extent = false)
    (data : Bytes) (peer : Peer) (now : Nat) :
    (fetcher.settleDelivery file extent data peer now).reply.notices = [] := by
  unfold settleDelivery
  split
  · rename_i change received
    rcases receive_cases received with ignored | ⟨download, found, pending, placed, fits, _⟩
    · rw [ignored]
      rfl
    · rw [expects_iff.mpr ⟨download, found, pending, placed, fits⟩] at due
      cases due
  · rfl

private theorem any_isProgressOf_settleDelivery (fetcher : Fetcher) (named : File) (extent : Extent)
    (data : Bytes) (peer : Peer) (now : Nat) (file : File) :
    (fetcher.settleDelivery named extent data peer now).reply.notices.any (·.isProgressOf file) =
      decide (named = file ∧ fetcher.expects named extent = true) := by
  cases due : fetcher.expects named extent with
  | false => simp [notices_settleDelivery_of_not_expects due]
  | true =>
    obtain ⟨download, found, pending, placed, fits⟩ := expects_iff.mp due
    obtain ⟨coverage, _, _, stored⟩ := store_of_pending pending fetcher data peer now
    have same := (mem_of_download? found).2
    rw [settleDelivery, receive_of_pending found pending placed fits, stored]
    simp only [Fetch.Reply.notices, any_isProgressOf_arrival, same, and_true]

end Fetcher

namespace Fetch

open Fetcher (Consistent)

variable {Memory : Type} {scheduler : Scheduler Memory} {options : Options} {memory : Memory}
variable {file : File}

namespace Event

/-- What an event reports for a file: a chunk of it that arrives when it is due, a chunk of it that
a peer lacks, each request for it that times out, and a peer that leaves. -/
def reports (event : Event) (file : File) : List Report :=
  match event.operation with
  | .deliver named extent _ peer =>
    if named = file ∧ event.before.expects named extent then [.delivered peer] else []
  | .miss named _ peer => if named = file then [.failed peer] else []
  | .tick =>
    (event.before.tickets.filter (fun ticket =>
      ticket.file == file && ticket.isExpired event.now)).map (fun ticket => .failed ticket.peer)
  | .leave peer => [.left peer]
  | .join _ | .request _ _ | .cancel _ => []

end Event

def reportsOf (events : List Event) (file : File) : List (Report × Nat) :=
  events.flatMap (fun event => (event.reports file).map (·, event.now))

private theorem reportsOf_append_singleton (events : List Event) (event : Event) (file : File) :
    reportsOf (events ++ [event]) file =
      reportsOf events file ++ (event.reports file).map (·, event.now) := by
  simp [reportsOf]

/-- What is known of the peers for a download is the outcome of what was reported for its file since
the request that began it, from when on the file has been active. -/
structure Remembers (options : Options) (events : List Event) (download : Download)
    (past : List Event) (opening : Event) (recent : List Event) : Prop where
  activation : Activation events download.file download.path past opening recent
  active : ∀ event ∈ recent, event.before.isActive download.file = true
  reputation : download.reputation =
    .replay options.downloadRetry (reportsOf recent download.file)

theorem Event.Advances.begun_or_former {event : Event} {next : Download}
    (advances : event.Advances next) :
    (event.opens next.file = true ∧ event.operation = .request next.file next.path) ∨
      event.opens next.file = false ∧ ∃ former ∈ event.before.downloads,
        former.file = next.file ∧ former.path = next.path := by
  cases advances with
  | begun asks operation => exact .inl ⟨asks, operation⟩
  | kept asksNot member kin => exact .inr ⟨asksNot, _, member, kin.file.symm, kin.path.symm⟩
  | written asksNot member file path => exact .inr ⟨asksNot, _, member, file.symm, path.symm⟩

namespace History

variable {history : History Memory}

/-- What an event reports is what its operation means to the peers. -/
private theorem reports_event (history : History Memory) (operation : Operation) (now : Nat)
    (file : File) :
    (history.event scheduler operation now).reports file =
      history.fetcher.reports operation now file := by
  cases operation with
  | join | leave | request | cancel => rfl
  | miss named extent peer => rfl
  | tick => simp only [Event.reports, event, Fetcher.reports, Bool.and_comm]
  | deliver named extent data peer =>
    have told := history.fetcher.any_isProgressOf_settleDelivery named extent data peer now file
    simp only [Event.reports, event, Fetcher.reports, Fetcher.settle, told, decide_eq_true_eq]
    congr

/-- An event begins downloads with nothing known of the peers, and brings the others up to date. -/
private theorem Lawful.remembers_next (lawful : history.Lawful scheduler options)
    (remembers : ∀ download ∈ history.fetcher.downloads, ∃ past opening recent,
      Remembers options history.events download past opening recent)
    (operation : Operation) (now : Nat) {next : Download}
    (member : next ∈ (history.next scheduler operation now).fetcher.downloads) :
    ∃ past opening recent, Remembers options (history.next scheduler operation now).events next
      past opening recent := by
  have reputed := Fetcher.reputation_step scheduler history.memory lawful.consistent operation now
    member
  rcases ((lawful.event operation now).advances member).begun_or_former with
    ⟨asks, asked⟩ | ⟨asksNot, former, present, same, path⟩
  · have inactive := Fetcher.isActive_eq_false_iff.mp (Event.opens_iff.mp asks).2
    rcases reputed with ⟨former, present, same, _⟩ | ⟨_, fresh⟩
    · exact absurd same (inactive former present)
    · refine ⟨history.events, _, [], ⟨rfl, asked, asks, by simp⟩, by simp, ?_⟩
      rw [fresh, lawful.configured]
      rfl
  · obtain ⟨past, opening, recent, activation, active, reputation⟩ := remembers former present
    rw [same, path] at activation
    rw [same] at active reputation
    refine ⟨past, opening, recent ++ [_], activation.append_singleton asksNot, ?_, ?_⟩
    · intro event listed
      rcases List.mem_append.mp listed with old | last
      · exact active event old
      · cases List.mem_singleton.mp last
        exact Fetcher.isActive_iff.mpr ⟨former, present, same⟩
    · rcases reputed with ⟨holder, original, alike, told⟩ | ⟨inactive, _⟩
      · have own : holder = former := Fetcher.eq_of_id lawful.consistent.distinct original present
          (by rw [alike, same])
        rw [reportsOf_append_singleton, reports_event,
          Reputation.replay_append_moment, ← reputation, told, own]
        rfl
      · exact absurd same (Fetcher.isActive_eq_false_iff.mp inactive former present)

end History

/-- Whatever the scheduler picks and whatever happens: what is known of the peers for an active
file comes from the reports for this file since the request that began its download, and from no
others. -/
theorem reputation_private (scheduler : Scheduler Memory) (options : Options) (memory : Memory)
    (commands : List (Operation × Nat)) :
    let history := History.run scheduler options memory commands
    ∀ download ∈ history.fetcher.downloads, ∃ past opening recent,
      Remembers options history.events download past opening recent := by
  induction commands using List.reverseRecOn with
  | nil =>
    intro history download member
    cases member
  | append_singleton commands command ih =>
    intro history download member
    simp only [history, History.run_append_singleton] at member ⊢
    exact (History.lawful_run scheduler options memory commands).remembers_next ih command.1
      command.2 member

/-- A peer that lacked a chunk of a file is not blamed for it in the download of its successor,
where only the chunk that was due speaks for the peer. -/
theorem reputation_private_successor :
    let options : Options :=
      { chunkSize := 2, downloadRetry := { limit := none, pace := .constant 5 } }
    let former : File := { id := 1, hash := "former", size := 6 }
    let file : File := { id := 1, hash := "latter", size := 6 }
    let peer : Peer := .ofNat 1
    let scheduler := (Greedy.ofOptions options).scheduler
    let history := History.run scheduler options ()
      [(.join peer, 0), (.request former "former", 0), (.miss former ⟨0, 0, 2⟩ peer, 1),
        (.request file "latter", 2), (.deliver file ⟨0, 0, 2⟩ [7, 7] peer, 3),
        (.deliver file ⟨0, 0, 2⟩ [7, 7] peer, 4), (.miss former ⟨0, 0, 2⟩ peer, 5)]
    ∃ download ∈ history.fetcher.downloads, download.file = file ∧
      download.reputation = .replay options.downloadRetry [(.delivered peer, 3)] ∧
      ∃ past opening recent, Remembers options history.events download past opening recent := by
  intro options former file peer scheduler history
  obtain ⟨download, only⟩ : ∃ download, history.fetcher.downloads = [download] :=
    List.length_eq_one_iff.mp (by decide +kernel)
  have member : download ∈ history.fetcher.downloads := only ▸ List.mem_singleton_self _
  have files : history.fetcher.downloads.map Download.file = [file] := by decide +kernel
  have known : history.fetcher.downloads.map Download.reputation =
      [.replay options.downloadRetry [(.delivered peer, 3)]] := by
    decide +kernel
  rw [only, List.map_singleton, List.singleton_inj] at files known
  exact ⟨download, member, files, known, reputation_private scheduler options () _ _ member⟩

end Fetch

end ChunkExchange
