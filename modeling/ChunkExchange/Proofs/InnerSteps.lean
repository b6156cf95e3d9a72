import ChunkExchange.Proofs.History

/-! No operation of the fetching side fails halfway. A report that a chunk is missing is accepted,
and so is every tick; a request that is given up finds its download with the chunk still asked for;
and a chunk whose data is written is recorded. -/

namespace ChunkExchange

namespace Fetcher

variable {fetcher : Fetcher} {download : Download} {extent : Extent} {peer : Peer}
variable {done rest : List Ticket} {ticket : Ticket} {now : Nat}

theorem leave_eq_midLeave
    (abandoned : fetcher.tickets.filter (fun ticket => ticket.peer == peer) = done ++ rest) :
    fetcher.leave peer = rest.foldl giveBack (fetcher.midLeave peer done) := by
  rw [leave, abandoned, List.foldl_append]
  rfl

theorem expire_eq_midExpire (expired : fetcher.tickets.filter (·.isExpired now) = done ++ rest) :
    fetcher.expire now = rest.foldl (timeOut now) (fetcher.midExpire now done) := by
  rw [expire, expired, List.foldl_append]
  rfl

/-- The download of a ticket is there, and gives the chunk back without blaming anyone. -/
def Releases (fetcher : Fetcher) (ticket : Ticket) : Prop :=
  ∃ download released, fetcher.download? ticket.file = some download ∧
    download.release ticket.extent.index = .ok released ∧
    released.coverage.states[ticket.extent.index]? = some .waiting

/-- The download of a ticket is there, and gives the chunk back when it blames the peer. -/
def TimesOut (fetcher : Fetcher) (ticket : Ticket) (now : Nat) : Prop :=
  ∃ download blamed, fetcher.download? ticket.file = some download ∧
    download.missing ticket.extent.index ticket.peer now true =
      { download := blamed, refusal := none } ∧
    blamed.coverage.states[ticket.extent.index]? = some .waiting

/-- The download of a chunk that can be written records it, and then goes on or is complete. -/
def Records (fetcher : Fetcher) (download : Download) (extent : Extent) (data : Bytes)
    (peer : Peer) (now : Nat) : Prop :=
  ∃ next, download.received extent.index peer now = .ok next ∧
    next.coverage.states[extent.index]? = some .received ∧
    fetcher.store download extent data peer now = .ok (fetcher.arrival download next extent data)

private theorem releases_of_outstanding (consistent : Consistent (ticket :: rest) fetcher) :
    fetcher.Releases ticket := by
  obtain ⟨download, found, _, _, pending⟩ := consistent.holder
  obtain ⟨coverage, moved, released⟩ := Download.release_of_pending pending
  refine ⟨download, _, found, released, ?_⟩
  rw [Coverage.getElem?_move moved, if_pos rfl]

private theorem timesOut_of_outstanding (consistent : Consistent (ticket :: rest) fetcher)
    (now : Nat) : fetcher.TimesOut ticket now := by
  obtain ⟨download, found, _, _, pending⟩ := consistent.holder
  obtain ⟨coverage, moved, failed⟩ := Download.missing_of_pending pending ticket.peer now
  refine ⟨download, _, found, failed, ?_⟩
  rw [Coverage.getElem?_move moved, if_pos rfl]

private theorem records_of_pending (pending : download.coverage.isIn extent.index .pending = true)
    (fetcher : Fetcher) (data : Bytes) (peer : Peer) (now : Nat) :
    fetcher.Records download extent data peer now := by
  obtain ⟨coverage, moved, _, received⟩ := Download.received_of_pending pending peer now
  obtain ⟨other, again, _, stored⟩ := store_of_pending pending fetcher data peer now
  cases moved.symm.trans again
  refine ⟨_, received, ?_, stored⟩
  change coverage.states[extent.index]? = _
  rw [Coverage.getElem?_move moved, if_pos rfl]

end Fetcher

namespace Fetch

variable {Memory : Type}

/-- From a history on, no operation fails halfway. -/
structure History.InnerStepsSucceed (scheduler : Scheduler Memory) (history : History Memory) :
    Prop where
  missing : ∀ file extent peer now,
    (history.event scheduler (.miss file extent peer) now).reply = .done
  tick : ∀ now, (history.event scheduler .tick now).reply = .done
  leave : ∀ peer done ticket rest,
    history.fetcher.tickets.filter (fun ticket => ticket.peer == peer) = done ++ ticket :: rest →
      history.fetcher.leave peer =
          (ticket :: rest).foldl Fetcher.giveBack (history.fetcher.midLeave peer done) ∧
        (history.fetcher.midLeave peer done).Releases ticket
  timeOut : ∀ now done ticket rest,
    history.fetcher.tickets.filter (·.isExpired now) = done ++ ticket :: rest →
      history.fetcher.expire now =
          (ticket :: rest).foldl (Fetcher.timeOut now) (history.fetcher.midExpire now done) ∧
        (history.fetcher.midExpire now done).fetcher.TimesOut ticket now
  record : ∀ file extent data peer now download,
    history.fetcher.download? file = some download →
    download.coverage.isIn extent.index .pending = true →
    extent.offset = (download.extent extent.index).offset →
    extent.size ≤ (download.extent extent.index).size →
      history.fetcher.receive file extent data peer now =
          history.fetcher.store download extent data peer now ∧
        history.fetcher.Records download extent data peer now

namespace History

variable {scheduler : Scheduler Memory} {options : Options} {history : History Memory}

theorem Lawful.reply_miss (lawful : history.Lawful scheduler options) (file : File)
    (extent : Extent) (peer : Peer) (now : Nat) :
    (history.event scheduler (.miss file extent peer) now).reply = .done := by
  have accepted := (Fetcher.consistent_miss lawful.consistent file extent.index peer now).1
  refine (Fetcher.adds_step scheduler history.memory lawful.consistent _ now).2.trans ?_
  rw [Fetcher.settle, accepted]
  rfl

theorem Lawful.reply_tick (lawful : history.Lawful scheduler options) (now : Nat) :
    (history.event scheduler .tick now).reply = .done := by
  have accepted := (Fetcher.consistent_expire lawful.consistent now).1
  refine (Fetcher.adds_step scheduler history.memory lawful.consistent _ now).2.trans ?_
  rw [Fetcher.settle, accepted]
  rfl

end History

/-- In every reachable state, whatever the scheduler picks. -/
theorem inner_steps_succeed (scheduler : Scheduler Memory) (options : Options) (memory : Memory)
    (commands : List (Operation × Nat)) :
    (History.run scheduler options memory commands).InnerStepsSucceed scheduler := by
  have lawful := History.lawful_run scheduler options memory commands
  have consistent := lawful.consistent
  constructor
  · exact lawful.reply_miss
  · exact lawful.reply_tick
  · intro peer done ticket rest abandoned
    exact ⟨Fetcher.leave_eq_midLeave abandoned,
      Fetcher.releases_of_outstanding (Fetcher.consistent_midLeave consistent abandoned).1⟩
  · intro now done ticket rest expired
    exact ⟨Fetcher.expire_eq_midExpire expired,
      Fetcher.timesOut_of_outstanding (Fetcher.consistent_midExpire consistent expired).2.1 now⟩
  · intro file extent data peer now download found pending placed fitting
    exact ⟨Fetcher.receive_of_pending found pending placed fitting data peer now,
      Fetcher.records_of_pending pending _ data peer now⟩

end Fetch

end ChunkExchange
