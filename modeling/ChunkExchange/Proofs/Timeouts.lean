import ChunkExchange.Proofs.BackoffWindow
import ChunkExchange.Proofs.Reception
import ChunkExchange.Proofs.Saturation

/-! What a tick does to the requests whose time is over: they are given up, their peers are put
aside, each once however many of its requests are over, and their chunks wait again or are asked of
others. All else stays. -/

namespace ChunkExchange

namespace Fetcher

open Fetch (Pick Scheduler)

variable {fetcher : Fetcher} {download : Download} {file : File} {peer : Peer} {now : Nat}

def standing? (fetcher : Fetcher) (file : File) (peer : Peer) : Option Standing :=
  (fetcher.download? file).bind (·.reputation.standing? peer)

/-- How often a peer was put aside for an active file since it last delivered. -/
def episodes (fetcher : Fetcher) (file : File) (peer : Peer) : Nat :=
  match fetcher.download? file with
  | some download => download.reputation.episodes peer
  | none => 0

private theorem episodes_eq (fetcher : Fetcher) (file : File) (peer : Peer) :
    fetcher.episodes file peer = ((fetcher.standing? file peer).map Standing.episodes).getD 0 := by
  cases found : fetcher.download? file with
  | none => simp [episodes, standing?, found]
  | some download =>
    simp only [episodes, standing?, found, Option.bind_some, Reputation.episodes]
    split <;> simp_all

private theorem standing?_of_mem (distinct : Distinct fetcher.downloads)
    (member : download ∈ fetcher.downloads) (peer : Peer) :
    fetcher.standing? download.file peer = download.reputation.standing? peer := by
  rw [standing?, download?_of_mem distinct member, Option.bind_some]

private theorem standing?_of_inactive (inactive : fetcher.isActive file = false) :
    fetcher.standing? file peer = none := by
  rw [standing?, download?_eq_none_iff.mpr (isActive_eq_false_iff.mp inactive), Option.bind_none]

theorem tickets_expire (fetcher : Fetcher) (now : Nat) :
    (fetcher.expire now).fetcher.tickets =
      fetcher.tickets.filter (fun ticket => !ticket.isExpired now) := by
  unfold expire
  obtain ⟨downloads, same⟩ := foldl_timeOut_eq (fetcher.tickets.filter (·.isExpired now)) now
    { fetcher with tickets := fetcher.tickets.filter (fun ticket => !ticket.isExpired now) } none
  simp only [same]

/-- What is asked for while expired requests are replaced has its whole time left. -/
theorem lasting_expire {Memory : Type} {scheduler : Scheduler Memory} {memory : Memory}
    {final : Fetcher} {picks : List Pick} {last : Option Pick}
    (sends : Sends scheduler now (fetcher.expire now).fetcher memory picks final last) :
    ∀ ticket ∈ final.tickets, ticket.isExpired now = false := by
  intro ticket listed
  rw [sends.tickets, tickets_expire] at listed
  rcases List.mem_append.mp listed with kept | new
  · simpa using (List.mem_filter.mp kept).2
  · obtain ⟨pick, _, rfl⟩ := List.mem_map.mp new
    exact decide_eq_false (Nat.not_lt.mpr (Nat.le_add_right now _))

end Fetcher

namespace Fetch

structure Event.TimesOut (event : Event) (issued : List Ticket) : Prop where
  tickets : event.after.tickets =
    event.before.tickets.filter (fun ticket => !ticket.isExpired event.now) ++ issued
  sent : event.effects = issued.map (fun ticket => .get ticket.pick)
  lasting : ∀ ticket ∈ event.after.tickets, ticket.isExpired event.now = false
  aside : ∀ ticket ∈ event.before.tickets, ticket.isExpired event.now = true →
    (event.after.view event.now).availability ticket.file ticket.peer = .unavailable
  released : ∀ ticket ∈ event.before.tickets, ticket.isExpired event.now = true →
    event.after.chunk? ticket.file ticket.extent.index = some .waiting ∨
      event.after.chunk? ticket.file ticket.extent.index = some .pending ∧
        ∃ again ∈ issued, again.file = ticket.file ∧
          again.extent.index = ticket.extent.index ∧ again.peer ≠ ticket.peer
  /-- However many requests to one peer for one file are over, they count as one failure. -/
  once : ∀ file peer, event.after.episodes file peer ≤ event.before.episodes file peer + 1
  others : ∀ file peer,
    (∀ ticket ∈ event.before.tickets, ticket.isExpired event.now = true →
      ¬ (ticket.file = file ∧ ticket.peer = peer)) →
    event.after.standing? file peer = event.before.standing? file peer

namespace History

variable {Memory : Type} {scheduler : Scheduler Memory} {options : Options}
variable {history : History Memory}

section Tick

variable (lawful : history.Lawful scheduler options) (now : Nat)

include lawful

private theorem Lawful.files_tick :
    (history.event scheduler .tick now).after.downloads.map Download.file =
      history.fetcher.downloads.map Download.file :=
  (Fetcher.adds_step scheduler history.memory lawful.consistent .tick now).1.judged.2.trans
    (Fetcher.files_foldl_timeOut ..)

private theorem Lawful.kin_tick {former : Download} (member : former ∈ history.fetcher.downloads) :
    ∃ download ∈ (history.event scheduler .tick now).after.downloads,
      Download.Kin former download ∧
        download.reputation = (history.fetcher.reports .tick now former.file).foldl
          (Reputation.take now) former.reputation := by
  have listed : former.file ∈
      (history.event scheduler .tick now).after.downloads.map Download.file :=
    lawful.files_tick now ▸ List.mem_map_of_mem member
  obtain ⟨download, present, same⟩ := List.mem_map.mp listed
  have own {other : Download} (original : other ∈ history.fetcher.downloads)
      (alike : other.file = download.file) : other = former :=
    Fetcher.eq_of_id lawful.consistent.distinct original member (by rw [alike, same])
  refine ⟨download, present, ?_, ?_⟩
  · obtain ⟨settled, _, settles, later, _⟩ := (lawful.event .tick now).settles
    have settles : Settles history.fetcher .tick settled := settles
    cases settles with
    | quiet _ _ continues =>
      obtain ⟨other, original, kin⟩ := (continues.trans later).downloads download present
      exact own original kin.file.symm ▸ kin
  · rcases Fetcher.reputation_step scheduler history.memory lawful.consistent .tick now present with
      ⟨other, original, alike, reputation⟩ | ⟨inactive, _⟩
    · rw [reputation, own original alike, same]
    · exact absurd same.symm (Fetcher.isActive_eq_false_iff.mp inactive former member)

/-- The peers whose requests for a file are over are each blamed once, and no others. -/
theorem Lawful.standing?_tick (file : File) (peer : Peer) :
    ∃ backoff, (history.event scheduler .tick now).after.standing? file peer =
      if ∃ ticket ∈ history.fetcher.tickets, ticket.isExpired now = true ∧
          ticket.file = file ∧ ticket.peer = peer then
        some (((history.fetcher.standing? file peer).getD .fresh).blame backoff now)
      else history.fetcher.standing? file peer := by
  cases active : history.fetcher.isActive file with
  | false =>
    have still := (Fetcher.isActive_of_files (lawful.files_tick now)).trans active
    have idle : ¬ ∃ ticket ∈ history.fetcher.tickets, ticket.isExpired now = true ∧
        ticket.file = file ∧ ticket.peer = peer := by
      rintro ⟨ticket, listed, _, named, _⟩
      exact lawful.consistent.ticket_ne active ticket listed named
    refine ⟨options.downloadRetry, ?_⟩
    rw [if_neg idle, Fetcher.standing?_of_inactive active, Fetcher.standing?_of_inactive still]
  | true =>
    obtain ⟨former, member, rfl⟩ := Fetcher.isActive_iff.mp active
    obtain ⟨download, present, kin, reputation⟩ := lawful.kin_tick now member
    have after := Fetcher.standing?_of_mem (lawful.event .tick now).after.distinct present peer
    have reports : history.fetcher.reports .tick now former.file =
        ((history.fetcher.tickets.filter (fun ticket =>
          ticket.isExpired now && ticket.file == former.file)).map Ticket.peer).map .failed := by
      rw [List.map_map]
      rfl
    rw [kin.file, reputation, reports] at after
    refine ⟨former.reputation.backoff, ?_⟩
    rw [after, Reputation.standing?_foldl_failed,
      Fetcher.standing?_of_mem lawful.consistent.distinct member]
    simp only [List.mem_map, List.mem_filter, Bool.and_eq_true, beq_iff_eq, and_assoc]

/-- A chunk whose request is over waits again, or it is asked for by another request. -/
private theorem Lawful.released_tick {ticket : Ticket} (listed : ticket ∈ history.fetcher.tickets)
    (expired : ticket.isExpired now = true) :
    (history.event scheduler .tick now).after.chunk? ticket.file
        ticket.extent.index = some .waiting ∨
      (history.event scheduler .tick now).after.chunk? ticket.file
          ticket.extent.index = some .pending ∧
        ∃ again ∈ (history.event scheduler .tick now).after.tickets,
          again.isFor ticket.file ticket.extent.index = true ∧
          again ∉ history.fetcher.tickets.filter (fun other => !other.isExpired now) := by
  obtain ⟨former, member, same⟩ := lawful.consistent.owned.active ticket listed
  obtain ⟨download, present, kin, _⟩ := lawful.kin_tick now member
  have after := (lawful.event .tick now).after
  have asked := lawful.consistent.owned.pending listed member same
  have found := Fetcher.download?_of_mem after.distinct present
  rw [kin.file, same] at found
  rw [Fetcher.chunk?_of_found found]
  have inside : ticket.extent.index < download.coverage.states.size := by
    have bound := Coverage.lt_count_of_isIn asked
    rwa [← kin.count] at bound
  cases state : download.coverage.states[ticket.extent.index]? with
  | none => exact absurd inside (Nat.not_lt.mpr (Array.getElem?_eq_none_iff.mp state))
  | some current =>
    cases current with
    | waiting => exact .inl rfl
    | received =>
      have arrived := kin.arrived ticket.extent.index
      rw [Coverage.isIn_iff.mpr state] at arrived
      cases Coverage.eq_of_isIn asked arrived.symm
    | pending =>
      refine .inr ⟨rfl, ?_⟩
      have counted := after.owned.owner download present ticket.extent.index
      rw [if_pos (Coverage.isIn_iff.mpr state), kin.file, same] at counted
      obtain ⟨again, waits, isFor⟩ := List.countP_pos_iff.mp (counted ▸ Nat.one_pos)
      refine ⟨again, waits, isFor, ?_⟩
      intro kept
      obtain ⟨former, lasting⟩ := List.mem_filter.mp kept
      rw [lawful.consistent.eq_of_isFor listed former isFor, expired] at lasting
      cases lasting

private theorem Lawful.episodes_tick (file : File) (peer : Peer) :
    (history.event scheduler .tick now).after.episodes file peer ≤
      history.fetcher.episodes file peer + 1 := by
  obtain ⟨backoff, standing⟩ := lawful.standing?_tick now file peer
  rw [Fetcher.episodes_eq, Fetcher.episodes_eq, standing]
  split
  · have counted := Standing.episodes_blame_le
      ((history.fetcher.standing? file peer).getD .fresh) backoff now
    cases known : history.fetcher.standing? file peer with
    | none => simpa [known, Standing.fresh] using counted
    | some former => simpa [known] using counted
  · exact Nat.le_succ _

end Tick

section Blamed

variable {history : History Unit} {ticket : Ticket}
variable (lawful : history.Lawful (Greedy.ofOptions options).scheduler options) (now : Nat)
variable (listed : ticket ∈ history.fetcher.tickets) (expired : ticket.isExpired now = true)

include lawful listed expired

private theorem Lawful.aside_tick :
    ((history.event (Greedy.ofOptions options).scheduler .tick now).after.view now).availability
      ticket.file ticket.peer = .unavailable := by
  obtain ⟨window, still, ⟨download, member, named, aside⟩, _⟩ :=
    lawful.blamed .tick now (.timedOut rfl listed expired rfl rfl)
  rw [← named, (Fetcher.view_of_mem (lawful.event .tick now).after.distinct member _).2.2]
  exact Reputation.availability_of_aside aside still

private theorem Lawful.spares_tick :
    (history.event (Greedy.ofOptions options).scheduler .tick now).Spares ticket.file
      ticket.peer := by
  obtain ⟨_, _, _, spares⟩ := lawful.blamed .tick now (.timedOut rfl listed expired rfl rfl)
  exact spares

end Blamed

end History

/-- In every reachable state of a fetching side with the greedy scheduler, at any time. -/
theorem timeouts_exact (options : Options) (commands : List (Operation × Nat)) (now : Nat) :
    ∃ issued, ((History.run (Greedy.ofOptions options).scheduler options () commands).event
      (Greedy.ofOptions options).scheduler .tick now).TimesOut issued := by
  have lawful := History.lawful_run (Greedy.ofOptions options).scheduler options () commands
  generalize History.run (Greedy.ofOptions options).scheduler options () commands = history
    at lawful
  obtain ⟨adds, _⟩ := Fetcher.adds_step (Greedy.ofOptions options).scheduler history.memory
    lawful.consistent .tick now
  cases adds with
  | nothing refused => cases refused
  | @requests picks last _ sends effects =>
    have tickets := sends.tickets
    have settled : (history.fetcher.settle .tick now).fetcher.tickets =
        history.fetcher.tickets.filter (fun ticket => !ticket.isExpired now) :=
      Fetcher.tickets_expire history.fetcher now
    rw [settled] at tickets
    refine ⟨_, tickets, ?_, Fetcher.lasting_expire sends, ?_, ?_, lawful.episodes_tick now, ?_⟩
    · rw [List.map_map]
      exact effects
    · exact fun ticket listed expired => lawful.aside_tick now listed expired
    · intro ticket listed expired
      rcases lawful.released_tick now listed expired with
        waits | ⟨pending, again, present, isFor, new⟩
      · exact .inl waits
      · obtain ⟨place, named⟩ := Ticket.isFor_iff.mp isFor
        have issued := (List.mem_append.mp (tickets ▸ present)).resolve_left new
        refine .inr ⟨pending, again, issued, named, place, ?_⟩
        obtain ⟨pick, picked, rfl⟩ := List.mem_map.mp issued
        have asked : Effect.get pick ∈ (history.fetcher.step (Greedy.ofOptions options).scheduler
            history.memory .tick now).effects := by
          rw [effects]
          exact List.mem_append_right _ (List.mem_map_of_mem picked)
        exact lawful.spares_tick now listed expired pick asked named
    · intro file peer none
      obtain ⟨backoff, standing⟩ := lawful.standing?_tick now file peer
      rw [if_neg] at standing
      · exact standing
      · rintro ⟨ticket, listed, expired, same⟩
        exact none ticket listed expired same

end Fetch

end ChunkExchange
