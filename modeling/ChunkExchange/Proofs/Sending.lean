import ChunkExchange.Proofs.CrossedReplies

namespace ChunkExchange

namespace Fetch

def Pick.chunk (pick : Pick) : File × Nat :=
  (pick.file, pick.extent.index)

end Fetch

/-- What requests for its chunks leave as it is in a download. -/
def Download.untouched (download : Download) :
    File × String × Nat × Reputation × Nat × Nat :=
  (download.file, download.path, download.chunkSize, download.reputation,
    download.coverage.received, download.coverage.frontier)

namespace Fetcher

open Fetch (History Operation Pick Scheduler)

variable {Memory : Type} {fetcher final next : Fetcher} {download : Download}
variable {scheduler : Scheduler Memory} {memory : Memory} {pick : Pick} {picks : List Pick}
variable {last : Option Pick} {now : Nat}

def waitingChunks (fetcher : Fetcher) : Nat :=
  total (fun download => download.coverage.states.count .waiting) fetcher.downloads

private theorem totalWaiting_eq (consistent : Consistent [] fetcher) :
    fetcher.totalWaiting = fetcher.waitingChunks := by
  have counts : fetcher.downloads.map (·.coverage.waiting) =
      fetcher.downloads.map (·.coverage.states.count .waiting) := by
    apply List.map_congr_left
    intro download member
    exact (consistent.sound download member).counted.waiting_eq
  rw [totalWaiting, counts]
  rfl

private theorem chunk?_of_issued (issued : fetcher.issue? pick now = some next) :
    fetcher.chunk? pick.file pick.extent.index = some .waiting := by
  obtain ⟨download, _, found, waits, _⟩ := issue?_cases issued
  rw [chunk?_of_found found]
  exact Coverage.isIn_iff.mp waits

theorem chunk?_issue? (consistent : Consistent [] fetcher)
    (issued : fetcher.issue? pick now = some next) (file : File) (index : Nat) :
    next.chunk? file index =
      if pick.chunk = (file, index) then some .pending else fetcher.chunk? file index := by
  obtain ⟨download, coverage, found, _, moved, rfl⟩ := issue?_cases issued
  obtain ⟨member, named⟩ := mem_of_download? found
  have looked := download?_replace consistent.distinct member { download with coverage } rfl file
  change ((fetcher.replace { download with coverage }).download? file).bind _ = _
  simp only [looked, Pick.chunk, ← named, Prod.mk.injEq]
  by_cases own : download.file = file
  · subst own
    rw [chunk?_of_found (named ▸ found)]
    simp only [↓reduceIte, Option.bind_some, Coverage.getElem?_move moved, true_and]
  · simp only [own, false_and, ↓reduceIte]
    rfl

private theorem untouched_issue? (consistent : Consistent [] fetcher)
    (issued : fetcher.issue? pick now = some next) :
    next.downloads.map Download.untouched = fetcher.downloads.map Download.untouched := by
  obtain ⟨download, coverage, found, _, moved, rfl⟩ := issue?_cases issued
  have received : coverage.received = download.coverage.received :=
    Coverage.received_move moved (by decide)
  have frontier : coverage.frontier = download.coverage.frontier := by
    rcases Coverage.frontier_cases moved with same | ⟨_, kept⟩ | ⟨arrives, _⟩
    · rw [same]
    · exact kept
    · cases arrives
  have alike : Download.untouched { download with coverage } = download.untouched := by
    simp only [Download.untouched, received, frontier]
  exact map_replace consistent.distinct (mem_of_download? found).1 rfl alike

section Sending

theorem Sends.totalWaiting (sends : Sends scheduler now fetcher memory picks final last)
    (consistent : Consistent [] fetcher) :
    picks.length + final.totalWaiting = fetcher.totalWaiting := by
  induction sends with
  | ended => rw [List.length_nil, Nat.zero_add]
  | sent _ issued _ ih =>
    have rest := ih (consistent_issue? consistent issued).1
    have taken := totalWaiting_issue? consistent issued
    rw [List.length_cons]
    omega

/-- The chunks that are asked for waited before, and no chunk is asked for twice. -/
theorem Sends.waited (sends : Sends scheduler now fetcher memory picks final last)
    (consistent : Consistent [] fetcher) :
    (∀ pick ∈ picks, fetcher.chunk? pick.file pick.extent.index = some .waiting) ∧
      (picks.map Pick.chunk).Nodup := by
  induction sends with
  | ended => simp
  | @sent fetcher next _ _ pick picks _ _ issued _ ih =>
    obtain ⟨waited, distinct⟩ := ih (consistent_issue? consistent issued).1
    -- Once a chunk is asked for it does not wait, so a later request is for another one.
    have other (later : Pick) (listed : later ∈ picks) : pick.chunk ≠ later.chunk ∧
        fetcher.chunk? later.file later.extent.index = some .waiting := by
      have still := waited later listed
      rw [chunk?_issue? consistent issued] at still
      split at still
      · cases still
      · exact ⟨‹_›, still⟩
    refine ⟨?_, ?_⟩
    · intro later listed
      rcases List.mem_cons.mp listed with first | rest
      · exact first ▸ chunk?_of_issued issued
      · exact (other later rest).2
    · rw [List.map_cons, List.nodup_cons]
      refine ⟨?_, distinct⟩
      intro again
      obtain ⟨later, listed, same⟩ := List.mem_map.mp again
      exact (other later listed).1 same.symm

theorem Sends.chunk? (sends : Sends scheduler now fetcher memory picks final last)
    (consistent : Consistent [] fetcher) (file : File) (index : Nat) :
    final.chunk? file index =
      if (file, index) ∈ picks.map Pick.chunk then some .pending
      else fetcher.chunk? file index := by
  induction sends with
  | ended => simp
  | sent _ issued _ ih =>
    rw [ih (consistent_issue? consistent issued).1, chunk?_issue? consistent issued]
    simp only [List.map_cons, List.mem_cons, eq_comm (a := (file, index))]
    split
    · simp [*]
    · simp [*]

theorem Sends.untouched (sends : Sends scheduler now fetcher memory picks final last)
    (consistent : Consistent [] fetcher) :
    final.downloads.map Download.untouched = fetcher.downloads.map Download.untouched := by
  induction sends with
  | ended => rfl
  | sent _ issued _ ih =>
    rw [ih (consistent_issue? consistent issued).1, untouched_issue? consistent issued]

/-- Every budget that covers the requests comes to the same. -/
theorem Sends.dispatchWithin (sends : Sends scheduler now fetcher memory picks final last) :
    ∃ after, ∀ budget ≥ picks.length,
      Fetcher.dispatchWithin scheduler now budget fetcher memory =
        { fetcher := final, memory := after, picks } := by
  induction sends with
  | ended chosen unsendable =>
    refine ⟨_, fun budget _ => dispatchWithin_of_unsent budget ?_⟩
    simpa [chosen] using unsendable
  | sent chosen issued _ ih =>
    obtain ⟨after, rest⟩ := ih
    refine ⟨after, fun budget enough => ?_⟩
    rw [List.length_cons] at enough
    obtain ⟨smaller, rfl⟩ : ∃ smaller, budget = smaller + 1 :=
      Nat.exists_eq_add_one.mpr (by omega)
    rw [dispatchWithin_of_sent smaller chosen issued, rest smaller (by omega)]

end Sending

/-- What sending requests comes to, for any scheduler. -/
structure Dispatch.Orderly (sent : Dispatch Memory) (scheduler : Scheduler Memory)
    (fetcher : Fetcher) (memory : Memory) (now : Nat) : Prop where
  ends : ∃ last, Sends scheduler now fetcher memory sent.picks sent.fetcher last
  /-- No bound on the requests that covers them makes a difference. -/
  uncut : ∀ budget ≥ sent.picks.length,
    dispatchWithin scheduler now budget fetcher memory = sent
  bounded : sent.picks.length ≤ fetcher.waitingChunks
  distinct : (sent.picks.map Pick.chunk).Nodup
  waited : ∀ pick ∈ sent.picks, fetcher.chunk? pick.file pick.extent.index = some .waiting
  tickets : sent.fetcher.tickets = fetcher.tickets ++ sent.picks.map (fun pick =>
    Ticket.first pick.file pick.extent pick.peer now fetcher.options.requestTimeout)
  chunks : ∀ file index, sent.fetcher.chunk? file index =
    if (file, index) ∈ sent.picks.map Pick.chunk then some .pending
    else fetcher.chunk? file index
  downloads : sent.fetcher.downloads.map Download.untouched =
    fetcher.downloads.map Download.untouched
  peers : sent.fetcher.peers = fetcher.peers
  options : sent.fetcher.options = fetcher.options

theorem orderly_dispatch (consistent : Consistent [] fetcher) (scheduler : Scheduler Memory)
    (memory : Memory) (now : Nat) :
    (fetcher.dispatch scheduler memory now).Orderly scheduler fetcher memory now := by
  obtain ⟨last, sends⟩ := sends_dispatch scheduler memory now consistent
  have taken := sends.totalWaiting consistent
  obtain ⟨waited, distinct⟩ := sends.waited consistent
  obtain ⟨after, uncut⟩ := sends.dispatchWithin
  refine ⟨⟨last, sends⟩, ?_, ?_, distinct, waited, sends.tickets, sends.chunk? consistent,
    sends.untouched consistent, sends.judged.2.1,
    (sends.consistent consistent).2.options⟩
  · intro budget enough
    rw [uncut budget enough]
    exact (uncut fetcher.totalWaiting (by omega)).symm
  · rw [← totalWaiting_eq consistent]
    omega

end Fetcher

namespace Fetch

/-- In every reachable state, at rest or with an operation just settled, for every scheduler with
any memory. -/
theorem sending_ends {Past Memory : Type} (former : Scheduler Past) (options : Options)
    (past : Past) (commands : List (Operation × Nat)) (operation : Operation)
    (scheduler : Scheduler Memory) (memory : Memory) (now : Nat) :
    let fetcher := (History.run former options past commands).fetcher
    let settled := (fetcher.settle operation now).fetcher
    (fetcher.dispatch scheduler memory now).Orderly scheduler fetcher memory now ∧
      (settled.dispatch scheduler memory now).Orderly scheduler settled memory now := by
  have consistent := (History.lawful_run former options past commands).consistent
  exact ⟨Fetcher.orderly_dispatch consistent scheduler memory now,
    Fetcher.orderly_dispatch (Fetcher.settles_settle consistent operation now).2 scheduler memory
      now⟩

/-- A scheduler that goes through three chunks of a file over and over, and asks a peer that nobody
knows for bytes beyond the end, is heard until it comes to a chunk again. -/
example :
    let file : File := { id := 1, hash := "", size := 6 }
    let silent : Scheduler Unit := { choose := fun _ _ => (none, ()) }
    let stubborn : Scheduler Nat :=
      { choose := fun turn _ => (some ⟨file, ⟨turn % 3, 9, 9⟩, .ofNat 7⟩, turn + 1) }
    let fetcher := (History.run silent { chunkSize := 2 } () [(.request file "path", 0)]).fetcher
    ((fetcher.dispatch stubborn 1 5).picks.map Pick.chunk) = [(file, 1), (file, 2), (file, 0)] := by
  decide +kernel

end Fetch

end ChunkExchange
