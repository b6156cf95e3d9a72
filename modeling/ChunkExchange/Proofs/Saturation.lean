import ChunkExchange.Proofs.Admission

/-! With the greedy scheduler no request that could be sent is held back: sending ends only when the
scheduler declines, and it declines only when nothing is left to ask for. -/

namespace ChunkExchange

namespace Fetcher

open Fetch (Operation Pick Greedy)

/-- All requests are sent that the options allow: no further one at all, or none for any active file
with a waiting chunk and any known peer that both have room, since the peer is put aside. -/
def Saturated (options : Options) (now : Nat) (fetcher : Fetcher) : Prop :=
  fetcher.tickets.length = options.maxParallelChunks ∨
    ∀ download ∈ fetcher.downloads,
      (∃ index : Nat, download.coverage.states[index]? = some .waiting) →
      fetcher.tickets.countP (fun ticket => ticket.file == download.file) <
        options.maxParallelPerFile →
      ∀ peer ∈ fetcher.peers,
        fetcher.tickets.countP (fun ticket => ticket.peer == peer) < options.maxParallelPerPeer →
        download.reputation.availability peer now = .unavailable

variable {options : Options} {fetcher final : Fetcher} {download : Download} {pick : Pick}
variable {picks : List Pick} {last : Option Pick} {now : Nat}

theorem view_of_mem (distinct : Distinct fetcher.downloads)
    (member : download ∈ fetcher.downloads) (now : Nat) :
    (fetcher.view now).hasWaiting download.file = download.hasWaiting ∧
      (∀ limit, (fetcher.view now).firstWaiting download.file limit =
        download.coverage.firstWaiting limit) ∧
      ∀ peer, (fetcher.view now).availability download.file peer =
        download.reputation.availability peer now := by
  simp only [view, download?_of_mem distinct member]
  exact ⟨trivial, fun _ => trivial, fun _ => trivial⟩

private theorem issue?_of_chosen (consistent : Consistent [] fetcher)
    (chosen : (Greedy.ofOptions options).choose (fetcher.view now) = some pick) :
    ∃ next, fetcher.issue? pick now = some next := by
  obtain ⟨_, eligible, first, _⟩ := Greedy.choose_eq_some chosen
  obtain ⟨download, member, same⟩ := List.mem_map.mp eligible.active
  have found := download?_of_mem consistent.distinct member
  rw [← same, (view_of_mem consistent.distinct member now).2.1] at first
  have counted := (consistent.sound download member).counted
  obtain ⟨coverage, _, issued⟩ := issue?_of_waiting (same ▸ found)
    (counted.head?_firstWaiting_eq_some_iff.mp first).1 now
  exact ⟨_, issued⟩

private theorem head?_firstWaiting_ne_none (consistent : Consistent [] fetcher) (now : Nat) :
    ∀ file ∈ (fetcher.view now).files, (fetcher.view now).hasWaiting file = true →
      ((fetcher.view now).firstWaiting file 1).head? ≠ none := by
  intro file active waits none
  obtain ⟨download, member, rfl⟩ := List.mem_map.mp active
  obtain ⟨hasWaiting, firstWaiting, _⟩ := view_of_mem consistent.distinct member now
  have counted := (consistent.sound download member).counted
  rw [hasWaiting, Download.hasWaiting, decide_eq_true_iff] at waits
  obtain ⟨index, waiting⟩ := counted.waiting_pos_iff.mp waits
  rw [firstWaiting, counted.head?_firstWaiting, List.find?_eq_none] at none
  exact none index (List.mem_range.mpr (Coverage.lt_count_of_isIn waiting)) waiting

theorem Sends.declined {memory : Unit}
    (sends : Sends (Greedy.ofOptions options).scheduler now fetcher memory picks final last)
    (consistent : Consistent [] fetcher) :
    last = none ∧ (Greedy.ofOptions options).choose (final.view now) = none := by
  induction sends with
  | @ended fetcher memory last chosen unsendable =>
    have answer : (Greedy.ofOptions options).choose (fetcher.view now) = last := chosen
    cases last with
    | none => exact ⟨rfl, answer⟩
    | some pick =>
      obtain ⟨next, issued⟩ := issue?_of_chosen consistent answer
      rw [unsendable pick rfl] at issued
      cases issued
  | sent _ issued _ ih => exact ih (consistent_issue? consistent issued).1

private theorem saturated_of_declined (consistent : Consistent [] fetcher)
    (admitted : Admitted options fetcher)
    (declined : (Greedy.ofOptions options).choose (fetcher.view now) = none) :
    fetcher.Saturated options now := by
  rcases (Greedy.choose_eq_none_iff (head?_firstWaiting_ne_none consistent now)).mp declined with
    full | nothing
  · exact .inl (Nat.le_antisymm admitted.total full)
  · right
    intro download member waits fileRoom peer known peerRoom
    obtain ⟨hasWaiting, _, availability⟩ := view_of_mem consistent.distinct member now
    have counted := (consistent.sound download member).counted
    have positive : 0 < download.coverage.waiting :=
      counted.waiting_pos_iff.mpr (waits.imp fun _ => Coverage.isIn_iff.mpr)
    cases aside : download.reputation.availability peer now with
    | unavailable => rfl
    | available | expired =>
      refine absurd ?_ (nothing download.file peer)
      exact {
        active := List.mem_map.mpr ⟨download, member, rfl⟩
        waits := by rw [hasWaiting, Download.hasWaiting, decide_eq_true positive]
        fileRoom := fileRoom
        known := known
        peerRoom := peerRoom
        promising := by simp [availability, aside] }

theorem dispatches_deliver (fetcher : Fetcher) (file : File) (extent : Extent) (data : Bytes)
    (peer : Peer) (now : Nat) :
    (fetcher.settle (.deliver file extent data peer) now).dispatches = true := by
  simp only [settle, settleDelivery]
  split <;> rfl

/-- Every operation asks the scheduler, except the request of a file that is active. -/
private theorem dispatches_settle (positive : 0 < fetcher.options.chunkSize) (operation : Operation)
    (accepted : ∀ file, (fetcher.settle operation now).reply ≠ .refused (.alreadyRequested file)) :
    (fetcher.settle operation now).dispatches = true := by
  cases operation with
  | request file path =>
    simp only [settle, settleRequest] at accepted ⊢
    cases active : fetcher.isActive file with
    | true => simp [active] at accepted
    | false =>
      obtain ⟨change, activated⟩ := activate_of_pos positive file path
      simp [activated]
  | deliver file extent data peer => exact dispatches_deliver fetcher file extent data peer now
  | join | leave | cancel | miss | tick => rfl

end Fetcher

namespace Fetch

/-- After an event no request is held back, and sending has ended because the scheduler declined. -/
structure Event.Exhausts (event : Event) (options : Options) : Prop where
  saturated : event.after.Saturated options event.now
  declined : ∃ picks,
    Fetcher.Sends (Greedy.ofOptions options).scheduler event.now
      (event.before.settle event.operation event.now).fetcher () picks event.after none ∧
    event.effects =
      (event.before.settle event.operation event.now).effects ++ picks.map .get

theorem History.exhausts_event {options : Options} {history : History Unit}
    (lawful : history.Lawful (Greedy.ofOptions options).scheduler options)
    (admitted : history.fetcher.Admitted options) {operation : Operation} {now : Nat}
    (dispatches : (history.fetcher.settle operation now).dispatches = true) :
    (history.event (Greedy.ofOptions options).scheduler operation now).Exhausts options := by
  have kept := (Fetcher.settles_settle lawful.consistent operation now).2
  obtain ⟨within, _⟩ := admitted_event lawful admitted operation now
  obtain ⟨adds, _⟩ := Fetcher.adds_step (Greedy.ofOptions options).scheduler history.memory
    lawful.consistent operation now
  cases adds with
  | nothing refused => simp [dispatches] at refused
  | @requests picks last _ sends effects =>
    obtain ⟨ended, declined⟩ := sends.declined kept
    subst ended
    exact ⟨Fetcher.saturated_of_declined (sends.consistent kept).1 within declined,
      picks, sends, effects⟩

/-- After any operation at `now`, in every reachable state and whatever it answers, no request is
held back that could be sent, unless the operation requested a file that was active. -/
theorem work_conserving (options : Options) (positive : 0 < options.chunkSize)
    (commands : List (Operation × Nat)) (operation : Operation) (now : Nat)
    (accepted : ∀ file,
      ((History.run (Greedy.ofOptions options).scheduler options () commands).event
        (Greedy.ofOptions options).scheduler operation now).reply ≠
          .refused (.alreadyRequested file)) :
    ((History.run (Greedy.ofOptions options).scheduler options () commands).event
      (Greedy.ofOptions options).scheduler operation now).Exhausts options := by
  have lawful := History.lawful_run (Greedy.ofOptions options).scheduler options () commands
  have reply := (Fetcher.adds_step (Greedy.ofOptions options).scheduler
    (History.run (Greedy.ofOptions options).scheduler options () commands).memory
    lawful.consistent operation now).2
  apply History.exhausts_event lawful (History.admitted_run options commands)
  apply Fetcher.dispatches_settle
  · rw [lawful.configured]
    exact positive
  · intro file refused
    exact accepted file (reply.trans refused)

/-- The only peer reports that it lacks one of two requested chunks of three, and is asked for no
other one. -/
theorem work_conserving_lonely_peer :
    let options : Options := { chunkSize := 2, maxParallelPerFile := 2 }
    let file : File := { id := 1, hash := "", size := 6 }
    let commands : List (Operation × Nat) :=
      [(.join (.ofNat 1), 0), (.request file "target", 0)]
    let event := (History.run (Greedy.ofOptions options).scheduler options () commands).event
      (Greedy.ofOptions options).scheduler (.miss file ⟨0, 0, 2⟩ (.ofNat 1)) 1
    0 < options.chunkSize ∧ event.reply = .done ∧ event.before.tickets.length = 2 ∧
      event.after.tickets.length = 1 ∧ event.Exhausts options := by
  intro options file commands event
  have reply : event.reply = .done := by decide +kernel
  refine ⟨by decide, reply, by decide +kernel, by decide +kernel, ?_⟩
  apply work_conserving options (by decide) commands
  intro other refused
  cases reply.symm.trans refused

end Fetch

end ChunkExchange
