import ChunkExchange.Proofs.Admission
import ChunkExchange.Proofs.Reports

/-! With the greedy scheduler a peer that failed is left alone until the end of its time aside, by
the operation that reports the failure and by all later ones, and further failures never bring that
end nearer. -/

namespace ChunkExchange

namespace Fetcher

open Fetch (Operation Greedy Pick)

/-- The latest time aside of a peer, for an active file. -/
def window? (fetcher : Fetcher) (file : File) (peer : Peer) : Option Window :=
  (fetcher.download? file).bind (·.reputation.window? peer)

/-- A peer is aside for an active file at least as long as a window says. -/
def Aside (fetcher : Fetcher) (file : File) (peer : Peer) (window : Window) : Prop :=
  ∃ download ∈ fetcher.downloads, download.file = file ∧ download.reputation.Aside peer window

variable {fetcher before after final : Fetcher} {download : Download} {file : File} {peer : Peer}
variable {window : Window} {now : Nat} {picks : List Pick} {pick : Pick} {last : Option Pick}

theorem isActive_of_files
    (files : after.downloads.map Download.file = before.downloads.map Download.file) :
    after.isActive file = before.isActive file := by
  rw [Bool.eq_iff_iff, isActive_iff, isActive_iff]
  have listed : file ∈ after.downloads.map Download.file ↔
      file ∈ before.downloads.map Download.file := by rw [files]
  simpa only [List.mem_map] using listed

theorem Aside.window? (aside : fetcher.Aside file peer window)
    (distinct : Distinct fetcher.downloads) :
    ∃ longer, fetcher.window? file peer = some longer ∧ longer.Outlasts window ∧
      fetcher.Aside file peer longer := by
  obtain ⟨download, member, rfl, standing, found, failed, outlasts⟩ := aside
  refine ⟨standing.window, ?_, outlasts, download, member, rfl, standing, found, failed, .refl _⟩
  rw [Fetcher.window?, download?_of_mem distinct member, Option.bind_some, Reputation.window?,
    found]
  rfl

theorem Sends.promising {options : Options} {memory : Unit}
    (sends : Sends (Greedy.ofOptions options).scheduler now fetcher memory picks final last)
    (listed : pick ∈ picks) :
    pick.peer ∈ fetcher.peers ∧ ∃ download ∈ fetcher.downloads, download.file = pick.file ∧
      download.reputation.availability pick.peer now ≠ .unavailable := by
  induction sends with
  | ended => cases listed
  | @sent fetcher next final memory first picks last chosen issued _ ih =>
    rcases List.mem_cons.mp listed with same | later
    · subst same
      obtain ⟨_, eligible, _, _⟩ := Greedy.choose_eq_some chosen
      obtain ⟨download, _, found, _⟩ := issue?_cases issued
      obtain ⟨member, same⟩ := mem_of_download? found
      have promising := eligible.promising
      simp only [view, found] at promising
      exact ⟨eligible.known, download, member, same, promising⟩
    · obtain ⟨known, download, member, same, promising⟩ := ih later
      obtain ⟨judged, peers, _⟩ := judged_issue? issued
      obtain ⟨former, original, alike, kept⟩ := judged download member
      refine ⟨peers ▸ known, former, original, alike.trans same, ?_⟩
      rw [kept] at promising
      exact promising

theorem peers_leave (fetcher : Fetcher) (peer : Peer) :
    (fetcher.leave peer).peers = fetcher.peers.filter (fun other => !(other == peer)) := by
  obtain ⟨downloads, same⟩ := leave_eq fetcher peer
  rw [same]

end Fetcher

namespace Fetch

open Fetcher (Consistent)

namespace Event

/-- An event tells that a peer failed to deliver a chunk of an active file. -/
inductive Blames (event : Event) (file : File) (peer : Peer) : Prop where
  | missing {extent : Extent} (told : event.operation = .miss file extent peer)
      (active : event.before.isActive file = true)
  | timedOut {ticket : Ticket} (ticks : event.operation = .tick)
      (waits : ticket ∈ event.before.tickets) (expired : ticket.isExpired event.now = true)
      (named : ticket.file = file) (asked : ticket.peer = peer)

/-- A chunk that a peer delivers is accepted. -/
def Accepts (event : Event) (file : File) (peer : Peer) : Prop :=
  ∃ extent data bytesReceived, event.operation = .deliver file extent data peer ∧
    .progress file bytesReceived ∈ event.notices

/-- What ends the time aside of a peer early. -/
inductive Pardons (event : Event) (file : File) (peer : Peer) : Prop where
  | accepted (accepts : event.Accepts file peer)
  | left (leaves : event.operation = .leave peer)
  | ended (inactive : event.after.isActive file = false)

/-- No chunk of a file is asked of a peer. -/
def Spares (event : Event) (file : File) (peer : Peer) : Prop :=
  ∀ pick, .get pick ∈ event.effects → pick.file = file → pick.peer ≠ peer

end Event

namespace History

variable {options : Options} {history : History Unit} {file : File} {peer : Peer}
variable {window : Window} {pick : Pick}

section Step

variable (lawful : history.Lawful (Greedy.ofOptions options).scheduler options)
variable (operation : Operation) (now : Nat)

include lawful

theorem Lawful.promising
    (asked : .get pick ∈
      (history.event (Greedy.ofOptions options).scheduler operation now).effects) :
    let settled := (history.fetcher.settle operation now).fetcher
    pick.peer ∈ settled.peers ∧ ∃ download ∈ settled.downloads, download.file = pick.file ∧
      download.reputation.availability pick.peer now ≠ .unavailable := by
  obtain ⟨settles, _⟩ := Fetcher.settles_settle lawful.consistent operation now
  obtain ⟨adds, _⟩ := Fetcher.adds_step (Greedy.ofOptions options).scheduler history.memory
    lawful.consistent operation now
  have asked : Effect.get pick ∈ (history.fetcher.step (Greedy.ofOptions options).scheduler
    history.memory operation now).effects := asked
  cases adds with
  | nothing _ _ effects =>
    rw [effects] at asked
    exact absurd rfl (settles.ne_get asked pick)
  | requests _ sends effects =>
    rw [effects, List.mem_append] at asked
    rcases asked with before | sent
    · exact absurd rfl (settles.ne_get before pick)
    · exact sends.promising (by simpa using sent)

/-- Only a delivery that is accepted, or the leave of a peer, is reported in its favour. -/
theorem Lawful.severe
    (unaccepted : ¬ (history.event (Greedy.ofOptions options).scheduler operation now).Accepts
      file peer)
    (stays : operation ≠ .leave peer) :
    ∀ report ∈ history.fetcher.reports operation now file, report.pardons peer = false := by
  intro report listed
  cases operation with
  | join other | request named path | cancel named => cases listed
  | leave other =>
    cases List.mem_singleton.mp listed
    have different : other ≠ peer := fun same => stays (by rw [same])
    simpa [Report.pardons] using different
  | deliver named extent data other =>
    simp only [Fetcher.reports] at listed
    split at listed
    · rename_i told
      cases List.mem_singleton.mp listed
      have different : other ≠ peer := by
        intro same
        subst same
        obtain ⟨bytesReceived, noted⟩ := exists_progress told
        have own :=
          (Fetcher.settles_deliver lawful.consistent named extent data other now).1.progress noted
        have reply := (Fetcher.adds_step (Greedy.ofOptions options).scheduler history.memory
          lawful.consistent (.deliver named extent data other) now).2
        have heard : .progress file bytesReceived ∈ (history.fetcher.step
            (Greedy.ofOptions options).scheduler history.memory (.deliver named extent data other)
              now).reply.notices := by
          rw [reply]
          exact noted
        exact unaccepted ⟨extent, data, bytesReceived, by rw [own]; rfl, heard⟩
      simpa [Report.pardons] using different
    · cases listed
  | miss named extent other =>
    simp only [Fetcher.reports, Fetcher.reportOn] at listed
    split at listed
    · cases List.mem_singleton.mp listed
      rfl
    · cases listed
  | tick =>
    obtain ⟨ticket, _, same⟩ := List.mem_map.mp listed
    subst same
    rfl

/-- The reports of an operation are all that it changes for an active file. -/
theorem Lawful.reputation_settle {holder download : Download}
    (active : holder ∈ history.fetcher.downloads) (named : holder.file = file)
    (member : download ∈ (history.fetcher.settle operation now).fetcher.downloads)
    (same : download.file = file) :
    download.reputation = (history.fetcher.reports operation now file).foldl
      (Reputation.take now) holder.reputation := by
  rcases Fetcher.reputation_settle history.fetcher operation now member with
    ⟨former, original, alike, reputation⟩ | ⟨inactive, _⟩
  · have own : former = holder := Fetcher.eq_of_id lawful.consistent.distinct original active
      (by rw [alike, same, named])
    rw [reputation, own, same]
  · rw [same] at inactive
    exact absurd named (Fetcher.isActive_eq_false_iff.mp inactive holder active)

section Settled

variable (aside : ∀ download ∈ (history.fetcher.settle operation now).fetcher.downloads,
  download.file = file → download.reputation.Aside peer window)

include aside

theorem Lawful.spares_of_settled (still : window.isOver now = false) :
    (history.event (Greedy.ofOptions options).scheduler operation now).Spares file peer := by
  intro pick asked named same
  subst same
  obtain ⟨_, download, member, alike, promising⟩ := lawful.promising operation now asked
  have settled := aside download member (alike.trans named)
  exact promising (Reputation.availability_of_aside settled still)

theorem Lawful.aside_of_settled
    (active : (history.event (Greedy.ofOptions options).scheduler operation now).after.isActive
      file = true) :
    (history.event (Greedy.ofOptions options).scheduler operation now).after.Aside file peer
      window := by
  obtain ⟨next, member, named⟩ := Fetcher.isActive_iff.mp active
  obtain ⟨judged, _⟩ := (Fetcher.adds_step (Greedy.ofOptions options).scheduler history.memory
    lawful.consistent operation now).1.judged
  obtain ⟨between, settled, same, reputation⟩ := judged next member
  have kept : next.reputation = between.reputation := reputation
  exact ⟨next, member, named, kept ▸ aside between settled (same.trans named)⟩

end Settled

theorem Lawful.aside_settle (aside : history.fetcher.Aside file peer window)
    (unaccepted : ¬ (history.event (Greedy.ofOptions options).scheduler operation now).Accepts
      file peer)
    (stays : operation ≠ .leave peer) :
    ∀ download ∈ (history.fetcher.settle operation now).fetcher.downloads,
      download.file = file → download.reputation.Aside peer window := by
  intro download member same
  obtain ⟨holder, active, named, aside⟩ := aside
  rw [lawful.reputation_settle operation now active named member same]
  exact aside.foldl_take now (lawful.severe operation now unaccepted stays)

/-- While the window is open a peer that is aside is not asked, unless a chunk of it is accepted. -/
theorem Lawful.spares (aside : history.fetcher.Aside file peer window)
    (unaccepted : ¬ (history.event (Greedy.ofOptions options).scheduler operation now).Accepts
      file peer)
    (still : window.isOver now = false) :
    (history.event (Greedy.ofOptions options).scheduler operation now).Spares file peer := by
  by_cases leaves : operation = .leave peer
  · subst leaves
    intro pick asked _ same
    obtain ⟨known, _⟩ := lawful.promising (.leave peer) now asked
    have known : pick.peer ∈ (history.fetcher.leave peer).peers := known
    rw [Fetcher.peers_leave, same] at known
    simp at known
  · exact lawful.spares_of_settled operation now
      (lawful.aside_settle operation now aside unaccepted leaves) still

/-- A peer stays aside unless it is pardoned. -/
theorem Lawful.aside (aside : history.fetcher.Aside file peer window)
    (unpardoned : ¬ (history.event (Greedy.ofOptions options).scheduler operation now).Pardons
      file peer) :
    (history.event (Greedy.ofOptions options).scheduler operation now).after.Aside file peer
      window := by
  have active : (history.event (Greedy.ofOptions options).scheduler operation now).after.isActive
      file = true := by
    rw [← Bool.not_eq_false]
    exact fun ended => unpardoned (.ended ended)
  exact lawful.aside_of_settled operation now
    (lawful.aside_settle operation now aside (fun accepts => unpardoned (.accepted accepts))
      (fun leaves => unpardoned (.left leaves))) active

private theorem Lawful.reports_of_blames
    (blames : (history.event (Greedy.ofOptions options).scheduler operation now).Blames file
      peer) :
    history.fetcher.isActive file = true ∧
      .failed peer ∈ history.fetcher.reports operation now file ∧
      (∀ report ∈ history.fetcher.reports operation now file, report.pardons peer = false) ∧
      (history.fetcher.settle operation now).fetcher.downloads.map Download.file =
        history.fetcher.downloads.map Download.file := by
  cases blames with
  | @missing extent told active =>
    have told : operation = .miss file extent peer := told
    subst told
    refine ⟨active, ?_, ?_, Fetcher.files_miss ..⟩
    · simp [Fetcher.reports, Fetcher.reportOn]
    · simp [Fetcher.reports, Fetcher.reportOn, Report.pardons]
  | @timedOut ticket ticks waits expired named asked =>
    have ticks : operation = .tick := ticks
    subst ticks named asked
    refine ⟨?_, ?_, ?_, Fetcher.files_foldl_timeOut ..⟩
    · obtain ⟨download, member, same⟩ := lawful.consistent.owned.active ticket waits
      exact Fetcher.isActive_iff.mpr ⟨download, member, same⟩
    · have expired : ticket.isExpired now = true := expired
      exact List.mem_map.mpr ⟨ticket, List.mem_filter.mpr ⟨waits, by simpa using expired⟩, rfl⟩
    · intro report listed
      obtain ⟨other, _, same⟩ := List.mem_map.mp listed
      exact same ▸ rfl

theorem Lawful.blamed
    (blames : (history.event (Greedy.ofOptions options).scheduler operation now).Blames file
      peer) :
    ∃ window, window.isOver now = false ∧
      (history.event (Greedy.ofOptions options).scheduler operation now).after.Aside file peer
        window ∧
      (history.event (Greedy.ofOptions options).scheduler operation now).Spares file peer := by
  obtain ⟨active, failed, severe, files⟩ := lawful.reports_of_blames operation now blames
  obtain ⟨holder, member, named⟩ := Fetcher.isActive_iff.mp active
  obtain ⟨window, still, aside⟩ :=
    Reputation.aside_foldl_take holder.reputation now failed severe
  have settled : ∀ download ∈ (history.fetcher.settle operation now).fetcher.downloads,
      download.file = file → download.reputation.Aside peer window := by
    intro download present same
    rw [lawful.reputation_settle operation now member named present same]
    exact aside
  refine ⟨window, still, ?_, lawful.spares_of_settled operation now settled still⟩
  apply lawful.aside_of_settled operation now settled
  have later := (Fetcher.adds_step (Greedy.ofOptions options).scheduler history.memory
    lawful.consistent operation now).1.judged.2
  rw [← active]
  exact Fetcher.isActive_of_files (later.trans files)

end Step

/-- From the event that blames a peer on, the peer is aside until it is pardoned. -/
theorem aside_run {commands : List (Operation × Nat)} {earlier between : List Event}
    {blamed : Event}
    (events : (run (Greedy.ofOptions options).scheduler options () commands).events =
      earlier ++ blamed :: between)
    (aside : blamed.after.Aside file peer window)
    (unpardoned : ∀ event ∈ between, ¬ event.Pardons file peer) :
    (run (Greedy.ofOptions options).scheduler options () commands).fetcher.Aside file peer
      window := by
  induction commands using List.reverseRecOn generalizing between with
  | nil => simp [run, start] at events
  | append_singleton commands command ih =>
    rw [run_append_singleton] at events ⊢
    rcases eq_or_of_concat_eq events with ⟨_, _, last⟩ | ⟨rest, more, within⟩
    · rw [last] at aside
      exact aside
    · subst more
      have before := ih within
        (fun event listed => unpardoned event (List.mem_append_left _ listed))
      exact (lawful_run _ options () commands).aside command.1 command.2 before
        (unpardoned _ (List.mem_append_right rest (List.mem_singleton.mpr rfl)))

end History

/-- A peer is put aside by an event, up to the end of a window, and the events after it keep to
that. -/
structure Event.PutsAside (blamed : Event) (later : List Event) (file : File) (peer : Peer)
    (window : Window) : Prop where
  opened : blamed.after.window? file peer = some window
  /-- The window is not over at once, even where its length is zero. -/
  lasting : window.isOver blamed.now = false
  spares : blamed.Spares file peer
  /-- No later operation within the window asks the peer, unless it was pardoned before, or the
  operation itself accepts a chunk of it. -/
  respected : ∀ between event rest, later = between ++ event :: rest →
    (∀ other ∈ between, ¬ other.Pardons file peer) → ¬ event.Accepts file peer →
      window.isOver event.now = false → event.Spares file peer
  extended : ∀ between event rest, later = between ++ event :: rest →
    (∀ other ∈ between ++ [event], ¬ other.Pardons file peer) →
      ∃ longer, event.after.window? file peer = some longer ∧ longer.Outlasts window

/-- When a peer reports that it lacks a chunk of an active file, or a request to it times out, it is
put aside for that file, and all operations respect that. -/
theorem backoff_respected (options : Options) (commands : List (Operation × Nat))
    {earlier later : List Event} {blamed : Event} {file : File} {peer : Peer}
    (events : (History.run (Greedy.ofOptions options).scheduler options () commands).events =
      earlier ++ blamed :: later)
    (blames : blamed.Blames file peer) :
    ∃ window, blamed.PutsAside later file peer window := by
  obtain ⟨front, operation, now, _, same⟩ := History.run_split events
  have lawful := History.lawful_run (Greedy.ofOptions options).scheduler options () front
  rw [same] at blames
  obtain ⟨least, still, aside, spares⟩ := lawful.blamed operation now blames
  obtain ⟨window, opened, outlasts, aside⟩ :=
    aside.window? (lawful.event operation now).after.distinct
  rw [← same] at opened aside spares
  -- Every later event finds the peer aside, as long as no event in between pardons it.
  have reached (between : List Event) (event : Event) (rest : List Event)
      (split : later = between ++ event :: rest)
      (unpardoned : ∀ other ∈ between, ¬ other.Pardons file peer) :
      ∃ (history : History Unit) (operation : Operation) (now : Nat),
        history.Lawful (Greedy.ofOptions options).scheduler options ∧
        history.fetcher.Aside file peer window ∧
        event = history.event (Greedy.ofOptions options).scheduler operation now := by
    rw [split, ← List.cons_append, ← List.append_assoc] at events
    obtain ⟨commands, operation, now, before, same⟩ := History.run_split events
    exact ⟨_, operation, now, History.lawful_run _ options () commands,
      History.aside_run before aside unpardoned, same⟩
  refine ⟨window, opened, ?_, spares, ?_, ?_⟩
  · rw [same]
    exact outlasts now still
  · intro between event rest split unpardoned unaccepted within
    obtain ⟨history, operation, now, lawful, aside, same⟩ :=
      reached between event rest split unpardoned
    subst same
    exact lawful.spares operation now aside unaccepted within
  · intro between event rest split unpardoned
    obtain ⟨history, operation, now, lawful, aside, same⟩ := reached between event rest split
      (fun other listed => unpardoned other (List.mem_append_left _ listed))
    subst same
    obtain ⟨longer, found, outlasts, _⟩ := (lawful.aside operation now aside
      (unpardoned _ (List.mem_append_right between (List.mem_singleton.mpr rfl)))).window?
        (lawful.event operation now).after.distinct
    exact ⟨longer, found, outlasts⟩

/-- The only peer reports at 1 that it lacks a chunk. Its time aside of 5 ends at 6, when it is
still not asked. -/
theorem backoff_respected_lonely_peer :
    let options : Options :=
      { chunkSize := 2, downloadRetry := { limit := none, pace := .constant 5 } }
    let file : File := { id := 1, hash := "", size := 6 }
    let peer : Peer := .ofNat 1
    let scheduler := (Greedy.ofOptions options).scheduler
    let history := History.run scheduler options ()
      [(.join peer, 0), (.request file "target", 0), (.miss file ⟨0, 0, 2⟩ peer, 1), (.tick, 6)]
    ∃ earlier blamed event, history.events = earlier ++ [blamed, event] ∧
      blamed.Blames file peer ∧ blamed.PutsAside [event] file peer (.upTo 6) ∧
      event.now = 6 ∧ event.Spares file peer := by
  intro options file peer scheduler history
  let front := History.run scheduler options () [(.join peer, 0), (.request file "target", 0)]
  let blamed := front.event scheduler (.miss file ⟨0, 0, 2⟩ peer) 1
  let event := (front.next scheduler (.miss file ⟨0, 0, 2⟩ peer) 1).event scheduler .tick 6
  have events : history.events = front.events ++ [blamed, event] := rfl
  have blames : blamed.Blames file peer := .missing rfl (by decide +kernel)
  obtain ⟨window, aside⟩ := backoff_respected options _ events blames
  have opened : blamed.after.window? file peer = some (.upTo 6) := by decide +kernel
  cases aside.opened.symm.trans opened
  refine ⟨front.events, blamed, event, events, blames, aside, rfl, ?_⟩
  refine aside.respected [] event [] rfl (by simp) ?_ rfl
  rintro ⟨_, _, _, delivers, _⟩
  cases delivers

end Fetch

end ChunkExchange
