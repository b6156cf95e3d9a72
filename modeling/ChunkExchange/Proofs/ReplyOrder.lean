import ChunkExchange.Proofs.CrossedReplies

namespace ChunkExchange

namespace Download

def Fits (download : Download) (extent : Extent) : Prop :=
  extent.offset = (download.extent extent.index).offset ∧
    extent.size ≤ (download.extent extent.index).size

/-- The same file on its way to the same path, still without some of its chunks. -/
structure GoesOn (download next : Download) : Prop where
  file : next.file = download.file
  path : next.path = download.path
  incomplete : next.isComplete = false

end Download

namespace Fetcher

open Fetch (Greedy Operation Scheduler Settled)

variable {fetcher later first second : Fetcher} {file : File} {download next : Download}
variable {coverage coverageAlso : Coverage} {extent one other : Extent} {data : Bytes} {peer : Peer}
variable {ticket : Ticket} {index now : Nat}

/-- A chunk is due that was asked of the peer. -/
structure Awaits (fetcher : Fetcher) (file : File) (peer : Peer) (extent : Extent) : Prop where
  due : fetcher.Due file extent
  asked : ∃ ticket ∈ fetcher.tickets, ticket.matchesKey file extent.index peer = true

/-- The fetching side when a chunk has arrived with which a download becomes `next`. -/
def accepted (fetcher : Fetcher) (next : Download) (index : Nat) : Fetcher :=
  if next.isComplete then fetcher.drop next.file
  else { fetcher.replace next with
    tickets := fetcher.tickets.filter (fun ticket => !ticket.isFor next.file index) }

/-- What a chunk comes to with which a download becomes `next`, before the scheduler is asked. -/
def acceptance (fetcher : Fetcher) (next : Download) (extent : Extent) (data : Bytes) : Settled :=
  { fetcher := fetcher.accepted next extent.index
    reply := .told (.progress next.file next.bytesReceived ::
      if next.isComplete then [.completed next.file next.path] else [])
    effects := .write next.path extent.offset (data.take extent.size) ::
      if next.isComplete then [.close next.path] else []
    dispatches := true }

section Due

theorem Due.exists_found (due : fetcher.Due file extent) :
    ∃ download, fetcher.download? file = some download := by
  cases found : fetcher.download? file with
  | none =>
    have unknown := due.1
    rw [chunk?, found, Option.bind_none] at unknown
    cases unknown
  | some download => exact ⟨download, rfl⟩

theorem Due.pending (due : fetcher.Due file extent)
    (found : fetcher.download? file = some download) :
    download.coverage.isIn extent.index .pending = true := by
  rw [Coverage.isIn_iff, ← chunk?_of_found found]
  exact due.1

/-- Where a chunk should be depends on the options only. -/
theorem Due.fits (due : fetcher.Due file extent) (consistent : Consistent [] later)
    (options : later.options = fetcher.options)
    (found : later.download? file = some download) : download.Fits extent := by
  obtain ⟨_, placed, fitting⟩ := due
  have same : fetcher.dueExtent file extent = later.dueExtent file extent := by
    rw [dueExtent, dueExtent, options]
  rw [same, dueExtent_of_found consistent found] at placed fitting
  exact ⟨placed, fitting⟩

theorem Due.stop_le (due : fetcher.Due file one) (dueAlso : fetcher.Due file other)
    (before : one.index < other.index) (data : Bytes) :
    one.offset + (data.take one.size).length ≤ other.offset := by
  obtain ⟨_, placed, fitting⟩ := due
  obtain ⟨_, placedAlso, _⟩ := dueAlso
  have length : (data.take one.size).length ≤ one.size := List.length_take_le ..
  simp only [dueExtent, File.extent] at placed placedAlso fitting
  have reaches : (one.index + 1) * fetcher.options.chunkSize ≤
      other.index * fetcher.options.chunkSize := Nat.mul_le_mul_right _ before
  rw [Nat.add_one_mul] at reaches
  omega

end Due

section Accepted

private theorem options_accepted (fetcher : Fetcher) (next : Download) (index : Nat) :
    (fetcher.accepted next index).options = fetcher.options := by
  unfold accepted
  split <;> rfl

theorem mem_accepted {remaining : Download}
    (member : remaining ∈ (fetcher.accepted next index).downloads) :
    (remaining ∈ fetcher.downloads ∧ remaining.file ≠ next.file) ∨ remaining = next := by
  unfold accepted at member
  split at member
  · exact .inl (mem_drop.mp member)
  · exact (mem_replace.mp member).imp_right And.left

/-- The change that an arriving chunk makes is its acceptance. -/
private theorem acceptance_of_arrival (fetcher : Fetcher) (download next : Download) (data : Bytes)
    (file : next.file = download.file) (path : next.path = download.path)
    (fits : download.Fits extent) :
    let change := fetcher.arrival download next extent data
    fetcher.acceptance next extent data =
      { fetcher := change.fetcher, reply := .told change.notices, effects := change.effects
        dispatches := true } := by
  unfold acceptance accepted
  cases complete : next.isComplete with
  | true => simp only [arrival_of_complete file complete, ← fits.1, file, path, ↓reduceIte]
  | false =>
    simp only [arrival_of_incomplete complete, ← fits.1, file, path, Bool.false_eq_true,
      ↓reduceIte]

theorem settleDelivery_of_pending (found : fetcher.download? file = some download)
    (pending : download.coverage.isIn extent.index .pending = true)
    (fits : download.Fits extent)
    (moved : download.coverage.move extent.index .received = .ok coverage) (data : Bytes)
    (peer : Peer) (now : Nat) :
    fetcher.settleDelivery file extent data peer now =
      fetcher.acceptance (Download.report { download with coverage } peer true now) extent
        data := by
  obtain ⟨reached, movedAlso, _, stored⟩ := store_of_pending pending fetcher data peer now
  cases moved.symm.trans movedAlso
  rw [settleDelivery, receive_of_pending found pending fits.1 fits.2, stored]
  exact (acceptance_of_arrival fetcher download
    (Download.report { download with coverage } peer true now) data rfl rfl fits).symm

private theorem download?_accepted (consistent : Consistent [] fetcher)
    (found : fetcher.download? file = some download) (goesOn : download.GoesOn next) :
    (fetcher.accepted next index).download? file = some next := by
  obtain ⟨member, here⟩ := mem_of_download? found
  simp only [accepted, goesOn.incomplete, Bool.false_eq_true, ↓reduceIte]
  have looked := download?_replace consistent.distinct member next goesOn.file file
  rwa [if_pos (goesOn.file.trans here)] at looked

theorem Sends.download? {Memory : Type} {scheduler : Scheduler Memory} {memory : Memory}
    {picks : List Fetch.Pick} {final : Fetcher} {last : Option Fetch.Pick}
    (sends : Sends scheduler now fetcher memory picks final last)
    (consistent : Consistent [] fetcher) (found : fetcher.download? file = some download) :
    ∃ later, final.download? file = some later ∧ later.path = download.path := by
  let place (download : Download) := (download.file, download.path)
  have same : final.downloads.map place = fetcher.downloads.map place :=
    sends.map_downloads consistent fun _ _ => rfl
  obtain ⟨member, named⟩ := mem_of_download? found
  have listed : place download ∈ fetcher.downloads.map place := List.mem_map_of_mem member
  rw [← same] at listed
  obtain ⟨later, present, alike⟩ := List.mem_map.mp listed
  obtain ⟨file, path⟩ := Prod.mk.inj alike
  have distinct := (sends.consistent consistent).1.distinct
  rw [← named, ← file]
  exact ⟨later, download?_of_mem distinct present, path⟩

end Accepted

section Between

private theorem pairs_perm (consistent : Consistent [] fetcher)
    (awaits : fetcher.Awaits file peer extent) :
    (fetcher.tickets.map Ticket.pair).Perm ((file, peer) ::
      (fetcher.tickets.filter (fun ticket => !ticket.isFor file extent.index)).map
        Ticket.pair) := by
  obtain ⟨ticket, listed, asked⟩ := awaits.asked
  simp only [Ticket.matchesKey, Bool.and_eq_true, beq_iff_eq] at asked
  have single : fetcher.tickets.filter (fun ticket => ticket.isFor file extent.index) =
      [ticket] := by
    apply eq_singleton_of_mem
    · rw [← List.countP_eq_length_filter]
      exact consistent.countP_isFor_le file extent.index
    · exact List.mem_filter.mpr ⟨listed, asked.1⟩
  have pair : ticket.pair = (file, peer) := by
    rw [Ticket.pair, (Ticket.isFor_iff.mp asked.1).2, asked.2]
  have split := (List.filter_append_perm (fun ticket => ticket.isFor file extent.index)
    fetcher.tickets).symm.map Ticket.pair
  rwa [single, List.map_append, List.map_singleton, pair] at split

/-- Two chunks that were asked of one peer: each side has got another one. -/
private theorem crossed_accepted (consistent : Consistent [] fetcher)
    (apart : one.index ≠ other.index)
    (awaits : fetcher.Awaits file peer one) (awaitsAlso : fetcher.Awaits file peer other)
    (named : download.file = file)
    (crossed : Coverage.Crossed one.index other.index coverage coverageAlso) :
    Crossed file one.index other.index
      (fetcher.accepted (Download.report { download with coverage } peer true now) one.index)
      (fetcher.accepted (Download.report { download with coverage := coverageAlso } peer true now)
        other.index) := by
  have incomplete : (Download.report { download with coverage } peer true now).isComplete = false :=
    crossed.incomplete apart
  have incompleteAlso : (Download.report { download with coverage := coverageAlso } peer true
      now).isComplete = false :=
    crossed.symm.incomplete apart.symm
  simp only [accepted, incomplete, incompleteAlso, Bool.false_eq_true, ↓reduceIte]
  subst named
  constructor
  · rfl
  · rfl
  · rw [replace, replace, List.forall₂_map_left_iff, List.forall₂_map_right_iff, List.forall₂_same]
    intro old _
    by_cases here : old.file = download.file
    · simp only [Download.report, here, beq_self_eq_true, ↓reduceIte]
      exact .crossed rfl crossed
    · simp only [Download.report, beq_eq_false_iff_ne.mpr here, Bool.false_eq_true, ↓reduceIte]
      exact .same here
  · simp only [Download.report, List.filter_filter]
    exact List.filter_congr fun _ _ => Bool.and_comm _ _
  · exact ((pairs_perm consistent awaitsAlso).symm.trans (pairs_perm consistent awaits)).cons_inv

/-- Either of two chunks can arrive first. Neither is the last one, and they leave as many bytes
received. -/
theorem Awaits.settle (awaits : fetcher.Awaits file peer one)
    (awaitsAlso : fetcher.Awaits file peer other) (consistent : Consistent [] fetcher)
    (apart : one.index ≠ other.index) (found : fetcher.download? file = some download)
    (data dataAlso : Bytes) (now : Nat) :
    ∃ next nextAlso, download.GoesOn next ∧ download.GoesOn nextAlso ∧
      nextAlso.bytesReceived = next.bytesReceived ∧
      fetcher.settleDelivery file one data peer now = fetcher.acceptance next one data ∧
      fetcher.settleDelivery file other dataAlso peer now =
        fetcher.acceptance nextAlso other dataAlso ∧
      Crossed file one.index other.index (fetcher.accepted next one.index)
        (fetcher.accepted nextAlso other.index) := by
  have pending := awaits.due.pending found
  have pendingAlso := awaitsAlso.due.pending found
  have fits := awaits.due.fits consistent rfl found
  have fitsAlso := awaitsAlso.due.fits consistent rfl found
  obtain ⟨member, named⟩ := mem_of_download? found
  obtain ⟨coverage, moved, _⟩ := Download.received_of_pending pending peer now
  obtain ⟨coverageAlso, movedAlso, _⟩ := Download.received_of_pending pendingAlso peer now
  have crossed := Coverage.crossed_of_moves (consistent.sound download member).counted pending
    pendingAlso moved movedAlso
  refine ⟨Download.report { download with coverage } peer true now,
    Download.report { download with coverage := coverageAlso } peer true now,
    ⟨rfl, rfl, crossed.incomplete apart⟩, ⟨rfl, rfl, crossed.symm.incomplete apart.symm⟩, ?_,
    settleDelivery_of_pending found pending fits moved data peer now,
    settleDelivery_of_pending found pendingAlso fitsAlso movedAlso dataAlso peer now,
    crossed_accepted consistent apart awaits awaitsAlso named crossed⟩
  exact congrArg (fun received => min (received * download.chunkSize) download.file.size)
    crossed.received

theorem Crossed.dispatch {one other : Nat} (crossed : Crossed file one other first second)
    (greedy : Greedy) (now : Nat) :
    (second.dispatch greedy.scheduler () now).picks =
        (first.dispatch greedy.scheduler () now).picks ∧
      Crossed file one other (first.dispatch greedy.scheduler () now).fetcher
        (second.dispatch greedy.scheduler () now).fetcher := by
  rw [Fetcher.dispatch, Fetcher.dispatch, crossed.totalWaiting]
  exact crossed.dispatchWithin greedy now first.totalWaiting

private theorem Crossed.accepted_eq {one other : Nat}
    (crossed : Crossed file one other first second)
    (named : next.file = file) : second.accepted next one = first.accepted next other := by
  have options := crossed.options
  have peers := crossed.peers
  have tickets := crossed.tickets
  unfold accepted
  split
  · have downloads := filter_eq_of_alike crossed.downloads
    have others (fetcher : Fetcher) (index : Nat) :
        fetcher.tickets.filter (fun ticket => !(ticket.file == file)) =
          (fetcher.tickets.filter (fun ticket => !ticket.isFor file index)).filter
            (fun ticket => !(ticket.file == file)) := by
      rw [List.filter_filter]
      apply List.filter_congr
      intro ticket _
      by_cases here : ticket.file = file <;> simp [Ticket.isFor, here]
    simp only [drop, named, downloads, options, peers, others second one, others first other,
      tickets]
  · have downloads := replace_eq_of_alike crossed.downloads named
    simp only [replace, named, options, peers, tickets] at downloads ⊢
    rw [downloads]

/-- The other chunk arrives on both sides, which are the same then. -/
theorem Crossed.settle (crossed : Crossed file one.index other.index first second)
    (apart : one.index ≠ other.index) (found : first.download? file = some download)
    (fits : download.Fits one) (fitsAlso : download.Fits other) (data dataAlso : Bytes)
    (peer : Peer) (now : Nat) :
    ∃ next : Download, next.file = file ∧ next.path = download.path ∧
      first.settleDelivery file other dataAlso peer now = first.acceptance next other dataAlso ∧
      second.settleDelivery file one data peer now = second.acceptance next one data ∧
      second.accepted next one.index = first.accepted next other.index := by
  rcases crossed.download? file with ⟨none, _⟩ | ⟨known, alike, foundHere, foundThere, both⟩
  · rw [none] at found
    cases found
  · cases found.symm.trans foundHere
    cases both with
    | same elsewhere => exact absurd (mem_of_download? found).2 elsewhere
    | @crossed coverage named states =>
      obtain ⟨final, moved, movedAlso⟩ := states.arrived apart
      refine ⟨Download.report { download with coverage := final } peer true now, named, rfl, ?_, ?_,
        crossed.accepted_eq named⟩
      · exact settleDelivery_of_pending found (states.isIn_pending apart) fitsAlso moved dataAlso
          peer now
      · exact settleDelivery_of_pending foundThere (states.symm.isIn_pending apart.symm) fits
          movedAlso data peer now

end Between

end Fetcher

namespace Fetch

open Fetcher (Consistent)

/-- What an accepted chunk comes to besides its write. -/
structure Receipt where
  bytesReceived : Nat
  complete : Bool
  picks : List Pick

/-- An event receives a chunk of a file: its data is written, the file is closed if it is complete,
and requests are sent. -/
structure Event.Receives (event : Event) (file : File) (path : String) (extent : Extent)
    (data : Bytes) (receipt : Receipt) : Prop where
  reply : event.reply = .told (.progress file receipt.bytesReceived ::
    if receipt.complete then [.completed file path] else [])
  effects : event.effects = (.write path extent.offset (data.take extent.size) ::
    if receipt.complete then [.close path] else []) ++ receipt.picks.map .get

/-- Two chunks of a file arrive in one order, as the events `first` and `second`, and in the other,
as the events `early` and `late`. Whichever is first, it comes to the same but for its write, and
then the other one does, too. -/
structure Commute (file : File) (one other : Extent) (data dataAlso : Bytes)
    (first second early late : Event) : Prop where
  replies : ∃ path, ∃ before after : Receipt, before.complete = false ∧
    first.Receives file path one data before ∧ second.Receives file path other dataAlso after ∧
    early.Receives file path other dataAlso before ∧ late.Receives file path one data after
  same : second.after = late.after
  /-- The bytes of one write all lie before those of the other. -/
  disjoint : one.offset + (data.take one.size).length ≤ other.offset ∨
    other.offset + (dataAlso.take other.size).length ≤ one.offset

namespace History

variable {history : History Unit} {file : File} {path : String}
variable {extent : Extent} {data : Bytes} {peer : Peer} {now : Nat} {next : Download}
variable {picks : List Pick}

/-- A delivery that is accepted is followed by the requests that the scheduler sends. -/
theorem receives_delivery (history : History Unit) (greedy : Greedy)
    (settles : history.fetcher.settleDelivery file extent data peer now =
      history.fetcher.acceptance next extent data) (named : next.file = file)
    (placed : next.path = path)
    (sends : ((history.fetcher.accepted next extent.index).dispatch greedy.scheduler () now).picks =
      picks) :
    let event := history.event greedy.scheduler (.deliver file extent data peer) now
    event.Receives file path extent data
        { bytesReceived := next.bytesReceived, complete := next.isComplete, picks } ∧
      event.after = ((history.fetcher.accepted next extent.index).dispatch greedy.scheduler ()
        now).fetcher := by
  subst named placed sends
  have settles : history.fetcher.settle (.deliver next.file extent data peer) now =
      history.fetcher.acceptance next extent data := settles
  have dispatches : (history.fetcher.settle (.deliver next.file extent data peer) now).dispatches =
      true := by rw [settles]; rfl
  have step := Fetcher.step_of_dispatches greedy.scheduler history.memory dispatches
  simp only [settles] at step
  intro event
  constructor
  · constructor
    · exact congrArg Turn.reply step
    · exact congrArg Turn.effects step
  · exact congrArg Turn.fetcher step

theorem commute_deliver (consistent : Consistent [] history.fetcher) (greedy : Greedy)
    {one other : Extent} (apart : one.index ≠ other.index)
    (awaits : history.fetcher.Awaits file peer one)
    (awaitsAlso : history.fetcher.Awaits file peer other) (data dataAlso : Bytes) (now : Nat) :
    let scheduler := greedy.scheduler
    let delivery : Operation := .deliver file one data peer
    let deliveryAlso : Operation := .deliver file other dataAlso peer
    Commute file one other data dataAlso (history.event scheduler delivery now)
      ((history.next scheduler delivery now).event scheduler deliveryAlso now)
      (history.event scheduler deliveryAlso now)
      ((history.next scheduler deliveryAlso now).event scheduler delivery now) := by
  intro scheduler delivery deliveryAlso
  obtain ⟨download, found⟩ := awaits.due.exists_found
  obtain ⟨next, nextAlso, goesOn, goesOnAlso, bytes, settles, settlesAlso, crossed⟩ :=
    awaits.settle awaitsAlso consistent apart found data dataAlso now
  obtain ⟨picks, still⟩ := crossed.dispatch greedy now
  obtain ⟨_, named⟩ := Fetcher.mem_of_download? found
  obtain ⟨first, after⟩ :=
    receives_delivery history greedy settles (goesOn.file.trans named) goesOn.path rfl
  obtain ⟨early, afterAlso⟩ := receives_delivery history greedy settlesAlso
    (goesOnAlso.file.trans named) goesOnAlso.path picks
  rw [goesOn.incomplete] at first
  rw [goesOnAlso.incomplete, bytes] at early
  -- The two sides that the second replies meet are crossed, too.
  have kept : Consistent [] (history.fetcher.accepted next one.index) := by
    have settled := (Fetcher.settles_deliver consistent file one data peer now).2
    rwa [settles] at settled
  obtain ⟨_, sends⟩ := Fetcher.sends_dispatch greedy.scheduler () now kept
  obtain ⟨keptThen, continues⟩ := sends.consistent kept
  have options := continues.options.trans (Fetcher.options_accepted ..)
  obtain ⟨later, foundThen, path⟩ :=
    sends.download? kept (Fetcher.download?_accepted consistent found goesOn)
  obtain ⟨final, finalFile, finalPath, settlesThen, settlesLate, same⟩ := still.settle apart
    foundThen (awaits.due.fits keptThen options foundThen)
    (awaitsAlso.due.fits keptThen options foundThen) data dataAlso peer now
  rw [← after] at settlesThen same
  rw [← afterAlso] at settlesLate same
  have finalPath := finalPath.trans (path.trans goesOn.path)
  obtain ⟨second, afterThen⟩ := receives_delivery (history.next scheduler delivery now) greedy
    settlesThen finalFile finalPath rfl
  obtain ⟨late, afterLate⟩ := receives_delivery (history.next scheduler deliveryAlso now) greedy
    settlesLate finalFile finalPath
    (congrArg (fun fetcher => (fetcher.dispatch greedy.scheduler () now).picks) same)
  constructor
  · exact ⟨download.path, _, _, rfl, first, second, early, late⟩
  · exact afterThen.trans ((congrArg (fun fetcher =>
      (fetcher.dispatch greedy.scheduler () now).fetcher) same.symm).trans afterLate.symm)
  · rcases Nat.lt_or_gt_of_ne apart with before | behind
    · exact .inl (awaits.due.stop_le awaitsAlso.due before data)
    · exact .inr (awaitsAlso.due.stop_le awaits.due behind dataAlso)

end History

/-- In every reachable state of a fetching side with the greedy scheduler, whatever its bounds are,
any two chunks of a file that were asked of one peer can arrive in either order. -/
theorem replies_commute (greedy : Greedy) (options : Options) (commands : List (Operation × Nat))
    (file : File) (peer : Peer) (one other : Extent) (data dataAlso : Bytes) (now : Nat)
    (apart : one.index ≠ other.index)
    (awaits : (History.run greedy.scheduler options () commands).fetcher.Awaits file peer one)
    (awaitsAlso :
      (History.run greedy.scheduler options () commands).fetcher.Awaits file peer other) :
    let event (commands : List (Operation × Nat)) (operation : Operation) :=
      (History.run greedy.scheduler options () commands).event greedy.scheduler operation now
    let delivery : Operation := .deliver file one data peer
    let deliveryAlso : Operation := .deliver file other dataAlso peer
    Commute file one other data dataAlso (event commands delivery)
      (event (commands ++ [(delivery, now)]) deliveryAlso) (event commands deliveryAlso)
      (event (commands ++ [(deliveryAlso, now)]) delivery) := by
  intro event delivery deliveryAlso
  simp only [event, History.run_append_singleton]
  exact History.commute_deliver
    (History.lawful_run greedy.scheduler options () commands).consistent greedy apart awaits
    awaitsAlso data dataAlso now

/-- The first two of four chunks arrive in either order. After the first reply the third chunk is
asked for and after the second one the last. -/
theorem replies_commute_four_chunks :
    let options : Options := { chunkSize := 2, maxParallelChunks := 2 }
    let greedy := Greedy.ofOptions options
    let file : File := { id := 1, hash := "", size := 7 }
    let peer : Peer := .ofNat 1
    let commands : List (Operation × Nat) := [(.join peer, 0), (.request file "target", 0)]
    let event (commands : List (Operation × Nat)) (operation : Operation) :=
      (History.run greedy.scheduler options () commands).event greedy.scheduler operation 5
    let delivery : Operation := .deliver file ⟨0, 0, 2⟩ [7, 8] peer
    let deliveryAlso : Operation := .deliver file ⟨1, 2, 1⟩ [9] peer
    let first := event commands delivery
    let second := event (commands ++ [(delivery, 5)]) deliveryAlso
    first.effects = [.write "target" 0 [7, 8], .get ⟨file, ⟨2, 4, 2⟩, peer⟩] ∧
      second.effects = [.write "target" 2 [9], .get ⟨file, ⟨3, 6, 1⟩, peer⟩] ∧
      Commute file ⟨0, 0, 2⟩ ⟨1, 2, 1⟩ [7, 8] [9] first second (event commands deliveryAlso)
        (event (commands ++ [(deliveryAlso, 5)]) delivery) := by
  intro options greedy file peer commands event delivery deliveryAlso first second
  have awaits : (History.run greedy.scheduler options () commands).fetcher.Awaits file peer
      ⟨0, 0, 2⟩ := ⟨⟨by decide +kernel, by decide, by decide⟩, by decide +kernel⟩
  have awaitsAlso : (History.run greedy.scheduler options () commands).fetcher.Awaits file peer
      ⟨1, 2, 1⟩ := ⟨⟨by decide +kernel, by decide, by decide⟩, by decide +kernel⟩
  exact ⟨by decide +kernel, by decide +kernel, replies_commute greedy options commands file peer
    ⟨0, 0, 2⟩ ⟨1, 2, 1⟩ [7, 8] [9] 5 (by decide) awaits awaitsAlso⟩

end Fetch

end ChunkExchange
