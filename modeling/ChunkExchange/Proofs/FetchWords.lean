import ChunkExchange.Proofs.Settlement
import ChunkExchange.Proofs.Words

namespace ChunkExchange

open Words (countLimit multiply subtract takeTo removeAt)

/-- The episodes are counted up to their limit, so that the window counts from zero. -/
def Standing.blameInWords (standing : Standing) (backoff : Backoff) (now : Nat) :
    Option Standing :=
  if !standing.delivered && !standing.window.isOver now then some standing
  else do
    let episodes := min (standing.episodes + 1) episodeLimit
    let earlier ← subtract episodes 1
    let window := match backoff.delay? earlier with
      | some delay => .upTo (now + delay)
      | none => .forever
    return { delivered := false, episodes, window }

theorem Standing.blameInWords_eq (standing : Standing) (backoff : Backoff) (now : Nat) :
    standing.blameInWords backoff now = some (standing.blame backoff now) := by
  have counted : 1 ≤ min (standing.episodes + 1) episodeLimit :=
    Nat.le_min.mpr ⟨Nat.le_add_left 1 _, by decide⟩
  unfold blameInWords blame
  simp only [Words.subtract_eq counted]
  split <;> rfl

def Reputation.reportInWords (reputation : Reputation) (peer : Peer) (delivered : Bool)
    (now : Nat) : Option Reputation := do
  let standing := (reputation.standing? peer).getD .fresh
  let judged ←
    if delivered then some standing.praise else standing.blameInWords reputation.backoff now
  return reputation.put peer judged

theorem Reputation.reportInWords_eq (reputation : Reputation) (peer : Peer) (delivered : Bool)
    (now : Nat) :
    reputation.reportInWords peer delivered now = some (reputation.report peer delivered now) := by
  unfold reportInWords report
  cases delivered with
  | true => rfl
  | false => simp [Standing.blameInWords_eq]

namespace Download

def startInWords (file : File) (path : String) (chunkSize : Nat) (backoff : Backoff) :
    Option Download := do
  let count ← file.chunkCountInWords chunkSize
  return { file, path, chunkSize, coverage := .fresh count, reputation := .fresh backoff }

def extentInWords (download : Download) (index : Nat) : Option Extent :=
  download.file.extentInWords index download.chunkSize

def bytesReceivedInWords (download : Download) : Option Nat := do
  let bytes ← multiply download.coverage.received download.chunkSize
  return min bytes download.file.size

def moveInWords (download : Download) (index : Nat) (target : ChunkState) :
    Option (Except Rejection Download) := do
  match ← download.coverage.moveInWords index target with
  | .ok coverage => return .ok { download with coverage }
  | .error refusal => return .error refusal

def reportInWords (download : Download) (peer : Peer) (delivered : Bool) (now : Nat) :
    Option Download := do
  let reputation ← download.reputation.reportInWords peer delivered now
  return { download with reputation }

def receivedInWords (download : Download) (index : Nat) (peer : Peer) (now : Nat) :
    Option (Except Rejection Download) := do
  match ← download.moveInWords index .received with
  | .ok moved =>
    let judged ← moved.reportInWords peer true now
    return .ok judged
  | .error refusal => return .error refusal

def missingInWords (download : Download) (index : Nat) (peer : Peer) (now : Nat)
    (giveBack : Bool) : Option Failure := do
  let blamed ← download.reportInWords peer false now
  if giveBack then
    match ← blamed.moveInWords index .waiting with
    | .ok released => return { download := released, refusal := none }
    | .error refusal => return { download := blamed, refusal := some refusal }
  else
    return { download := blamed, refusal := none }

variable {download next : Download} {options : Options} {index : Nat} {peer : Peer} {now : Nat}

theorem Sound.small (sound : download.Sound options) : download.coverage.Small :=
  ⟨sound.counted, by rw [sound.count]; exact File.chunkCount_le _ _⟩

theorem startInWords_eq {chunkSize : Nat} (positive : 0 < chunkSize) (file : File) (path : String)
    (backoff : Backoff) :
    ∃ download, startInWords file path chunkSize backoff = some download ∧
      start file path chunkSize backoff = .ok download ∧
      download.coverage = .fresh (file.chunkCount chunkSize) := by
  refine ⟨{ file, path, chunkSize, coverage := .fresh (file.chunkCount chunkSize)
            reputation := .fresh backoff }, ?_, ?_, rfl⟩
  · rw [startInWords, file.chunkCountInWords_eq positive]
    rfl
  · simp [start, File.chunkCount?, Nat.ne_of_gt positive, bind, Except.bind, pure, Except.pure]

private theorem received_cases (arrived : download.received index peer now = .ok next) :
    download.coverage.move index .received = .ok next.coverage ∧
      next.chunkSize = download.chunkSize := by
  cases moved : download.move index .received with
  | error refusal => simp [received, moved, bind, Except.bind] at arrived
  | ok placed =>
    obtain ⟨coverage, stored, same⟩ := move_cases moved
    simp only [received, moved, bind, Except.bind, pure, Except.pure, Except.ok.injEq] at arrived
    rw [← arrived, same]
    exact ⟨stored, rfl⟩

theorem small_fresh (file : File) (chunkSize : Nat) :
    (Coverage.fresh (file.chunkCount chunkSize)).Small := by
  refine ⟨Coverage.counted_fresh _, ?_⟩
  rw [Coverage.count, Coverage.fresh, Array.size_replicate]
  exact File.chunkCount_le file chunkSize

theorem reportInWords_eq (download : Download) (peer : Peer) (delivered : Bool) (now : Nat) :
    download.reportInWords peer delivered now = some (download.report peer delivered now) := by
  rw [reportInWords, Reputation.reportInWords_eq]
  rfl

section Small

variable (small : download.coverage.Small)

include small

theorem moveInWords_eq (index : Nat) (target : ChunkState) :
    download.moveInWords index target = some (download.move index target) := by
  rw [moveInWords, small.moveInWords_eq, move]
  cases download.coverage.move index target <;> rfl

theorem receivedInWords_eq (index : Nat) (peer : Peer) (now : Nat) :
    download.receivedInWords index peer now = some (download.received index peer now) := by
  rw [receivedInWords, moveInWords_eq small, received]
  cases download.move index .received with
  | error refusal => rfl
  | ok moved =>
    simp only [Option.bind_eq_bind, Option.bind_some, reportInWords_eq]
    rfl

theorem missingInWords_eq (index : Nat) (peer : Peer) (now : Nat) (giveBack : Bool) :
    download.missingInWords index peer now giveBack =
      some (download.missing index peer now giveBack) := by
  have blamed : (download.report peer false now).coverage.Small := small
  rw [missingInWords, reportInWords_eq, missing]
  simp only [Option.bind_eq_bind, Option.bind_some, moveInWords_eq blamed, release]
  cases giveBack with
  | false => rfl
  | true => cases (download.report peer false now).move index .waiting <;> rfl

theorem bytesReceivedInWords_eq (sizes : download.chunkSize ≤ countLimit) :
    download.bytesReceivedInWords = some download.bytesReceived := by
  have whole := small.counted.total
  have limited := small.small
  rw [bytesReceivedInWords, Words.multiply_eq (by omega) sizes]
  rfl

theorem extentInWords_eq (sizes : download.chunkSize ≤ countLimit)
    (bound : index < download.coverage.count) :
    download.extentInWords index = some (download.extent index) :=
  File.extentInWords_eq download.file (Nat.le_trans (Nat.le_of_lt bound) small.small) sizes

end Small

end Download

namespace Fetcher

open Fetch (Operation Settled)

def giveBackInWords (fetcher : Fetcher) (ticket : Ticket) : Option Fetcher :=
  match fetcher.download? ticket.file with
  | some download => do
    match ← download.moveInWords ticket.extent.index .waiting with
    | .ok released => return fetcher.replace released
    | .error _ => return fetcher
  | none => some fetcher

def leaveInWords (fetcher : Fetcher) (peer : Peer) : Option Fetcher :=
  let abandoned := fetcher.tickets.filter (fun ticket => ticket.peer == peer)
  let kept : Fetcher :=
    { fetcher with
      downloads := fetcher.downloads.map (·.forget peer)
      peers := fetcher.peers.filter (fun other => !(other == peer))
      tickets := fetcher.tickets.filter (fun ticket => !(ticket.peer == peer)) }
  abandoned.foldlM giveBackInWords kept

def activateInWords (fetcher : Fetcher) (file : File) (path : String) : Option Change := do
  let cleared := fetcher.supersede file
  let download ←
    Download.startInWords file path fetcher.options.chunkSize fetcher.options.downloadRetry
  let complete ← download.coverage.isCompleteInWords
  if complete then
    return { fetcher := cleared, notices := [.completed file path], effects := [.close path] }
  else
    return {
      fetcher := { cleared with downloads := insertInOrder download cleared.downloads }
      notices := [], effects := [] }

def storeInWords (fetcher : Fetcher) (download : Download) (expected extent : Extent)
    (data : Bytes) (peer : Peer) (now : Nat) : Option (Except Rejection Change) := do
  let stored ← takeTo data (min data.length extent.size)
  let write : Fetch.Effect := .write download.path expected.offset stored
  match ← download.receivedInWords extent.index peer now with
  | .error refusal => return .error refusal
  | .ok received =>
    let settled : Fetcher :=
      { fetcher.replace received with
        tickets := fetcher.tickets.filter (fun ticket =>
          !(ticket.isFor download.file extent.index)) }
    let bytes ← received.bytesReceivedInWords
    let complete ← received.coverage.isCompleteInWords
    let progress : Notice := .progress download.file bytes
    if complete then
      return .ok {
        fetcher := settled.drop download.file
        notices := [progress, .completed download.file download.path]
        effects := [write, .close download.path] }
    else
      return .ok { fetcher := settled, notices := [progress], effects := [write] }

def receiveInWords (fetcher : Fetcher) (file : File) (extent : Extent) (data : Bytes)
    (peer : Peer) (now : Nat) : Option (Except Rejection Change) :=
  let ignored : Change := { fetcher, notices := [], effects := [] }
  match fetcher.download? file with
  | none => some (.ok ignored)
  | some download => do
    match ← download.coverage.stateInWords extent.index with
    | .error refusal => return .error refusal
    | .ok .received => return .ok ignored
    | .ok .waiting => return .error (.invalidTransition extent.index .waiting .received)
    | .ok .pending =>
      let expected ← download.extentInWords extent.index
      if extent.offset = expected.offset ∧ extent.size ≤ expected.size then
        fetcher.storeInWords download expected extent data peer now
      else
        return .error (.extentMismatch extent.index expected extent)

/-- The ticket that a report answers is removed from its place. -/
def missInWords (fetcher : Fetcher) (file : File) (index : Nat) (peer : Peer) (now : Nat) :
    Option Blame :=
  match fetcher.download? file with
  | none => some { fetcher, refusal := none }
  | some download => do
    let place? := fetcher.tickets.findIdx? (fun ticket => ticket.matchesKey file index peer)
    let failure ← download.missingInWords index peer now place?.isSome
    let blamed := fetcher.replace failure.download
    match failure.refusal, place? with
    | some refusal, _ => return { fetcher := blamed, refusal := some refusal }
    | none, none => return { fetcher := blamed, refusal := none }
    | none, some place =>
      let tickets ← removeAt fetcher.tickets place
      return { fetcher := { blamed with tickets }, refusal := none }

def timeOutInWords (now : Nat) (blame : Blame) (ticket : Ticket) : Option Blame :=
  match blame.fetcher.download? ticket.file with
  | none => some blame
  | some download => do
    let failure ← download.missingInWords ticket.extent.index ticket.peer now true
    return {
      fetcher := blame.fetcher.replace failure.download
      refusal := blame.refusal <|> failure.refusal }

def expireInWords (fetcher : Fetcher) (now : Nat) : Option Blame :=
  let expired := fetcher.tickets.filter (·.isExpired now)
  let kept : Fetcher :=
    { fetcher with tickets := fetcher.tickets.filter (fun ticket => !ticket.isExpired now) }
  expired.foldlM (timeOutInWords now) { fetcher := kept, refusal := none }

def settleInWords (fetcher : Fetcher) (operation : Operation) (now : Nat) : Option Settled :=
  match operation with
  | .join _ | .cancel _ => some (fetcher.settle operation now)
  | .leave peer => do
    let left ← fetcher.leaveInWords peer
    return { fetcher := left, reply := .done, effects := [], dispatches := true }
  | .request file path =>
    if fetcher.isActive file then
      some (fetcher.settle operation now)
    else do
      let change ← fetcher.activateInWords file path
      return {
        fetcher := change.fetcher, reply := .told change.notices, effects := change.effects
        dispatches := true }
  | .deliver file extent data peer => do
    match ← fetcher.receiveInWords file extent data peer now with
    | .ok change =>
      return {
        fetcher := change.fetcher, reply := .told change.notices, effects := change.effects
        dispatches := true }
    | .error rejection =>
      return { fetcher, reply := .refused rejection, effects := [], dispatches := true }
  | .miss file extent peer => do
    let blame ← fetcher.missInWords file extent.index peer now
    return {
      fetcher := blame.fetcher, reply := .ofRefusal blame.refusal, effects := []
      dispatches := true }
  | .tick => do
    let blame ← fetcher.expireInWords now
    return {
      fetcher := blame.fetcher, reply := .ofRefusal blame.refusal, effects := []
      dispatches := true }

variable {fetcher : Fetcher} {outstanding : List Ticket} {download : Download} {now : Nat}

theorem Consistent.small (consistent : Consistent outstanding fetcher)
    (member : download ∈ fetcher.downloads) : download.coverage.Small :=
  (consistent.sound download member).small

theorem giveBackInWords_eq (consistent : Consistent outstanding fetcher) (ticket : Ticket) :
    fetcher.giveBackInWords ticket = some (fetcher.giveBack ticket) := by
  unfold giveBackInWords giveBack
  cases found : fetcher.download? ticket.file with
  | none => rfl
  | some download =>
    have small := consistent.small (mem_of_download? found).1
    simp only [Download.moveInWords_eq small, Download.release, Option.bind_eq_bind,
      Option.bind_some]
    cases download.move ticket.extent.index .waiting <;> rfl

theorem leaveInWords_eq (consistent : Consistent [] fetcher) (peer : Peer) :
    fetcher.leaveInWords peer = some (fetcher.leave peer) := by
  have taken := consistent.takeOff (fun ticket => ticket.peer == peer)
  refine Words.foldlM_eq (fun rest fetcher => Consistent rest fetcher) ?_ _ _
    (taken.forget peer).1
  intro fetcher ticket rest consistent
  exact ⟨giveBackInWords_eq consistent ticket, (consistent_giveBack consistent).1⟩

theorem timeOutInWords_eq {refusal : Option Rejection}
    (consistent : Consistent outstanding fetcher) (now : Nat) (ticket : Ticket) :
    timeOutInWords now { fetcher, refusal } ticket =
      some (timeOut now { fetcher, refusal } ticket) := by
  unfold timeOutInWords timeOut
  dsimp only
  cases found : fetcher.download? ticket.file with
  | none => rfl
  | some download =>
    have small := consistent.small (mem_of_download? found).1
    simp only [Download.missingInWords_eq small]
    rfl

theorem expireInWords_eq (consistent : Consistent [] fetcher) (now : Nat) :
    fetcher.expireInWords now = some (fetcher.expire now) := by
  refine Words.foldlM_eq (fun rest blame => Consistent rest blame.fetcher) ?_ _ _
    (consistent.takeOff (fun ticket => ticket.isExpired now))
  rintro ⟨fetcher, refusal⟩ ticket rest consistent
  obtain ⟨settled, result, kept, _⟩ := consistent_timeOut consistent refusal now
  refine ⟨timeOutInWords_eq consistent now ticket, ?_⟩
  rw [result]
  exact kept

theorem activateInWords_eq (positive : 0 < fetcher.options.chunkSize) (file : File)
    (path : String) :
    ∃ change, fetcher.activateInWords file path = some change ∧
      fetcher.activate file path = .ok change := by
  obtain ⟨download, inWords, plain, fresh⟩ :=
    Download.startInWords_eq positive file path fetcher.options.downloadRetry
  have small : download.coverage.Small := fresh ▸ Download.small_fresh file _
  unfold activateInWords activate
  rw [inWords, plain]
  cases complete : download.coverage.isComplete with
  | true | false =>
    simp only [Option.bind_some, small.isCompleteInWords_eq, bind, Except.bind, Download.isComplete,
      complete]
    exact ⟨_, rfl, rfl⟩

theorem missInWords_eq (consistent : Consistent outstanding fetcher) (file : File) (index : Nat)
    (peer : Peer) (now : Nat) :
    fetcher.missInWords file index peer now = some (fetcher.miss file index peer now) := by
  unfold missInWords miss
  cases found : fetcher.download? file with
  | none => rfl
  | some download =>
    have small := consistent.small (mem_of_download? found).1
    simp only [Download.missingInWords_eq small, List.findIdx?_isSome, Option.bind_eq_bind,
      Option.bind_some, List.eraseP_eq_eraseIdx]
    cases (download.missing index peer now _).refusal with
    | some refusal => rfl
    | none =>
      cases place : fetcher.tickets.findIdx? (fun ticket => ticket.matchesKey file index peer) with
      | none => rfl
      | some position =>
        have inside := List.findIdx?_eq_some_iff_getElem.mp place
        simp only [Words.removeAt_eq inside.1]
        rfl

section Sizes

variable (consistent : Consistent [] fetcher) (sizes : fetcher.options.chunkSize ≤ countLimit)

include consistent sizes

theorem storeInWords_eq (member : download ∈ fetcher.downloads) (extent : Extent) (data : Bytes)
    (peer : Peer) (now : Nat) :
    fetcher.storeInWords download (download.extent extent.index) extent data peer now =
      some (fetcher.store download extent data peer now) := by
  have sound := consistent.sound download member
  have inside : min data.length extent.size ≤ data.length := Nat.min_le_left _ _
  unfold storeInWords store
  rw [Words.takeTo_eq inside, Download.receivedInWords_eq sound.small, Nat.min_comm,
    ← List.take_eq_take_min]
  cases moved : download.received extent.index peer now with
  | error refusal => rfl
  | ok received =>
    obtain ⟨arrived, chunkSize⟩ := Download.received_cases moved
    have small : received.coverage.Small := sound.small.move arrived
    have typed : received.chunkSize ≤ countLimit := by rw [chunkSize, sound.chunkSize]; exact sizes
    cases complete : received.coverage.isComplete with
    | true | false =>
      simp only [Option.bind_some, Download.bytesReceivedInWords_eq small typed,
        small.isCompleteInWords_eq, bind, Except.bind, Download.isComplete, complete]
      rfl

theorem receiveInWords_eq (file : File) (extent : Extent) (data : Bytes) (peer : Peer)
    (now : Nat) :
    fetcher.receiveInWords file extent data peer now =
      some (fetcher.receive file extent data peer now) := by
  unfold receiveInWords receive
  cases found : fetcher.download? file with
  | none => rfl
  | some download =>
    obtain ⟨member, _⟩ := mem_of_download? found
    have sound := consistent.sound download member
    simp only [sound.small.stateInWords_eq, Option.bind_some, bind, Except.bind]
    cases known : download.coverage.state extent.index with
    | error refusal => rfl
    | ok state =>
      cases state with
      | waiting | received => rfl
      | pending =>
        have bound := Coverage.lt_count_of_isIn (Coverage.isIn_of_state known)
        have typed : download.chunkSize ≤ countLimit := by rw [sound.chunkSize]; exact sizes
        simp only [Download.extentInWords_eq sound.small typed bound, Option.bind_some,
          storeInWords_eq consistent sizes member]
        split <;> rfl

theorem settleInWords_eq (positive : 0 < fetcher.options.chunkSize) (operation : Operation)
    (now : Nat) : fetcher.settleInWords operation now = some (fetcher.settle operation now) := by
  cases operation with
  | join | cancel => rfl
  | leave peer =>
    rw [settleInWords, leaveInWords_eq consistent]
    rfl
  | request file path =>
    rw [settleInWords, settle, settleRequest]
    cases active : fetcher.isActive file with
    | true => simp
    | false =>
      obtain ⟨change, inWords, plain⟩ := activateInWords_eq positive file path
      simp [inWords, plain]
  | deliver file extent data peer =>
    rw [settleInWords, receiveInWords_eq consistent sizes, settle, settleDelivery]
    cases fetcher.receive file extent data peer now <;> rfl
  | miss file extent peer =>
    rw [settleInWords, missInWords_eq consistent]
    rfl
  | tick =>
    rw [settleInWords, expireInWords_eq consistent]
    rfl

end Sizes

end Fetcher

end ChunkExchange
