import ChunkExchange.Proofs.History
import ChunkExchange.Proofs.Reports

/-! A delivered chunk is accepted exactly when it is due. Any other one is refused or ignored, each
for its own reason, and comes to no more than asking the scheduler does. -/

namespace ChunkExchange

namespace Fetcher

open Fetch (Pick Reply Scheduler Settled Turn History Operation)

/-- The state of a chunk, where its file is active and has it. -/
def chunk? (fetcher : Fetcher) (file : File) (index : Nat) : Option ChunkState :=
  (fetcher.download? file).bind (·.coverage.states[index]?)

def dueExtent (fetcher : Fetcher) (file : File) (extent : Extent) : Extent :=
  file.extent extent.index fetcher.options.chunkSize

/-- A chunk was asked for, and is at its own offset and no longer than it should be. -/
def Due (fetcher : Fetcher) (file : File) (extent : Extent) : Prop :=
  fetcher.chunk? file extent.index = some .pending ∧
    extent.offset = (fetcher.dueExtent file extent).offset ∧
    extent.size ≤ (fetcher.dueExtent file extent).size

/-- A chunk was asked for, but is at another offset or longer than it should be. -/
def Misplaced (fetcher : Fetcher) (file : File) (extent : Extent) : Prop :=
  fetcher.chunk? file extent.index = some .pending ∧
    (extent.offset ≠ (fetcher.dueExtent file extent).offset ∨
      (fetcher.dueExtent file extent).size < extent.size)

/-- A file is active and has no chunk of this index. -/
def Beyond (fetcher : Fetcher) (file : File) (extent : Extent) : Prop :=
  fetcher.isActive file = true ∧ file.chunkCount fetcher.options.chunkSize ≤ extent.index

def Unasked (fetcher : Fetcher) (file : File) (extent : Extent) : Prop :=
  fetcher.chunk? file extent.index = some .waiting

/-- What a delivered chunk can meet, and what it comes to before the scheduler is asked. -/
inductive Reception (fetcher : Fetcher) (file : File) (extent : Extent) : Settled → Prop where
  | inactive (inactive : fetcher.isActive file = false) :
      Reception fetcher file extent
        { fetcher, reply := .told [], effects := [], dispatches := true }
  | arrived (arrived : fetcher.chunk? file extent.index = some .received) :
      Reception fetcher file extent
        { fetcher, reply := .told [], effects := [], dispatches := true }
  | beyond (beyond : fetcher.Beyond file extent) :
      Reception fetcher file extent
        { fetcher, effects := [], dispatches := true
          reply := .refused (.outOfRange extent.index
            (file.chunkCount fetcher.options.chunkSize)) }
  | unasked (unasked : fetcher.Unasked file extent) :
      Reception fetcher file extent
        { fetcher, effects := [], dispatches := true
          reply := .refused (.invalidTransition extent.index .waiting .received) }
  | misplaced (misplaced : fetcher.Misplaced file extent) :
      Reception fetcher file extent
        { fetcher, effects := [], dispatches := true
          reply := .refused (.extentMismatch extent.index (fetcher.dueExtent file extent)
            extent) }
  | accepted {settled : Settled} {notices : List Notice} (due : fetcher.Due file extent)
      (told : settled.reply = .told notices) (some : notices ≠ [])
      (dispatches : settled.dispatches = true) : Reception fetcher file extent settled

variable {Memory : Type} {fetcher : Fetcher} {download : Download} {file : File}
variable {extent : Extent} {data : Bytes} {peer : Peer} {now : Nat} {settled : Settled}

theorem chunk?_of_found (found : fetcher.download? file = some download) (index : Nat) :
    fetcher.chunk? file index = download.coverage.states[index]? := by
  rw [chunk?, found, Option.bind_some]

theorem dueExtent_of_found (consistent : Consistent [] fetcher)
    (found : fetcher.download? file = some download) (extent : Extent) :
    fetcher.dueExtent file extent = download.extent extent.index := by
  obtain ⟨member, rfl⟩ := mem_of_download? found
  rw [dueExtent, Download.extent, (consistent.sound download member).chunkSize]

theorem due_of_pending (consistent : Consistent [] fetcher) (member : download ∈ fetcher.downloads)
    (pending : download.coverage.isIn extent.index .pending = true)
    (placed : extent.offset = (download.extent extent.index).offset)
    (fitting : extent.size ≤ (download.extent extent.index).size) :
    fetcher.Due download.file extent := by
  have found := download?_of_mem consistent.distinct member
  refine ⟨?_, ?_⟩
  · rw [chunk?_of_found found]
    exact Coverage.isIn_iff.mp pending
  · rw [dueExtent_of_found consistent found]
    exact ⟨placed, fitting⟩

/-- A chunk of an active file that is not accepted is refused, or it arrived before. -/
theorem reception_deliver (consistent : Consistent [] fetcher) (file : File) (extent : Extent)
    (data : Bytes) (peer : Peer) (now : Nat) :
    Reception fetcher file extent (fetcher.settleDelivery file extent data peer now) := by
  cases found : fetcher.download? file with
  | none =>
    have inactive : fetcher.isActive file = false := by rw [isActive, found]; rfl
    have result : fetcher.receive file extent data peer now =
        .ok { fetcher, notices := [], effects := [] } := by
      simp only [receive, found]; rfl
    rw [settleDelivery, result]
    exact .inactive inactive
  | some download =>
    have states := chunk?_of_found found extent.index
    have due := dueExtent_of_found consistent found extent
    obtain ⟨member, rfl⟩ := mem_of_download? found
    have count := (consistent.sound download member).count
    cases known : download.coverage.states[extent.index]? with
    | none =>
      have unknown : fetcher.receive download.file extent data peer now =
          .error (.outOfRange extent.index download.coverage.count) := by
        simp only [receive, found, Coverage.state, known]; rfl
      rw [settleDelivery, unknown, count]
      refine .beyond ⟨isActive_iff.mpr ⟨download, member, rfl⟩, ?_⟩
      rw [← count]
      exact Array.getElem?_eq_none_iff.mp known
    | some state =>
      cases state with
      | received =>
        have ignored : fetcher.receive download.file extent data peer now =
            .ok { fetcher, notices := [], effects := [] } := by
          simp only [receive, found, Coverage.state, known]; rfl
        rw [settleDelivery, ignored]
        exact .arrived (states.trans known)
      | waiting =>
        have refused : fetcher.receive download.file extent data peer now =
            .error (.invalidTransition extent.index .waiting .received) := by
          simp only [receive, found, Coverage.state, known]; rfl
        rw [settleDelivery, refused]
        exact .unasked (states.trans known)
      | pending =>
        by_cases fits : extent.offset = (download.extent extent.index).offset ∧
            extent.size ≤ (download.extent extent.index).size
        · have pending := Coverage.isIn_iff.mpr known
          obtain ⟨coverage, _, _, stored⟩ := store_of_pending pending fetcher data peer now
          rw [settleDelivery, receive_of_pending found pending fits.1 fits.2, stored]
          refine .accepted ⟨states.trans known, by rwa [due]⟩ rfl ?_ rfl
          unfold arrival
          dsimp only
          split <;> simp
        · have refused : fetcher.receive download.file extent data peer now =
              .error (.extentMismatch extent.index (download.extent extent.index) extent) := by
            simp only [receive, found, Coverage.state, known]
            exact if_neg fits
          rw [settleDelivery, refused, ← due]
          refine .misplaced ⟨states.trans known, ?_⟩
          rw [due]
          omega

private theorem chunk?_of_inactive (inactive : fetcher.isActive file = false) (index : Nat) :
    fetcher.chunk? file index = none := by
  rw [chunk?, download?_eq_none_iff.mpr (isActive_eq_false_iff.mp inactive), Option.bind_none]

theorem Beyond.chunk?_eq_none (consistent : Consistent [] fetcher)
    (beyond : fetcher.Beyond file extent) : fetcher.chunk? file extent.index = none := by
  obtain ⟨active, outside⟩ := beyond
  obtain ⟨download, member, rfl⟩ := isActive_iff.mp active
  rw [chunk?_of_found (download?_of_mem consistent.distinct member), Array.getElem?_eq_none_iff]
  rw [← (consistent.sound download member).count] at outside
  exact outside

structure Answers (fetcher : Fetcher) (file : File) (extent : Extent) (reply : Reply) : Prop where
  accepted : (∃ notices, reply = .told notices ∧ notices ≠ []) ↔ fetcher.Due file extent
  beyond : ∀ chunk count, reply = .refused (.outOfRange chunk count) ↔
    fetcher.Beyond file extent ∧ chunk = extent.index ∧
      count = file.chunkCount fetcher.options.chunkSize
  unasked : ∀ chunk current target, reply = .refused (.invalidTransition chunk current target) ↔
    fetcher.Unasked file extent ∧ chunk = extent.index ∧ current = .waiting ∧ target = .received
  misplaced : ∀ chunk expected actual, reply = .refused (.extentMismatch chunk expected actual) ↔
    fetcher.Misplaced file extent ∧ chunk = extent.index ∧
      expected = fetcher.dueExtent file extent ∧ actual = extent
  ignored : reply = .told [] ↔
    ¬ fetcher.Due file extent ∧ ¬ fetcher.Beyond file extent ∧ ¬ fetcher.Unasked file extent ∧
      ¬ fetcher.Misplaced file extent

/-- What a chunk meets tells its answer, since no two of the cases meet. -/
theorem Reception.answers (reception : Reception fetcher file extent settled)
    (consistent : Consistent [] fetcher) : fetcher.Answers file extent settled.reply := by
  have there {state : ChunkState} (known : fetcher.chunk? file extent.index = some state) :
      ¬ fetcher.Beyond file extent := by
    intro beyond
    rw [beyond.chunk?_eq_none consistent] at known
    cases known
  cases reception with
  | inactive inactive =>
    have unknown := chunk?_of_inactive inactive extent.index
    constructor <;> simp [Due, Beyond, Unasked, Misplaced, unknown, inactive]
  | arrived arrived =>
    have inside := there arrived
    constructor <;> simp [Due, Unasked, Misplaced, arrived, inside]
  | beyond beyond =>
    have unknown := beyond.chunk?_eq_none consistent
    constructor <;> simp [Due, Unasked, Misplaced, unknown, beyond, eq_comm]
  | unasked unasked =>
    have waits : fetcher.chunk? file extent.index = some .waiting := unasked
    have inside := there waits
    constructor <;> simp [Due, Unasked, Misplaced, waits, inside, eq_comm]
  | misplaced misplaced =>
    have asked := misplaced.1
    have inside := there asked
    have undue : ¬ fetcher.Due file extent := by
      rintro ⟨_, placed, fits⟩
      rcases misplaced.2 with elsewhere | longer
      · exact elsewhere placed
      · exact Nat.not_lt.mpr fits longer
    constructor <;> simp [Unasked, asked, inside, undue, misplaced, eq_comm]
  | @accepted _ notices due told some =>
    have asked := due.1
    have inside := there asked
    have placed : ¬ fetcher.Misplaced file extent := by
      rintro ⟨_, elsewhere | longer⟩
      · exact elsewhere due.2.1
      · exact Nat.not_lt.mpr due.2.2 longer
    rw [told]
    constructor <;> simp [Unasked, asked, inside, placed, due, some]

theorem Reception.dispatches (reception : Reception fetcher file extent settled) :
    settled.dispatches = true := by
  cases reception with
  | accepted _ _ _ dispatches => exact dispatches
  | inactive | arrived | beyond | unasked | misplaced => rfl

theorem Reception.harmless (reception : Reception fetcher file extent settled)
    (undue : ¬ fetcher.Due file extent) : settled.fetcher = fetcher ∧ settled.effects = [] := by
  cases reception with
  | accepted due => exact absurd due undue
  | inactive | arrived | beyond | unasked | misplaced => exact ⟨rfl, rfl⟩

theorem step_of_dispatches {operation : Operation} (scheduler : Scheduler Memory) (memory : Memory)
    (dispatches : (fetcher.settle operation now).dispatches = true) :
    let settled := fetcher.settle operation now
    let sent := settled.fetcher.dispatch scheduler memory now
    fetcher.step scheduler memory operation now =
      { fetcher := sent.fetcher, memory := sent.memory, reply := settled.reply
        effects := settled.effects ++ sent.picks.map .get } := by
  simp only [step, dispatches, ↓reduceIte]

end Fetcher

namespace Fetch

open Fetcher (Consistent Dispatch Reception)

variable {Memory : Type}

/-- How a delivered chunk is answered, and what becomes of one that is not accepted: `sent` is what
asking the scheduler comes to where nothing was delivered. -/
structure Turn.Receives (turn : Turn Memory) (fetcher : Fetcher) (file : File) (extent : Extent)
    (sent : Dispatch Memory) : Prop where
  answers : fetcher.Answers file extent turn.reply
  harmless : ¬ fetcher.Due file extent →
    turn.fetcher = sent.fetcher ∧ turn.memory = sent.memory ∧
      turn.effects = sent.picks.map .get
  undisturbed : ¬ fetcher.Due file extent →
    fetcher.tickets <+: turn.fetcher.tickets ∧
      turn.fetcher.downloads.map (fun download => (download.file, download.reputation)) =
        fetcher.downloads.map (fun download => (download.file, download.reputation))

private theorem receives_deliver {fetcher : Fetcher} (consistent : Consistent [] fetcher)
    (scheduler : Scheduler Memory) (memory : Memory) (file : File) (extent : Extent) (data : Bytes)
    (peer : Peer) (now : Nat) :
    (fetcher.step scheduler memory (.deliver file extent data peer) now).Receives fetcher file
      extent (fetcher.dispatch scheduler memory now) := by
  have reception : Reception fetcher file extent
      (fetcher.settle (.deliver file extent data peer) now) :=
    Fetcher.reception_deliver consistent file extent data peer now
  rw [Fetcher.step_of_dispatches scheduler memory reception.dispatches]
  refine ⟨reception.answers consistent, ?_, ?_⟩
  · intro undue
    obtain ⟨same, silent⟩ := reception.harmless undue
    simp only [same, silent, List.nil_append, and_self]
  · intro undue
    obtain ⟨last, sends⟩ := Fetcher.sends_dispatch scheduler memory now consistent
    simp only [(reception.harmless undue).1]
    exact ⟨⟨_, sends.tickets.symm⟩, sends.map_downloads consistent fun _ _ => rfl⟩

/-- In every reachable state, whatever the scheduler picks and whatever is delivered by whom. -/
theorem deliveries_judged (scheduler : Scheduler Memory) (options : Options) (memory : Memory)
    (commands : List (Operation × Nat)) (file : File) (extent : Extent) (data : Bytes)
    (peer : Peer) (now : Nat) :
    let history := History.run scheduler options memory commands
    let turn := history.fetcher.step scheduler history.memory (.deliver file extent data peer) now
    turn.Receives history.fetcher file extent
      (history.fetcher.dispatch scheduler history.memory now) :=
  receives_deliver (History.lawful_run scheduler options memory commands).consistent scheduler _
    file extent data peer now

end Fetch

end ChunkExchange
