import ChunkExchange.Proofs.Dispatch
import ChunkExchange.Proofs.FetchWords
import ChunkExchange.Proofs.GreedyChoice
import Mathlib.Data.Option.Basic

namespace ChunkExchange.Fetcher

open Fetch (Greedy Operation Pick Turn View)
open Words (countLimit)

/-- What the scheduler is shown of a download besides its waiting chunks. -/
structure Shown where
  file : File
  progress : Float
  hasWaiting : Bool

def shown (download : Download) : Shown :=
  { file := download.file, progress := download.coverage.progress
    hasWaiting := download.hasWaiting }

def shownInWords (download : Download) : Option Shown := do
  let progress ← download.coverage.progressInWords
  let waiting ← download.coverage.waitingInWords
  return { file := download.file, progress, hasWaiting := 0 < waiting }

def viewInWords (fetcher : Fetcher) (now : Nat) : Option (View Float) := do
  let downloads ← fetcher.downloads.mapM shownInWords
  let shown? := fun file => downloads.find? (fun shown => shown.file == file)
  return { fetcher.view now with
    progress := fun file => (shown? file).elim 0 Shown.progress
    hasWaiting := fun file => (shown? file).elim false Shown.hasWaiting }

def firstWaitingInWords (fetcher : Fetcher) (file : File) (limit : Nat) : Option (List Nat) :=
  match fetcher.download? file with
  | some download => download.coverage.firstWaitingInWords limit
  | none => some []

def chooseInWords (fetcher : Fetcher) (greedy : Greedy) (now : Nat) : Option (Option Pick) := do
  let view ← fetcher.viewInWords now
  if view.tickets.length < greedy.maxParallelChunks then
    match greedy.best view with
    | some leader =>
      let waiting ← fetcher.firstWaitingInWords leader.file 1
      match waiting.head? with
      | some index =>
        let extent ← leader.file.extentInWords index greedy.chunkSize
        return some { file := leader.file, extent, peer := leader.peer }
      | none => return none
    | none => return none
  else
    return none

def issueInWords (fetcher : Fetcher) (pick : Pick) (now : Nat) : Option (Option Fetcher) :=
  match fetcher.download? pick.file with
  | none => some none
  | some download => do
    match ← download.coverage.stateInWords pick.extent.index with
    | .ok .waiting =>
      match ← download.moveInWords pick.extent.index .pending with
      | .ok requested =>
        let ticket :=
          Ticket.first pick.file pick.extent pick.peer now fetcher.options.requestTimeout
        return some { fetcher.replace requested with tickets := fetcher.tickets ++ [ticket] }
      | .error _ => return none
    | _ => return none

/-- What the scheduler picks, with the fetcher after the request is sent. -/
def sendInWords (fetcher : Fetcher) (greedy : Greedy) (now : Nat) :
    Option (Option (Pick × Fetcher)) := do
  match ← fetcher.chooseInWords greedy now with
  | some pick =>
    let next? ← fetcher.issueInWords pick now
    return next?.map (pick, ·)
  | none => return none

def dispatchWithinInWords (greedy : Greedy) (now : Nat) :
    (budget : Nat) → Fetcher → Option (Dispatch Unit)
  | 0, fetcher => do
    let _ ← fetcher.sendInWords greedy now
    return { fetcher, memory := (), picks := [] }
  | budget + 1, fetcher => do
    match ← fetcher.sendInWords greedy now with
    | some (pick, next) =>
      let rest ← dispatchWithinInWords greedy now budget next
      return { rest with picks := pick :: rest.picks }
    | none => return { fetcher, memory := (), picks := [] }

def dispatchInWords (fetcher : Fetcher) (greedy : Greedy) (now : Nat) : Option (Dispatch Unit) :=
  dispatchWithinInWords greedy now fetcher.totalWaiting fetcher

def stepInWords (fetcher : Fetcher) (greedy : Greedy) (operation : Operation) (now : Nat) :
    Option (Turn Unit) := do
  let settled ← fetcher.settleInWords operation now
  if settled.dispatches then
    let sent ← settled.fetcher.dispatchInWords greedy now
    return {
      fetcher := sent.fetcher, memory := (), reply := settled.reply
      effects := settled.effects ++ sent.picks.map .get }
  else
    return {
      fetcher := settled.fetcher, memory := (), reply := settled.reply
      effects := settled.effects }

variable {fetcher : Fetcher} {outstanding : List Ticket} {greedy : Greedy} {pick : Pick}

theorem viewInWords_eq (consistent : Consistent outstanding fetcher) (now : Nat) :
    fetcher.viewInWords now = some (fetcher.view now) := by
  have shows : ∀ download ∈ fetcher.downloads, shownInWords download = some (shown download) := by
    intro download member
    have small := consistent.small member
    simp only [shownInWords, small.progressInWords_eq, small.waitingInWords_eq]
    rfl
  have found (file : File) : (fetcher.downloads.map shown).find? (fun shown =>
      shown.file == file) = (fetcher.download? file).map shown := List.find?_map
  have progress : (fun file => ((fetcher.download? file).map shown).elim 0 Shown.progress) =
      (fetcher.view now).progress := by
    funext file
    unfold view
    dsimp only
    cases fetcher.download? file <;> rfl
  have hasWaiting : (fun file => ((fetcher.download? file).map shown).elim false
      Shown.hasWaiting) = (fetcher.view now).hasWaiting := by
    funext file
    unfold view
    dsimp only
    cases fetcher.download? file <;> rfl
  simp only [viewInWords, Words.mapM_eq shows, Option.bind_eq_bind, Option.bind_some, found,
    progress, hasWaiting]
  rfl

theorem firstWaitingInWords_eq (consistent : Consistent outstanding fetcher) (file : File)
    (limit now : Nat) :
    fetcher.firstWaitingInWords file limit = some ((fetcher.view now).firstWaiting file limit) := by
  unfold firstWaitingInWords view
  dsimp only
  cases found : fetcher.download? file with
  | none => rfl
  | some download =>
    exact (consistent.small (mem_of_download? found).1).firstWaitingInWords_eq limit

private theorem Consistent.firstWaiting_le (consistent : Consistent outstanding fetcher)
    {file : File}
    {index : Nat} (first : ((fetcher.view now).firstWaiting file 1).head? = some index) :
    index ≤ countLimit := by
  unfold view at first
  dsimp only at first
  cases found : fetcher.download? file with
  | none => simp [found] at first
  | some download =>
    have small := consistent.small (mem_of_download? found).1
    simp only [found] at first
    have waits := (small.counted.head?_firstWaiting_eq_some_iff.mp first).1
    exact Nat.le_trans (Nat.le_of_lt (Coverage.lt_count_of_isIn waits)) small.small

theorem chooseInWords_eq (consistent : Consistent outstanding fetcher)
    (sizes : greedy.chunkSize ≤ countLimit) (now : Nat) :
    fetcher.chooseInWords greedy now = some (greedy.choose (fetcher.view now)) := by
  rw [chooseInWords, viewInWords_eq consistent, Option.bind_eq_bind, Option.bind_some]
  rcases Nat.lt_or_ge (fetcher.view now).tickets.length greedy.maxParallelChunks with room | full
  · rw [if_pos room, Greedy.choose_of_room room]
    cases greedy.best (fetcher.view now) with
    | none => rfl
    | some leader =>
      simp only [firstWaitingInWords_eq consistent leader.file 1 now, Option.bind_eq_bind,
        Option.bind_some]
      cases first : ((fetcher.view now).firstWaiting leader.file 1).head? with
      | none => rfl
      | some index =>
        simp only [File.extentInWords_eq leader.file (consistent.firstWaiting_le first) sizes]
        rfl
  · rw [if_neg (Nat.not_lt.mpr full), Greedy.choose_of_full full]
    rfl

theorem issueInWords_eq (consistent : Consistent outstanding fetcher) (pick : Pick) (now : Nat) :
    fetcher.issueInWords pick now = some (fetcher.issue? pick now) := by
  unfold issueInWords
  cases found : fetcher.download? pick.file with
  | none => simp [issue?, found]
  | some download =>
    have small := consistent.small (mem_of_download? found).1
    rw [issue?_eq found]
    simp only [small.stateInWords_eq, Option.bind_eq_bind, Option.bind_some]
    cases waits : download.coverage.isIn pick.extent.index .waiting with
    | true =>
      simp only [Coverage.state_of_isIn waits, Download.moveInWords_eq small, Option.bind_some,
        ↓reduceIte, Download.requested]
      cases download.move pick.extent.index .pending <;> rfl
    | false =>
      cases known : download.coverage.state pick.extent.index with
      | error refusal => rfl
      | ok state =>
        cases state with
        | waiting => simp [Coverage.isIn_of_state known] at waits
        | pending | received => rfl

theorem sendInWords_eq (consistent : Consistent outstanding fetcher)
    (sizes : greedy.chunkSize ≤ countLimit) (now : Nat) :
    fetcher.sendInWords greedy now = some ((greedy.choose (fetcher.view now)).bind
      (fun pick => (fetcher.issue? pick now).map (pick, ·))) := by
  rw [sendInWords, chooseInWords_eq consistent sizes]
  cases greedy.choose (fetcher.view now) with
  | none => rfl
  | some pick =>
    simp only [issueInWords_eq consistent, Option.bind_eq_bind, Option.bind_some]
    rfl

theorem dispatchWithinInWords_eq (sizes : greedy.chunkSize ≤ countLimit) (now budget : Nat)
    (consistent : Consistent [] fetcher) :
    dispatchWithinInWords greedy now budget fetcher =
      some (dispatchWithin greedy.scheduler now budget fetcher ()) := by
  induction budget generalizing fetcher with
  | zero =>
    rw [dispatchWithinInWords, sendInWords_eq consistent sizes, dispatchWithin]
    simp only [Option.bind_eq_bind, Option.bind_some, Greedy.scheduler]
    cases (greedy.choose (fetcher.view now)).bind
      (fun pick => (fetcher.issue? pick now).map (pick, ·)) <;> rfl
  | succ budget ih =>
    rw [dispatchWithinInWords, sendInWords_eq consistent sizes, dispatchWithin]
    simp only [Option.bind_eq_bind, Option.bind_some, Greedy.scheduler]
    cases sent : (greedy.choose (fetcher.view now)).bind
        (fun pick => (fetcher.issue? pick now).map (pick, ·)) with
    | none => rfl
    | some sending =>
      obtain ⟨pick, _, next⟩ := Option.bind_eq_some_iff.mp sent
      obtain ⟨after, issued, same⟩ := Option.map_eq_some_iff.mp next
      subst same
      simp only [ih (consistent_issue? consistent issued).1]
      rfl

theorem stepInWords_eq (consistent : Consistent [] fetcher)
    (positive : 0 < fetcher.options.chunkSize) (sizes : fetcher.options.chunkSize ≤ countLimit)
    (greedySizes : greedy.chunkSize ≤ countLimit) (operation : Operation) (now : Nat) :
    fetcher.stepInWords greedy operation now =
      some (fetcher.step greedy.scheduler () operation now) := by
  have kept := (settles_settle consistent operation now).2
  rw [stepInWords, settleInWords_eq consistent sizes positive, step]
  simp only [Option.bind_eq_bind, Option.bind_some, dispatchInWords,
    dispatchWithinInWords_eq greedySizes now _ kept]
  cases (fetcher.settle operation now).dispatches <;> rfl

end ChunkExchange.Fetcher
