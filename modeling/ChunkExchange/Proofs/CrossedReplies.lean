import ChunkExchange.Proofs.CrossedCoverage
import ChunkExchange.Proofs.FirstBest
import ChunkExchange.Proofs.Reception
import Mathlib.Data.List.Forall2

/-! Two replies of one peer that arrive in either order. Between the two deliveries the greedy
scheduler sees the same on both sides, and so it sends the same requests. -/

namespace ChunkExchange

namespace Download

/-- Downloads of other files are the same. Those of the file agree but in which one of two chunks
has arrived. -/
inductive Alike (file : File) (one other : Nat) : Download → Download → Prop where
  | same {download : Download} (elsewhere : download.file ≠ file) :
    Alike file one other download download
  | crossed {download : Download} {coverage : Coverage} (named : download.file = file)
      (crossed : Coverage.Crossed one other download.coverage coverage) :
    Alike file one other download { download with coverage }

variable {file : File} {one other index : Nat} {first second : Download}

section Alike

variable (alike : Alike file one other first second)

include alike

theorem Alike.file_eq : second.file = first.file := by
  cases alike <;> rfl

theorem Alike.reputation : second.reputation = first.reputation := by
  cases alike <;> rfl

theorem Alike.progress : second.coverage.progress = first.coverage.progress := by
  cases alike with
  | same => rfl
  | crossed _ crossed => exact crossed.progress

theorem Alike.firstWaiting (limit : Nat) :
    second.coverage.firstWaiting limit = first.coverage.firstWaiting limit := by
  cases alike with
  | same => rfl
  | crossed _ crossed => exact crossed.firstWaiting limit

theorem Alike.waiting : second.coverage.waiting = first.coverage.waiting := by
  cases alike with
  | same => rfl
  | crossed _ crossed => exact crossed.waiting

theorem Alike.isIn_waiting (index : Nat) :
    second.coverage.isIn index .waiting = first.coverage.isIn index .waiting := by
  cases alike with
  | same => rfl
  | crossed _ crossed => exact crossed.isIn_waiting index

theorem Alike.requested (waits : first.coverage.isIn index .waiting = true) :
    (first.file = file → index ≠ one ∧ index ≠ other) ∧
      ∃ next after, first.coverage.move index .pending = .ok next ∧
        second.coverage.move index .pending = .ok after ∧
        Alike file one other { first with coverage := next } { second with coverage := after } := by
  cases alike with
  | same elsewhere =>
    have legal : ChunkState.canBecome .waiting .pending = true := rfl
    have moved := Coverage.move_of_canBecome waits legal
    exact ⟨fun named => absurd named elsewhere, _, _, moved, moved, .same elsewhere⟩
  | crossed named crossed =>
    obtain ⟨next, after, moved, movedAlso, still⟩ := crossed.requested waits
    exact ⟨fun _ => crossed.ne_of_waiting waits, next, after, moved, movedAlso,
      .crossed named still⟩

end Alike

end Download

namespace Fetcher

open Fetch (Greedy Pick Reply Settled)

/-- Of two chunks of a file that were asked of one peer, each side has got another one, and
otherwise both sides agree. -/
structure Crossed (file : File) (one other : Nat) (first second : Fetcher) : Prop where
  options : second.options = first.options
  peers : second.peers = first.peers
  downloads : List.Forall₂ (Download.Alike file one other) first.downloads second.downloads
  tickets : second.tickets.filter (fun ticket => !ticket.isFor file one) =
    first.tickets.filter (fun ticket => !ticket.isFor file other)
  pairs : (second.tickets.map Ticket.pair).Perm (first.tickets.map Ticket.pair)

variable {first second fetcher : Fetcher} {file : File} {one other now : Nat}
variable {downloads others : List Download} {download : Download} {extent : Extent} {data : Bytes}
variable {peer : Peer}

section Downloads

variable (alike : List.Forall₂ (Download.Alike file one other) downloads others)

include alike

private theorem map_eq_of_alike {Kept : Type} {kept : Download → Kept}
    (same : ∀ {first second}, Download.Alike file one other first second →
      kept second = kept first) : others.map kept = downloads.map kept := by
  induction alike with
  | nil => rfl
  | cons head _ ih => rw [List.map_cons, List.map_cons, same head, ih]

private theorem find?_alike (named : File) :
    (downloads.find? (fun download => download.file == named) = none ∧
        others.find? (fun download => download.file == named) = none) ∨
      ∃ first second, downloads.find? (fun download => download.file == named) = some first ∧
        others.find? (fun download => download.file == named) = some second ∧
        Download.Alike file one other first second := by
  induction alike with
  | nil => exact .inl ⟨rfl, rfl⟩
  | @cons first second _ _ head _ ih =>
    have same := head.file_eq
    by_cases here : first.file = named
    · exact .inr ⟨first, second, by simp [here], by simp [same, here], head⟩
    · rw [List.find?_cons_of_neg (by simpa using here),
        List.find?_cons_of_neg (by simpa [same] using here)]
      exact ih

private theorem alike_replace {next after : Download}
    (heirs : Download.Alike file one other next after) :
    List.Forall₂ (Download.Alike file one other)
      (downloads.map fun old => if old.file == next.file then next else old)
      (others.map fun old => if old.file == after.file then after else old) := by
  rw [List.forall₂_map_left_iff, List.forall₂_map_right_iff]
  refine alike.imp ?_
  intro first second head
  rw [head.file_eq, heirs.file_eq]
  split
  · exact heirs
  · exact head

/-- The two sides agree once the download of the file is replaced or dropped. -/
theorem replace_eq_of_alike {next : Download} (named : next.file = file) :
    (others.map fun old => if old.file == next.file then next else old) =
      downloads.map fun old => if old.file == next.file then next else old := by
  apply map_eq_of_alike alike
  intro first second head
  rw [head.file_eq]
  split
  · rfl
  · rename_i elsewhere
    cases head with
    | same => rfl
    | crossed here => exact absurd (beq_iff_eq.mpr (here.trans named.symm)) elsewhere

theorem filter_eq_of_alike :
    others.filter (fun download => !(download.file == file)) =
      downloads.filter (fun download => !(download.file == file)) := by
  induction alike with
  | nil => rfl
  | cons head _ ih =>
    cases head with
    | same elsewhere => simp [elsewhere, ih]
    | crossed named => simp [named, ih]

end Downloads

section Dispatching

variable (crossed : Crossed file one other first second)

include crossed

theorem Crossed.download? (named : File) :
    (first.download? named = none ∧ second.download? named = none) ∨
      ∃ download alike, first.download? named = some download ∧
        second.download? named = some alike ∧
        Download.Alike file one other download alike :=
  find?_alike crossed.downloads named

/-- A scheduler sees the same on both sides but for which chunks the requests are for. -/
theorem Crossed.view (now : Nat) :
    second.view now = { first.view now with tickets := second.tickets } := by
  have files := map_eq_of_alike crossed.downloads fun alike => alike.file_eq
  have found (named : File) := crossed.download? named
  simp only [Fetcher.view, files, crossed.peers]
  congr 1
  · funext named peer
    rcases found named with ⟨none, noneAlso⟩ | ⟨download, same, some, someAlso, alike⟩
    · simp only [none, noneAlso]
    · simp only [some, someAlso, alike.reputation]
  · funext named
    rcases found named with ⟨none, noneAlso⟩ | ⟨download, same, some, someAlso, alike⟩
    · simp only [none, noneAlso]
    · simp only [some, someAlso, alike.progress]
  · funext named limit
    rcases found named with ⟨none, noneAlso⟩ | ⟨download, same, some, someAlso, alike⟩
    · simp only [none, noneAlso]
    · simp only [some, someAlso, alike.firstWaiting]
  · funext named
    rcases found named with ⟨none, noneAlso⟩ | ⟨download, same, some, someAlso, alike⟩
    · simp only [none, noneAlso]
    · simp only [some, someAlso, Download.hasWaiting, alike.waiting]

theorem Crossed.choose (greedy : Greedy) (now : Nat) :
    greedy.choose (second.view now) = greedy.choose (first.view now) := by
  rw [crossed.view now]
  exact Greedy.choose_of_pairs crossed.pairs

theorem Crossed.issue? (pick : Pick) (now : Nat) :
    (first.issue? pick now = none ∧ second.issue? pick now = none) ∨
      ∃ next after, first.issue? pick now = some next ∧ second.issue? pick now = some after ∧
        Crossed file one other next after := by
  rcases crossed.download? pick.file with
    ⟨none, noneAlso⟩ | ⟨download, same, found, foundAlso, alike⟩
  · exact .inl ⟨issue?_of_inactive none now, issue?_of_inactive noneAlso now⟩
  · have waitsAlso := alike.isIn_waiting pick.extent.index
    cases waits : download.coverage.isIn pick.extent.index .waiting with
    | false =>
      rw [waits] at waitsAlso
      left
      simp [issue?_eq found, issue?_eq foundAlso, waits, waitsAlso]
    | true =>
      rw [waits] at waitsAlso
      obtain ⟨apart, next, after, moved, movedAlso, still⟩ := alike.requested waits
      obtain ⟨coverage, reached, issued⟩ := issue?_of_waiting found waits now
      obtain ⟨coverageAlso, reachedAlso, issuedAlso⟩ := issue?_of_waiting foundAlso waitsAlso now
      cases moved.symm.trans reached
      cases movedAlso.symm.trans reachedAlso
      refine .inr ⟨_, _, issued, issuedAlso, crossed.options, crossed.peers,
        alike_replace crossed.downloads still, ?_, ?_⟩
      · -- The new request is for a chunk that waited, so for neither of the two.
        have kept (index : Nat) (own : index = one ∨ index = other) :
            (Ticket.first pick.file pick.extent pick.peer now first.options.requestTimeout).isFor
              file index = false := by
          rw [Bool.eq_false_iff]
          intro wanted
          obtain ⟨place, named⟩ := Ticket.isFor_iff.mp wanted
          obtain ⟨_, activeFile⟩ := mem_of_download? found
          obtain ⟨notOne, notOther⟩ := apart (activeFile.trans named)
          rcases own with rfl | rfl
          · exact notOne place
          · exact notOther place
        simp only [List.filter_append, crossed.options, crossed.tickets]
        simp [kept one, kept other]
      · rw [List.map_append, List.map_append]
        exact crossed.pairs.append (.refl _)

theorem Crossed.totalWaiting : second.totalWaiting = first.totalWaiting := by
  unfold Fetcher.totalWaiting
  rw [map_eq_of_alike crossed.downloads fun alike => alike.waiting]

end Dispatching

private theorem dispatchWithin_zero {Memory : Type} (scheduler : Fetch.Scheduler Memory) (now : Nat)
    (fetcher : Fetcher) (memory : Memory) :
    Fetcher.dispatchWithin scheduler now 0 fetcher memory =
      { fetcher, memory := (scheduler.choose memory (fetcher.view now)).2, picks := [] } := by
  unfold Fetcher.dispatchWithin
  dsimp only
  generalize (scheduler.choose memory (fetcher.view now)).1.bind _ = sending
  cases sending <;> rfl

theorem dispatchWithin_of_sent {Memory : Type} {scheduler : Fetch.Scheduler Memory}
    {memory : Memory} {pick : Pick} {next : Fetcher} (budget : Nat)
    (chosen : (scheduler.choose memory (fetcher.view now)).1 = some pick)
    (issued : fetcher.issue? pick now = some next) :
    let rest := Fetcher.dispatchWithin scheduler now budget next
      (scheduler.choose memory (fetcher.view now)).2
    Fetcher.dispatchWithin scheduler now (budget + 1) fetcher memory =
      { rest with picks := pick :: rest.picks } := by
  intro rest
  rw [Fetcher.dispatchWithin]
  simp only [chosen, Option.bind_some, issued, Option.map_some]
  rfl

/-- The greedy scheduler sends the same requests on both sides. -/
theorem Crossed.dispatchWithin (crossed : Crossed file one other first second) (greedy : Greedy)
    (now budget : Nat) :
    let sent := Fetcher.dispatchWithin greedy.scheduler now budget first ()
    let sentAlso := Fetcher.dispatchWithin greedy.scheduler now budget second ()
    sentAlso.picks = sent.picks ∧ Crossed file one other sent.fetcher sentAlso.fetcher := by
  induction budget generalizing first second with
  | zero =>
    rw [dispatchWithin_zero, dispatchWithin_zero]
    exact ⟨rfl, crossed⟩
  | succ budget ih =>
    have same := crossed.choose greedy now
    cases chosen : greedy.choose (first.view now) with
    | none =>
      rw [chosen] at same
      rw [dispatchWithin_of_unsent _ (by simp [Greedy.scheduler, chosen]),
        dispatchWithin_of_unsent _ (by simp [Greedy.scheduler, same])]
      exact ⟨rfl, crossed⟩
    | some pick =>
      rw [chosen] at same
      rcases crossed.issue? pick now with
        ⟨none, noneAlso⟩ | ⟨next, after, issued, issuedAlso, still⟩
      · rw [dispatchWithin_of_unsent _ (by simp [Greedy.scheduler, chosen, none]),
          dispatchWithin_of_unsent _ (by simp [Greedy.scheduler, same, noneAlso])]
        exact ⟨rfl, crossed⟩
      · rw [dispatchWithin_of_sent budget chosen issued,
          dispatchWithin_of_sent budget same issuedAlso]
        obtain ⟨picks, final⟩ := ih still
        exact ⟨congrArg (pick :: ·) picks, final⟩

end Fetcher

end ChunkExchange
