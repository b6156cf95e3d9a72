import ChunkExchange.Proofs.Settlement
import ChunkExchange.Proofs.WaitingChunks

namespace ChunkExchange.Fetcher

open Fetch (Operation Scheduler Settled Settles Turn Pick)

variable {Memory : Type} {fetcher next : Fetcher} {pick : Pick} {now : Nat}

theorem issue?_of_inactive (inactive : fetcher.download? pick.file = none) (now : Nat) :
    fetcher.issue? pick now = none := by
  unfold issue?
  rw [inactive]
  rfl

theorem issue?_eq {download : Download} (found : fetcher.download? pick.file = some download)
    (now : Nat) : fetcher.issue? pick now =
      if download.coverage.isIn pick.extent.index .waiting then
        (download.requested pick.extent.index).toOption.map fun requested =>
          { fetcher.replace requested with
            tickets := fetcher.tickets ++ [Ticket.first pick.file pick.extent pick.peer now
              fetcher.options.requestTimeout] }
      else none := by
  unfold issue?
  rw [found]
  change Option.bind (if download.coverage.isIn pick.extent.index .waiting then some () else none)
    (fun _ => (download.requested pick.extent.index).toOption.bind _) = _
  cases download.coverage.isIn pick.extent.index .waiting with
  | false => rfl
  | true => exact Option.map_eq_bind.symm

theorem issue?_of_waiting {download : Download}
    (found : fetcher.download? pick.file = some download)
    (waits : download.coverage.isIn pick.extent.index .waiting = true) (now : Nat) :
    ∃ coverage, download.coverage.move pick.extent.index .pending = .ok coverage ∧
      fetcher.issue? pick now = some { fetcher.replace { download with coverage } with
        tickets := fetcher.tickets ++ [Ticket.first pick.file pick.extent pick.peer now
          fetcher.options.requestTimeout] } := by
  have legal : ChunkState.canBecome .waiting .pending = true := rfl
  have moved := Coverage.move_of_canBecome waits legal
  have requested : download.requested pick.extent.index = .ok _ :=
    Download.move_of_coverage moved
  refine ⟨_, moved, ?_⟩
  rw [issue?_eq found, if_pos waits, requested]
  rfl

/-- A request is sent for a waiting chunk of an active file only. -/
theorem issue?_cases (issued : fetcher.issue? pick now = some next) :
    ∃ download coverage, fetcher.download? pick.file = some download ∧
      download.coverage.isIn pick.extent.index .waiting = true ∧
      download.coverage.move pick.extent.index .pending = .ok coverage ∧
      next = { fetcher.replace { download with coverage } with
        tickets := fetcher.tickets ++ [Ticket.first pick.file pick.extent pick.peer now
          fetcher.options.requestTimeout] } := by
  cases found : fetcher.download? pick.file with
  | none =>
    rw [issue?_of_inactive found] at issued
    cases issued
  | some download =>
    cases waits : download.coverage.isIn pick.extent.index .waiting with
    | true =>
      obtain ⟨coverage, moved, result⟩ := issue?_of_waiting found waits now
      rw [result] at issued
      exact ⟨download, coverage, rfl, waits, moved, (Option.some.inj issued).symm⟩
    | false =>
      rw [issue?_eq found, waits] at issued
      cases issued

theorem consistent_issue? (consistent : Consistent [] fetcher)
    (issued : fetcher.issue? pick now = some next) :
    Consistent [] next ∧ fetcher.Continues next := by
  obtain ⟨download, coverage, found, waits, moved, result⟩ := issue?_cases issued
  obtain ⟨member, same⟩ := mem_of_download? found
  have kin := Download.kin_move (Download.move_of_coverage moved) (by decide)
  subst result
  refine ⟨?_, rfl, (continues_replace member kin).downloads⟩
  apply consistent.replace (kin.sound (consistent.sound download member))
  exact consistent.owned.issued member same waits moved rfl rfl

theorem totalWaiting_issue? (consistent : Consistent [] fetcher)
    (issued : fetcher.issue? pick now = some next) :
    next.totalWaiting + 1 = fetcher.totalWaiting := by
  obtain ⟨download, coverage, found, waits, moved, result⟩ := issue?_cases issued
  obtain ⟨member, _⟩ := mem_of_download? found
  have counted := (consistent.sound download member).counted
  have less := counted.waiting_of_requested waits moved
  obtain ⟨front, back, whole, replaced, _⟩ := split_of_mem consistent.distinct member
  have before : fetcher.totalWaiting = total (·.coverage.waiting) fetcher.downloads := rfl
  have after : next.totalWaiting = total (·.coverage.waiting)
      (fetcher.replace { download with coverage }).downloads := by
    rw [result]
    rfl
  rw [before, after, replaced { download with coverage } rfl, whole, total_append_cons,
    total_append_cons, ← less]
  exact Nat.add_right_comm _ _ _

/-- Requests are sent as the scheduler picks them until it gives its last answer: it declines, or
picks what cannot be sent. -/
inductive Sends (scheduler : Scheduler Memory) (now : Nat) :
    Fetcher → Memory → List Pick → Fetcher → Option Pick → Prop where
  | ended {fetcher : Fetcher} {memory : Memory} {last : Option Pick}
      (chosen : (scheduler.choose memory (fetcher.view now)).1 = last)
      (unsendable : ∀ pick, last = some pick → fetcher.issue? pick now = none) :
      Sends scheduler now fetcher memory [] fetcher last
  | sent {fetcher next final : Fetcher} {memory : Memory} {pick : Pick} {picks : List Pick}
      {last : Option Pick} (chosen : (scheduler.choose memory (fetcher.view now)).1 = some pick)
      (issued : fetcher.issue? pick now = some next)
      (rest : Sends scheduler now next (scheduler.choose memory (fetcher.view now)).2 picks final
        last) :
      Sends scheduler now fetcher memory (pick :: picks) final last

/-- Every request that is sent was picked by the scheduler. -/
def Dispatch.Chosen (scheduler : Scheduler Memory) (picks : List Pick) : Prop :=
  ∀ pick ∈ picks, ∃ memory view, (scheduler.choose memory view).1 = some pick

section Sending

variable {scheduler : Scheduler Memory} {memory : Memory} {final : Fetcher} {picks : List Pick}
variable {last : Option Pick}

theorem dispatchWithin_of_unsent (budget : Nat)
    (unsent : (scheduler.choose memory (fetcher.view now)).1.bind
      (fun pick => (fetcher.issue? pick now).map (pick, ·)) = none) :
    dispatchWithin scheduler now budget fetcher memory =
      { fetcher, memory := (scheduler.choose memory (fetcher.view now)).2, picks := [] } := by
  unfold dispatchWithin
  simp only [unsent]

/-- A budget that covers the waiting chunks never ends the sending. -/
private theorem sends_dispatchWithin (scheduler : Scheduler Memory) (now budget : Nat)
    (memory : Memory)
    (consistent : Consistent [] fetcher) (enough : fetcher.totalWaiting ≤ budget) :
    ∃ last, Sends scheduler now fetcher memory
      (dispatchWithin scheduler now budget fetcher memory).picks
      (dispatchWithin scheduler now budget fetcher memory).fetcher last := by
  induction budget using Nat.strongRecOn generalizing fetcher memory with
  | ind budget ih =>
    cases sent : (scheduler.choose memory (fetcher.view now)).1.bind
        (fun pick => (fetcher.issue? pick now).map (pick, ·)) with
    | none =>
      rw [dispatchWithin_of_unsent budget sent]
      exact ⟨_, .ended rfl (by simpa using sent)⟩
    | some sending =>
      obtain ⟨pick, chosen, next⟩ := Option.bind_eq_some_iff.mp sent
      obtain ⟨after, issued, same⟩ := Option.map_eq_some_iff.mp next
      -- The request that is sent takes a waiting chunk, so the budget covers those that are left.
      have less := totalWaiting_issue? consistent issued
      obtain ⟨smaller, rfl⟩ : ∃ smaller, budget = smaller + 1 :=
        Nat.exists_eq_add_one.mpr (by omega)
      obtain ⟨last, rest⟩ := ih smaller (Nat.lt_succ_self smaller)
        (scheduler.choose memory (fetcher.view now)).2 (consistent_issue? consistent issued).1
        (by omega)
      refine ⟨last, ?_⟩
      unfold dispatchWithin
      simp only [sent, ← same]
      exact .sent chosen issued rest

theorem sends_dispatch (scheduler : Scheduler Memory) (memory : Memory) (now : Nat)
    (consistent : Consistent [] fetcher) :
    ∃ last, Sends scheduler now fetcher memory (fetcher.dispatch scheduler memory now).picks
      (fetcher.dispatch scheduler memory now).fetcher last :=
  sends_dispatchWithin scheduler now fetcher.totalWaiting memory consistent (Nat.le_refl _)

theorem Sends.consistent (sends : Sends scheduler now fetcher memory picks final last)
    (consistent : Consistent [] fetcher) : Consistent [] final ∧ fetcher.Continues final := by
  induction sends with
  | ended => exact ⟨consistent, .refl _⟩
  | sent _ issued _ ih =>
    obtain ⟨kept, first⟩ := consistent_issue? consistent issued
    obtain ⟨final, later⟩ := ih kept
    exact ⟨final, first.trans later⟩

theorem Sends.chosen (sends : Sends scheduler now fetcher memory picks final last) :
    Dispatch.Chosen scheduler picks := by
  induction sends with
  | ended => simp [Dispatch.Chosen]
  | sent chosen _ _ ih =>
    intro pick listed
    rcases List.mem_cons.mp listed with first | later
    · exact ⟨_, _, first ▸ chosen⟩
    · exact ih pick later

theorem Sends.map_downloads {Kept : Type} {kept : Download → Kept}
    (sends : Sends scheduler now fetcher memory picks final last)
    (consistent : Consistent [] fetcher)
    (alike : ∀ (download : Download) (coverage : Coverage),
      kept { download with coverage } = kept download) :
    final.downloads.map kept = fetcher.downloads.map kept := by
  induction sends with
  | ended => rfl
  | sent _ issued _ ih =>
    rw [ih (consistent_issue? consistent issued).1]
    obtain ⟨download, coverage, found, _, _, rfl⟩ := issue?_cases issued
    exact map_replace consistent.distinct (mem_of_download? found).1 rfl (alike download coverage)

/-- Each request that is sent has its ticket, behind those that were there before. -/
theorem Sends.tickets (sends : Sends scheduler now fetcher memory picks final last) :
    final.tickets = fetcher.tickets ++ picks.map (fun pick =>
      Ticket.first pick.file pick.extent pick.peer now fetcher.options.requestTimeout) := by
  induction sends with
  | ended => simp
  | sent _ issued _ ih =>
    obtain ⟨download, coverage, _, _, _, rfl⟩ := issue?_cases issued
    rw [ih, List.append_assoc]
    rfl

end Sending

/-- What a turn adds to the settlement of its operation: nothing where the scheduler is not asked,
else the requests that it picks. -/
inductive Adds (scheduler : Scheduler Memory) (now : Nat) (settled : Settled) (memory : Memory)
    (turn : Turn Memory) : Prop where
  | nothing (refused : settled.dispatches = false) (fetcher : turn.fetcher = settled.fetcher)
      (effects : turn.effects = settled.effects)
  | requests {picks : List Pick} {last : Option Pick} (asks : settled.dispatches = true)
      (sends : Sends scheduler now settled.fetcher memory picks turn.fetcher last)
      (effects : turn.effects = settled.effects ++ picks.map .get)

theorem adds_step (scheduler : Scheduler Memory) (memory : Memory)
    (consistent : Consistent [] fetcher) (operation : Operation) (now : Nat) :
    Adds scheduler now (fetcher.settle operation now) memory
        (fetcher.step scheduler memory operation now) ∧
      (fetcher.step scheduler memory operation now).reply =
        (fetcher.settle operation now).reply := by
  have kept := (settles_settle consistent operation now).2
  unfold step
  cases asks : (fetcher.settle operation now).dispatches with
  | true =>
    simp only [asks, ↓reduceIte]
    obtain ⟨last, sends⟩ := sends_dispatch scheduler memory now kept
    exact ⟨.requests asks sends rfl, trivial⟩
  | false =>
    simp only [asks, Bool.false_eq_true, ↓reduceIte]
    exact ⟨.nothing asks rfl rfl, trivial⟩

theorem continues_step (scheduler : Scheduler Memory) (memory : Memory)
    (consistent : Consistent [] fetcher) (operation : Operation) (now : Nat) :
    (fetcher.settle operation now).fetcher.Continues
      (fetcher.step scheduler memory operation now).fetcher := by
  have kept := (settles_settle consistent operation now).2
  cases (adds_step scheduler memory consistent operation now).1 with
  | nothing _ same =>
    rw [same]
    exact .refl _
  | requests _ sends => exact (sends.consistent kept).2

theorem effects_step (scheduler : Scheduler Memory) (memory : Memory)
    (consistent : Consistent [] fetcher) (operation : Operation) (now : Nat) :
    ∃ picks : List Pick, (fetcher.step scheduler memory operation now).effects =
      (fetcher.settle operation now).effects ++ picks.map .get := by
  cases (adds_step scheduler memory consistent operation now).1 with
  | nothing _ _ same => exact ⟨[], same.trans (List.append_nil _).symm⟩
  | requests _ _ effects => exact ⟨_, effects⟩

/-- One turn settles its operation and then sends requests. -/
theorem step_spec (scheduler : Scheduler Memory) (memory : Memory)
    (consistent : Consistent [] fetcher) (operation : Operation) (now : Nat) :
    let turn := fetcher.step scheduler memory operation now
    Consistent [] turn.fetcher ∧ ∃ settled picks, Settles fetcher operation settled ∧
      settled.fetcher.Continues turn.fetcher ∧ turn.reply = settled.reply ∧
      turn.effects = settled.effects ++ picks.map .get ∧ Dispatch.Chosen scheduler picks := by
  obtain ⟨settles, kept⟩ := settles_settle consistent operation now
  obtain ⟨adds, reply⟩ := adds_step scheduler memory consistent operation now
  cases adds with
  | nothing _ same effects =>
    refine ⟨same ▸ kept, _, [], settles, ?_, reply, by simpa using effects, ?_⟩
    · rw [same]
      exact .refl _
    · simp [Dispatch.Chosen]
  | requests _ sends effects =>
    obtain ⟨final, continues⟩ := sends.consistent kept
    exact ⟨final, _, _, settles, continues, reply, effects, sends.chosen⟩

end ChunkExchange.Fetcher
