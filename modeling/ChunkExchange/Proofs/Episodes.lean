import ChunkExchange.Proofs.Standings
import Mathlib.Data.List.Induction

/-! What is known of a peer is what the history of its reports says: how often it was put aside
since it last delivered, until when, and whether it can be asked. -/

namespace ChunkExchange

namespace Backoff

variable {backoff : Backoff} {episode : Nat}

/-- The time aside that opens at `start` after attempt `attempt`. -/
def window (backoff : Backoff) (attempt start : Nat) : Window :=
  match backoff.delay? attempt with
  | some delay => .upTo (start + delay)
  | none => .forever

/-- No delay is shorter than an earlier one. -/
def Rises (backoff : Backoff) : Prop :=
  ∀ early late, early ≤ late → ∀ short long,
    backoff.delay? early = some short → backoff.delay? late = some long → short ≤ long

/-- The limit of the attempts lies within the episodes that are counted. -/
def LimitCounted (backoff : Backoff) : Prop :=
  ∀ limit ∈ backoff.limit, limit < Standing.episodeLimit

end Backoff

def Report.peer : Report → Peer
  | .delivered peer | .failed peer | .left peer => peer

/-- What a history of reports says of one peer. -/
structure Conduct where
  last : Option Report
  starts : List Nat

namespace Conduct

/-- The latest time aside. It is as long as the number of times asks that the peer was put aside in
a row, which is counted to a limit. -/
def window (conduct : Conduct) (backoff : Backoff) : Window :=
  match conduct.starts.getLast? with
  | some start => backoff.window (min conduct.starts.length Standing.episodeLimit - 1) start
  | none => .unopened

/-- Whether a failure at `now` puts the peer aside anew: it is the first report about the peer or
the first since it left, it follows a delivery, or the latest time aside is over. -/
def begins (conduct : Conduct) (backoff : Backoff) (now : Nat) : Bool :=
  match conduct.last with
  | none | some (.left _) | some (.delivered _) => true
  | some (.failed _) => (conduct.window backoff).isOver now

def next (conduct : Conduct) (backoff : Backoff) (peer : Peer) (report : Report) (now : Nat) :
    Conduct :=
  if report.peer = peer then
    match report with
    | .delivered _ | .left _ => { last := some report, starts := [] }
    | .failed _ =>
      { last := some report
        starts := if conduct.begins backoff now then conduct.starts ++ [now] else conduct.starts }
  else conduct

def after (backoff : Backoff) (peer : Peer) (history : List (Report × Nat)) : Conduct :=
  history.foldl (fun conduct entry => conduct.next backoff peer entry.1 entry.2)
    { last := none, starts := [] }

variable {backoff : Backoff} {peer : Peer} {conduct : Conduct} {report : Report} {now : Nat}

private theorem next_of_ne (other : report.peer ≠ peer) :
    conduct.next backoff peer report now = conduct :=
  if_neg other

theorem next_of_pardons (pardons : report.pardons peer = true) :
    conduct.next backoff peer report now = { last := some report, starts := [] } := by
  cases report with
  | delivered named | left named =>
    have own : named = peer := by simpa [Report.pardons] using pardons
    exact if_pos own
  | failed named => cases pardons

theorem next_failed (backoff : Backoff) (peer : Peer) (conduct : Conduct) (now : Nat) :
    conduct.next backoff peer (.failed peer) now =
      { last := some (.failed peer)
        starts :=
          if conduct.begins backoff now then conduct.starts ++ [now] else conduct.starts } :=
  if_pos rfl

theorem after_append_singleton (history : List (Report × Nat)) :
    after backoff peer (history ++ [(report, now)]) =
      (after backoff peer history).next backoff peer report now := by
  simp [after]

theorem window_append (conduct : Conduct) (earlier : List Nat) (start : Nat)
    (starts : conduct.starts = earlier ++ [start]) :
    conduct.window backoff =
      backoff.window (min (earlier.length + 1) Standing.episodeLimit - 1) start := by
  simp [window, starts]

end Conduct

namespace Standing

variable {standing : Standing} {backoff : Backoff} {now episodes : Nat}

private theorem blame_of_over
    (opens : standing.delivered = true ∨ standing.window.isOver now = true)
    (counted : standing.episodes = min episodes episodeLimit) :
    standing.blame backoff now =
      { delivered := false, episodes := min (episodes + 1) episodeLimit
        window := backoff.window (min (episodes + 1) episodeLimit - 1) now } := by
  have again : (!standing.delivered && !standing.window.isOver now) = false := by
    rcases opens with delivered | past
    · simp [delivered]
    · simp [past]
  have count : min (standing.episodes + 1) episodeLimit = min (episodes + 1) episodeLimit := by
    simp only [counted, episodeLimit]
    omega
  simp only [blame, again, Bool.false_eq_true, ↓reduceIte, count]
  rfl

end Standing

/-- The standing that a peer has by its conduct. -/
inductive Conduct.Gives (backoff : Backoff) (peer : Peer) (conduct : Conduct) :
    Option Standing → Prop where
  | unknown (unheard : conduct.last = none ∨ conduct.last = some (.left peer))
      (clear : conduct.starts = []) : Gives backoff peer conduct none
  | delivered {window : Window} (last : conduct.last = some (.delivered peer))
      (clear : conduct.starts = []) :
    Gives backoff peer conduct (some { delivered := true, episodes := 0, window })
  | failed (last : conduct.last = some (.failed peer)) (aside : conduct.starts ≠ []) :
    Gives backoff peer conduct
      (some { delivered := false, episodes := min conduct.starts.length Standing.episodeLimit
              window := conduct.window backoff })

theorem Conduct.Gives.begun {backoff : Backoff} {conduct : Conduct} {standing : Standing}
    {peer : Peer} {now : Nat}
    (opens : standing.delivered = true ∨ standing.window.isOver now = true)
    (counted : standing.episodes = min conduct.starts.length Standing.episodeLimit) :
    Gives backoff peer { last := some (.failed peer), starts := conduct.starts ++ [now] }
      (some (standing.blame backoff now)) := by
  have given : Gives backoff peer
      { last := some (.failed peer), starts := conduct.starts ++ [now] } _ :=
    .failed rfl (by simp)
  rw [window_append _ conduct.starts now rfl, List.length_append, List.length_singleton] at given
  rw [Standing.blame_of_over opens counted]
  exact given

namespace Reputation

/-- What is known of the peers after a history of reports, each with its time. -/
def replay (backoff : Backoff) (history : List (Report × Nat)) : Reputation :=
  history.foldl (fun reputation entry => reputation.take entry.2 entry.1) (.fresh backoff)

variable {backoff : Backoff} {reputation : Reputation} {peer : Peer} {now : Nat}
variable {conduct : Conduct} {report : Report} {history : List (Report × Nat)}

theorem backoff_take (reputation : Reputation) (now : Nat) (report : Report) :
    (reputation.take now report).backoff = reputation.backoff := by
  cases report <;> rfl

theorem standing?_take_of_ne (other : report.peer ≠ peer) :
    (reputation.take now report).standing? peer = reputation.standing? peer := by
  cases report with
  | delivered named => exact standing?_report_of_ne (Ne.symm other) true
  | failed named => exact standing?_report_of_ne (Ne.symm other) false
  | left named => exact standing?_forget_of_ne (Ne.symm other)

/-- A failure brings the standing of its peer up to date with its conduct. -/
private theorem gives_failed
    (gives : conduct.Gives reputation.backoff peer (reputation.standing? peer)) (now : Nat) :
    (conduct.next reputation.backoff peer (.failed peer) now).Gives reputation.backoff peer
      ((reputation.take now (.failed peer)).standing? peer) := by
  have found : (reputation.take now (.failed peer)).standing? peer =
      some (((reputation.standing? peer).getD .fresh).blame reputation.backoff now) :=
    standing?_put ..
  rw [found, Conduct.next_failed]
  generalize reputation.standing? peer = standing? at gives ⊢
  cases gives with
  | unknown unheard clear =>
    have begins : conduct.begins reputation.backoff now = true := by
      rcases unheard with last | last <;> simp [Conduct.begins, last]
    rw [if_pos begins]
    exact .begun (.inr rfl) (by rw [clear]; rfl)
  | delivered last clear =>
    have begins : conduct.begins reputation.backoff now = true := by simp [Conduct.begins, last]
    rw [if_pos begins]
    exact .begun (.inl rfl) (by rw [clear]; rfl)
  | failed last aside =>
    have begins : conduct.begins reputation.backoff now =
        (conduct.window reputation.backoff).isOver now := by simp [Conduct.begins, last]
    rw [begins]
    split
    · rename_i past
      exact .begun (.inr past) rfl
    · rename_i still
      rw [Option.getD_some, Standing.blame_of_open rfl (by simpa using still)]
      exact .failed rfl aside

private theorem gives_take
    (gives : conduct.Gives reputation.backoff peer (reputation.standing? peer))
    (report : Report) (now : Nat) :
    (conduct.next reputation.backoff peer report now).Gives reputation.backoff peer
      ((reputation.take now report).standing? peer) := by
  by_cases own : report.peer = peer
  · subst own
    cases report with
    | left named =>
      rw [Conduct.next_of_pardons (by simp [Report.pardons, Report.peer]), take,
        Report.peer, standing?_forget]
      exact .unknown (.inr rfl) rfl
    | delivered named =>
      rw [Conduct.next_of_pardons (by simp [Report.pardons, Report.peer]), take,
        Report.peer, Reputation.report, standing?_put]
      exact .delivered rfl rfl
    | failed named => exact gives_failed gives now
  · rw [Conduct.next_of_ne own, standing?_take_of_ne own]
    exact gives

theorem replay_append_singleton (history : List (Report × Nat)) (report : Report) (now : Nat) :
    replay backoff (history ++ [(report, now)]) = (replay backoff history).take now report := by
  simp [replay]

private theorem backoff_replay (backoff : Backoff) (history : List (Report × Nat)) :
    (replay backoff history).backoff = backoff := by
  induction history using List.reverseRecOn with
  | nil => rfl
  | append_singleton history entry ih => rw [replay_append_singleton, backoff_take, ih]

/-- After every history the standing of a peer is the one its conduct gives it. -/
theorem gives_replay (backoff : Backoff) (history : List (Report × Nat)) (peer : Peer) :
    (Conduct.after backoff peer history).Gives backoff peer
      ((replay backoff history).standing? peer) := by
  induction history using List.reverseRecOn with
  | nil => exact .unknown (.inl rfl) rfl
  | append_singleton history entry ih =>
    rw [replay_append_singleton, Conduct.after_append_singleton]
    generalize Conduct.after backoff peer history = conduct at ih ⊢
    have same := backoff_replay backoff history
    generalize replay backoff history = reputation at ih same ⊢
    subst same
    exact gives_take ih entry.1 entry.2

section Agreement

variable {first second : Reputation}

/-- The same is known of every peer. -/
def Agree (first second : Reputation) : Prop :=
  first.backoff = second.backoff ∧ ∀ peer, first.standing? peer = second.standing? peer

/-- Two reputations answer every question alike. -/
structure SameAnswers (first second : Reputation) : Prop where
  availability : ∀ peer now, first.availability peer now = second.availability peer now
  episodes : ∀ peer, first.episodes peer = second.episodes peer
  expiresAt? : ∀ peer, first.expiresAt? peer = second.expiresAt? peer
  size : first.size = second.size

theorem Agree.take (agree : first.Agree second) (now : Nat) (report : Report) :
    (first.take now report).Agree (second.take now report) := by
  obtain ⟨backoff, standings⟩ := agree
  refine ⟨by rw [backoff_take, backoff_take, backoff], fun peer => ?_⟩
  by_cases own : report.peer = peer
  · subst own
    cases report with
    | left named => simp only [Reputation.take, Report.peer, standing?_forget]
    | delivered named | failed named =>
      simp only [Reputation.take, Report.peer, Reputation.report, standing?_put, standings, backoff]
  · rw [standing?_take_of_ne own, standing?_take_of_ne own, standings]

theorem Agree.replay (front other back : List (Report × Nat))
    (agree : (replay backoff front).Agree (replay backoff other)) :
    (Reputation.replay backoff (front ++ back)).Agree
      (Reputation.replay backoff (other ++ back)) := by
  induction back using List.reverseRecOn with
  | nil => simpa using agree
  | append_singleton back entry ih =>
    rw [← List.append_assoc, ← List.append_assoc, replay_append_singleton,
      replay_append_singleton]
    exact ih.take entry.2 entry.1

end Agreement

section Streak

variable {front back : List (Report × Nat)}

theorem window?_replay (failed : (Conduct.after backoff peer history).last = some (.failed peer)) :
    (replay backoff history).window? peer =
      some ((Conduct.after backoff peer history).window backoff) := by
  have gives := gives_replay backoff history peer
  unfold window?
  generalize (replay backoff history).standing? peer = standing? at gives ⊢
  cases gives with
  | unknown unheard => simp [failed] at unheard
  | delivered last => simp [failed] at last
  | failed => rfl

end Streak

/-- What is known of a peer after a history of reports is what its conduct in the history says. -/
structure Follows (backoff : Backoff) (history : List (Report × Nat)) (peer : Peer) : Prop where
  episodes : (replay backoff history).episodes peer =
    min (Conduct.after backoff peer history).starts.length Standing.episodeLimit
  /-- The latest time aside began when the peer was last put aside. It is as long as the backoff
  says after as many attempts as the peer was put aside before, in the count of episodes. -/
  window : ∀ earlier start, (Conduct.after backoff peer history).starts = earlier ++ [start] →
    (replay backoff history).window? peer =
      some (backoff.window (min (earlier.length + 1) Standing.episodeLimit - 1) start)
  /-- Only a backoff whose attempts outlast the count shows that the count has a limit. -/
  uncapped : ∀ earlier start, (Conduct.after backoff peer history).starts = earlier ++ [start] →
    earlier.length + 1 ≤ Standing.episodeLimit ∨ backoff.LimitCounted →
      (replay backoff history).window? peer = some (backoff.window earlier.length start)
  available : ∀ now, (replay backoff history).availability peer now = .available ↔
    (Conduct.after backoff peer history).last = some (.delivered peer)
  unavailable : ∀ now, (replay backoff history).availability peer now = .unavailable ↔
    (Conduct.after backoff peer history).last = some (.failed peer) ∧
      ((Conduct.after backoff peer history).window backoff).isOver now = false
  expired : ∀ now, (replay backoff history).availability peer now = .expired ↔
    (Conduct.after backoff peer history).last ≠ some (.delivered peer) ∧
      ¬ ((Conduct.after backoff peer history).last = some (.failed peer) ∧
        ((Conduct.after backoff peer history).window backoff).isOver now = false)
  idle : ∀ front now back, history = front ++ (.failed peer, now) :: back →
    (replay backoff front).availability peer now = .unavailable →
      (replay backoff (front ++ back)).SameAnswers (replay backoff history)
  lasting : ∀ front back, history = front ++ back →
    (Conduct.after backoff peer front).last = some (.failed peer) →
    (∀ entry ∈ back, entry.1.pardons peer = false) →
      ∃ earlier later, (replay backoff front).window? peer = some earlier ∧
        (replay backoff history).window? peer = some later ∧ later.Outlasts earlier
  rising : backoff.Rises → ∀ front back, history = front ++ back →
    (Conduct.after backoff peer front).last = some (.failed peer) →
    (∀ entry ∈ back, entry.1.pardons peer = false) →
      ∀ start deadline laterStart laterDeadline,
        (Conduct.after backoff peer front).starts.getLast? = some start →
        (Conduct.after backoff peer history).starts.getLast? = some laterStart →
        (replay backoff front).window? peer = some (.upTo deadline) →
        (replay backoff history).window? peer = some (.upTo laterDeadline) →
          deadline - start ≤ laterDeadline - laterStart

section Answers

variable (backoff : Backoff) (history : List (Report × Nat)) (peer : Peer)

/-- Whether a peer can be asked is read off its last report and its latest time aside. -/
theorem availability_replay (now : Nat) :
    let conduct := Conduct.after backoff peer history
    let aside := conduct.last = some (.failed peer) ∧ (conduct.window backoff).isOver now = false
    ((replay backoff history).availability peer now = .available ↔
        conduct.last = some (.delivered peer)) ∧
      ((replay backoff history).availability peer now = .unavailable ↔ aside) ∧
      ((replay backoff history).availability peer now = .expired ↔
        conduct.last ≠ some (.delivered peer) ∧ ¬ aside) := by
  intro conduct aside
  have gives : conduct.Gives backoff peer _ := gives_replay backoff history peer
  unfold availability
  generalize (replay backoff history).standing? peer = standing? at gives ⊢
  cases gives with
  | unknown unheard => rcases unheard with last | last <;> simp [aside, last]
  | delivered last => simp [aside, last, Standing.availability]
  | failed last =>
    cases past : (conduct.window backoff).isOver now <;>
      simp [aside, last, Standing.availability, past]

end Answers

/-- A peer fails at 1, while it is aside at 3, and after that at 7. -/
example :
    let backoff : Backoff := { limit := none, pace := .constant 5 }
    let failed : Report := .failed (.ofNat 1)
    let conduct := Conduct.after backoff (.ofNat 1) [(failed, 1), (failed, 3), (failed, 7)]
    conduct.starts = [1, 7] ∧ conduct.window backoff = .upTo 12 := by decide

end Reputation

end ChunkExchange
