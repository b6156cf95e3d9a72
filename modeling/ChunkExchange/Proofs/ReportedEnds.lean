import ChunkExchange.Proofs.Episodes

/-! The end that is reported for the time aside of a peer is the one of its latest failure, also
after the peer has delivered again. It says when the peer can be asked exactly where the peer has
not delivered since. -/

namespace ChunkExchange.Reputation

variable {backoff : Backoff} {reputation : Reputation} {peer : Peer} {report : Report}
variable {front back history : List (Report × Nat)} {deadline now : Nat}

/-- Whether `peer` is unavailable is told by one moment: it is so up to this moment and not
later. -/
def UnavailableUpTo (reputation : Reputation) (peer : Peer) (deadline : Nat) : Prop :=
  ∀ now, reputation.availability peer now = .unavailable ↔ now ≤ deadline

/-- A peer failed at the end of a history, and so is aside up to a moment. -/
def FailedUpTo (backoff : Backoff) (peer : Peer) (history : List (Report × Nat))
    (deadline : Nat) : Prop :=
  (Conduct.after backoff peer history).last = some (.failed peer) ∧
    (Conduct.after backoff peer history).window backoff = .upTo deadline

/-- All that is reported of a peer is that it delivers. -/
def OnlyDelivers (peer : Peer) (history : List (Report × Nat)) : Prop :=
  ∀ entry ∈ history, entry.1.peer = peer → entry.1 = .delivered peer

theorem expiresAt?_eq_some_iff :
    reputation.expiresAt? peer = some deadline ↔
      reputation.window? peer = some (.upTo deadline) := by
  unfold expiresAt? window?
  split
  · rename_i found
    rw [found, Option.some.injEq, Option.some.injEq, Window.upTo.injEq]
  · rename_i other
    exact ⟨nofun, fun found => absurd found (other deadline)⟩

/-- A report of another peer, or that the peer delivers, leaves the reported end as it is. -/
theorem expiresAt?_take (mild : report.peer = peer → report = .delivered peer) (now : Nat) :
    (reputation.take now report).expiresAt? peer = reputation.expiresAt? peer := by
  by_cases own : report.peer = peer
  · rw [mild own]
    have praised : (reputation.take now (.delivered peer)).standing? peer =
        some ((reputation.standing? peer).getD .fresh).praise := standing?_put ..
    unfold expiresAt?
    rw [praised]
    cases reputation.standing? peer <;> rfl
  · simp only [expiresAt?, standing?_take_of_ne own]

private theorem expiresAt?_replay_append (mild : OnlyDelivers peer back) :
    (replay backoff (front ++ back)).expiresAt? peer = (replay backoff front).expiresAt? peer := by
  induction back using List.reverseRecOn with
  | nil => rw [List.append_nil]
  | append_singleton back entry ih =>
    rw [← List.append_assoc, replay_append_singleton, expiresAt?_take (mild entry (by simp)),
      ih fun other listed => mild other (List.mem_append_left _ listed)]

private theorem expiresAt?_of_failedUpTo (failed : FailedUpTo backoff peer history deadline) :
    (replay backoff history).expiresAt? peer = some deadline := by
  rw [expiresAt?_eq_some_iff, window?_replay failed.1, failed.2]

theorem exists_failedUpTo (backoff : Backoff) (peer : Peer) (history : List (Report × Nat))
    (reported : (replay backoff history).expiresAt? peer = some deadline) :
    ∃ front back, history = front ++ back ∧ FailedUpTo backoff peer front deadline ∧
      OnlyDelivers peer back := by
  induction history using List.reverseRecOn with
  | nil => cases reported
  | append_singleton history entry ih =>
    obtain ⟨report, now⟩ := entry
    by_cases mild : report.peer = peer → report = .delivered peer
    · rw [replay_append_singleton, expiresAt?_take mild] at reported
      obtain ⟨front, back, rfl, failed, delivers⟩ := ih reported
      refine ⟨front, back ++ [(report, now)], List.append_assoc .., failed, ?_⟩
      intro entry listed
      rcases List.mem_append.mp listed with before | last
      · exact delivers entry before
      · exact List.mem_singleton.mp last ▸ mild
    · -- The last report is a failure of the peer, since nothing is reported once it has left.
      obtain ⟨own, harsh⟩ := Classical.not_imp.mp mild
      subst own
      cases report with
      | delivered named => exact absurd rfl harsh
      | left named =>
        rw [replay_append_singleton, expiresAt?, take, Report.peer, standing?_forget] at reported
        cases reported
      | failed named =>
        have last : (Conduct.after backoff named (history ++ [(.failed named, now)])).last =
            some (.failed named) := by
          rw [Conduct.after_append_singleton, Conduct.next_failed]
        refine ⟨_, [], (List.append_nil _).symm, ⟨last, ?_⟩, by simp [OnlyDelivers]⟩
        rw [expiresAt?_eq_some_iff, Report.peer, window?_replay last, Option.some.injEq] at reported
        exact reported

private theorem unavailableUpTo_of_failed
    (reported : (replay backoff history).expiresAt? peer = some deadline)
    (failed : (Conduct.after backoff peer history).last = some (.failed peer)) :
    (replay backoff history).UnavailableUpTo peer deadline := by
  intro now
  rw [expiresAt?_eq_some_iff, window?_replay failed, Option.some.injEq] at reported
  rw [(availability_replay backoff history peer now).2.1, reported, Window.isOver,
    decide_eq_false_iff_not, Nat.not_lt]
  exact and_iff_right failed

/-- Unless a peer failed last, an end is only reported of a peer that delivered last. -/
private theorem delivered_of_reported
    (reported : (replay backoff history).expiresAt? peer = some deadline)
    (mended : (Conduct.after backoff peer history).last ≠ some (.failed peer)) :
    (Conduct.after backoff peer history).last = some (.delivered peer) := by
  have gives := gives_replay backoff history peer
  unfold expiresAt? at reported
  generalize (replay backoff history).standing? peer = standing? at gives reported
  cases gives with
  | unknown => cases reported
  | delivered last => exact last
  | failed last => exact absurd last mended

theorem availability_of_unreported (unreported : reputation.expiresAt? peer = none)
    (first second : Nat) :
    reputation.availability peer first = reputation.availability peer second := by
  unfold expiresAt? at unreported
  unfold availability
  cases found : reputation.standing? peer with
  | none => rfl
  | some standing =>
    simp only [found, Option.map_some] at unreported
    have timeless : standing.window.isOver first = standing.window.isOver second := by
      cases window : standing.window with
      | upTo deadline => simp [window] at unreported
      | unopened | forever => rfl
    simp only [Standing.availability, timeless]

/-- What the reported end of a time aside says after a history of reports. -/
structure TellsEnd (backoff : Backoff) (history : List (Report × Nat)) (peer : Peer) : Prop where
  /-- It is the end of the time aside at the latest failure of the peer, which did not leave. -/
  latest : ∀ deadline, (replay backoff history).expiresAt? peer = some deadline ↔
    ∃ front back, history = front ++ back ∧ FailedUpTo backoff peer front deadline ∧
      OnlyDelivers peer back
  agrees : ∀ deadline, (replay backoff history).expiresAt? peer = some deadline →
    ((replay backoff history).UnavailableUpTo peer deadline ↔
      (Conduct.after backoff peer history).last = some (.failed peer))
  stale : ∀ deadline, (replay backoff history).expiresAt? peer = some deadline →
    (Conduct.after backoff peer history).last ≠ some (.failed peer) →
      ∀ now, (replay backoff history).availability peer now = .available
  timeless : (replay backoff history).expiresAt? peer = none → ∀ first second,
    (replay backoff history).availability peer first =
      (replay backoff history).availability peer second

/-- Any backoff and any history of reports, made at any times. -/
theorem reported_end_of_latest_failure (backoff : Backoff) (history : List (Report × Nat))
    (peer : Peer) : TellsEnd backoff history peer := by
  have mended {deadline : Nat}
      (reported : (replay backoff history).expiresAt? peer = some deadline)
      (since : (Conduct.after backoff peer history).last ≠ some (.failed peer)) (now : Nat) :
      (replay backoff history).availability peer now = .available :=
    (availability_replay backoff history peer now).1.mpr (delivered_of_reported reported since)
  constructor
  · intro deadline
    constructor
    · exact exists_failedUpTo backoff peer history
    · rintro ⟨front, back, rfl, failed, delivers⟩
      rw [expiresAt?_replay_append delivers]
      exact expiresAt?_of_failedUpTo failed
  · intro deadline reported
    constructor
    · intro upTo
      by_contra since
      have aside := (upTo deadline).mpr (Nat.le_refl _)
      rw [mended reported since deadline] at aside
      cases aside
    · exact unavailableUpTo_of_failed reported
  · exact fun deadline reported since now => mended reported since now
  · exact availability_of_unreported

/-- A peer fails at 0 and is aside up to 10, but delivers at 1: from then on it is available, and 10
is still reported. -/
theorem stale_end_delivered :
    let backoff : Backoff := { limit := none, pace := .constant 10 }
    let reputation := replay backoff [(.failed (.ofNat 1), 0), (.delivered (.ofNat 1), 1)]
    reputation.expiresAt? (.ofNat 1) = some 10 ∧
      reputation.availability (.ofNat 1) 5 = .available ∧
      ¬ reputation.UnavailableUpTo (.ofNat 1) 10 := by
  refine ⟨by decide, by decide, fun upTo => ?_⟩
  have aside := (upTo 5).mpr (by decide)
  revert aside
  decide

end ChunkExchange.Reputation
