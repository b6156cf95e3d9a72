import ChunkExchange.Reputation

/-! What reports make of the standing of a peer. A failure puts the peer aside, and until the peer
delivers or leaves nothing brings the end of its time aside nearer. -/

namespace ChunkExchange

namespace Window

/-- The later window is open wherever the earlier one is. -/
def Outlasts (later earlier : Window) : Prop :=
  ∀ now, earlier.isOver now = false → later.isOver now = false

variable {earlier middle later : Window}

theorem Outlasts.refl (window : Window) : window.Outlasts window :=
  fun _ still => still

theorem Outlasts.trans (first : middle.Outlasts earlier) (second : later.Outlasts middle) :
    later.Outlasts earlier :=
  fun now still => second now (first now still)

private theorem outlasts_forever (window : Window) : forever.Outlasts window :=
  fun _ _ => rfl

private theorem outlasts_of_isOver {now delay : Nat} (ended : earlier.isOver now = true) :
    (upTo (now + delay)).Outlasts earlier := by
  intro moment still
  cases earlier with
  | unopened | forever => simp [isOver] at ended still
  | upTo deadline =>
    simp only [isOver, decide_eq_true_iff, decide_eq_false_iff_not] at ended still ⊢
    omega

end Window

namespace Standing

variable {standing : Standing} {backoff : Backoff} {now : Nat}

theorem blame_of_open (failed : standing.delivered = false)
    (still : standing.window.isOver now = false) : standing.blame backoff now = standing := by
  simp [blame, failed, still]

/-- After a failure the peer is aside, and no earlier free than before. -/
theorem blame_spec (standing : Standing) (backoff : Backoff) (now : Nat) :
    (standing.blame backoff now).delivered = false ∧
      (standing.blame backoff now).window.isOver now = false ∧
      (standing.delivered = false →
        (standing.blame backoff now).window.Outlasts standing.window) := by
  by_cases still : standing.delivered = false ∧ standing.window.isOver now = false
  · rw [blame_of_open still.1 still.2]
    exact ⟨still.1, still.2, fun _ => .refl _⟩
  · have opens : (!standing.delivered && !standing.window.isOver now) = false := by
      simpa using still
    simp only [blame, opens, Bool.false_eq_true, ↓reduceIte]
    refine ⟨trivial, ?_, fun failed => ?_⟩
    · split
      · exact decide_eq_false (Nat.not_lt.mpr (Nat.le_add_right _ _))
      · rfl
    · have ended : standing.window.isOver now = true := by simpa [failed] using opens
      split
      · exact Window.outlasts_of_isOver ended
      · exact Window.outlasts_forever _

/-- Blaming a peer again at the same moment changes nothing. -/
theorem blame_blame (standing : Standing) (backoff : Backoff) (now : Nat) :
    (standing.blame backoff now).blame backoff now = standing.blame backoff now :=
  have aside := standing.blame_spec backoff now
  blame_of_open aside.1 aside.2.1

theorem episodes_blame_le (standing : Standing) (backoff : Backoff) (now : Nat) :
    (standing.blame backoff now).episodes ≤ standing.episodes + 1 := by
  unfold blame
  split
  · exact Nat.le_succ _
  · exact Nat.min_le_left _ _

end Standing

inductive Report where
  | delivered (peer : Peer)
  | failed (peer : Peer)
  | left (peer : Peer)
deriving DecidableEq

namespace Report

/-- Whether the report ends the time aside of a peer. -/
def pardons (peer : Peer) : Report → Bool
  | .delivered other | .left other => other == peer
  | .failed _ => false

end Report

namespace Reputation

def take (now : Nat) (reputation : Reputation) : Report → Reputation
  | .delivered peer => reputation.report peer true now
  | .failed peer => reputation.report peer false now
  | .left peer => reputation.forget peer

def window? (reputation : Reputation) (peer : Peer) : Option Window :=
  (reputation.standing? peer).map Standing.window

variable {reputation : Reputation} {peer other : Peer} {standing : Standing} {now : Nat}
variable {window : Window} {reports : List Report} {report : Report}

theorem standing?_forget_of_ne (different : peer ≠ other) :
    (reputation.forget other).standing? peer = reputation.standing? peer := by
  unfold standing? forget
  induction reputation.standings with
  | nil => rfl
  | cons entry rest ih =>
    by_cases own : entry.1 = other
    · have skipped : (peer == entry.1) = false := by simpa [own] using different
      rw [List.filter_cons_of_neg (by simp [own]), ih, List.lookup_cons, skipped]
    · rw [List.filter_cons_of_pos (by simp [own]), List.lookup_cons, List.lookup_cons, ih]

theorem standing?_forget (reputation : Reputation) (peer : Peer) :
    (reputation.forget peer).standing? peer = none := by
  unfold standing? forget
  rw [List.lookup_eq_none_iff]
  intro entry listed
  simpa using Ne.symm (by simpa using (List.mem_filter.mp listed).2)

theorem standing?_put (reputation : Reputation) (peer : Peer) (standing : Standing) :
    (reputation.put peer standing).standing? peer = some standing := by
  simp [standing?, put]

private theorem standing?_put_of_ne (different : peer ≠ other) :
    (reputation.put other standing).standing? peer = reputation.standing? peer := by
  have skipped : (peer == other) = false := by simpa using different
  rw [standing?, put, List.lookup_cons, skipped]
  exact standing?_forget_of_ne different

theorem standing?_report_of_ne (different : peer ≠ other) (delivered : Bool) :
    (reputation.report other delivered now).standing? peer = reputation.standing? peer := by
  unfold Reputation.report
  exact standing?_put_of_ne different

/-- Peers that fail at one moment, some of them more than once, are each blamed once. -/
theorem standing?_foldl_failed (reputation : Reputation) (failed : List Peer) (now : Nat)
    (peer : Peer) :
    ((failed.map Report.failed).foldl (Reputation.take now) reputation).standing? peer =
      if peer ∈ failed then
        some (((reputation.standing? peer).getD .fresh).blame reputation.backoff now)
      else reputation.standing? peer := by
  induction failed generalizing reputation with
  | nil => rfl
  | cons other rest ih =>
    have later := ih (reputation.take now (.failed other))
    have backoff : (reputation.take now (.failed other)).backoff = reputation.backoff := rfl
    rw [backoff] at later
    rw [List.map_cons, List.foldl_cons, later]
    by_cases same : peer = other
    · subst same
      have blamed : (reputation.take now (.failed peer)).standing? peer =
          some (((reputation.standing? peer).getD .fresh).blame reputation.backoff now) :=
        standing?_put ..
      rw [blamed, if_pos List.mem_cons_self]
      simp only [Option.getD_some, Standing.blame_blame, ite_self]
    · have spared : (reputation.take now (.failed other)).standing? peer =
          reputation.standing? peer := standing?_report_of_ne same false
      rw [spared]
      simp only [List.mem_cons, same, false_or]

/-- The peer failed last, and is aside at least as long as a window says. -/
def Aside (reputation : Reputation) (peer : Peer) (window : Window) : Prop :=
  ∃ standing, reputation.standing? peer = some standing ∧ standing.delivered = false ∧
    standing.window.Outlasts window

theorem availability_of_aside (aside : reputation.Aside peer window)
    (still : window.isOver now = false) : reputation.availability peer now = .unavailable := by
  obtain ⟨standing, found, failed, outlasts⟩ := aside
  simp [availability, found, Standing.availability, failed, outlasts now still]

/-- Only a delivery of the peer itself, or its leave, ends its time aside. -/
theorem Aside.take (aside : reputation.Aside peer window) (now : Nat)
    (severe : report.pardons peer = false) : (reputation.take now report).Aside peer window := by
  obtain ⟨standing, found, failed, outlasts⟩ := aside
  cases report with
  | delivered other =>
    have different : peer ≠ other := by
      rintro rfl
      simp [Report.pardons] at severe
    exact ⟨standing, (standing?_report_of_ne different true).trans found, failed, outlasts⟩
  | left other =>
    have different : peer ≠ other := by
      rintro rfl
      simp [Report.pardons] at severe
    exact ⟨standing, (standing?_forget_of_ne different).trans found, failed, outlasts⟩
  | failed other =>
    by_cases same : peer = other
    · subst same
      obtain ⟨still, _, longer⟩ := standing.blame_spec reputation.backoff now
      refine ⟨_, standing?_put .., ?_⟩
      rw [found]
      exact ⟨still, outlasts.trans (longer failed)⟩
    · exact ⟨standing, (standing?_report_of_ne same false).trans found, failed, outlasts⟩

theorem Aside.foldl_take (aside : reputation.Aside peer window) (now : Nat)
    (severe : ∀ report ∈ reports, report.pardons peer = false) :
    (reports.foldl (Reputation.take now) reputation).Aside peer window := by
  induction reports generalizing reputation with
  | nil => exact aside
  | cons report rest ih =>
    exact ih (aside.take now (severe report List.mem_cons_self))
      (fun other listed => severe other (List.mem_cons_of_mem report listed))

theorem aside_foldl_take (reputation : Reputation) (now : Nat)
    (blamed : .failed peer ∈ reports) (severe : ∀ report ∈ reports, report.pardons peer = false) :
    ∃ window, window.isOver now = false ∧
      (reports.foldl (Reputation.take now) reputation).Aside peer window := by
  obtain ⟨front, back, rfl⟩ := List.append_of_mem blamed
  rw [List.foldl_append, List.foldl_cons]
  obtain ⟨failed, still, _⟩ := Standing.blame_spec
    (((front.foldl (Reputation.take now) reputation).standing? peer).getD .fresh)
    (front.foldl (Reputation.take now) reputation).backoff now
  refine ⟨_, still, ?_⟩
  apply Aside.foldl_take
  · exact ⟨_, standing?_put .., failed, .refl _⟩
  · exact fun report listed =>
      severe report (List.mem_append_right front (List.mem_cons_of_mem _ listed))

end Reputation

end ChunkExchange
