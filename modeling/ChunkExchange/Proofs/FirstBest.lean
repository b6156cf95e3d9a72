import ChunkExchange.Proofs.GreedyChoice
import Mathlib.Data.List.Induction

/-! Of the pairs that may take another request the greedy scheduler picks the first one with the
best score, files in order and for each file the peers in order. All that is used of the scores is
that they can be ranked, which they can unless one of them is not a number. -/

namespace ChunkExchange

/-- The pair of a file and a peer that a request takes a place of. -/
def Ticket.pair (ticket : Ticket) : File × Peer :=
  (ticket.file, ticket.peer)

namespace Fetch.Greedy

open Scoring (exceeds)

variable {Number : Type}

instance (greedy : Greedy) (view : View Number) (file : File) (peer : Peer) :
    Decidable (Eligible greedy view file peer) :=
  decidable_of_iff
    ((file ∈ view.files ∧ view.hasWaiting file = true ∧
        view.tickets.countP (fun ticket => ticket.file == file) < greedy.maxParallelPerFile) ∧
      peer ∈ view.peers ∧
      view.tickets.countP (fun ticket => ticket.peer == peer) < greedy.maxParallelPerPeer ∧
      view.availability file peer ≠ .unavailable)
    ⟨fun ⟨⟨active, waits, fileRoom⟩, known, peerRoom, promising⟩ =>
        ⟨active, waits, fileRoom, known, peerRoom, promising⟩,
      fun eligible => ⟨⟨eligible.active, eligible.waits, eligible.fileRoom⟩, eligible.known,
        eligible.peerRoom, eligible.promising⟩⟩

/-- The pairs that may take another request, files in order and for each file the peers in
order. -/
def eligiblePairs (greedy : Greedy) (view : View Number) : List (File × Peer) :=
  (view.files.flatMap fun file => view.peers.map (file, ·)).filter fun pair =>
    decide (Eligible greedy view pair.1 pair.2)

theorem mem_eligiblePairs {greedy : Greedy} {view : View Number} {file : File} {peer : Peer} :
    (file, peer) ∈ eligiblePairs greedy view ↔ Eligible greedy view file peer := by
  simp only [eligiblePairs, List.mem_filter, List.mem_flatMap, List.mem_map, Prod.mk.injEq,
    decide_eq_true_iff, and_iff_right_iff_imp]
  exact fun eligible => ⟨file, eligible.active, peer, eligible.known, rfl, rfl⟩

private theorem decide_eligible {greedy : Greedy} {view : View Number} {file : File} {peer : Peer}
    (active : file ∈ view.files) (known : peer ∈ view.peers) :
    decide (Eligible greedy view file peer) = (greedy.admitsFile view file &&
      (greedy.admitsPeer view peer && view.availability file peer != .unavailable)) := by
  rw [Bool.eq_iff_iff]
  simp only [decide_eq_true_iff, admitsFile, admitsPeer, Bool.and_eq_true, bne_iff_ne]
  constructor
  · intro eligible
    exact ⟨⟨eligible.fileRoom, eligible.waits⟩, eligible.peerRoom, eligible.promising⟩
  · rintro ⟨⟨fileRoom, waits⟩, peerRoom, promising⟩
    exact ⟨active, waits, fileRoom, known, peerRoom, promising⟩

variable [Scoring Number]

def score (greedy : Greedy) (view : View Number) (pair : File × Peer) : Number :=
  pairScore (fileScore greedy view pair.1) (view.availability pair.1 pair.2)

/-- Which of some scores exceed which is a strict weak order. -/
structure Ranked (scores : List Number) : Prop where
  irrefl : ∀ first ∈ scores, exceeds first first = false
  trans : ∀ first ∈ scores, ∀ second ∈ scores, ∀ third ∈ scores,
    exceeds first second = true → exceeds second third = true → exceeds first third = true
  /-- Scores that a score neither exceeds nor falls below do not exceed each other. -/
  tied : ∀ first ∈ scores, ∀ second ∈ scores, ∀ third ∈ scores,
    exceeds first second = false → exceeds second first = false →
      exceeds second third = false → exceeds third second = false → exceeds first third = false

/-- A pair is the first of the best among some pairs: none of them has a higher score, and those
before it have lower ones. -/
def Leads (score : File × Peer → Number) (pairs : List (File × Peer)) (leader : File × Peer) :
    Prop :=
  ∃ front back, pairs = front ++ leader :: back ∧
    (∀ earlier ∈ front, exceeds (score leader) (score earlier) = true) ∧
    ∀ other ∈ pairs, exceeds (score other) (score leader) = false

structure PicksFirstBest (greedy : Greedy) (view : View Number) : Prop where
  declines : greedy.choose view = none ↔
    greedy.maxParallelChunks ≤ view.tickets.length ∨
      ∀ file peer, ¬ Eligible greedy view file peer
  picks : Ranked ((eligiblePairs greedy view).map (score greedy view)) →
    ∀ pick, greedy.choose view = some pick →
      Eligible greedy view pick.file pick.peer ∧
      Leads (score greedy view) (eligiblePairs greedy view) (pick.file, pick.peer) ∧
      (view.firstWaiting pick.file 1).head? = some pick.extent.index ∧
      pick.extent = pick.file.extent pick.extent.index greedy.chunkSize
  unordered : ∀ tickets : List Ticket, tickets.Perm view.tickets →
    greedy.choose { view with tickets } = greedy.choose view

section Order

variable {scores fewer : List Number} {first second third : Number}

theorem Ranked.subset (ranked : Ranked scores) (subset : ∀ score ∈ fewer, score ∈ scores) :
    Ranked fewer where
  irrefl first one := ranked.irrefl first (subset first one)
  trans first one second two third three :=
    ranked.trans first (subset first one) second (subset second two) third (subset third three)
  tied first one second two third three :=
    ranked.tied first (subset first one) second (subset second two) third (subset third three)

private theorem Ranked.asymm (ranked : Ranked scores) (one : first ∈ scores) (two : second ∈ scores)
    (above : exceeds first second = true) : exceeds second first = false := by
  rw [Bool.eq_false_iff]
  intro below
  have own := ranked.trans first one second two first one above below
  rw [ranked.irrefl first one] at own
  cases own

private theorem Ranked.exceeds_of_not (ranked : Ranked scores) (one : first ∈ scores)
    (two : second ∈ scores) (three : third ∈ scores) (above : exceeds first second = true)
    (notAbove : exceeds third second = false) : exceeds first third = true := by
  rw [← Bool.not_eq_false]
  intro lost
  -- Else the third score ties with both others, so that these tie as well.
  have secondThird : exceeds second third = false := by
    rw [Bool.eq_false_iff]
    intro still
    rw [ranked.trans first one second two third three above still] at lost
    cases lost
  have thirdFirst : exceeds third first = false := by
    rw [Bool.eq_false_iff]
    intro still
    rw [ranked.trans third three first one second two still above] at notAbove
    cases notAbove
  rw [ranked.tied first one third three second two lost thirdFirst notAbove secondThird] at above
  cases above

end Order

section Leader

variable {score : File × Peer → Number} {pairs : List (File × Peer)} {leader next : File × Peer}

theorem Leads.mem (leads : Leads score pairs leader) : leader ∈ pairs := by
  obtain ⟨front, back, rfl, _⟩ := leads
  simp

theorem Leads.stays (leads : Leads score pairs leader)
    (lower : exceeds (score next) (score leader) = false) :
    Leads score (pairs ++ [next]) leader := by
  obtain ⟨front, back, rfl, earlier, others⟩ := leads
  refine ⟨front, back ++ [next], by simp, earlier, ?_⟩
  intro other listed
  rcases List.mem_append.mp listed with old | new
  · exact others other old
  · exact List.mem_singleton.mp new ▸ lower

private theorem Leads.passes (leads : Leads score pairs leader)
    (ranked : Ranked ((pairs ++ [next]).map score))
    (higher : exceeds (score next) (score leader) = true) :
    Leads score (pairs ++ [next]) next := by
  have scored (pair : File × Peer) (listed : pair ∈ pairs ++ [next]) :
      score pair ∈ (pairs ++ [next]).map score := List.mem_map_of_mem listed
  have last := scored next (List.mem_append_right pairs (List.mem_singleton.mpr rfl))
  have former := scored leader (List.mem_append_left [next] leads.mem)
  obtain ⟨_, _, _, _, others⟩ := leads
  have passed (other : File × Peer) (listed : other ∈ pairs) :
      exceeds (score next) (score other) = true :=
    ranked.exceeds_of_not last former (scored other (List.mem_append_left [next] listed)) higher
      (others other listed)
  refine ⟨pairs, [], rfl, passed, ?_⟩
  intro other listed
  rcases List.mem_append.mp listed with old | new
  · exact ranked.asymm last (scored other listed) (passed other old)
  · rw [List.mem_singleton.mp new]
    exact ranked.irrefl _ last

end Leader

section Choice

variable {greedy : Greedy} {view : View Number} {pairs : List (File × Peer)}
variable {leader : Candidate Number} {pick : Pick}

def candidate (score : File × Peer → Number) (pair : File × Peer) : Candidate Number :=
  { score := score pair, file := pair.1, peer := pair.2 }

private theorem candidates_eq (greedy : Greedy) (view : View Number) :
    greedy.candidates view = (eligiblePairs greedy view).map (candidate (score greedy view)) := by
  have tested (file : File) (active : file ∈ view.files) :
      (view.peers.map (file, ·)).filter (fun pair => decide (Eligible greedy view pair.1 pair.2)) =
        (view.peers.filter fun peer => greedy.admitsFile view file &&
          (greedy.admitsPeer view peer && view.availability file peer != .unavailable)).map
            (file, ·) := by
    rw [List.filter_map]
    congr 1
    exact List.filter_congr fun peer known => decide_eligible active known
  have whole (files : List File) (active : ∀ file ∈ files, file ∈ view.files) :
      ((files.filter (greedy.admitsFile view)).flatMap fun file =>
        (view.peers.filter fun peer => greedy.admitsPeer view peer &&
          view.availability file peer != .unavailable).map fun peer =>
            candidate (score greedy view) (file, peer)) =
        ((files.flatMap fun file => view.peers.map (file, ·)).filter fun pair =>
          decide (Eligible greedy view pair.1 pair.2)).map (candidate (score greedy view)) := by
    induction files with
    | nil => rfl
    | cons file rest ih =>
      have others := ih fun other listed => active other (List.mem_cons_of_mem file listed)
      rw [List.flatMap_cons, List.filter_append, List.map_append, ← others,
        tested file (active file List.mem_cons_self)]
      cases admitted : greedy.admitsFile view file with
      | true => simp [admitted, Function.comp_def]
      | false => simp [admitted]
  exact whole view.files fun _ active => active

/-- Keeping the better one of two leaves the first of the best. -/
private theorem leads_of_foldl_better {score : File × Peer → Number}
    (ranked : Ranked (pairs.map score))
    (found : (pairs.map (candidate score)).foldl better none = some leader) :
    ∃ pair, leader = candidate score pair ∧ Leads score pairs pair := by
  induction pairs using List.reverseRecOn generalizing leader with
  | nil => cases found
  | append_singleton pairs next ih =>
    rw [List.map_append, List.foldl_append] at found
    cases before : (pairs.map (candidate score)).foldl better none with
    | none =>
      obtain ⟨_, empty⟩ := foldl_better_eq_none_iff.mp before
      cases List.map_eq_nil_iff.mp empty
      cases found
      exact ⟨next, rfl, [], [], rfl, by simp, by simpa using ranked.irrefl _ (by simp)⟩
    | some former =>
      have fewer : Ranked (pairs.map score) := ranked.subset fun _ listed => by
        rw [List.map_append]
        exact List.mem_append_left _ listed
      obtain ⟨pair, rfl, leads⟩ := ih fewer before
      rw [before] at found
      change (if exceeds (score next) (score pair) then some (candidate score next)
        else some (candidate score pair)) = some leader at found
      split at found
      · rename_i higher
        exact ⟨next, (Option.some.inj found).symm, leads.passes ranked higher⟩
      · rename_i lower
        exact ⟨pair, (Option.some.inj found).symm, leads.stays (Bool.eq_false_iff.mpr lower)⟩

theorem leads_of_best (ranked : Ranked ((eligiblePairs greedy view).map (score greedy view)))
    (found : greedy.best view = some leader) :
    Leads (score greedy view) (eligiblePairs greedy view) (leader.file, leader.peer) := by
  rw [Greedy.best, candidates_eq] at found
  obtain ⟨pair, rfl, leads⟩ := leads_of_foldl_better ranked found
  exact leads

private theorem countP_of_pairs {first second : List Ticket}
    (perm : (first.map Ticket.pair).Perm (second.map Ticket.pair)) (counts : File × Peer → Bool) :
    first.countP (fun ticket => counts ticket.pair) =
      second.countP (fun ticket => counts ticket.pair) := by
  have same := perm.countP_eq counts
  rwa [List.countP_map, List.countP_map] at same

/-- The requests without an answer are only counted, for each file and for each peer. -/
theorem choose_of_pairs {tickets : List Ticket}
    (perm : (tickets.map Ticket.pair).Perm (view.tickets.map Ticket.pair)) :
    greedy.choose { view with tickets } = greedy.choose view := by
  have counts := countP_of_pairs perm
  have room : greedy.hasRoom { view with tickets } = greedy.hasRoom view := by
    have length : tickets.length = view.tickets.length := by simpa using perm.length_eq
    simp only [hasRoom, length]
  have files : greedy.admitsFile { view with tickets } = greedy.admitsFile view := by
    funext file
    have same := counts fun pair => pair.1 == file
    simp only [Ticket.pair] at same
    simp only [admitsFile, same]
  have peers : greedy.admitsPeer { view with tickets } = greedy.admitsPeer view := by
    funext peer
    have same := counts fun pair => pair.2 == peer
    simp only [Ticket.pair] at same
    simp only [admitsPeer, same]
  have scores : fileScore greedy { view with tickets } = fileScore greedy view := by
    funext file
    have same := counts fun pair => greedy.isSmall pair.1
    simp only [Ticket.pair] at same
    simp only [fileScore, smallPending, same]
    rfl
  have best : greedy.best { view with tickets } = greedy.best view := by
    simp only [Greedy.best, Greedy.candidates, files, peers, scores]
  unfold choose
  rw [room, best]

/-- Whatever the bounds and whatever is known, a scheduler that is told of waiting chunks where
there are some picks the first of the best pairs, and declines where none is eligible. -/
theorem picks_first_best (greedy : Greedy) (view : View Number)
    (named : ∀ file ∈ view.files,
      view.hasWaiting file = true ↔ view.firstWaiting file 1 ≠ []) :
    PicksFirstBest greedy view := by
  constructor
  · apply choose_eq_none_iff
    intro file active waits none
    exact (named file active).mp waits (List.head?_eq_none_iff.mp none)
  · intro ranked pick chosen
    obtain ⟨room, _, first, extent⟩ := choose_eq_some chosen
    rw [choose_of_room room] at chosen
    obtain ⟨leader, best, picked⟩ := Option.bind_eq_some_iff.mp chosen
    obtain ⟨index, _, rfl⟩ := Option.map_eq_some_iff.mp picked
    have leads := leads_of_best ranked best
    exact ⟨mem_eligiblePairs.mp leads.mem, leads, first, extent⟩
  · intro tickets perm
    exact choose_of_pairs (perm.map Ticket.pair)

end Choice

/-- The first of three files has no room left. In the others the pairs that are worth retrying tie,
and the earlier of them is picked, although an eligible pair comes before it. -/
theorem picks_first_best_tie :
    let greedy : Greedy :=
      { maxParallelChunks := 4, maxParallelPerFile := 1, maxParallelPerPeer := 4, chunkSize := 2
        smallFileThreshold := 100, smallFileSlots := 1 }
    let file (id : Nat) : File := { id, hash := "", size := 9 }
    let view : View Float :=
      { files := [file 1, file 2, file 3], peers := [.ofNat 1, .ofNat 2]
        tickets := [.first (file 1) ⟨0, 0, 2⟩ (.ofNat 1) 0 5]
        availability := fun named peer =>
          if (named, peer) ∈ [(file 2, .ofNat 1), (file 3, .ofNat 2)] then .available else .expired
        progress := fun _ => 0.2, firstWaiting := fun _ limit => [3, 4].take limit
        hasWaiting := fun _ => true }
    (∀ named ∈ view.files, view.hasWaiting named = true ↔ view.firstWaiting named 1 ≠ []) ∧
      Ranked ((eligiblePairs greedy view).map (score greedy view)) ∧
      greedy.choose view =
        some { file := file 2, extent := (file 2).extent 3 2, peer := .ofNat 2 } ∧
      (file 2, .ofNat 1) ∈ eligiblePairs greedy view ∧
      Leads (score greedy view) (eligiblePairs greedy view) (file 2, .ofNat 2) := by
  intro greedy file view
  have named : ∀ named ∈ view.files,
      view.hasWaiting named = true ↔ view.firstWaiting named 1 ≠ [] := by decide
  have ranked : Ranked ((eligiblePairs greedy view).map (score greedy view)) := by
    constructor <;> decide +kernel
  have chosen : greedy.choose view =
      some { file := file 2, extent := (file 2).extent 3 2, peer := .ofNat 2 } := by
    decide +kernel
  exact ⟨named, ranked, chosen, by decide +kernel,
    ((picks_first_best greedy view named).picks ranked _ chosen).2.1⟩

end Fetch.Greedy

end ChunkExchange
