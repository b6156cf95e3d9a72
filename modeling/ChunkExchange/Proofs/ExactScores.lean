import ChunkExchange.Proofs.FirstBest
import Mathlib.Algebra.Order.Field.Basic
import Mathlib.Algebra.Order.Field.Rat
import Mathlib.Tactic.Linarith

/-! Scores in exact arithmetic. They can always be ranked, and every score lies between known
bounds: a small file that has a slot left is above all that a larger file can reach, so that small
files go first as long as slots are left. -/

namespace ChunkExchange.Fetch.Greedy

open Scoring (exceeds)

variable {greedy : Greedy} {view : View Rat} {file : File} {peer : Peer} {pick : Pick}
variable {first second : Rat}

theorem exceeds_iff : exceeds first second = true ↔ second < first :=
  decide_eq_true_iff

theorem exceeds_eq_false_iff : exceeds first second = false ↔ first ≤ second := by
  rw [← Bool.not_eq_true, exceeds_iff, not_lt]

theorem ranked_exact (scores : List Rat) : Ranked scores where
  irrefl first _ := exceeds_eq_false_iff.mpr (le_refl first)
  trans _ _ _ _ _ _ above below :=
    exceeds_iff.mpr (lt_trans (exceeds_iff.mp below) (exceeds_iff.mp above))
  tied _ _ _ _ _ _ notAbove _ notBelow _ :=
    exceeds_eq_false_iff.mpr
      (le_trans (exceeds_eq_false_iff.mp notAbove) (exceeds_eq_false_iff.mp notBelow))

theorem leads_of_choose (chosen : greedy.choose view = some pick) :
    Leads (score greedy view) (eligiblePairs greedy view) (pick.file, pick.peer) := by
  have room := (choose_eq_some chosen).1
  rw [choose_of_room room] at chosen
  obtain ⟨leader, best, picked⟩ := Option.bind_eq_some_iff.mp chosen
  obtain ⟨index, _, rfl⟩ := Option.map_eq_some_iff.mp picked
  exact leads_of_best (ranked_exact _) best

section Bounds

theorem fileScore_eq (greedy : Greedy) (view : View Rat) (file : File) :
    fileScore greedy view file =
      10 * (if greedy.isSmall file && decide (greedy.smallPending view < greedy.smallFileSlots)
        then 1 else 0) + view.progress file + 2 * (1 - meanAvailability view file) := by
  unfold fileScore
  change (10 : Rat) * (if _ then 1 else 0) + 1 * view.progress file + 2 * (1 - _) = _
  rw [one_mul]

theorem score_eq (greedy : Greedy) (view : View Rat) (file : File) (peer : Peer) :
    score greedy view (file, peer) =
      fileScore greedy view file + availabilityScore (view.availability file peer) := by
  change _ + (1 : Rat) * _ = _
  rw [one_mul]

theorem availabilityScore_bounds (availability : Availability) :
    0 ≤ (availabilityScore availability : Rat) ∧
      (availabilityScore availability : Rat) ≤ 1 := by
  cases availability <;> decide +kernel

private theorem foldl_availabilityScore_bounds (availability : Peer → Availability)
    (peers : List Peer) (start : Rat) :
    let total := peers.foldl (fun total peer => total + availabilityScore (availability peer)) start
    start ≤ total ∧ total ≤ start + peers.length := by
  induction peers generalizing start with
  | nil => simp
  | cons peer rest ih =>
    obtain ⟨lower, upper⟩ := availabilityScore_bounds (availability peer)
    obtain ⟨least, most⟩ := ih (start + availabilityScore (availability peer))
    rw [List.foldl_cons, List.length_cons, Nat.cast_add_one]
    constructor <;> linarith

theorem meanAvailability_bounds (view : View Rat) (file : File) :
    0 ≤ meanAvailability view file ∧ meanAvailability view file ≤ 1 := by
  unfold meanAvailability
  split
  · decide +kernel
  · rename_i known
    have some : 0 < view.peers.length :=
      List.length_pos_iff.mpr fun none => known (List.isEmpty_iff.mpr none)
    have positive : (0 : Rat) < view.peers.length := Nat.cast_pos.mpr some
    obtain ⟨least, most⟩ := foldl_availabilityScore_bounds (view.availability file) view.peers 0
    rw [zero_add] at most
    exact ⟨div_nonneg least (le_of_lt positive), (div_le_one positive).mpr most⟩

/-- While slots for small files are left, a small file has ten points with every peer. -/
theorem ten_le_score (slots : greedy.smallPending view < greedy.smallFileSlots)
    (small : greedy.isSmall file = true) (started : 0 ≤ view.progress file) (peer : Peer) :
    10 ≤ score greedy view (file, peer) := by
  have mean := (meanAvailability_bounds view file).2
  have availability := (availabilityScore_bounds (view.availability file peer)).1
  rw [score_eq, fileScore_eq, small, decide_eq_true slots, Bool.and_self, if_pos rfl]
  linarith

/-- A larger file has at most four points: one for its progress, two for being hard to find, and one
for the peer. -/
theorem score_le_four (large : greedy.isSmall file = false) (fraction : view.progress file ≤ 1)
    (peer : Peer) : score greedy view (file, peer) ≤ 4 := by
  have mean := (meanAvailability_bounds view file).1
  have availability := (availabilityScore_bounds (view.availability file peer)).2
  rw [score_eq, fileScore_eq, large, Bool.false_and, if_neg Bool.false_ne_true]
  linarith

end Bounds

/-- While slots for small files are left, a small file is picked whenever one can be, whatever
larger files there are, how far they have come and how hard they are to find. -/
theorem small_files_first (greedy : Greedy) (view : View Rat)
    (fractions : ∀ file ∈ view.files, 0 ≤ view.progress file ∧ view.progress file ≤ 1)
    (named : ∀ file ∈ view.files,
      view.hasWaiting file = true ↔ view.firstWaiting file 1 ≠ [])
    (slots : greedy.smallPending view < greedy.smallFileSlots) :
    (∃ pick, greedy.choose view = some pick ∧ pick.file.size ≤ greedy.smallFileThreshold) ↔
      view.tickets.length < greedy.maxParallelChunks ∧
        ∃ file peer, file.size ≤ greedy.smallFileThreshold ∧ Eligible greedy view file peer := by
  constructor
  · rintro ⟨pick, chosen, small⟩
    obtain ⟨room, eligible, _⟩ := choose_eq_some chosen
    exact ⟨room, pick.file, pick.peer, small, eligible⟩
  · rintro ⟨room, file, peer, small, eligible⟩
    have names : ∀ file ∈ view.files, view.hasWaiting file = true →
        (view.firstWaiting file 1).head? ≠ none := fun file active waits none =>
      (named file active).mp waits (List.head?_eq_none_iff.mp none)
    have picks : greedy.choose view ≠ none := by
      rw [Ne, choose_eq_none_iff names, not_or]
      exact ⟨Nat.not_le.mpr room, fun none => none file peer eligible⟩
    obtain ⟨pick, chosen⟩ := Option.ne_none_iff_exists'.mp picks
    refine ⟨pick, chosen, ?_⟩
    obtain ⟨_, _, _, _, others⟩ := leads_of_choose chosen
    have most : score greedy view (file, peer) ≤ score greedy view (pick.file, pick.peer) :=
      exceeds_eq_false_iff.mp (others _ (mem_eligiblePairs.mpr eligible))
    have active := (choose_eq_some chosen).2.1.active
    have least := ten_le_score slots (decide_eq_true small) (fractions file eligible.active).1 peer
    by_contra longer
    have large : greedy.isSmall pick.file = false := decide_eq_false longer
    have bound := score_le_four large (fractions _ active).2 pick.peer
    linarith

/-- The larger files are all but complete and only one peer can deliver them; the small one has just
been asked for, all peers have it, and one of its two slots is left. -/
theorem small_files_first_last_slot :
    let greedy : Greedy := .ofOptions
      { chunkSize := 10, maxParallelChunks := 8, smallFileThreshold := 1000 }
    let large (id : Nat) : File := { id, hash := "", size := 90000 }
    let small : File := { id := 3, hash := "", size := 1000 }
    let view : View Rat :=
      { files := [large 1, large 2, small], peers := [.ofNat 1, .ofNat 2, .ofNat 3]
        tickets := [.first small ⟨0, 0, 10⟩ (.ofNat 2) 0 5]
        availability := fun file peer =>
          if file = small then .available else if peer = .ofNat 1 then .expired else .unavailable
        progress := fun file => if file = small then 0 else 8999 / 9000
        firstWaiting := fun _ limit => [1, 2].take limit, hasWaiting := fun _ => true }
    (∀ file ∈ view.files, 0 ≤ view.progress file ∧ view.progress file ≤ 1) ∧
      (∀ file ∈ view.files, view.hasWaiting file = true ↔ view.firstWaiting file 1 ≠ []) ∧
      greedy.smallPending view < greedy.smallFileSlots ∧
      Eligible greedy view (large 1) (.ofNat 1) ∧
      ∃ pick, greedy.choose view = some pick ∧ pick.file.size ≤ greedy.smallFileThreshold := by
  intro greedy large small view
  have fractions : ∀ file ∈ view.files, 0 ≤ view.progress file ∧ view.progress file ≤ 1 := by
    decide +kernel
  have named : ∀ file ∈ view.files,
      view.hasWaiting file = true ↔ view.firstWaiting file 1 ≠ [] := by decide
  have slots : greedy.smallPending view < greedy.smallFileSlots := by decide +kernel
  have eligible : Eligible greedy view small (.ofNat 2) := by decide
  exact ⟨fractions, named, slots, by decide,
    (small_files_first greedy view fractions named slots).mpr
      ⟨by decide, small, .ofNat 2, by decide, eligible⟩⟩

end ChunkExchange.Fetch.Greedy
