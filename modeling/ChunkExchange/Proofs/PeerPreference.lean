import ChunkExchange.Proofs.ExactScores

/-! Which peer is asked for a chunk of the file that is picked. The best pair of all is also the
best one of its own file, so that other files have no say in it: peers that are worth a retry come
before those that delivered, and among equals the order of the peers decides. -/

namespace ChunkExchange.Fetch.Greedy

open Scoring (exceeds)

variable {Number : Type}

/-- The first peer in order that has room for another request and this availability for the file. -/
def firstWith? (greedy : Greedy) (view : View Number) (file : File) (availability : Availability) :
    Option Peer :=
  view.peers.find? fun peer =>
    greedy.admitsPeer view peer && decide (view.availability file peer = availability)

structure PrefersRetry (greedy : Greedy) (view : View Number) (pick : Pick) : Prop where
  retries : (∃ peer ∈ view.peers, greedy.admitsPeer view peer = true ∧
      view.availability pick.file peer = .expired) →
    greedy.firstWith? view pick.file .expired = some pick.peer
  otherwise : (¬ ∃ peer ∈ view.peers, greedy.admitsPeer view peer = true ∧
      view.availability pick.file peer = .expired) →
    greedy.firstWith? view pick.file .available = some pick.peer
  promising : view.availability pick.file pick.peer ≠ .unavailable

section Leader

variable [Scoring Number] {greedy : Greedy} {view : View Number} {file : File} {peer : Peer}

/-- The peer of the leading pair is the first one that does not score less with its file. -/
private theorem find?_of_leads
    (leads : Leads (score greedy view) (eligiblePairs greedy view) (file, peer)) :
    view.peers.find? (fun other => decide (Eligible greedy view file other) &&
      !exceeds (score greedy view (file, peer)) (score greedy view (file, other))) =
        some peer := by
  have own := leads.mem
  obtain ⟨front, back, whole, earlier, others⟩ := leads
  have first : (eligiblePairs greedy view).find?
      (fun pair => !exceeds (score greedy view (file, peer)) (score greedy view pair)) =
        some (file, peer) := by
    rw [List.find?_eq_some_iff_append]
    refine ⟨by rw [others _ own]; rfl, front, back, whole, ?_⟩
    intro pair listed
    rw [earlier pair listed]
    rfl
  -- Files are searched in turn, and the one in which the pair is found is its own.
  rw [eligiblePairs, List.find?_filter, List.find?_flatMap, List.findSome?_eq_some_iff] at first
  obtain ⟨_, holder, _, _, within, _⟩ := first
  rw [List.find?_map, Option.map_eq_some_iff] at within
  obtain ⟨other, found, same⟩ := within
  obtain ⟨rfl, rfl⟩ := Prod.mk.inj same
  simpa [Function.comp_def] using found

end Leader

variable {greedy : Greedy} {view : View Rat} {file : File} {peer other : Peer} {pick : Pick}

theorem eligible_of_room (eligible : Eligible greedy view file peer) (known : other ∈ view.peers)
    (room : greedy.admitsPeer view other = true)
    (promising : view.availability file other ≠ .unavailable) :
    Eligible greedy view file other :=
  ⟨eligible.active, eligible.waits, eligible.fileRoom, known, of_decide_eq_true room, promising⟩

private theorem score_lt_of_expired (greedy : Greedy)
    (delivers : view.availability file peer = .available)
    (retry : view.availability file other = .expired) :
    score greedy view (file, peer) < score greedy view (file, other) := by
  have half : (availabilityScore .available : Rat) < availabilityScore .expired := by
    decide +kernel
  rw [score_eq, score_eq, delivers, retry]
  exact add_lt_add_right half _

/-- Among the peers that may be asked, those that score as much as the picked one are as available
as it is. -/
private theorem firstWith?_of_choose (chosen : greedy.choose view = some pick) :
    greedy.firstWith? view pick.file (view.availability pick.file pick.peer) = some pick.peer := by
  have leads := leads_of_choose chosen
  have eligible := (choose_eq_some chosen).2.1
  obtain ⟨_, front, back, whole, earlier⟩ :=
    List.find?_eq_some_iff_append.mp (find?_of_leads leads)
  rw [firstWith?, List.find?_eq_some_iff_append]
  refine ⟨?_, front, back, whole, ?_⟩
  · simp [admitsPeer, eligible.peerRoom]
  · intro other listed
    rw [Bool.not_eq_true', Bool.eq_false_iff]
    intro alike
    rw [Bool.and_eq_true, decide_eq_true_iff] at alike
    obtain ⟨room, same⟩ := alike
    have known : other ∈ view.peers := whole ▸ List.mem_append_left _ listed
    have promising : view.availability pick.file other ≠ .unavailable := same ▸ eligible.promising
    have tied : exceeds (score greedy view (pick.file, pick.peer))
        (score greedy view (pick.file, other)) = false := by
      rw [exceeds_eq_false_iff, score_eq, score_eq, same]
    have lost := earlier other listed
    simp [tied, eligible_of_room eligible known room promising] at lost

/-- Whatever other files there are and whatever the score of the picked file is: it is asked of the
first peer with room that is worth a retry, or else of the first one that delivered. -/
theorem prefers_retry (greedy : Greedy) (view : View Rat) (pick : Pick)
    (chosen : greedy.choose view = some pick) : PrefersRetry greedy view pick := by
  have first := firstWith?_of_choose chosen
  have eligible := (choose_eq_some chosen).2.1
  obtain ⟨_, _, _, _, others⟩ := leads_of_choose chosen
  refine ⟨?_, ?_, eligible.promising⟩
  · rintro ⟨other, known, room, retry⟩
    cases availability : view.availability pick.file pick.peer with
    | expired => rwa [availability] at first
    | unavailable => exact absurd availability eligible.promising
    | available =>
      have promising : view.availability pick.file other ≠ .unavailable := by simp [retry]
      have best := others (pick.file, other)
        (mem_eligiblePairs.mpr (eligible_of_room eligible known room promising))
      have above := score_lt_of_expired greedy availability retry
      exact absurd above (not_lt.mpr (exceeds_eq_false_iff.mp best))
  · intro none
    cases availability : view.availability pick.file pick.peer with
    | available => rwa [availability] at first
    | unavailable => exact absurd availability eligible.promising
    | expired =>
      exact absurd ⟨pick.peer, eligible.known, decide_eq_true eligible.peerRoom, availability⟩ none

/-- The first peer is worth a retry but has no room left, and the second one delivered: the third
one is asked. The other file has the same peers to offer. -/
theorem prefers_retry_third_peer :
    let greedy : Greedy :=
      { maxParallelChunks := 4, maxParallelPerFile := 2, maxParallelPerPeer := 1, chunkSize := 2
        smallFileThreshold := 0, smallFileSlots := 0 }
    let file (id : Nat) : File := { id, hash := "", size := 9 }
    let view : View Rat :=
      { files := [file 1, file 2], peers := [.ofNat 1, .ofNat 2, .ofNat 3, .ofNat 4]
        tickets := [.first (file 1) ⟨0, 0, 2⟩ (.ofNat 1) 0 5]
        availability := fun _ peer => if peer = .ofNat 2 then .available else .expired
        progress := fun named => if named = file 1 then 1 / 9 else 2 / 9
        firstWaiting := fun _ limit => [3, 4].take limit, hasWaiting := fun _ => true }
    let pick : Pick := { file := file 2, extent := (file 2).extent 3 2, peer := .ofNat 3 }
    greedy.choose view = some pick ∧ PrefersRetry greedy view pick := by
  intro greedy file view pick
  have chosen : greedy.choose view = some pick := by decide +kernel
  exact ⟨chosen, prefers_retry greedy view pick chosen⟩

end ChunkExchange.Fetch.Greedy
