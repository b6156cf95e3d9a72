import ChunkExchange.Proofs.History

namespace ChunkExchange.Fetch

/-- The requests without an answer are exactly the chunks that are asked for. -/
structure SingleOwner (options : Options) (fetcher : Fetcher) : Prop where
  pending_iff : ∀ download ∈ fetcher.downloads, ∀ index,
    download.coverage.states[index]? = some .pending ↔
      ∃ ticket ∈ fetcher.tickets, ticket.file = download.file ∧ ticket.extent.index = index
  single : ∀ download ∈ fetcher.downloads, ∀ index,
    download.coverage.states[index]? = some .pending →
      fetcher.tickets.countP (fun ticket =>
        decide (ticket.file = download.file ∧ ticket.extent.index = index)) = 1
  active : ∀ ticket ∈ fetcher.tickets, ∃ download ∈ fetcher.downloads,
    download.file = ticket.file ∧ ticket.extent.index < download.coverage.count
  distinct : (fetcher.downloads.map (fun download => download.file.id)).Nodup
  incomplete : ∀ download ∈ fetcher.downloads, download.isComplete = false ∧
    download.coverage.count = download.file.chunkCount options.chunkSize
  peers : fetcher.peers.Nodup

theorem singleOwner_of_consistent {fetcher : Fetcher} {options : Options}
    (configured : fetcher.options = options) (consistent : Fetcher.Consistent [] fetcher) :
    SingleOwner options fetcher := by
  have counted (download : Download) (member : download ∈ fetcher.downloads) (index : Nat) :=
    consistent.owned.owner download member index
  constructor
  · intro download member index
    rw [← Coverage.isIn_iff]
    constructor
    · intro pending
      have count := counted download member index
      rw [if_pos pending] at count
      have positive : 0 < fetcher.tickets.countP
          (fun ticket => ticket.isFor download.file index) := by
        rw [List.nil_append] at count
        omega
      obtain ⟨ticket, listed, wanted⟩ := List.countP_pos_iff.mp positive
      obtain ⟨place, same⟩ := Ticket.isFor_iff.mp wanted
      exact ⟨ticket, listed, same, place⟩
    · rintro ⟨ticket, listed, same, place⟩
      exact place ▸ consistent.owned.pending listed member same.symm
  · intro download member index pending
    have count := counted download member index
    rw [if_pos (Coverage.isIn_iff.mpr pending), List.nil_append] at count
    rw [← count]
    apply List.countP_congr
    intro ticket _
    rw [Ticket.isFor_iff, decide_eq_true_iff, and_comm]
  · intro ticket listed
    obtain ⟨download, member, same⟩ := consistent.owned.active ticket listed
    have pending := consistent.owned.pending listed member same
    exact ⟨download, member, same, Coverage.lt_count_of_isIn pending⟩
  · exact consistent.distinct
  · intro download member
    have sound := consistent.sound download member
    exact ⟨sound.incomplete, configured ▸ sound.count⟩
  · exact consistent.peers

/-- After any operations at any times, whatever the scheduler picks, each pending chunk is owned by
one ticket. -/
theorem single_owner {Memory : Type} (scheduler : Scheduler Memory) (options : Options)
    (memory : Memory) (commands : List (Operation × Nat)) :
    SingleOwner options (History.run scheduler options memory commands).fetcher :=
  have lawful := History.lawful_run scheduler options memory commands
  singleOwner_of_consistent lawful.configured lawful.consistent

end ChunkExchange.Fetch
