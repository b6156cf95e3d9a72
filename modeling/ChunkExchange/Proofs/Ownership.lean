import ChunkExchange.Fetch.Step
import ChunkExchange.Proofs.DownloadList

/-! Every chunk that is asked for has one ticket, and every ticket is for such a chunk. Operations
that take tickets off the list before they settle their chunks keep the tickets in between in a
second list. -/

namespace ChunkExchange

theorem Ticket.isFor_iff {ticket : Ticket} {file : File} {index : Nat} :
    ticket.isFor file index = true ↔ ticket.extent.index = index ∧ ticket.file = file := by
  simp [Ticket.isFor]

theorem Ticket.matchesKey_iff {ticket : Ticket} {file : File} {index : Nat} {peer : Peer} :
    ticket.matchesKey file index peer = true ↔
      ticket.isFor file index = true ∧ ticket.peer = peer := by
  simp [Ticket.matchesKey]

namespace Fetcher

/-- A chunk of an active file has one ticket while it is asked for and none otherwise, and every
ticket is for an active file. -/
structure Owned (downloads : List Download) (tickets : List Ticket) : Prop where
  owner : ∀ download ∈ downloads, ∀ index,
    tickets.countP (fun ticket => ticket.isFor download.file index) =
      if download.coverage.isIn index .pending then 1 else 0
  active : ∀ ticket ∈ tickets, ∃ download ∈ downloads, download.file = ticket.file

variable {downloads : List Download} {tickets changed rest outstanding : List Ticket}
variable {fetcher before middle after : Fetcher} {download next : Download} {file : File}
variable {ticket : Ticket} {coverage : Coverage} {index : Nat}

theorem Owned.perm (owned : Owned downloads tickets) (perm : tickets.Perm changed) :
    Owned downloads changed where
  owner download member index := by
    rw [← perm.countP_eq]
    exact owned.owner download member index
  active ticket member := owned.active ticket (perm.mem_iff.mpr member)

theorem Owned.pending (owned : Owned downloads tickets) (member : ticket ∈ tickets)
    (found : download ∈ downloads) (same : download.file = ticket.file) :
    download.coverage.isIn ticket.extent.index .pending = true := by
  have counted := owned.owner download found ticket.extent.index
  have positive : 0 < tickets.countP
      (fun other => other.isFor download.file ticket.extent.index) :=
    List.countP_pos_iff.mpr ⟨ticket, member, Ticket.isFor_iff.mpr ⟨rfl, same.symm⟩⟩
  by_cases asked : download.coverage.isIn ticket.extent.index .pending = true
  · exact asked
  · rw [if_neg asked] at counted
    omega

/-- One download and the tickets for its chunks change together. -/
theorem Owned.replace (owned : Owned fetcher.downloads tickets)
    (own : ∀ index, changed.countP (fun ticket => ticket.isFor next.file index) =
      if next.coverage.isIn index .pending then 1 else 0)
    (others : ∀ file, file ≠ next.file → ∀ index,
      changed.countP (fun ticket => ticket.isFor file index) =
        tickets.countP (fun ticket => ticket.isFor file index))
    (active : ∀ ticket ∈ changed, ∃ download ∈ fetcher.downloads, download.file = ticket.file) :
    Owned (fetcher.replace next).downloads changed where
  owner download member index := by
    rcases mem_replace.mp member with ⟨original, different⟩ | ⟨same, _⟩
    · rw [others download.file different index]
      exact owned.owner download original index
    · exact same ▸ own index
  active ticket member := by
    obtain ⟨download, original, same⟩ := active ticket member
    by_cases replaced : download.file = next.file
    · exact ⟨next, mem_replace.mpr (.inr ⟨rfl, download, original, replaced⟩),
        replaced.symm.trans same⟩
    · exact ⟨download, mem_replace.mpr (.inl ⟨original, replaced⟩), same⟩

theorem Owned.released (owned : Owned fetcher.downloads (ticket :: rest))
    (member : download ∈ fetcher.downloads) (same : download.file = ticket.file)
    (moved : download.coverage.move ticket.extent.index .waiting = .ok coverage)
    (file : next.file = download.file) (states : next.coverage = coverage) :
    Owned (fetcher.replace next).downloads rest := by
  have counts := owned.owner download member
  simp only [List.countP_cons] at counts
  apply owned.replace
  · intro index
    rw [file, states]
    have count := counts index
    by_cases here : ticket.extent.index = index
    · subst here
      rw [if_pos (owned.pending List.mem_cons_self member same),
        if_pos (Ticket.isFor_iff.mpr ⟨rfl, same.symm⟩)] at count
      rw [Coverage.isIn_move_self moved]
      simpa using count
    · rw [if_neg (fun equal => here (Ticket.isFor_iff.mp equal).1)] at count
      rw [Coverage.isIn_move_ne moved here]
      exact count
  · intro other different index
    have apart : ¬ ticket.isFor other index = true := by
      intro equal
      exact different ((Ticket.isFor_iff.mp equal).2.symm.trans (same.symm.trans file.symm))
    rw [List.countP_cons, if_neg apart, Nat.add_zero]
  · intro other present
    exact owned.active other (List.mem_cons_of_mem ticket present)

theorem Owned.issued (owned : Owned fetcher.downloads tickets)
    (member : download ∈ fetcher.downloads) (same : download.file = ticket.file)
    (waits : download.coverage.isIn ticket.extent.index .waiting = true)
    (moved : download.coverage.move ticket.extent.index .pending = .ok coverage)
    (file : next.file = download.file) (states : next.coverage = coverage) :
    Owned (fetcher.replace next).downloads (tickets ++ [ticket]) := by
  have counts := owned.owner download member
  apply owned.replace
  · intro index
    rw [file, states, List.countP_append, List.countP_singleton, counts index]
    by_cases here : ticket.extent.index = index
    · subst here
      have idle : ¬ download.coverage.isIn ticket.extent.index .pending = true := by
        intro asked
        cases Coverage.eq_of_isIn waits asked
      rw [if_neg idle, if_pos (Ticket.isFor_iff.mpr ⟨rfl, same.symm⟩),
        Coverage.isIn_move_self moved]
      rfl
    · rw [if_neg (fun equal => here (Ticket.isFor_iff.mp equal).1),
        Coverage.isIn_move_ne moved here, Nat.add_zero]
  · intro other different index
    have apart : ¬ ticket.isFor other index = true := by
      intro equal
      exact different ((Ticket.isFor_iff.mp equal).2.symm.trans (same.symm.trans file.symm))
    rw [List.countP_append, List.countP_singleton, if_neg apart, Nat.add_zero]
  · intro other present
    rcases List.mem_append.mp present with old | new
    · exact owned.active other old
    · exact ⟨download, member, by rw [List.mem_singleton.mp new, same]⟩

theorem Owned.arrived (owned : Owned fetcher.downloads tickets)
    (member : download ∈ fetcher.downloads)
    (moved : download.coverage.move index .received = .ok coverage)
    (file : next.file = download.file) (states : next.coverage = coverage) :
    Owned (fetcher.replace next).downloads
      (tickets.filter (fun ticket => !(ticket.isFor download.file index))) := by
  apply owned.replace
  · intro other
    rw [file, states, List.countP_filter]
    by_cases here : index = other
    · subst here
      rw [Coverage.isIn_move_self moved]
      simp
    · rw [Coverage.isIn_move_ne moved here, ← owned.owner download member other]
      apply List.countP_congr
      intro ticket _
      simp only [Bool.and_eq_true, Bool.not_eq_true', Ticket.isFor_iff, and_iff_left_iff_imp,
        Bool.eq_false_iff, ne_eq]
      exact fun wanted found => here (found.1.symm.trans wanted.1)
  · intro other different place
    rw [List.countP_filter]
    apply List.countP_congr
    intro ticket _
    simp only [Bool.and_eq_true, Bool.not_eq_true', Ticket.isFor_iff, and_iff_left_iff_imp,
      Bool.eq_false_iff, ne_eq]
    exact fun wanted found => different (wanted.2.symm.trans (found.2.trans file.symm))
  · intro ticket present
    exact owned.active ticket (List.mem_filter.mp present).1

theorem Owned.filter (owned : Owned downloads tickets) (keeps : File → Bool) :
    Owned (downloads.filter (fun download => keeps download.file))
      (tickets.filter (fun ticket => keeps ticket.file)) where
  owner download member index := by
    obtain ⟨original, kept⟩ := List.mem_filter.mp member
    rw [List.countP_filter, ← owned.owner download original index]
    apply List.countP_congr
    intro ticket _
    simp only [Bool.and_eq_true, Ticket.isFor_iff, and_iff_left_iff_imp]
    exact fun wanted => wanted.2 ▸ kept
  active ticket member := by
    obtain ⟨original, kept⟩ := List.mem_filter.mp member
    obtain ⟨download, present, same⟩ := owned.active ticket original
    exact ⟨download, List.mem_filter.mpr ⟨present, same ▸ kept⟩, same⟩

end Fetcher

end ChunkExchange
