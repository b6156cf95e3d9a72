import ChunkExchange.Proofs.Ownership

/-! The invariant of the fetching side, kept by each of its operations. -/

namespace ChunkExchange.Fetcher

/-- Active files differ in their identifiers, are sound and own their tickets, and no peer is known
twice. The tickets in `outstanding` were taken off the list, but their chunks are not settled. -/
structure Consistent (outstanding : List Ticket) (fetcher : Fetcher) : Prop where
  distinct : Distinct fetcher.downloads
  sound : ∀ download ∈ fetcher.downloads, download.Sound fetcher.options
  owned : Owned fetcher.downloads (outstanding ++ fetcher.tickets)
  peers : fetcher.peers.Nodup

variable {tickets done rest outstanding : List Ticket} {ticket : Ticket}
variable {fetcher before middle after : Fetcher} {download next : Download} {file : File}
variable {coverage : Coverage} {extent : Extent} {index now : Nat} {peer : Peer} {data : Bytes}

theorem consistent_empty (options : Options) : Consistent [] (empty options) where
  distinct := List.nodup_nil
  sound := by simp [empty]
  owned := ⟨by simp [empty], by simp [empty]⟩
  peers := List.nodup_nil

theorem Consistent.ticket_ne (consistent : Consistent [] fetcher)
    (inactive : fetcher.isActive file = false) :
    ∀ ticket ∈ fetcher.tickets, ticket.file ≠ file := by
  intro ticket listed same
  obtain ⟨download, member, named⟩ := consistent.owned.active ticket listed
  exact isActive_eq_false_iff.mp inactive download member (named.trans same)

theorem Consistent.countP_isFor_le (consistent : Consistent [] fetcher) (file : File)
    (index : Nat) : fetcher.tickets.countP (fun ticket => ticket.isFor file index) ≤ 1 := by
  cases active : fetcher.isActive file with
  | true =>
    obtain ⟨download, member, rfl⟩ := isActive_iff.mp active
    have counted := consistent.owned.owner download member index
    rw [List.nil_append] at counted
    rw [counted]
    split <;> omega
  | false =>
    rw [List.countP_eq_zero.mpr]
    · exact Nat.zero_le 1
    · intro ticket listed wanted
      exact consistent.ticket_ne active ticket listed (Ticket.isFor_iff.mp wanted).2

theorem Consistent.eq_of_isFor (consistent : Consistent [] fetcher) {other : Ticket}
    (listed : ticket ∈ fetcher.tickets) (present : other ∈ fetcher.tickets)
    (same : other.isFor ticket.file ticket.extent.index = true) : other = ticket := by
  have single := consistent.countP_isFor_le ticket.file ticket.extent.index
  rw [List.countP_eq_length_filter] at single
  have own := eq_singleton_of_mem single
    (List.mem_filter.mpr ⟨listed, Ticket.isFor_iff.mpr ⟨rfl, rfl⟩⟩)
  exact List.mem_singleton.mp (own ▸ List.mem_filter.mpr ⟨present, same⟩)

theorem Consistent.replace (consistent : Consistent outstanding fetcher)
    (sound : next.Sound fetcher.options)
    (owned : Owned (fetcher.replace next).downloads (rest ++ tickets)) :
    Consistent rest { fetcher.replace next with tickets } where
  distinct := distinct_replace consistent.distinct
  sound other present := by
    rcases mem_replace.mp present with ⟨original, _⟩ | ⟨same, _⟩
    · exact consistent.sound other original
    · exact same ▸ sound
  owned := owned
  peers := consistent.peers

theorem Consistent.judge (consistent : Consistent outstanding fetcher)
    (member : download ∈ fetcher.downloads) (kin : Download.Kin download next)
    (states : next.coverage = download.coverage) :
    Consistent outstanding (fetcher.replace next) := by
  apply consistent.replace (kin.sound (consistent.sound download member))
  apply consistent.owned.replace
  · intro index
    rw [kin.file, states]
    exact consistent.owned.owner download member index
  · intro _ _ _
    rfl
  · exact consistent.owned.active

section Settling

variable (consistent : Consistent (ticket :: rest) fetcher)

include consistent

theorem Consistent.holder : ∃ download, fetcher.download? ticket.file = some download ∧
    download ∈ fetcher.downloads ∧ download.file = ticket.file ∧
      download.coverage.isIn ticket.extent.index .pending = true := by
  obtain ⟨download, member, same⟩ := consistent.owned.active ticket List.mem_cons_self
  have found := download?_of_mem consistent.distinct member
  rw [same] at found
  exact ⟨download, found, member, same,
    consistent.owned.pending List.mem_cons_self member same⟩

theorem Consistent.released (member : download ∈ fetcher.downloads)
    (same : download.file = ticket.file)
    (moved : download.coverage.move ticket.extent.index .waiting = .ok coverage)
    (kin : Download.Kin download next) (states : next.coverage = coverage) :
    Consistent rest (fetcher.replace next) :=
  consistent.replace (kin.sound (consistent.sound download member))
    (consistent.owned.released member same moved kin.file states)

theorem consistent_giveBack :
    Consistent rest (fetcher.giveBack ticket) ∧ Continues fetcher (fetcher.giveBack ticket) := by
  obtain ⟨download, found, member, same, pending⟩ := consistent.holder
  obtain ⟨coverage, moved, released⟩ := Download.release_of_pending pending
  have kin := Download.kin_move released (by decide)
  have result : fetcher.giveBack ticket = fetcher.replace { download with coverage } := by
    simp only [giveBack, found, released]
  rw [result]
  exact ⟨consistent.released member same moved kin rfl, continues_replace member kin⟩

theorem consistent_timeOut (refusal : Option Rejection) (now : Nat) :
    ∃ settled, timeOut now { fetcher, refusal } ticket = { fetcher := settled, refusal } ∧
      Consistent rest settled ∧ Continues fetcher settled := by
  obtain ⟨download, found, member, same, pending⟩ := consistent.holder
  obtain ⟨coverage, moved, failed⟩ := Download.missing_of_pending pending ticket.peer now
  have kin := Download.kin_missing download ticket.extent.index ticket.peer now true
  rw [failed] at kin
  refine ⟨_, ?_, consistent.released member same moved kin rfl, continues_replace member kin⟩
  simp only [timeOut, found, failed]
  cases refusal <;> rfl

end Settling

/-- After the first of the outstanding tickets are settled, the others are still outstanding. -/
theorem consistent_foldl_giveBack (done rest : List Ticket) (fetcher : Fetcher)
    (consistent : Consistent (done ++ rest) fetcher) :
    Consistent rest (done.foldl giveBack fetcher) ∧
      Continues fetcher (done.foldl giveBack fetcher) := by
  induction done generalizing fetcher with
  | nil => exact ⟨consistent, .refl fetcher⟩
  | cons ticket others ih =>
    obtain ⟨settled, first⟩ := consistent_giveBack consistent
    obtain ⟨final, second⟩ := ih (fetcher.giveBack ticket) settled
    exact ⟨final, first.trans second⟩

theorem consistent_foldl_timeOut (done rest : List Ticket) (fetcher : Fetcher)
    (refusal : Option Rejection) (now : Nat) (consistent : Consistent (done ++ rest) fetcher) :
    ∃ settled, done.foldl (timeOut now) { fetcher, refusal } =
        { fetcher := settled, refusal } ∧
      Consistent rest settled ∧ Continues fetcher settled := by
  induction done generalizing fetcher with
  | nil => exact ⟨fetcher, rfl, consistent, .refl fetcher⟩
  | cons ticket others ih =>
    obtain ⟨middle, step, settled, first⟩ := consistent_timeOut consistent refusal now
    obtain ⟨final, steps, kept, second⟩ := ih middle settled
    exact ⟨final, by rw [List.foldl_cons, step, steps], kept, first.trans second⟩

/-- Tickets may be taken off the list as long as they are settled later. -/
theorem Consistent.takeOff (consistent : Consistent [] fetcher) (taken : Ticket → Bool) :
    Consistent (fetcher.tickets.filter taken)
      { fetcher with tickets := fetcher.tickets.filter (fun ticket => !taken ticket) } where
  distinct := consistent.distinct
  sound := consistent.sound
  owned := consistent.owned.perm (List.filter_append_perm taken fetcher.tickets).symm
  peers := consistent.peers

theorem consistent_join (consistent : Consistent [] fetcher) (peer : Peer) :
    Consistent [] (fetcher.join peer) ∧ Continues fetcher (fetcher.join peer) := by
  unfold join
  split
  · exact ⟨consistent, .refl fetcher⟩
  · rename_i unknown
    refine ⟨⟨consistent.distinct, consistent.sound, consistent.owned, ?_⟩,
      continues_of_subset rfl (fun _ member => member)⟩
    apply List.nodup_append.mpr
    refine ⟨consistent.peers, by simp, ?_⟩
    intro other known single present equal
    rw [List.mem_singleton] at present
    exact unknown (present ▸ equal ▸ known)

theorem Consistent.forget (consistent : Consistent outstanding fetcher) (peer : Peer) :
    Consistent outstanding
        { fetcher with
          downloads := fetcher.downloads.map (fun download => download.forget peer)
          peers := fetcher.peers.filter (fun other => !(other == peer)) } ∧
      Continues fetcher
        { fetcher with
          downloads := fetcher.downloads.map (fun download => download.forget peer)
          peers := fetcher.peers.filter (fun other => !(other == peer)) } := by
  have original (next : Download)
      (member : next ∈ fetcher.downloads.map (fun download => download.forget peer)) :
      ∃ download ∈ fetcher.downloads, next = download.forget peer := by
    obtain ⟨download, present, same⟩ := List.mem_map.mp member
    exact ⟨download, present, same.symm⟩
  refine ⟨⟨?_, ?_, ⟨?_, ?_⟩, consistent.peers.filter _⟩, rfl, ?_⟩
  · have ids := consistent.distinct
    simp only [Distinct, List.map_map] at ids ⊢
    exact ids
  · intro next member
    obtain ⟨download, present, same⟩ := original next member
    exact same ▸ (Download.kin_forget download peer).sound (consistent.sound download present)
  · intro next member index
    obtain ⟨download, present, same⟩ := original next member
    exact same ▸ consistent.owned.owner download present index
  · intro ticket member
    obtain ⟨download, present, same⟩ := consistent.owned.active ticket member
    exact ⟨download.forget peer, List.mem_map.mpr ⟨download, present, rfl⟩, same⟩
  · intro next member
    obtain ⟨download, present, same⟩ := original next member
    exact ⟨download, present, same ▸ Download.kin_forget download peer⟩

/-- A leave that has given back the beginning of what was asked of the peer. -/
def midLeave (fetcher : Fetcher) (peer : Peer) (done : List Ticket) : Fetcher :=
  done.foldl giveBack
    { fetcher with
      downloads := fetcher.downloads.map (·.forget peer)
      peers := fetcher.peers.filter (fun other => !(other == peer))
      tickets := fetcher.tickets.filter (fun ticket => !(ticket.peer == peer)) }

/-- While a peer leaves, the tickets that are not given back yet are outstanding. -/
theorem consistent_midLeave (consistent : Consistent [] fetcher)
    (abandoned : fetcher.tickets.filter (fun ticket => ticket.peer == peer) = done ++ rest) :
    Consistent rest (fetcher.midLeave peer done) ∧
      Continues fetcher (fetcher.midLeave peer done) := by
  have taken := consistent.takeOff (fun ticket => ticket.peer == peer)
  rw [abandoned] at taken
  obtain ⟨forgotten, first⟩ := taken.forget peer
  obtain ⟨settled, second⟩ := consistent_foldl_giveBack done rest _ forgotten
  exact ⟨settled, ⟨second.options, (Continues.trans first second).downloads⟩⟩

theorem consistent_leave (consistent : Consistent [] fetcher) (peer : Peer) :
    Consistent [] (fetcher.leave peer) ∧ Continues fetcher (fetcher.leave peer) :=
  consistent_midLeave consistent (List.append_nil _).symm

/-- A tick that has ended the beginning of what had expired. -/
def midExpire (fetcher : Fetcher) (now : Nat) (done : List Ticket) : Blame :=
  done.foldl (timeOut now)
    { fetcher := { fetcher with tickets := fetcher.tickets.filter (!·.isExpired now) }
      refusal := none }

theorem consistent_midExpire (consistent : Consistent [] fetcher)
    (expired : fetcher.tickets.filter (·.isExpired now) = done ++ rest) :
    (fetcher.midExpire now done).refusal = none ∧
      Consistent rest (fetcher.midExpire now done).fetcher ∧
      Continues fetcher (fetcher.midExpire now done).fetcher := by
  have taken := consistent.takeOff (fun ticket => ticket.isExpired now)
  rw [expired] at taken
  obtain ⟨settled, same, kept, continued⟩ := consistent_foldl_timeOut done rest _ none now taken
  rw [midExpire, same]
  exact ⟨rfl, kept, ⟨continued.options, continued.downloads⟩⟩

/-- Nothing can be refused when requests time out. -/
theorem consistent_expire (consistent : Consistent [] fetcher) (now : Nat) :
    (fetcher.expire now).refusal = none ∧ Consistent [] (fetcher.expire now).fetcher ∧
      Continues fetcher (fetcher.expire now).fetcher :=
  consistent_midExpire consistent (List.append_nil _).symm

theorem Consistent.restrict (consistent : Consistent [] fetcher) (keeps : File → Bool)
    (options : after.options = fetcher.options) (peers : after.peers = fetcher.peers)
    (downloads : after.downloads =
      fetcher.downloads.filter (fun download => keeps download.file))
    (tickets : after.tickets = fetcher.tickets.filter (fun ticket => keeps ticket.file)) :
    Consistent [] after where
  distinct := by
    unfold Distinct
    rw [downloads]
    exact (List.Sublist.map _ List.filter_sublist).nodup consistent.distinct
  sound download member := by
    rw [downloads] at member
    rw [options]
    exact consistent.sound download (List.mem_filter.mp member).1
  owned := by
    rw [downloads, tickets]
    exact consistent.owned.filter keeps
  peers := peers ▸ consistent.peers

theorem consistent_drop (consistent : Consistent [] fetcher) (file : File) :
    Consistent [] (fetcher.drop file) :=
  consistent.restrict (fun other => !(other == file)) rfl rfl rfl rfl

theorem consistent_supersede (consistent : Consistent [] fetcher) (file : File) :
    Consistent [] (fetcher.supersede file) := by
  obtain ⟨options, peers, downloads, tickets⟩ := foldl_drop
    ((fetcher.downloads.map Download.file).filter (fun other => other.id == file.id)) fetcher
  exact consistent.restrict (fun other => !(List.contains _ other)) options peers downloads tickets

theorem Consistent.insert (consistent : Consistent [] fetcher)
    (sound : download.Sound fetcher.options)
    (idle : ∀ index, download.coverage.isIn index .pending = false)
    (free : ∀ other ∈ fetcher.downloads, other.file.id ≠ download.file.id) :
    Consistent []
      { fetcher with downloads := insertInOrder download fetcher.downloads } where
  distinct := by
    have perm := (insertInOrder_perm download fetcher.downloads).map
      (fun download => download.file.id)
    apply perm.nodup_iff.mpr
    apply List.nodup_cons.mpr
    refine ⟨?_, consistent.distinct⟩
    intro member
    obtain ⟨other, present, same⟩ := List.mem_map.mp member
    exact free other present same
  sound other member := by
    rcases mem_insertInOrder.mp member with same | original
    · exact same ▸ sound
    · exact consistent.sound other original
  owned := by
    constructor
    · intro other member index
      rcases mem_insertInOrder.mp member with same | original
      · subst same
        rw [idle index, if_neg Bool.false_ne_true]
        apply List.countP_eq_zero.mpr
        intro ticket present wanted
        obtain ⟨holder, active, alike⟩ := consistent.owned.active ticket present
        exact free holder active (by rw [alike, (Ticket.isFor_iff.mp wanted).2])
      · exact consistent.owned.owner other original index
    · intro ticket member
      obtain ⟨holder, active, same⟩ := consistent.owned.active ticket member
      exact ⟨holder, mem_insertInOrder.mpr (.inr active), same⟩
  peers := consistent.peers

end ChunkExchange.Fetcher
