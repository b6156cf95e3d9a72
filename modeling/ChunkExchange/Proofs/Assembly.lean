import ChunkExchange.Proofs.Completion
import ChunkExchange.Proofs.Overlays

namespace ChunkExchange.Fetch

def layWrites (writes : List Write) (old : Bytes) : Bytes :=
  writes.foldl (fun bytes write => PartStore.overlay bytes write.offset write.data) old

/-- The write of a whole chunk of a content, at its own place. -/
structure Write.Genuine (write : Write) (file : File) (content : Bytes) (chunkSize : Nat) :
    Prop where
  bound : write.index < file.chunkCount chunkSize
  offset : write.offset = (file.extent write.index chunkSize).offset
  data : write.data =
    (content.drop write.offset).take (file.extent write.index chunkSize).size

instance (write : Write) (file : File) (content : Bytes) (chunkSize : Nat) :
    Decidable (write.Genuine file content chunkSize) :=
  decidable_of_iff (_ ∧ _ ∧ _)
    ⟨fun ⟨bound, offset, data⟩ => ⟨bound, offset, data⟩,
      fun genuine => ⟨genuine.bound, genuine.offset, genuine.data⟩⟩

variable {file : File} {content old : Bytes} {chunkSize position : Nat} {write : Write}
variable {writes : List Write}

namespace Write.Genuine

theorem length (genuine : write.Genuine file content chunkSize)
    (measured : content.length = file.size) :
    write.data.length = (file.extent write.index chunkSize).size := by
  have stop := File.stop_le_size genuine.bound
  rw [← genuine.offset] at stop
  rw [genuine.data, List.length_take, List.length_drop, measured]
  omega

theorem stop_le (genuine : write.Genuine file content chunkSize)
    (measured : content.length = file.size) :
    write.offset + write.data.length ≤ file.size := by
  rw [genuine.length measured, genuine.offset]
  exact File.stop_le_size genuine.bound

private theorem getElem?_overlay (genuine : write.Genuine file content chunkSize)
    (above : write.offset ≤ position) (below : position < write.offset + write.data.length) :
    (PartStore.overlay old write.offset write.data)[position]? = content[position]? := by
  rw [PartStore.getElem?_overlay_inside above below]
  have short : position - write.offset < (file.extent write.index chunkSize).size := by
    have cut := List.length_take_le (file.extent write.index chunkSize).size
      (content.drop write.offset)
    rw [← genuine.data] at cut
    omega
  rw [genuine.data, List.getElem?_take_of_lt short, List.getElem?_drop]
  congr 1
  omega

end Write.Genuine

private theorem getElem?_layWrites_behind (measured : content.length = file.size)
    (genuine : ∀ write ∈ writes, write.Genuine file content chunkSize)
    (behind : file.size ≤ position) : (layWrites writes old)[position]? = old[position]? := by
  induction writes generalizing old with
  | nil => rfl
  | cons write rest ih =>
    have first := genuine write List.mem_cons_self
    have stop := first.stop_le measured
    calc (layWrites rest (PartStore.overlay old write.offset write.data))[position]?
      _ = (PartStore.overlay old write.offset write.data)[position]? :=
        ih (fun other listed => genuine other (List.mem_cons_of_mem _ listed))
      _ = old[position]? := PartStore.getElem?_overlay_behind (by omega)

/-- Genuine writes leave the content wherever one of them reaches, and wherever it was before. -/
private theorem getElem?_layWrites (measured : content.length = file.size)
    (genuine : ∀ write ∈ writes, write.Genuine file content chunkSize)
    (inside : position < file.size)
    (reached : old[position]? = content[position]? ∨ ∃ write ∈ writes,
      write.offset ≤ position ∧ position < write.offset + write.data.length) :
    (layWrites writes old)[position]? = content[position]? := by
  induction writes generalizing old with
  | nil =>
    rcases reached with right | ⟨write, listed, _⟩
    · exact right
    · cases listed
  | cons write rest ih =>
    have first := genuine write List.mem_cons_self
    apply ih (fun other listed => genuine other (List.mem_cons_of_mem _ listed))
    by_cases covers : write.offset ≤ position ∧ position < write.offset + write.data.length
    · exact .inl (first.getElem?_overlay covers.1 covers.2)
    · rcases reached with right | ⟨other, listed, reaches⟩
      · left
        rw [← right]
        by_cases behind : write.offset + write.data.length ≤ position
        · exact PartStore.getElem?_overlay_behind behind
        · apply PartStore.getElem?_overlay_before
          · omega
          · have present : position < content.length := measured ▸ inside
            exact (List.getElem?_eq_some_iff.mp
              (right.trans (List.getElem?_eq_getElem present))).1
      · rcases List.mem_cons.mp listed with same | later
        · subst same
          exact absurd reaches covers
        · exact .inr ⟨other, later, reaches⟩

/-- Genuine writes of all chunks leave the content, and behind it what was there before. -/
private theorem layWrites_of_whole (measured : content.length = file.size)
    (positive : 0 < chunkSize) (fits : file.Fits chunkSize)
    (genuine : ∀ write ∈ writes, write.Genuine file content chunkSize)
    (whole : (writes.map Write.index).Perm (List.range (file.chunkCount chunkSize)))
    (old : Bytes) : layWrites writes old = content ++ old.drop file.size := by
  apply List.ext_getElem?
  intro position
  by_cases inside : position < file.size
  · rw [List.getElem?_append_left (measured ▸ inside)]
    apply getElem?_layWrites measured genuine inside
    have written : position / chunkSize ∈ writes.map Write.index := by
      rw [whole.mem_iff, List.mem_range]
      exact File.div_lt_chunkCount positive fits inside
    obtain ⟨write, listed, index⟩ := List.mem_map.mp written
    have own := genuine write listed
    have reaches := File.mem_extent_div positive inside
    rw [← index, ← own.offset, ← own.length measured] at reaches
    exact .inr ⟨write, listed, reaches⟩
  · have behind : file.size ≤ position := Nat.le_of_not_lt inside
    rw [getElem?_layWrites_behind measured genuine behind,
      List.getElem?_append_right (by omega), List.getElem?_drop, measured]
    congr 1
    omega

theorem layWrites_of_finishes {options : Options} {event : Event} {earlier : List Event}
    {path : String} (measured : content.length = file.size) (fits : file.Fits options.chunkSize)
    (finishes : event.Finishes options earlier file path)
    (genuine : ∀ write ∈ writesSince file (earlier ++ [event]),
      write.Genuine file content options.chunkSize) (old : Bytes) :
    layWrites (writesSince file (earlier ++ [event])) old = content ++ old.drop file.size := by
  cases finishes with
  | empty picks positive none operation effects unwritten =>
    have zero := (File.chunkCount_eq_zero_iff positive).mp none
    have nothing : content = [] := List.length_eq_zero_iff.mp (measured.trans zero)
    rw [unwritten, zero, nothing]
    rfl
  | filled _ _ lacking _ _ _ whole =>
    exact layWrites_of_whole measured (File.chunkSize_pos lacking) fits genuine whole old

end ChunkExchange.Fetch
