import ChunkExchange.File

namespace ChunkExchange

namespace File

variable {file : File} {index chunkSize position number : Nat}

/-- The chunks reach the end of the file: their number is below the limit. -/
def Fits (file : File) (chunkSize : Nat) : Prop :=
  (file.size + chunkSize - 1) / chunkSize ≤ chunkLimit

instance (file : File) (chunkSize : Nat) : Decidable (file.Fits chunkSize) :=
  inferInstanceAs (Decidable (_ ≤ _))

theorem chunkCount_of_fits (fits : file.Fits chunkSize) :
    file.chunkCount chunkSize = (file.size + chunkSize - 1) / chunkSize :=
  Nat.min_eq_left fits

theorem chunkSize_pos (bound : index < file.chunkCount chunkSize) : 0 < chunkSize := by
  rcases Nat.eq_zero_or_pos chunkSize with zero | positive
  · simp [zero, chunkCount] at bound
  · exact positive

theorem offset_lt_size (bound : index < file.chunkCount chunkSize) :
    (file.extent index chunkSize).offset < file.size := by
  have below : index < (file.size + chunkSize - 1) / chunkSize :=
    Nat.lt_of_lt_of_le bound (Nat.min_le_left _ _)
  have positive := chunkSize_pos bound
  have reached : (index + 1) * chunkSize ≤ file.size + chunkSize - 1 :=
    (Nat.le_div_iff_mul_le positive).mp below
  rw [Nat.add_one_mul] at reached
  change index * chunkSize < file.size
  omega

theorem stop_le_size (bound : index < file.chunkCount chunkSize) :
    (file.extent index chunkSize).offset + (file.extent index chunkSize).size ≤ file.size := by
  have inside := offset_lt_size bound
  simp only [extent] at inside ⊢
  omega

theorem size_pos (bound : index < file.chunkCount chunkSize) :
    0 < (file.extent index chunkSize).size := by
  have positive := chunkSize_pos bound
  have inside := offset_lt_size bound
  simp only [extent] at inside ⊢
  omega

/-- How far the chunks reach: to the end of the file, unless there would be too many of them. -/
def reach (file : File) (chunkSize : Nat) : Nat :=
  min file.size (chunkLimit * chunkSize)

/-- The chunks reach the end of just those files whose chunks can be counted. -/
theorem reach_eq_size_iff (positive : 0 < chunkSize) :
    file.reach chunkSize = file.size ↔ file.Fits chunkSize := by
  rw [reach, Fits, Nat.div_le_iff_le_mul_add_pred positive, Nat.mul_comm]
  omega

theorem div_lt_chunkCount_of_lt_reach (bound : position < file.reach chunkSize) :
    position / chunkSize < file.chunkCount chunkSize := by
  obtain ⟨inside, counted⟩ := Nat.lt_min.mp bound
  have positive : 0 < chunkSize := Nat.pos_of_lt_mul_left counted
  apply Nat.lt_min.mpr
  refine ⟨?_, Nat.div_lt_of_lt_mul (by rwa [Nat.mul_comm])⟩
  rw [Nat.lt_iff_add_one_le, Nat.le_div_iff_mul_le positive, Nat.add_one_mul]
  have below := Nat.div_mul_le_self position chunkSize
  omega

theorem div_lt_chunkCount (positive : 0 < chunkSize) (fits : file.Fits chunkSize)
    (bound : position < file.size) : position / chunkSize < file.chunkCount chunkSize := by
  rw [← (reach_eq_size_iff positive).mpr fits] at bound
  exact div_lt_chunkCount_of_lt_reach bound

theorem mem_extent_div (positive : 0 < chunkSize) (bound : position < file.size) :
    (file.extent (position / chunkSize) chunkSize).offset ≤ position ∧
      position < (file.extent (position / chunkSize) chunkSize).offset +
        (file.extent (position / chunkSize) chunkSize).size := by
  have whole := Nat.div_add_mod' position chunkSize
  have rest := Nat.mod_lt position positive
  simp only [extent]
  omega

theorem chunkCount_eq_zero_iff (positive : 0 < chunkSize) :
    file.chunkCount chunkSize = 0 ↔ file.size = 0 := by
  have limit : (0 : Nat) < chunkLimit := by decide
  rw [chunkCount, Nat.min_eq_zero_iff, Nat.div_eq_zero_iff]
  omega

/-- The chunks of a file, in order. -/
def chunks (file : File) (chunkSize : Nat) : List Extent :=
  (List.range (file.chunkCount chunkSize)).map (file.extent · chunkSize)

theorem mem_chunks {extent : Extent} :
    extent ∈ file.chunks chunkSize ↔
      ∃ index < file.chunkCount chunkSize, file.extent index chunkSize = extent := by
  simp [chunks]

end File

/-- A byte of the file is in a run of bytes. -/
def Extent.Holds (extent : Extent) (position : Nat) : Prop :=
  extent.offset ≤ position ∧ position < extent.stop

/-- Runs of bytes follow each other without a gap from `start` to `stop`. None of them is empty or
longer than `limit`. -/
inductive Tiles (limit : Nat) : (start : Nat) → List Extent → (stop : Nat) → Prop where
  | nil (start : Nat) : Tiles limit start [] start
  | cons {extent : Extent} {rest : List Extent} {stop : Nat} (some : 0 < extent.size)
      (fits : extent.size ≤ limit) (follows : Tiles limit extent.stop rest stop) :
      Tiles limit extent.offset (extent :: rest) stop

private theorem Tiles.concat {limit start stop : Nat} {front : List Extent} {extent : Extent}
    (tiles : Tiles limit start front stop) (adjacent : extent.offset = stop)
    (some : 0 < extent.size) (fits : extent.size ≤ limit) :
    Tiles limit start (front ++ [extent]) extent.stop := by
  induction tiles with
  | nil start => exact adjacent ▸ .cons some fits (.nil _)
  | cons first within _ ih => exact .cons first within (ih adjacent)

namespace File

variable {file : File} {index chunkSize position number : Nat}

/-- A file is cut into chunks up to `stop`: they lie one behind the other from its start, and each
byte is in one of them, whose index tells how many chunks are before it. -/
structure CutUpTo (file : File) (chunkSize stop : Nat) : Prop where
  tiles : Tiles chunkSize 0 (file.chunks chunkSize) stop
  none : file.chunks chunkSize = [] ↔ file.size = 0
  holder : ∀ position index,
    (∃ extent ∈ file.chunks chunkSize, extent.index = index ∧ extent.Holds position) ↔
      position < stop ∧ index = position / chunkSize

private theorem tiles_take (counted : number ≤ file.chunkCount chunkSize) :
    Tiles chunkSize 0 ((List.range number).map (file.extent · chunkSize))
      (min file.size (number * chunkSize)) := by
  induction number with
  | zero =>
    rw [Nat.zero_mul, Nat.min_zero]
    exact .nil 0
  | succ number ih =>
    have inside := offset_lt_size counted
    have behind : (file.extent number chunkSize).stop =
        min file.size ((number + 1) * chunkSize) := by
      simp only [Extent.stop, extent, Nat.add_one_mul] at inside ⊢
      omega
    rw [List.range_succ, List.map_append, List.map_singleton, ← behind]
    apply (ih (Nat.le_of_succ_le counted)).concat
    · exact (Nat.min_eq_right (Nat.le_of_lt inside)).symm
    · exact size_pos counted
    · exact Nat.min_le_left _ _

/-- As many bytes as all chunks can have are the bytes that they reach. -/
theorem min_chunkCount_mul (positive : 0 < chunkSize) :
    min file.size (file.chunkCount chunkSize * chunkSize) = file.reach chunkSize := by
  rcases Nat.le_total ((file.size + chunkSize - 1) / chunkSize) chunkLimit with fits | many
  · have covered : file.size ≤ file.chunkCount chunkSize * chunkSize := by
      rw [chunkCount_of_fits fits, Nat.mul_comm]
      have rest := Nat.lt_mul_div_succ (file.size + chunkSize - 1) positive
      rw [Nat.mul_add_one] at rest
      omega
    rw [(reach_eq_size_iff positive).mpr fits, Nat.min_eq_left covered]
  · rw [chunkCount, Nat.min_eq_right many, reach]

theorem holds_iff (positive : 0 < chunkSize) :
    index < file.chunkCount chunkSize ∧ (file.extent index chunkSize).Holds position ↔
      position < file.reach chunkSize ∧ index = position / chunkSize := by
  constructor
  · rintro ⟨counted, lower, upper⟩
    have limited : (index + 1) * chunkSize ≤ chunkLimit * chunkSize :=
      Nat.mul_le_mul_right chunkSize (Nat.le_trans counted (Nat.min_le_right _ _))
    simp only [Extent.stop, extent, Nat.add_one_mul] at lower upper limited
    refine ⟨Nat.lt_min.mpr ⟨by omega, by omega⟩, ?_⟩
    symm
    apply Nat.div_eq_of_lt_le lower
    rw [Nat.add_one_mul]
    omega
  · rintro ⟨bound, rfl⟩
    exact ⟨div_lt_chunkCount_of_lt_reach bound,
      mem_extent_div positive (Nat.lt_min.mp bound).1⟩

/-- Every file is cut into chunks as far as they reach, which is up to its end just if its chunks
can be counted. -/
theorem cut_up_to_reach (file : File) (positive : 0 < chunkSize) :
    file.CutUpTo chunkSize (file.reach chunkSize) ∧
      (file.reach chunkSize = file.size ↔ file.Fits chunkSize) := by
  refine ⟨⟨?_, ?_, ?_⟩, reach_eq_size_iff positive⟩
  · rw [← min_chunkCount_mul positive]
    exact tiles_take (Nat.le_refl _)
  · rw [chunks, List.map_eq_nil_iff, List.range_eq_nil, chunkCount_eq_zero_iff positive]
  · intro position index
    rw [← holds_iff positive]
    constructor
    · rintro ⟨extent, listed, rfl, holds⟩
      obtain ⟨index, counted, rfl⟩ := mem_chunks.mp listed
      exact ⟨counted, holds⟩
    · rintro ⟨counted, holds⟩
      exact ⟨_, mem_chunks.mpr ⟨index, counted, rfl⟩, rfl, holds⟩

/-- Seven bytes in chunks of three. -/
theorem cut_up_to_reach_seven :
    let file : File := { id := 1, hash := "", size := 7 }
    0 < 3 ∧ file.chunks 3 = [⟨0, 0, 3⟩, ⟨1, 3, 3⟩, ⟨2, 6, 1⟩] ∧ file.reach 3 = 7 ∧
      file.CutUpTo 3 (file.reach 3) ∧ (file.reach 3 = file.size ↔ file.Fits 3) := by
  intro file
  exact ⟨by decide, by decide, by decide, file.cut_up_to_reach (by decide)⟩

/-- One byte more than there can be chunks of one byte: the last byte is in none. -/
theorem not_cut_up_to_size :
    let file : File := { id := 1, hash := "", size := 4294967296 }
    0 < 1 ∧ ¬ file.CutUpTo 1 file.size := by
  intro file
  refine ⟨by decide, ?_⟩
  intro cut
  obtain ⟨extent, listed, last, _⟩ := (cut.holder 4294967295 4294967295).mpr (by decide)
  obtain ⟨index, counted, rfl⟩ := mem_chunks.mp listed
  have last : index = 4294967295 := last
  have limited : index < 4294967295 := Nat.lt_of_lt_of_le counted (Nat.min_le_right _ _)
  omega

end File

end ChunkExchange
