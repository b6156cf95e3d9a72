import ChunkExchange.Proofs.TreeWalk
import ChunkExchange.Storage.PartStore

namespace ChunkExchange.PartStore

/-- The bytes that a loop of reads brings, which ends when `wanted` bytes are there or nothing is
left. Each read brings some of the bytes that are next, or is interrupted. -/
inductive Gathers : Bytes → Nat → Bytes → Prop where
  | enough {left : Bytes} : Gathers left 0 []
  | ended {wanted : Nat} : Gathers [] wanted []
  | interrupted {left bytes : Bytes} {wanted : Nat} (rest : Gathers left wanted bytes) :
      Gathers left wanted bytes
  | piece {left bytes : Bytes} {wanted size : Nat} (some : 0 < size) (room : size ≤ wanted)
      (there : size ≤ left.length) (rest : Gathers (left.drop size) (wanted - size) bytes) :
      Gathers left wanted (left.take size ++ bytes)

variable {portion : Nat → Nat} {tree : FileTree} {path : String} {offset wanted : Nat}
variable {left buffer bytes contents : Bytes} {filled : Filled}

/-- However the bytes are split, they are the ones that are next. -/
theorem Gathers.eq_take (gathers : Gathers left wanted bytes) : bytes = left.take wanted := by
  induction gathers with
  | enough => rw [List.take_zero]
  | ended => rw [List.take_nil]
  | interrupted rest ih => exact ih
  | @piece left bytes wanted size some room there rest ih =>
    rw [ih, ← List.take_add]
    congr 1
    omega

private theorem gathers_gather (portion : Nat → Nat) (left : Bytes) (wanted : Nat) :
    Gathers left wanted (gather portion left wanted) := by
  fun_induction gather portion left wanted with
  | case1 left wanted finished =>
    rcases finished with none | enough
    · rw [List.isEmpty_iff.mp none]
      exact .ended
    · rw [enough]
      exact .enough
  | case2 left wanted unfinished piece ih =>
    obtain ⟨present, lacking⟩ := not_or.mp unfinished
    have some : 0 < left.length := List.length_pos_iff.mpr (mt List.isEmpty_iff.mpr present)
    have size : piece.length = min (max 1 (min wanted (portion wanted))) left.length :=
      List.length_take
    have whole : piece = left.take piece.length := by
      rw [size, ← List.take_take, List.take_length]
    have run := Gathers.piece (by omega) (by omega) (by omega) ih
    rwa [← whole] at run

/-- What a read that succeeds leaves in the buffer. -/
inductive Fills (tree : FileTree) (path : String) (offset : Nat) (buffer : Bytes)
    (filled : Filled) : Prop where
  /-- The bytes of the file from the offset on are in front, as far as there are any, and the rest
  of the buffer is as it was. -/
  | file {contents : Bytes} (found : tree.contents (.ofText path) = .ok contents)
      (count : filled.count = min buffer.length (contents.length - offset))
      (front : filled.buffer.take filled.count = (contents.drop offset).take filled.count)
      (rest : filled.buffer.drop filled.count = buffer.drop filled.count)
      (split : ∀ bytes, Gathers (contents.drop offset) buffer.length bytes →
        bytes = filled.buffer.take filled.count)
  | directory (found : tree.find (.ofText path) = .ok .directory) (nothing : buffer = [])
      (same : filled = { count := 0, buffer })

theorem fills_read (succeeds : read portion tree path offset buffer = .ok filled) :
    Fills tree path offset buffer filled := by
  simp only [read, bind_eq_ok_iff] at succeeds
  obtain ⟨entry, found, succeeds⟩ := succeeds
  split at succeeds
  · split at succeeds
    · exact absurd succeeds throw_ne_ok
    · rename_i allowed
      cases succeeds
      refine .directory found ?_ rfl
      unfold directoryRefusal? at allowed
      split at allowed
      · cases allowed
      · split at allowed
        · exact List.length_eq_zero_iff.mp (by assumption)
        · split at allowed <;> cases allowed
  · rename_i contents
    split at succeeds
    · exact absurd succeeds throw_ne_ok
    · cases succeeds
      have gathered : gather portion (contents.drop offset) buffer.length =
          (contents.drop offset).take buffer.length :=
        (gathers_gather portion (contents.drop offset) buffer.length).eq_take
      have length : ((contents.drop offset).take buffer.length).length =
          min buffer.length (contents.length - offset) := by
        rw [List.length_take, List.length_drop]
      simp only [gathered]
      refine .file (FileTree.contents_eq_ok_iff.mpr found) length ?_ ?_ ?_
      · rw [List.take_left, List.length_take, ← List.take_take, List.take_length]
      · rw [List.drop_left]
      · intro bytes gathers
        rw [List.take_left]
        exact gathers.eq_take

end ChunkExchange.PartStore
