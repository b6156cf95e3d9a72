import ChunkExchange.Storage.PartStore
import Mathlib.Data.List.Induction

namespace ChunkExchange.PartStore

variable {old data : Bytes} {offset position : Nat}

theorem getElem?_overlay_inside (above : offset ≤ position)
    (below : position < offset + data.length) :
    (overlay old offset data)[position]? = data[position - offset]? := by
  have filled : data.isEmpty = false := by
    cases data with
    | nil => simp at below; omega
    | cons => rfl
  have front : (old.take offset ++ List.replicate (offset - old.length) 0).length = offset := by
    simp only [List.length_append, List.length_take, List.length_replicate]
    omega
  rw [overlay, filled, if_neg Bool.false_ne_true, List.append_assoc,
    List.getElem?_append_right (by omega), front, List.getElem?_append_left (by omega)]

theorem getElem?_overlay_behind (behind : offset + data.length ≤ position) :
    (overlay old offset data)[position]? = old[position]? := by
  unfold overlay
  split
  · rfl
  · have front : (old.take offset ++ List.replicate (offset - old.length) 0 ++ data).length =
        offset + data.length := by
      simp only [List.length_append, List.length_take, List.length_replicate]
      omega
    rw [List.getElem?_append_right (by omega), front, List.getElem?_drop]
    congr 1
    omega

theorem getElem?_overlay_before (before : position < offset) (present : position < old.length) :
    (overlay old offset data)[position]? = old[position]? := by
  unfold overlay
  split
  · rfl
  · have front : position < (old.take offset).length := by
      rw [List.length_take]
      omega
    rw [List.append_assoc, List.append_assoc, List.getElem?_append_left front,
      List.getElem?_take_of_lt before]

private theorem getElem?_overlay_gap (behind : old.length ≤ position) (before : position < offset)
    (filled : data ≠ []) : (overlay old offset data)[position]? = some 0 := by
  have front : (old.take offset).length = old.length := by
    rw [List.length_take]
    omega
  rw [overlay, if_neg (by simpa using filled), List.append_assoc, List.append_assoc,
    List.getElem?_append_right (by omega), front, List.getElem?_append_left (by simp; omega),
    List.getElem?_replicate_of_lt (by omega)]

structure Piece where
  offset : Nat
  data : Bytes
deriving DecidableEq

/-- The byte that a piece has at a position, where it reaches. -/
def Piece.at? (piece : Piece) (position : Nat) : Option UInt8 :=
  if position < piece.offset then none else piece.data[position - piece.offset]?

/-- Where a piece ends. A piece without data reaches nowhere. -/
def Piece.stop (piece : Piece) : Nat :=
  if piece.data.isEmpty then 0 else piece.offset + piece.data.length

/-- Where the piece that reaches furthest ends. -/
def reach (pieces : List Piece) : Nat :=
  pieces.foldl (fun furthest piece => max furthest piece.stop) 0

/-- The byte of the last piece that reaches a position, or zero where none does. -/
def byteAt (pieces : List Piece) (position : Nat) : UInt8 :=
  (pieces.reverse.findSome? fun piece => piece.at? position).getD 0

/-- The bytes that pieces make, one after another. -/
def assembled (pieces : List Piece) : Bytes :=
  (List.range (reach pieces)).map (byteAt pieces)

variable {piece : Piece} {pieces : List Piece}

private theorem Piece.at?_eq_none_of_stop_le (outside : piece.stop ≤ position) :
    piece.at? position = none := by
  unfold Piece.stop at outside
  unfold Piece.at?
  split at outside
  · rename_i empty
    simp [List.isEmpty_iff.mp empty]
  · split
    · rfl
    · exact List.getElem?_eq_none (by omega)

theorem reach_append_singleton (pieces : List Piece) (piece : Piece) :
    reach (pieces ++ [piece]) = max (reach pieces) piece.stop := by
  simp [reach]

theorem byteAt_append_singleton (pieces : List Piece) (piece : Piece) (position : Nat) :
    byteAt (pieces ++ [piece]) position =
      (piece.at? position).getD (byteAt pieces position) := by
  unfold byteAt
  rw [List.reverse_append, List.reverse_singleton, List.singleton_append, List.findSome?_cons]
  cases piece.at? position <;> rfl

private theorem byteAt_of_reach_le
    (outside : reach pieces ≤ position) : byteAt pieces position = 0 := by
  induction pieces using List.reverseRecOn with
  | nil => rfl
  | append_singleton pieces piece ih =>
    rw [reach_append_singleton] at outside
    rw [byteAt_append_singleton, Piece.at?_eq_none_of_stop_le (by omega), Option.getD_none,
      ih (by omega)]

theorem getElem?_assembled (pieces : List Piece) (position : Nat) :
    (assembled pieces)[position]? =
      if position < reach pieces then some (byteAt pieces position) else none := by
  rw [assembled, List.getElem?_map]
  split
  · rename_i inside
    rw [List.getElem?_range inside, Option.map_some]
  · rename_i outside
    rw [List.getElem?_eq_none (by simpa using outside), Option.map_none]

theorem length_assembled (pieces : List Piece) : (assembled pieces).length = reach pieces := by
  rw [assembled, List.length_map, List.length_range]

/-- One more piece is laid over the bytes of those before it. -/
theorem overlay_assembled (pieces : List Piece) (piece : Piece) :
    overlay (assembled pieces) piece.offset piece.data = assembled (pieces ++ [piece]) := by
  apply List.ext_getElem?
  intro position
  rw [getElem?_assembled (pieces ++ [piece]), reach_append_singleton, byteAt_append_singleton]
  by_cases empty : piece.data = []
  · have nowhere : piece.stop = 0 := by simp [Piece.stop, empty]
    have unchanged : overlay (assembled pieces) piece.offset piece.data = assembled pieces := by
      simp [overlay, empty]
    rw [unchanged, getElem?_assembled, nowhere, Nat.max_zero,
      Piece.at?_eq_none_of_stop_le (by omega), Option.getD_none]
  · have stop : piece.stop = piece.offset + piece.data.length := by simp [Piece.stop, empty]
    by_cases behind : piece.stop ≤ position
    · rw [getElem?_overlay_behind (by omega), getElem?_assembled,
        Piece.at?_eq_none_of_stop_le behind, Option.getD_none]
      congr 1
      rw [eq_iff_iff]
      omega
    · rw [if_pos (by omega)]
      by_cases before : position < piece.offset
      · have other : piece.at? position = none := if_pos before
        rw [other, Option.getD_none]
        by_cases present : position < reach pieces
        · rw [getElem?_overlay_before before (by rwa [length_assembled]), getElem?_assembled,
            if_pos present]
        · rw [getElem?_overlay_gap (by rw [length_assembled]; omega) before empty,
            byteAt_of_reach_le (by omega)]
      · have own : piece.at? position = piece.data[position - piece.offset]? := if_neg before
        rw [getElem?_overlay_inside (by omega) (by omega), own,
          List.getElem?_eq_getElem (by omega), Option.getD_some]

end ChunkExchange.PartStore
