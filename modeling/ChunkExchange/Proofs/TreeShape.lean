import ChunkExchange.Storage.FileTree.Edit

namespace ChunkExchange.FileTree

variable {tree : FileTree} {location other above source target rest : Location} {name : String}
variable {entry : Entry} {contents : Bytes}

/-- Everything is in a directory. -/
def Rooted (tree : FileTree) : Prop :=
  ∀ above name entry, tree.get? (above ++ [name]) = some entry →
    tree.get? above = some .directory

theorem get?_of_ne_root (named : location ≠ []) :
    tree.get? location = tree.entries.lookup location := by
  cases location with
  | nil => exact absurd rfl named
  | cons => rfl

theorem get?_empty (named : location ≠ []) : FileTree.empty.get? location = none := by
  rw [get?_of_ne_root named]
  rfl

theorem rooted_empty : Rooted .empty := by
  intro above name entry present
  rw [get?_empty (by simp)] at present
  cases present

private theorem lookup_remove (different : other ≠ location) :
    (tree.remove location).entries.lookup other = tree.entries.lookup other := by
  unfold remove
  induction tree.entries with
  | nil => rfl
  | cons head rest ih =>
    obtain ⟨place, entry⟩ := head
    by_cases gone : place = location
    · subst gone
      rw [List.filter_cons_of_neg (by simp), List.lookup_cons, beq_eq_false_iff_ne.mpr different]
      exact ih
    · cases found : other == place with
      | true => simp [gone, List.lookup_cons, found]
      | false => simpa [gone, List.lookup_cons, found] using ih

theorem get?_put_self (named : location ≠ []) :
    (tree.put location entry).get? location = some entry := by
  rw [get?_of_ne_root named]
  simp [put]

theorem get?_put_ne (different : other ≠ location) :
    (tree.put location entry).get? other = tree.get? other := by
  by_cases root : other = []
  · subst root
    rfl
  · rw [get?_of_ne_root root, get?_of_ne_root root]
    simp only [put, List.lookup_cons, beq_eq_false_iff_ne.mpr different]
    exact lookup_remove different

theorem Rooted.put (rooted : tree.Rooted) (housed : tree.get? above = some .directory)
    (kind : tree.get? (above ++ [name]) = some .directory → entry = .directory) :
    (tree.put (above ++ [name]) entry).Rooted := by
  intro higher last found present
  by_cases same : higher ++ [last] = above ++ [name]
  · obtain ⟨highers, _⟩ := List.append_inj' same rfl
    rw [highers, get?_put_ne (by simp)]
    exact housed
  · rw [get?_put_ne same] at present
    have directory := rooted higher last found present
    by_cases placed : higher = above ++ [name]
    · subst placed
      rw [get?_put_self (by simp), kind directory]
    · rw [get?_put_ne placed]
      exact directory

/-- Only a directory has something below it. -/
theorem Rooted.get?_above (rooted : tree.Rooted) (below : rest ≠ [])
    (present : tree.get? (above ++ rest) = some entry) : tree.get? above = some .directory := by
  induction rest generalizing above with
  | nil => exact absurd rfl below
  | cons name rest ih =>
    by_cases last : rest = []
    · subst last
      exact rooted above name entry present
    · have whole : above ++ name :: rest = (above ++ [name]) ++ rest := by simp
      exact rooted above name .directory (ih last (whole ▸ present))

/-- The tree after everything at `source` went to `target`. -/
def moved (tree : FileTree) (source target : Location) : FileTree :=
  { entries := (tree.remove target).entries.map fun entry =>
      (relocate source target entry.1, entry.2) }

private theorem lookup_map_key (entries : List (Location × Entry)) (place : Location → Location)
    (agree : ∀ entry ∈ entries, place entry.1 = location ↔ entry.1 = other) :
    (entries.map fun entry => (place entry.1, entry.2)).lookup location =
      entries.lookup other := by
  induction entries with
  | nil => rfl
  | cons head rest ih =>
    obtain ⟨here, entry⟩ := head
    have later := ih (fun entry listed => agree entry (List.mem_cons_of_mem _ listed))
    have first := agree (here, entry) List.mem_cons_self
    rw [List.map_cons, List.lookup_cons, List.lookup_cons, later]
    have same : (location == place here) = (other == here) := by
      rw [Bool.eq_iff_iff, beq_iff_eq, beq_iff_eq, eq_comm, first, eq_comm]
    rw [same]

private theorem relocate_below (rest : Location) :
    relocate source target (source ++ rest) = target ++ rest := by
  simp [relocate]

private theorem prefix_relocate (moves : source <+: location) :
    target <+: relocate source target location := by
  obtain ⟨rest, whole⟩ := moves
  rw [← whole, relocate_below]
  exact List.prefix_append _ _

private theorem relocate_elsewhere (apart : ¬ source <+: location) :
    relocate source target location = location := by
  simp [relocate, apart]

private theorem get?_isSome_of_mem {entry : Location × Entry} (listed : entry ∈ tree.entries) :
    ∃ found, tree.get? entry.1 = some found := by
  by_cases root : entry.1 = []
  · exact ⟨.directory, by rw [root]; rfl⟩
  · rw [get?_of_ne_root root, ← Option.isSome_iff_exists, List.lookup_isSome_iff]
    exact ⟨entry, listed, by simp⟩

theorem get?_moved_elsewhere (kept : ¬ source <+: location) (outside : ¬ target <+: location) :
    (tree.moved source target).get? location = tree.get? location := by
  by_cases root : location = []
  · subst root
    rfl
  have different : location ≠ target := fun same => outside (same ▸ List.prefix_rfl)
  have stays : (tree.remove target).entries.lookup location = tree.entries.lookup location :=
    lookup_remove different
  rw [get?_of_ne_root root, get?_of_ne_root root, ← stays]
  apply lookup_map_key
  intro entry listed
  by_cases moves : source <+: entry.1
  · constructor
    · intro path
      exact absurd (path ▸ prefix_relocate moves) outside
    · intro path
      exact absurd (path ▸ moves) kept
  · rw [relocate_elsewhere moves]

/-- A target that is not below the source and has nothing below it. -/
structure Movable (tree : FileTree) (source target : Location) : Prop where
  named : target ≠ []
  apart : ¬ source <+: target
  lonely : ∀ rest, rest ≠ [] → tree.get? (target ++ rest) = none

namespace Movable

variable (movable : tree.Movable source target)

include movable

theorem origin : source ≠ [] :=
  fun root => movable.apart (root ▸ List.nil_prefix)

private theorem not_prefix_of_mem {entry : Location × Entry}
    (listed : entry ∈ (tree.remove target).entries) : ¬ target <+: entry.1 := by
  rintro ⟨rest, whole⟩
  obtain ⟨kept, other⟩ := List.mem_filter.mp listed
  obtain ⟨found, present⟩ := get?_isSome_of_mem kept
  by_cases own : rest = []
  · simp [← whole, own] at other
  · rw [← whole, movable.lonely rest own] at present
    cases present

theorem get?_target (rest : Location) :
    (tree.moved source target).get? (target ++ rest) = tree.get? (source ++ rest) := by
  have elsewhere : source ++ rest ≠ target := fun same =>
    movable.apart (same ▸ List.prefix_append _ _)
  rw [get?_of_ne_root (by simp [movable.named]), get?_of_ne_root (by simp [movable.origin]),
    ← lookup_remove elsewhere]
  apply lookup_map_key
  intro entry listed
  by_cases moves : source <+: entry.1
  · obtain ⟨own, path⟩ := moves
    rw [← path, relocate_below, List.append_cancel_left_eq, List.append_cancel_left_eq]
  · rw [relocate_elsewhere moves]
    constructor
    · intro stays
      exact absurd (stays ▸ List.prefix_append _ _) (movable.not_prefix_of_mem listed)
    · intro path
      exact absurd (path ▸ List.prefix_append _ _) moves

theorem get?_source (emptied : source <+: location) (outside : ¬ target <+: location) :
    (tree.moved source target).get? location = none := by
  have named : location ≠ [] := fun root =>
    movable.origin (List.prefix_nil.mp (root ▸ emptied))
  rw [get?_of_ne_root named, List.lookup_eq_none_iff]
  intro entry listed
  obtain ⟨old, present, same⟩ := List.mem_map.mp listed
  rw [bne_iff_ne, ← same]
  intro path
  by_cases moves : source <+: old.1
  · exact outside (path ▸ prefix_relocate moves)
  · rw [relocate_elsewhere moves] at path
    exact moves (path ▸ emptied)

theorem rooted (rooted : tree.Rooted)
    (housed : ∀ above name, target = above ++ [name] → tree.get? above = some .directory) :
    (tree.moved source target).Rooted := by
  intro above name entry present
  by_cases inside : target <+: above
  · obtain ⟨rest, whole⟩ := inside
    rw [← whole, movable.get?_target]
    rw [← whole, List.append_assoc, movable.get?_target, ← List.append_assoc] at present
    exact rooted _ _ _ present
  · by_cases own : target <+: above ++ [name]
    · have top : target = above ++ [name] :=
        (List.prefix_concat_iff.mp own).resolve_right inside
      have free : ¬ source <+: above := by
        intro below
        exact movable.apart (top ▸ below.trans (List.prefix_append _ _))
      rw [get?_moved_elsewhere free inside]
      exact housed above name top
    · have free : ¬ source <+: above ++ [name] := by
        intro below
        rw [movable.get?_source below own] at present
        cases present
      have higher : ¬ source <+: above := fun below => free (below.trans (List.prefix_append _ _))
      rw [get?_moved_elsewhere free own] at present
      rw [get?_moved_elsewhere higher inside]
      exact rooted above name entry present

theorem get?_file (rooted : tree.Rooted) (file : tree.get? source = some (.file contents)) :
    (tree.moved source target).get? target = some (.file contents) ∧
      ∀ location, location ≠ target → (tree.moved source target).get? location =
        if location = source then none else tree.get? location := by
  have bare (rest : Location) (below : rest ≠ []) : tree.get? (source ++ rest) = none := by
    cases present : tree.get? (source ++ rest) with
    | none => rfl
    | some entry =>
      rw [rooted.get?_above below present] at file
      cases file
  constructor
  · have moves := movable.get?_target []
    rw [List.append_nil, List.append_nil, file] at moves
    exact moves
  · intro location different
    by_cases inside : target <+: location
    · obtain ⟨rest, whole⟩ := inside
      subst whole
      have below : rest ≠ [] := fun none => different (by rw [none, List.append_nil])
      rw [movable.get?_target, bare rest below]
      split
      · rfl
      · exact (movable.lonely rest below).symm
    · by_cases emptied : source <+: location
      · rw [movable.get?_source emptied inside]
        obtain ⟨rest, whole⟩ := emptied
        subst whole
        split
        · rfl
        · rename_i proper
          have below : rest ≠ [] := fun none => proper (by rw [none, List.append_nil])
          exact (bare rest below).symm
      · have kept : location ≠ source := fun same => emptied (same ▸ List.prefix_rfl)
        rw [get?_moved_elsewhere emptied inside, if_neg kept]

end Movable

end ChunkExchange.FileTree
