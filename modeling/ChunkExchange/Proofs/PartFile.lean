import ChunkExchange.Proofs.PartPlace

namespace ChunkExchange

namespace FileTree

variable {tree next : FileTree} {source target location : Location} {path destination : Path}
variable {moving : Entry} {present : Option Entry} {contents : Bytes}

theorem fileAt_of_get? (same : next.get? location = tree.get? location) :
    next.fileAt location = tree.fileAt location := by
  rw [fileAt, fileAt, same]

theorem Grows.fileAt (grows : Grows tree next) (location : Location) :
    next.fileAt location = tree.fileAt location := by
  rcases grows location with same | ⟨free, made⟩
  · exact fileAt_of_get? same
  · simp [FileTree.fileAt, free, made]

private theorem Rooted.lonely_of_hasChildren (rooted : tree.Rooted)
    (bare : tree.hasChildren target = false)
    (rest : Location) (below : rest ≠ []) : tree.get? (target ++ rest) = none := by
  cases found : tree.get? (target ++ rest) with
  | none => rfl
  | some entry =>
    obtain ⟨first, others, whole⟩ := List.exists_cons_of_ne_nil below
    have child : ∃ entry, tree.get? (target ++ [first]) = some entry := by
      by_cases single : others = []
      · rw [whole, single] at found
        exact ⟨entry, found⟩
      · have deeper : tree.get? ((target ++ [first]) ++ others) = some entry := by
          rw [List.append_assoc, List.singleton_append, ← whole]
          exact found
        exact ⟨.directory, rooted.get?_above single deeper⟩
    obtain ⟨entry, held⟩ := child
    rw [get?_of_ne_root (by simp)] at held
    obtain ⟨listed, member, key⟩ := List.lookup_isSome_iff.mp (Option.isSome_of_eq_some held)
    rw [beq_iff_eq] at key
    have childless := List.any_eq_false.mp bare listed member
    simp [← key, Location.parent] at childless

/-- What moves is a file that no directory is replaced by, or a directory that replaces at most an
empty one. -/
private theorem moveTo_eq_ok (did : tree.moveTo source target moving present = .ok next) :
    next = tree.moved source target ∧
      ((∃ contents, moving = .file contents) → present ≠ some .directory) ∧
      (moving = .directory → (∀ contents, present ≠ some (.file contents)) ∧
        (present = some .directory → tree.hasChildren target = false)) := by
  unfold moveTo at did
  split at did
  · cases did
  · cases did
  · split at did
    · cases did
    · rename_i bare
      cases did
      refine ⟨rfl, ?_, ?_⟩
      · rintro ⟨contents, same⟩
        cases same
      · intro _
        exact ⟨fun contents => by simp, fun _ => by simpa using bare⟩
  · rename_i intoDirectory ontoFile intoSame
    cases did
    refine ⟨rfl, ?_, ?_⟩
    · rintro ⟨contents, same⟩ directory
      exact intoDirectory contents same directory
    · intro same
      refine ⟨fun contents file => ontoFile contents same file, fun directory => ?_⟩
      exact absurd directory (intoSame same)

theorem rename_eq_ok (renamed : tree.rename path destination = .ok next) :
    ∃ above name slash newAbove newName newSlash moving present,
      tree.approach path = .ok (.entry above name slash) ∧
      tree.approach destination = .ok (.entry newAbove newName newSlash) ∧
      tree.look above name = .ok (some moving) ∧ tree.look newAbove newName = .ok present ∧
      ((∃ contents, moving = .file contents) → newSlash = false) ∧
      ((path.place = destination.place ∧ next = tree) ∨
        (path.place ≠ destination.place ∧ ¬ path.place <+: destination.place ∧
          tree.moveTo path.place destination.place moving present = .ok next)) := by
  simp only [rename, bind_eq_ok_iff] at renamed
  obtain ⟨start, source, goal, target, renamed⟩ := renamed
  split at renamed
  · rename_i above name slash newAbove newName newSlash
    simp only [bind_eq_ok_iff] at renamed
    obtain ⟨moving, looked, present, lookedNew, renamed⟩ := renamed
    split at renamed
    · exact absurd renamed throw_ne_ok
    · exact absurd renamed throw_ne_ok
    · rename_i _ moving slashed
      refine ⟨above, name, slash, newAbove, newName, newSlash, moving, present, source, target,
        looked, lookedNew, ?_, ?_⟩
      · rintro ⟨contents, same⟩
        cases newSlash with
        | false => rfl
        | true => exact absurd same (slashed contents (Bool.or_true slash))
      · rw [place_of_approach source, place_of_approach target]
        split at renamed
        · rename_i same
          cases renamed
          exact .inl ⟨same, rfl⟩
        · rename_i different
          split at renamed
          · exact absurd renamed throw_ne_ok
          · rename_i apart
            exact .inr ⟨different, fun below => apart (List.isPrefixOf_iff_prefix.mpr below),
              renamed⟩
  · exact absurd renamed throw_ne_ok

theorem Rooted.movable {source : Location} (rooted : tree.Rooted) (named : target ≠ [])
    (apart : ¬ source <+: target) (held : present = tree.get? target)
    (did : tree.moveTo source target moving present = .ok next) :
    tree.Movable source target := by
  obtain ⟨_, file, directory⟩ := moveTo_eq_ok did
  refine ⟨named, apart, ?_⟩
  intro rest below
  cases found : tree.get? (target ++ rest) with
  | none => rfl
  | some entry =>
    have above := rooted.get?_above below found
    cases moving with
    | file contents => exact absurd (held.trans above) (file ⟨contents, rfl⟩)
    | directory =>
      have bare := (directory rfl).2 (held.trans above)
      rw [rooted.lonely_of_hasChildren bare rest below] at found
      cases found

theorem Rooted.housed {newAbove : Location} {newName : String} {slash : Bool}
    (rooted : tree.Rooted)
    (reached : tree.approach destination = .ok (.entry newAbove newName slash))
    (above : Location) (name : String) (whole : destination.place = above ++ [name]) :
    tree.get? above = some .directory := by
  rw [place_of_approach reached] at whole
  obtain ⟨same, _⟩ := List.append_inj' whole rfl
  exact same ▸ rooted.get?_approach reached

theorem Rooted.rename_file (rooted : tree.Rooted) (found : tree.find path = .ok (.file contents))
    (renamed : tree.rename path destination = .ok next) :
    next.Rooted ∧ KeepsDirectories tree next ∧ next.contents destination = .ok contents ∧
      (path.place ≠ destination.place → next.get? path.place = none) ∧
      ∀ location, location ≠ path.place → location ≠ destination.place →
        next.get? location = tree.get? location := by
  obtain ⟨above, name, slash, newAbove, newName, newSlash, moving, present, source, target,
    looked, lookedNew, plain, moves⟩ := rename_eq_ok renamed
  have here := get?_place_of_find found
  obtain ⟨held, _⟩ := look_eq_ok looked
  obtain ⟨there, short⟩ := look_eq_ok lookedNew
  rw [← place_of_approach source, here] at held
  cases held
  rw [← place_of_approach target] at there
  have unslashed := plain ⟨contents, rfl⟩
  subst unslashed
  rcases moves with ⟨same, unchanged⟩ | ⟨different, apart, did⟩
  · subst unchanged
    refine ⟨rooted, fun _ directory => directory, ?_, absurd same, fun _ _ _ => rfl⟩
    exact contents_eq_ok_iff.mpr (find_of_approach target short (same ▸ here))
  · have movable := rooted.movable (by simp [place_of_approach target]) apart there.symm did
    obtain ⟨result, file, _⟩ := moveTo_eq_ok did
    subst result
    obtain ⟨arrives, others⟩ := movable.get?_file rooted here
    have keeps : KeepsDirectories tree (tree.moved path.place destination.place) := by
      intro location directory
      have elsewhere : location ≠ destination.place := by
        intro same
        exact file ⟨contents, rfl⟩ (there.symm.trans (same ▸ directory))
      have other : location ≠ path.place := by
        intro same
        rw [same, here] at directory
        cases directory
      rw [others location elsewhere, if_neg other]
      exact directory
    refine ⟨movable.rooted rooted (rooted.housed target), keeps, ?_, ?_, ?_⟩
    · exact contents_eq_ok_iff.mpr
        (find_of_approach (approach_of_keepsDirectories keeps target) short arrives)
    · intro elsewhere
      rw [others _ elsewhere, if_pos rfl]
    · intro location elsewhere other
      rw [others location other, if_neg elsewhere]

/-- Where a directory was renamed, there is no file afterwards, and only what was below it or is
below it changes. -/
theorem Rooted.rename_directory (rooted : tree.Rooted) (found : tree.find path = .ok .directory)
    (renamed : tree.rename path destination = .ok next) :
    next.Rooted ∧ tree.get? path.place = some .directory ∧
      (∀ contents, next.contents destination ≠ .ok contents) ∧
      ∀ location, ¬ path.place <+: location → ¬ destination.place <+: location →
        next.fileAt location = tree.fileAt location := by
  obtain ⟨above, name, slash, newAbove, newName, newSlash, moving, present, source, target,
    looked, lookedNew, plain, moves⟩ := rename_eq_ok renamed
  have here : tree.get? path.place = some .directory := by
    rw [place_of_approach source, (look_eq_ok looked).1, eq_of_find found source looked]
  obtain ⟨there, short⟩ := look_eq_ok lookedNew
  rw [← place_of_approach target] at there
  have directory (final : FileTree) (there : final.get? destination.place = some .directory)
      (contents : Bytes) : final.contents destination ≠ .ok contents := by
    intro file
    have present := get?_place_of_find (contents_eq_ok_iff.mp file)
    rw [there] at present
    cases present
  rcases moves with ⟨same, unchanged⟩ | ⟨different, apart, did⟩
  · subst unchanged
    exact ⟨rooted, here, directory _ (same ▸ here), fun _ _ _ => rfl⟩
  · have movable := rooted.movable (by simp [place_of_approach target]) apart there.symm did
    obtain ⟨result, _, _⟩ := moveTo_eq_ok did
    subst result
    have arrives := movable.get?_target []
    rw [List.append_nil, List.append_nil, here] at arrives
    refine ⟨movable.rooted rooted (rooted.housed target), here, directory _ arrives, ?_⟩
    intro location kept outside
    exact fileAt_of_get? (get?_moved_elsewhere kept outside)

theorem Rooted.put_openFile {file : OpenFile} (rooted : tree.Rooted)
    (opened : tree.openFile path = .ok file) (contents : Bytes) :
    let next := tree.put file.location (.file contents)
    next.Rooted ∧ KeepsDirectories tree next ∧ next.find path = .ok (.file contents) ∧
      ∀ location, location ≠ path.place → next.get? location = tree.get? location := by
  obtain ⟨above, name, reached, short, placed, free, _⟩ := openFile_eq_ok opened
  have place := place_of_approach reached
  rw [placed, ← place] at free
  have keeps : KeepsDirectories tree (tree.put path.place (.file contents)) := by
    intro location directory
    have elsewhere : location ≠ path.place := fun same => free (same ▸ directory)
    rw [get?_put_ne elsewhere]
    exact directory
  have present : (tree.put path.place (.file contents)).get? path.place =
      some (.file contents) := get?_put_self (by simp [place])
  simp only [placed, ← place]
  refine ⟨?_, keeps, find_of_approach (approach_of_keepsDirectories keeps reached) short present,
    fun location elsewhere => get?_put_ne elsewhere⟩
  rw [place] at free ⊢
  exact rooted.put (rooted.get?_approach reached) (fun directory => absurd directory free)

theorem Rooted.store (rooted : tree.Rooted) (stored : tree.store path contents = .ok next) :
    next.Rooted ∧ KeepsDirectories tree next ∧ next.find path = .ok (.file contents) ∧
      ∀ location, location ≠ path.place → next.get? location = tree.get? location := by
  simp only [FileTree.store, bind_eq_ok_iff] at stored
  obtain ⟨file, opened, result⟩ := stored
  cases result
  exact rooted.put_openFile opened contents

end FileTree

namespace PartStore

open FileTree (Outcome KeepsDirectories)

variable {tree : FileTree} {text : String} {offset : Nat} {data : Bytes}

theorem andThen_failure_eq_none {outcome : Outcome} {next : FileTree → Outcome}
    (succeeds : (outcome.andThen next).failure = none) :
    outcome.failure = none ∧ outcome.andThen next = next outcome.tree := by
  unfold Outcome.andThen at succeeds ⊢
  cases failed : outcome.failure with
  | none => exact ⟨rfl, rfl⟩
  | some failure => simp [failed] at succeeds

theorem andThen_assoc (outcome : Outcome) (first second : FileTree → Outcome) :
    (outcome.andThen first).andThen second =
      outcome.andThen fun tree => (first tree).andThen second := by
  cases failed : outcome.failure with
  | none => simp only [Outcome.andThen, failed]
  | some failure => simp only [Outcome.andThen, failed]

private theorem ofResult_failure_eq_none {result : Except StorageError FileTree}
    (succeeds : (Outcome.ofResult tree result).failure = none) :
    result = .ok (Outcome.ofResult tree result).tree := by
  cases result with
  | error failure => cases succeeds
  | ok next => rfl

/-- Data that fits into an open file is laid over it. -/
private theorem writeOpen_eq {file : FileTree.OpenFile}
    (succeeds : (writeOpen tree file offset data).failure = none) :
    writeOpen tree file offset data =
      { tree := tree.put file.location (.file (overlay file.contents offset data))
        failure := none } := by
  unfold writeOpen at succeeds ⊢
  split
  · simp_all
  · split
    · simp_all
    · rfl

/-- A write that succeeds lays its data over the file that is assembled, and no other file
changes. -/
theorem write_spec (rooted : tree.Rooted)
    (succeeds : (write tree text offset data).failure = none) :
    let next := (write tree text offset data).tree
    next.Rooted ∧ KeepsDirectories tree next ∧
      next.find (.ofText (partPath text)) =
        .ok (.file (overlay ((tree.fileAt (partPlace text)).getD []) offset data)) ∧
      (∀ location, location ≠ partPlace text →
        next.fileAt location = tree.fileAt location) ∧
      ∀ location, location ≠ partPlace text →
        (∀ above ∈ (Path.ofText (partPath text)).parent.ancestors, above.place ≠ location) →
          next.get? location = tree.get? location := by
  unfold write at succeeds ⊢
  obtain ⟨_, result⟩ := andThen_failure_eq_none succeeds
  rw [result] at succeeds ⊢
  obtain ⟨made, grows⟩ := FileTree.makeDirectories_grows rooted
    (Path.ofText (partPath text)).parent
  have unmade := FileTree.get?_makeDirectories_of_ne tree (Path.ofText (partPath text)).parent
  generalize (tree.makeDirectories (Path.ofText (partPath text)).parent).tree = housed
    at succeeds made grows unmade ⊢
  cases opened : housed.openFile (Path.ofText (partPath text)) with
  | error failure => simp [opened] at succeeds
  | ok file =>
    obtain ⟨above, name, reached, _, placed, _, old⟩ := FileTree.openFile_eq_ok opened
    have location : file.location = partPlace text :=
      placed.trans (FileTree.place_of_approach reached).symm
    simp only [opened] at succeeds ⊢
    rw [writeOpen_eq succeeds]
    obtain ⟨kept, keeps, found, others⟩ :=
      made.put_openFile opened (overlay file.contents offset data)
    rw [← grows.fileAt, ← location, ← old]
    have outside (other : Location) (elsewhere : other ≠ file.location) :=
      others other fun same => elsewhere (same.trans location.symm)
    refine ⟨kept, grows.keepsDirectories.trans keeps, found, ?_, ?_⟩
    · intro other elsewhere
      exact (FileTree.fileAt_of_get? (outside other elsewhere)).trans (grows.fileAt other)
    · intro other elsewhere apart
      exact (outside other elsewhere).trans (unmade other apart)

inductive Closes (tree : FileTree) (text : String) (next : FileTree) : Prop where
  | moved {contents : Bytes} (found : tree.find (.ofText (partPath text)) = .ok (.file contents))
      (result : next.contents (.ofText text) = .ok contents)
      (others : ∀ location, location ≠ partPlace text → location ≠ (Path.ofText text).place →
        next.get? location = tree.get? location)
      (keeps : KeepsDirectories tree next) (gone : next.get? (partPlace text) = none)
  | carried (found : tree.find (.ofText (partPath text)) = .ok .directory)
      (result : ∀ contents, next.contents (.ofText text) ≠ .ok contents)
      (others : ∀ location, ¬ partPlace text <+: location →
        ¬ (Path.ofText text).place <+: location → next.fileAt location = tree.fileAt location)
      (there : tree.get? (partPlace text) = some .directory)
  | created (missing : ∀ entry, tree.find (.ofText (partPath text)) ≠ .ok entry)
      (result : next.contents (.ofText text) = .ok [])
      (others : ∀ location, location ≠ (Path.ofText text).place →
        next.fileAt location = tree.fileAt location)
      (keeps : KeepsDirectories tree next)
      (unmade : ∀ location, location ≠ (Path.ofText text).place →
        (∀ above ∈ (Path.ofText text).parent.ancestors, above.place ≠ location) →
        next.get? location = tree.get? location)

theorem close_spec (rooted : tree.Rooted) (succeeds : (close tree text).failure = none) :
    (close tree text).tree.Rooted ∧ Closes tree text (close tree text).tree := by
  unfold close at succeeds ⊢
  cases found : tree.find (.ofText (partPath text)) with
  | ok entry =>
    simp only [found] at succeeds ⊢
    have renamed := ofResult_failure_eq_none succeeds
    cases entry with
    | file contents =>
      obtain ⟨kept, keeps, result, gone, others⟩ := rooted.rename_file found renamed
      exact ⟨kept, .moved found result others keeps (gone (partPlace_ne_place text))⟩
    | directory =>
      obtain ⟨kept, there, result, others⟩ := rooted.rename_directory found renamed
      exact ⟨kept, .carried found result others there⟩
  | error failure =>
    simp only [found] at succeeds ⊢
    obtain ⟨_, result⟩ := andThen_failure_eq_none succeeds
    rw [result] at succeeds ⊢
    obtain ⟨made, grows⟩ := FileTree.makeDirectories_grows rooted (Path.ofText text).parent
    have unmade := FileTree.get?_makeDirectories_of_ne tree (Path.ofText text).parent
    generalize (tree.makeDirectories (Path.ofText text).parent).tree = housed
      at succeeds made grows unmade ⊢
    obtain ⟨kept, keeps, placed, others⟩ := made.store (ofResult_failure_eq_none succeeds)
    refine ⟨kept, .created (by simp [found]) (FileTree.contents_eq_ok_iff.mpr placed) ?_
      (grows.keepsDirectories.trans keeps) ?_⟩
    · intro location elsewhere
      exact (FileTree.fileAt_of_get? (others location elsewhere)).trans (grows.fileAt location)
    · intro location elsewhere apart
      exact (others location elsewhere).trans (unmade location apart)

theorem fileAt_write_of_apart {other : String} (rooted : tree.Rooted) (apart : Apart text other)
    (succeeds : (write tree text offset data).failure = none) :
    (write tree text offset data).tree.fileAt (partPlace other) =
      tree.fileAt (partPlace other) :=
  (write_spec rooted succeeds).2.2.2.1 _ apart.partPlaces.symm

/-- A close of a path where a directory is assembled moves whatever is at a location, or puts
something there. -/
def Carries (tree : FileTree) (text : String) (location : Location) : Prop :=
  tree.find (.ofText (partPath text)) = .ok .directory ∧
    (partPlace text <+: location ∨ (Path.ofText text).place <+: location)

/-- A close of another path leaves the file that is assembled as it is, unless it carries a
directory with it. -/
theorem fileAt_close_of_apart {other : String} (rooted : tree.Rooted) (apart : Apart text other)
    (succeeds : (close tree text).failure = none)
    (steady : ¬ Carries tree text (partPlace other)) :
    (close tree text).tree.fileAt (partPlace other) = tree.fileAt (partPlace other) := by
  cases (close_spec rooted succeeds).2 with
  | moved _ _ others =>
    exact FileTree.fileAt_of_get? (others _ apart.partPlaces.symm apart.assembles.symm)
  | carried found _ others =>
    obtain ⟨kept, outside⟩ := not_or.mp fun moves => steady ⟨found, moves⟩
    exact others _ kept outside
  | created _ _ others => exact others _ apart.assembles.symm

end PartStore

end ChunkExchange
