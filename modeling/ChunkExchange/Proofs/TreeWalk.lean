import ChunkExchange.Proofs.Lists
import ChunkExchange.Proofs.TreeShape

namespace ChunkExchange

theorem throw_ne_ok {Failure Value : Type} {failure : Failure} {value : Value} :
    (throw failure : Except Failure Value) ≠ .ok value := by
  simp [throw, throwThe, MonadExceptOf.throw]

/-- The location that a path leads to where nothing is in its way. -/
def Path.place (path : Path) : Location :=
  Location.after [] path.steps

theorem Location.after_append (here : Location) (first second : List Path.Step) :
    here.after (first ++ second) = (here.after first).after second := by
  induction first generalizing here with
  | nil => rfl
  | cons step rest ih =>
    cases step with
    | down name => exact ih (here ++ [name])
    | up => exact ih here.parent

namespace FileTree

variable {tree next last : FileTree} {location above here there : Location} {name : String}
variable {path : Path} {slash : Bool} {entry : Entry} {contents : Bytes}
variable {steps : List Path.Step}

/-- Directories stay directories. -/
def KeepsDirectories (tree next : FileTree) : Prop :=
  ∀ location, tree.get? location = some .directory → next.get? location = some .directory

/-- Directories come where nothing was, and nothing else changes. -/
def Grows (tree next : FileTree) : Prop :=
  ∀ location, next.get? location = tree.get? location ∨
    (tree.get? location = none ∧ next.get? location = some .directory)

theorem KeepsDirectories.trans (first : KeepsDirectories tree next)
    (second : KeepsDirectories next last) : KeepsDirectories tree last :=
  fun location directory => second location (first location directory)

theorem Grows.keepsDirectories (grows : Grows tree next) : KeepsDirectories tree next := by
  intro location directory
  rcases grows location with same | ⟨free, _⟩
  · exact same.trans directory
  · rw [directory] at free
    cases free

theorem Grows.refl (tree : FileTree) : Grows tree tree :=
  fun _ => .inl rfl

theorem Grows.trans (first : Grows tree next) (second : Grows next last) : Grows tree last := by
  intro location
  rcases second location with same | ⟨free, made⟩
  · rw [same]
    exact first location
  · right
    rcases first location with same | ⟨_, directory⟩
    · exact ⟨same ▸ free, made⟩
    · rw [directory] at free
      cases free

theorem look_eq_ok {found : Option Entry} (looked : tree.look above name = .ok found) :
    tree.get? (above ++ [name]) = found ∧ ¬ Path.nameLimit < name.utf8ByteSize := by
  unfold look at looked
  split at looked
  · cases looked
  · rename_i short
    exact ⟨Except.ok.inj looked, short⟩

private theorem look_of_short (short : ¬ Path.nameLimit < name.utf8ByteSize) :
    tree.look above name = .ok (tree.get? (above ++ [name])) := by
  rw [look, if_neg short]

theorem Rooted.get?_walk (rooted : tree.Rooted) (start : tree.get? here = some .directory)
    (walked : tree.walk here steps = .ok there) : tree.get? there = some .directory := by
  fun_induction walk tree here steps with
  | case1 here =>
    cases walked
    exact start
  | case2 here steps ih =>
    apply ih _ walked
    rcases List.eq_nil_or_concat here with root | ⟨higher, name, whole⟩
    · subst root
      rfl
    · subst whole
      rw [List.concat_eq_append] at start ⊢
      rw [Location.parent, List.dropLast_concat]
      exact rooted higher name .directory start
  | case3 | case4 | case5 => cases walked
  | case6 here name steps found ih => exact ih (look_eq_ok found).1 walked

theorem walk_of_keepsDirectories (keeps : KeepsDirectories tree next)
    (walked : tree.walk here steps = .ok there) : next.walk here steps = .ok there := by
  fun_induction walk tree here steps with
  | case1 here => exact walked
  | case2 here steps ih => exact ih walked
  | case3 | case4 | case5 => cases walked
  | case6 here name steps found ih =>
    obtain ⟨directory, short⟩ := look_eq_ok found
    simp only [walk, look_of_short short, keeps _ directory]
    exact ih walked

private theorem approach_eq_entry (reached : tree.approach path = .ok (.entry above name slash)) :
    path.refusal? = none ∧ path.name? = some name ∧
      tree.walk [] path.parent.steps = .ok above ∧ slash = decide (path.ending = .slash) := by
  unfold approach at reached
  split at reached
  · cases reached
  · rename_i last named allowed
    cases walked : tree.walk [] path.parent.steps with
    | error failure => simp [walked, Except.map] at reached
    | ok higher =>
      rw [walked] at reached
      cases reached
      exact ⟨by assumption, by assumption, rfl, rfl⟩
  · cases walked : tree.walk [] path.steps with
    | error failure => simp [walked, Except.map] at reached
    | ok higher => simp [walked, Except.map] at reached

theorem place_of_approach (reached : tree.approach path = .ok (.entry above name slash)) :
    path.place = above ++ [name] := by
  obtain ⟨_, named, walked, _⟩ := approach_eq_entry reached
  have last : path.steps.getLast? = some (.down name) := by
    unfold Path.name? at named
    split at named
    · cases named
    · cases named
      assumption
    · cases named
  obtain ⟨higher, whole⟩ := List.getLast?_eq_some_iff.mp last
  have parent : path.parent.steps = higher := by
    rw [Path.parent, whole, List.dropLast_concat]
  have reachedAbove : above = Location.after [] higher :=
    eq_after_of_walk tree [] above higher (parent ▸ walked)
  rw [Path.place, whole, Location.after_append, ← reachedAbove]
  rfl

theorem Rooted.get?_approach (rooted : tree.Rooted)
    (reached : tree.approach path = .ok (.entry above name slash)) :
    tree.get? above = some .directory :=
  rooted.get?_walk rfl (approach_eq_entry reached).2.2.1

theorem approach_of_keepsDirectories (keeps : KeepsDirectories tree next)
    (reached : tree.approach path = .ok (.entry above name slash)) :
    next.approach path = .ok (.entry above name slash) := by
  obtain ⟨allowed, named, walked, ending⟩ := approach_eq_entry reached
  simp [approach, allowed, named, walk_of_keepsDirectories keeps walked, Except.map, ending]

theorem find_eq_file_iff :
    tree.find path = .ok (.file contents) ↔ ∃ above name,
      tree.approach path = .ok (.entry above name false) ∧
        tree.look above name = .ok (some (.file contents)) := by
  constructor
  · intro found
    simp only [find, bind_eq_ok_iff] at found
    obtain ⟨goal, reached, found⟩ := found
    split at found
    · cases found
    · rename_i above name slash
      simp only [bind_eq_ok_iff] at found
      obtain ⟨present, looked, found⟩ := found
      split at found
      · exact absurd found throw_ne_ok
      · exact absurd found throw_ne_ok
      · rename_i entry slash slashed
        cases found
        cases slash with
        | false => exact ⟨above, name, reached, looked⟩
        | true => exact absurd rfl (slashed contents rfl)
  · rintro ⟨above, name, reached, looked⟩
    simp [find, reached, looked, bind, Except.bind, pure, Except.pure]

theorem contents_eq_ok_iff :
    tree.contents path = .ok contents ↔ tree.find path = .ok (.file contents) := by
  simp only [FileTree.contents, bind_eq_ok_iff]
  constructor
  · rintro ⟨entry, found, result⟩
    split at result
    · cases result
      exact found
    · exact absurd result throw_ne_ok
  · intro found
    exact ⟨_, found, rfl⟩

theorem get?_place_of_find (found : tree.find path = .ok (.file contents)) :
    tree.get? path.place = some (.file contents) := by
  obtain ⟨above, name, reached, looked⟩ := find_eq_file_iff.mp found
  rw [place_of_approach reached]
  exact (look_eq_ok looked).1

theorem eq_of_find {other : Entry} (found : tree.find path = .ok entry)
    (reached : tree.approach path = .ok (.entry above name slash))
    (looked : tree.look above name = .ok (some other)) : entry = other := by
  simp only [find, bind_eq_ok_iff, reached] at found
  obtain ⟨goal, same, found⟩ := found
  cases same
  simp only [bind_eq_ok_iff, looked] at found
  obtain ⟨present, held, found⟩ := found
  cases held
  split at found
  · rename_i missing
    cases missing
  · exact absurd found throw_ne_ok
  · rename_i same _
    cases same
    cases found
    rfl

theorem find_of_approach (reached : tree.approach path = .ok (.entry above name false))
    (short : ¬ Path.nameLimit < name.utf8ByteSize)
    (present : tree.get? path.place = some (.file contents)) :
    tree.find path = .ok (.file contents) := by
  rw [place_of_approach reached] at present
  exact find_eq_file_iff.mpr ⟨above, name, reached, by rw [look_of_short short, present]⟩

/-- The bytes of the file at a location, if there is one. -/
def fileAt (tree : FileTree) (location : Location) : Option Bytes :=
  match tree.get? location with
  | some (.file contents) => some contents
  | _ => none

theorem fileAt_eq_some_iff :
    tree.fileAt location = some contents ↔ tree.get? location = some (.file contents) := by
  unfold fileAt
  split
  · rename_i present found
    simp [found]
  · rename_i other
    constructor
    · intro none
      cases none
    · intro present
      exact absurd present (other contents)

/-- A file that is open is the one at the place of its path, or a new one there. -/
theorem openFile_eq_ok {file : OpenFile} (opened : tree.openFile path = .ok file) :
    ∃ above name, tree.approach path = .ok (.entry above name false) ∧
      ¬ Path.nameLimit < name.utf8ByteSize ∧ file.location = above ++ [name] ∧
      tree.get? file.location ≠ some .directory ∧
      file.contents = (tree.fileAt file.location).getD [] := by
  simp only [openFile, bind_eq_ok_iff] at opened
  obtain ⟨goal, reached, opened⟩ := opened
  split at opened
  · exact absurd opened throw_ne_ok
  · exact absurd opened throw_ne_ok
  · rename_i above name
    simp only [bind_eq_ok_iff] at opened
    obtain ⟨present, looked, opened⟩ := opened
    obtain ⟨here, short⟩ := look_eq_ok looked
    refine ⟨above, name, reached, short, ?_⟩
    split at opened
    · exact absurd opened throw_ne_ok
    · cases opened
      simp [fileAt, here]
    · cases opened
      simp [fileAt, here]

private theorem get?_makeDirectory_of_ne (elsewhere : path.place ≠ location) :
    (Outcome.ofResult tree (tree.makeDirectory path)).tree.get? location =
      tree.get? location := by
  cases made : tree.makeDirectory path with
  | error failure => rfl
  | ok next =>
    simp only [makeDirectory, bind_eq_ok_iff] at made
    obtain ⟨goal, reached, made⟩ := made
    split at made
    · cases made
      rfl
    · rename_i above name slash
      simp only [bind_eq_ok_iff] at made
      obtain ⟨present, _, made⟩ := made
      rw [place_of_approach reached] at elsewhere
      split at made
      · cases made
        rfl
      · exact absurd made throw_ne_ok
      · cases made
        exact get?_put_ne (Ne.symm elsewhere)

private theorem get?_makeLine_of_ne {paths : List Path}
    (elsewhere : ∀ path ∈ paths, path.place ≠ location) :
    (tree.makeLine paths).tree.get? location = tree.get? location := by
  induction paths generalizing tree with
  | nil => rfl
  | cons path rest ih =>
    have own := elsewhere path List.mem_cons_self
    have above : (tree.makeLine rest).tree.get? location = tree.get? location :=
      ih fun other listed => elsewhere other (List.mem_cons_of_mem path listed)
    unfold makeLine
    split
    · unfold Outcome.andThen
      split
      · exact above
      · exact (get?_makeDirectory_of_ne own).trans above
    · exact get?_makeDirectory_of_ne own

/-- Making a directory with everything above it puts nothing elsewhere. -/
theorem get?_makeDirectories_of_ne (tree : FileTree) (path : Path) (location : Location)
    (elsewhere : ∀ above ∈ path.ancestors, above.place ≠ location) :
    (tree.makeDirectories path).tree.get? location = tree.get? location :=
  get?_makeLine_of_ne elsewhere

private theorem makeDirectory_eq_ok (rooted : tree.Rooted)
    (made : tree.makeDirectory path = .ok next) : next.Rooted ∧ Grows tree next := by
  simp only [makeDirectory, bind_eq_ok_iff] at made
  obtain ⟨goal, reached, made⟩ := made
  split at made
  · cases made
    exact ⟨rooted, .refl tree⟩
  · rename_i above name slash
    simp only [bind_eq_ok_iff] at made
    obtain ⟨present, looked, made⟩ := made
    obtain ⟨here, _⟩ := look_eq_ok looked
    split at made
    · cases made
      exact ⟨rooted, .refl tree⟩
    · exact absurd made throw_ne_ok
    · cases made
      refine ⟨rooted.put (rooted.get?_approach reached) (fun _ => rfl), ?_⟩
      intro location
      by_cases same : location = above ++ [name]
      · subst same
        exact .inr ⟨here, get?_put_self (by simp)⟩
      · exact .inl (get?_put_ne same)

private theorem makeDirectory_ofResult (rooted : tree.Rooted) (path : Path) :
    (Outcome.ofResult tree (tree.makeDirectory path)).tree.Rooted ∧
      Grows tree (Outcome.ofResult tree (tree.makeDirectory path)).tree := by
  cases made : tree.makeDirectory path with
  | error failure => exact ⟨rooted, .refl tree⟩
  | ok next => exact makeDirectory_eq_ok rooted made

private theorem makeLine_grows (rooted : tree.Rooted) (paths : List Path) :
    (tree.makeLine paths).tree.Rooted ∧ Grows tree (tree.makeLine paths).tree := by
  induction paths generalizing tree with
  | nil => exact ⟨rooted, .refl tree⟩
  | cons path rest ih =>
    unfold makeLine
    split
    · obtain ⟨kept, grown⟩ := ih rooted
      unfold Outcome.andThen
      split
      · exact ⟨kept, grown⟩
      · obtain ⟨final, added⟩ := makeDirectory_ofResult kept path
        exact ⟨final, grown.trans added⟩
    · exact makeDirectory_ofResult rooted path

/-- Making a directory with everything above it adds at most directories where nothing was. -/
theorem makeDirectories_grows (rooted : tree.Rooted) (path : Path) :
    (tree.makeDirectories path).tree.Rooted ∧ Grows tree (tree.makeDirectories path).tree :=
  makeLine_grows rooted path.ancestors

end FileTree

end ChunkExchange
