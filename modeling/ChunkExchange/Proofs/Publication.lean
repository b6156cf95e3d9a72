import ChunkExchange.Proofs.StoreCalls

namespace ChunkExchange.PartStore

open FileTree (Keeps)

/-- Two texts that spell one path. -/
def SamePath (first second : String) : Prop :=
  Path.ofText (partPath first) = Path.ofText (partPath second)

instance (first second : String) : Decidable (SamePath first second) :=
  inferInstanceAs (Decidable (_ = _))

theorem SamePath.partPlace {first second : String} (same : SamePath first second) :
    partPlace first = partPlace second :=
  congrArg Path.place same

private theorem Apart.not_samePath {first second : String} (apart : Apart first second) :
    ¬ SamePath first second :=
  fun same => apart.partPlaces same.partPlace

def Call.pending (path : String) (pieces : List Piece) : Call → List Piece
  | .write other offset data =>
    if SamePath other path then pieces ++ [⟨offset, data⟩] else pieces
  | .close other => if SamePath other path then [] else pieces
  | .read .. => pieces

/-- What was written for a path since it was closed for the last time, in order. -/
def pending (path : String) (calls : List Call) : List Piece :=
  calls.foldl (Call.pending path) []

/-- The calls succeed, different paths of theirs do not lead to one file, also while files are
assembled for them, and no such file is there before. -/
structure Orderly (start : FileTree) (calls : List Call) : Prop where
  rooted : start.Rooted
  succeeds : (run start calls).failure = none
  apart : ∀ first ∈ calls, ∀ second ∈ calls,
    SamePath first.path second.path ∨ Apart first.path second.path
  fresh : ∀ call ∈ calls, start.fileAt (partPlace call.path) = none

/-- The file that is assembled for a path consists of some pieces. Without any it is not there. -/
inductive Assembles (tree : FileTree) (path : String) : List Piece → Prop where
  | nothing (free : tree.fileAt (partPlace path) = none) : Assembles tree path []
  | something {pieces : List Piece} (filled : pieces ≠ [])
      (found : tree.contents (.ofText (partPath path)) = .ok (assembled pieces)) :
      Assembles tree path pieces

/-- The file at a path consists of the pieces that were written for it, the file that was assembled
is gone, and those of other paths are left alone. -/
structure Published (path : String) (pieces : List Piece) (used : List String)
    (before after : FileTree) : Prop where
  contents : after.contents (.ofText path) = .ok (assembled pieces)
  unassembled : after.fileAt (partPlace path) = none
  /-- Nothing is left, unless the path leads through the place of the file that is assembled. -/
  gone : before.get? (partPlace path) ≠ some .directory →
    (∀ above ∈ (Path.ofText path).parent.ancestors, above.place ≠ partPlace path) →
      after.get? (partPlace path) = none
  finals : ∀ other ∈ used, ¬ SamePath path other → Keeps (.ofText other) before after
  parts : ∀ other ∈ used, ¬ SamePath path other → Keeps (.ofText (partPath other)) before after

/-- What a call does after others to the files of the paths that are used. -/
inductive Publishes (used : List String) (earlier : List Call) (before after : FileTree) :
    Call → Prop where
  | write {path : String} {offset : Nat} {data : Bytes}
      (finals : ∀ other ∈ used, Keeps (.ofText other) before after)
      (parts : ∀ other ∈ used, ¬ SamePath path other →
        Keeps (.ofText (partPath other)) before after)
      (assembles : after.contents (.ofText (partPath path)) =
        .ok (assembled (pending path earlier ++ [⟨offset, data⟩]))) :
      Publishes used earlier before after (.write path offset data)
  | close {path : String}
      (publishes : before.find (.ofText (partPath path)) ≠ .ok .directory →
        Published path (pending path earlier) used before after)
      (carries : before.find (.ofText (partPath path)) = .ok .directory →
        ∀ contents, after.contents (.ofText path) ≠ .ok contents) :
      Publishes used earlier before after (.close path)
  | read {portion : Nat → Nat} {path : String} {offset : Nat} {buffer : Bytes} {filled : Filled}
      (result : PartStore.read portion before path offset buffer = .ok filled)
      (same : after = before) (fills : Fills before path offset buffer filled) :
      Publishes used earlier before after (.read portion path offset buffer)

variable {tree start : FileTree} {path other : String} {call : Call} {calls later : List Call}
variable {pieces : List Piece}

private theorem pending_append_singleton (path : String) (calls : List Call) (call : Call) :
    pending path (calls ++ [call]) = call.pending path (pending path calls) := by
  rw [pending, List.foldl_append]
  rfl

namespace Call

private theorem pending_of_not_samePath (different : ¬ SamePath call.path path)
    (pieces : List Piece) : call.pending path pieces = pieces := by
  cases call with
  | write | close => exact if_neg different
  | read => rfl

private theorem partPlace_not_mem_touched (apart : Apart call.path other) :
    partPlace other ∉ call.touched := by
  cases call with
  | write path offset data => simpa [touched, Call.path] using apart.partPlaces.symm
  | close path => simpa [touched, Call.path] using ⟨apart.partPlaces.symm, apart.assembles.symm⟩
  | read portion path offset buffer => exact List.not_mem_nil

private theorem place_not_mem_touched (apart : Apart call.path other) :
    (Path.ofText other).place ∉ call.touched := by
  cases call with
  | write path offset data => simpa [touched, Call.path] using apart.assembled.symm
  | close path => simpa [touched, Call.path] using ⟨apart.assembled.symm, apart.places.symm⟩
  | read portion path offset buffer => exact List.not_mem_nil

end Call

namespace Assembles

theorem keeps {after : FileTree} (assembles : Assembles tree path pieces)
    (keeps : Keeps (.ofText (partPath path)) tree after) : Assembles after path pieces := by
  cases assembles with
  | nothing free => exact .nothing (keeps.file.trans free)
  | something filled found => exact .something filled (keeps.reach _ found)

private theorem of_samePath (same : SamePath other path) (assembles : Assembles tree path pieces) :
    Assembles tree other pieces := by
  cases assembles with
  | nothing free => exact .nothing (same.partPlace ▸ free)
  | something filled found => exact .something filled (same ▸ found)

private theorem fileAt_getD (assembles : Assembles tree path pieces) :
    (tree.fileAt (partPlace path)).getD [] = assembled pieces := by
  cases assembles with
  | nothing free =>
    rw [free]
    rfl
  | something filled found =>
    rw [partPlace, FileTree.fileAt_of_contents found, Option.getD_some]

private theorem contents_write {offset : Nat} {data : Bytes}
    (assembles : Assembles tree path pieces)
    (rooted : tree.Rooted) (succeeds : (write tree path offset data).failure = none) :
    (write tree path offset data).tree.contents (.ofText (partPath path)) =
      .ok (assembled (pieces ++ [⟨offset, data⟩])) := by
  obtain ⟨_, _, found, _⟩ := write_spec rooted succeeds
  rw [assembles.fileAt_getD] at found
  rw [FileTree.contents_eq_ok_iff, found, ← overlay_assembled pieces ⟨offset, data⟩]

theorem close (assembles : Assembles tree path pieces) (rooted : tree.Rooted)
    (succeeds : (PartStore.close tree path).failure = none)
    (safe : tree.find (.ofText (partPath path)) ≠ .ok .directory) :
    let after := (PartStore.close tree path).tree
    after.contents (.ofText path) = .ok (assembled pieces) ∧
      after.fileAt (partPlace path) = none ∧
      (tree.get? (partPlace path) ≠ some .directory →
        (∀ above ∈ (Path.ofText path).parent.ancestors, above.place ≠ partPlace path) →
          after.get? (partPlace path) = none) := by
  cases (close_spec rooted succeeds).2 with
  | moved found result others keeps gone =>
    have present := FileTree.fileAt_of_contents (FileTree.contents_eq_ok_iff.mpr found)
    have whole := assembles.fileAt_getD
    rw [partPlace, present, Option.getD_some] at whole
    refine ⟨whole ▸ result, ?_, fun _ _ => gone⟩
    rw [FileTree.fileAt, gone]
  | carried found => exact absurd found safe
  | created missing result others keeps unmade =>
    cases assembles with
    | nothing free =>
      refine ⟨result, (others _ (partPlace_ne_place path)).trans free, ?_⟩
      intro nowhere plain
      rw [unmade _ (partPlace_ne_place path) plain]
      cases present : tree.get? (partPlace path) with
      | none => rfl
      | some entry =>
        cases entry with
        | directory => exact absurd present nowhere
        | file contents =>
          rw [FileTree.fileAt_eq_some_iff.mpr present] at free
          cases free
    | something filled found =>
      exact absurd (FileTree.contents_eq_ok_iff.mp found) (missing _)

/-- One call more: a write adds its piece, a close takes all pieces away, and what is called for
other paths changes nothing. -/
theorem perform (assembles : Assembles tree path pieces) (rooted : tree.Rooted)
    (succeeds : (call.perform tree).failure = none) (safe : call.Safe tree)
    (apart : SamePath call.path path ∨ Apart call.path path) :
    Assembles (call.perform tree).tree path (call.pending path pieces) := by
  rcases apart with same | apart
  · cases call with
    | write other offset data =>
      change SamePath other path at same
      rw [Call.pending, if_pos same]
      have own := (assembles.of_samePath same).contents_write rooted succeeds
      exact .something (by simp) (same ▸ own)
    | close other =>
      change SamePath other path at same
      rw [Call.pending, if_pos same]
      obtain ⟨_, free, _⟩ := (assembles.of_samePath same).close rooted succeeds safe
      exact .nothing (same.partPlace ▸ free)
    | read portion other offset buffer =>
      rw [(Call.read_perform succeeds).1]
      exact assembles
  · rw [Call.pending_of_not_samePath apart.not_samePath]
    exact assembles.keeps
      (Call.keeps_perform rooted succeeds safe (Call.partPlace_not_mem_touched apart))

end Assembles

/-- After any calls that close no directory the file that is assembled for a path consists of what
was written since the path was closed. -/
theorem assembles_run (rooted : start.Rooted) (fresh : start.fileAt (partPlace path) = none)
    (succeeds : (run start calls).failure = none) (safe : Safe start calls)
    (apart : ∀ call ∈ calls, SamePath call.path path ∨ Apart call.path path) :
    Assembles (run start calls).tree path (pending path calls) := by
  induction calls using List.reverseRecOn with
  | nil => exact .nothing fresh
  | append_singleton calls call ih =>
    obtain ⟨earlier, own, last⟩ := run_append_singleton succeeds
    obtain ⟨others, spared⟩ := (safe_append_singleton_iff earlier).mp safe
    have before := ih earlier others fun other listed =>
      apart other (List.mem_append_left _ listed)
    rw [last, pending_append_singleton]
    exact before.perform (rooted_run rooted earlier) own spared (apart call (by simp))

def Call.ways (call : Call) : List Path :=
  (Path.ofText call.path).parent.ancestors ++ (Path.ofText (partPath call.path)).parent.ancestors

/-- Nothing is where files are assembled before, and no path leads through there. -/
structure Clear (start : FileTree) (calls : List Call) : Prop where
  free : ∀ call ∈ calls, start.get? (partPlace call.path) = none
  around : ∀ first ∈ calls, ∀ second ∈ calls, ∀ above ∈ first.ways,
    above.place ≠ partPlace second.path

namespace Call

private theorem safe_of_get?_ne (rooted : tree.Rooted)
    (succeeds : (call.perform tree).failure = none)
    (regular : tree.get? (partPlace call.path) ≠ some .directory) : call.Safe tree := by
  cases call with
  | write | read => trivial
  | close path =>
    intro directory
    cases (close_spec rooted succeeds).2 with
    | moved found =>
      rw [directory] at found
      cases found
    | carried _ _ _ there => exact regular there
    | created missing => exact missing _ directory

/-- A call makes no directory where a file is assembled, unless its path leads through there. -/
theorem get?_perform_ne (rooted : tree.Rooted) (succeeds : (call.perform tree).failure = none)
    (safe : call.Safe tree) (apart : SamePath call.path path ∨ Apart call.path path)
    (around : ∀ above ∈ call.ways, above.place ≠ partPlace path)
    (regular : tree.get? (partPlace path) ≠ some .directory) :
    (call.perform tree).tree.get? (partPlace path) ≠ some .directory := by
  cases call with
  | write other offset data =>
    obtain ⟨_, _, found, _, unmade⟩ := write_spec rooted succeeds
    by_cases own : partPlace path = partPlace other
    · rw [own, perform, partPlace, FileTree.get?_place_of_find found]
      simp
    · rw [perform, unmade _ own fun above listed => around above (List.mem_append_right _ listed)]
      exact regular
  | close other =>
    have elsewhere : partPlace path ≠ (Path.ofText other).place := by
      rcases apart with same | apart
      · rw [← same.partPlace]
        exact partPlace_ne_place other
      · exact apart.assembles.symm
    cases (close_spec rooted succeeds).2 with
    | moved _ _ others _ gone =>
      by_cases own : partPlace path = partPlace other
      · rw [own, perform, gone]
        simp
      · rw [perform, others _ own elsewhere]
        exact regular
    | carried found => exact absurd found safe
    | created _ _ _ _ unmade =>
      rw [perform, unmade _ elsewhere
        fun above listed => around above (List.mem_append_left _ listed)]
      exact regular
  | read portion other offset buffer =>
    rw [(read_perform succeeds).1]
    exact regular

end Call

/-- Where no path leads through the place of a file that is assembled, no directory ever is at such
a place, and none is closed. -/
theorem Clear.safe (clear : Clear start calls) (orderly : Orderly start calls)
    {front back : List Call} (whole : calls = front ++ back) :
    Safe start front ∧
      ∀ call ∈ calls, (run start front).tree.get? (partPlace call.path) ≠ some .directory := by
  obtain ⟨rooted, succeeds, apart, _⟩ := orderly
  induction front using List.reverseRecOn generalizing back with
  | nil =>
    refine ⟨trivial, ?_⟩
    intro call listed
    rw [run, clear.free call listed]
    simp
  | append_singleton front call ih =>
    have listed : call ∈ calls := by simp [whole]
    rw [whole, run_append] at succeeds
    obtain ⟨earlier, own, last⟩ := run_append_singleton (andThen_failure_eq_none succeeds).1
    rw [List.append_assoc, List.singleton_append] at whole
    obtain ⟨safe, regular⟩ := ih whole
    have housed := rooted_run rooted earlier
    have spared := call.safe_of_get?_ne housed own (regular call listed)
    refine ⟨(safe_append_singleton_iff earlier).mpr ⟨safe, spared⟩, ?_⟩
    intro other member
    rw [last]
    exact call.get?_perform_ne housed own spared (apart call listed other member)
      (clear.around call listed other member) (regular other member)

theorem Call.keeps_other (rooted : tree.Rooted) (succeeds : (call.perform tree).failure = none)
    (safe : call.Safe tree) (apart : Apart call.path other) :
    Keeps (.ofText other) tree (call.perform tree).tree ∧
      Keeps (.ofText (partPath other)) tree (call.perform tree).tree :=
  ⟨call.keeps_perform rooted succeeds safe (place_not_mem_touched apart),
    call.keeps_perform rooted succeeds safe (partPlace_not_mem_touched apart)⟩

theorem Call.publishes {used : List String} (rooted : tree.Rooted)
    (succeeds : (call.perform tree).failure = none)
    (assembles : Assembles tree call.path (PartStore.pending call.path calls))
    (kin : ∀ other ∈ used, SamePath call.path other ∨ Apart call.path other) :
    Publishes used calls tree (call.perform tree).tree call := by
  have others (other : String) (member : other ∈ used) (different : ¬ SamePath call.path other)
      (safe : call.Safe tree) :=
    call.keeps_other rooted succeeds safe ((kin other member).resolve_left different)
  cases call with
  | write path offset data =>
    refine .write ?_ (fun other member different => (others other member different trivial).2)
      (assembles.contents_write rooted succeeds)
    intro other member
    by_cases same : SamePath path other
    · -- The file that is assembled for a path is never the one at the path.
      have place := place_eq_of_partPlace same.partPlace
      apply keeps_perform rooted succeeds trivial
      simpa [touched, ← place] using (partPlace_ne_place path).symm
    · exact (others other member same trivial).1
  | close path =>
    refine .close ?_ ?_
    · intro regular
      obtain ⟨contents, unassembled, gone⟩ := assembles.close rooted succeeds regular
      exact ⟨contents, unassembled, gone,
        fun other member different => (others other member different regular).1,
        fun other member different => (others other member different regular).2⟩
    · intro directory
      cases (close_spec rooted succeeds).2 with
      | moved found =>
        rw [directory] at found
        cases found
      | carried _ result => exact result
      | created missing => exact absurd directory (missing _)
  | read portion path offset buffer =>
    obtain ⟨same, filled, result⟩ := read_perform succeeds
    exact .read result same (fills_read result)

/-- In a run a final file changes only when it is closed, and consists then of what was written for
it since it was closed before, as long as no directory is closed. A read brings what is there.
Where no path leads through the place of a file that is assembled, no directory is there or is
closed. -/
theorem run_publishes (start : FileTree) (calls : List Call) (call : Call)
    (later : List Call) (orderly : Orderly start (calls ++ call :: later)) :
    (Safe start calls →
      Publishes ((calls ++ call :: later).map Call.path) calls (run start calls).tree
        (run start (calls ++ [call])).tree call) ∧
      (Clear start (calls ++ call :: later) → Safe start (calls ++ [call]) ∧
        ∀ other ∈ calls ++ call :: later,
          (run start calls).tree.get? (partPlace other.path) ≠ some .directory) := by
  refine ⟨fun safe => ?_, fun clear =>
    ⟨(clear.safe orderly (List.append_cons ..)).1, (clear.safe orderly rfl).2⟩⟩
  obtain ⟨rooted, succeeds, apart, fresh⟩ := orderly
  have listed : call ∈ calls ++ call :: later := by simp
  rw [List.append_cons, run_append] at succeeds
  obtain ⟨earlier, own, last⟩ := run_append_singleton (andThen_failure_eq_none succeeds).1
  have assembles : Assembles (run start calls).tree call.path (pending call.path calls) :=
    assembles_run rooted (fresh call listed) earlier safe
      fun other member => apart other (List.mem_append_left _ member) call listed
  rw [last]
  refine call.publishes (rooted_run rooted earlier) own assembles ?_
  intro other used
  obtain ⟨user, member, path⟩ := List.mem_map.mp used
  exact path ▸ apart call listed user member

/-- After a file was closed, it is written anew, with a gap and from back to front, while another
one is written too. -/
def rewriting : List Call :=
  [.write "a/b" 0 [120], .close "a/b", .write "a/b" 4 [53, 54], .write "c" 0 [55],
    .write "./a//b" 0 [49, 50]]

theorem run_publishes_rewriting :
    let final := (run .empty (rewriting ++ [.close "a/b"])).tree
    pending "a/b" rewriting = [⟨4, [53, 54]⟩, ⟨0, [49, 50]⟩] ∧
      final.contents (.ofText "a/b") = .ok [49, 50, 0, 0, 53, 54] ∧
      Publishes ["a/b", "a/b", "a/b", "c", "./a//b", "a/b", "c"] rewriting
        (run .empty rewriting).tree final (.close "a/b") ∧
      Safe .empty (rewriting ++ [.close "a/b"]) := by
  intro final
  obtain ⟨publishes, safe⟩ := run_publishes .empty rewriting (.close "a/b") [.write "c" 1 [56]]
    ⟨FileTree.rooted_empty, by decide +kernel, by decide +kernel, by decide +kernel⟩
  exact ⟨by decide +kernel, by decide +kernel, publishes (by decide +kernel),
    (safe ⟨by decide +kernel, by decide +kernel⟩).1⟩

/-- Nothing was written for the path that is closed, but the directory that carries the name of the
file that would be assembled gets its name. The file that is assembled in that directory is lost. -/
theorem not_published_directoryInTheWay :
    let calls : List Call := [.write "p.part/q" 0 [119, 120]]
    let final := (run .empty (calls ++ [.close "p"])).tree
    Orderly .empty (calls ++ [.close "p"]) ∧ Safe .empty calls ∧ pending "p" calls = [] ∧
      final.contents (.ofText "p") = .error .isADirectory ∧
      (run .empty calls).tree.fileAt (partPlace "p.part/q") = some [119, 120] ∧
      final.fileAt (partPlace "p.part/q") = none := by
  refine ⟨⟨FileTree.rooted_empty, ?_, ?_, ?_⟩, ?_, ?_, ?_, ?_, ?_⟩ <;> decide +kernel

end ChunkExchange.PartStore
