import ChunkExchange.Proofs.TreeWalk
import ChunkExchange.Storage.PartStore

namespace ChunkExchange

namespace Path

variable {text suffix : List Char}

private theorem parts_of_no_slash (plain : '/' ∉ suffix) : parts suffix = [suffix] := by
  induction suffix with
  | nil => rfl
  | cons c rest ih =>
    obtain ⟨other, later⟩ := not_or.mp (mt List.mem_cons.mpr plain)
    have letter : (c == '/') = false := beq_eq_false_iff_ne.mpr (Ne.symm other)
    simp [parts, letter, ih later]

/-- A suffix without a slash belongs to the last part. -/
private theorem parts_append (plain : '/' ∉ suffix) (text : List Char) :
    ∃ front last, parts text = front ++ [last] ∧
      parts (text ++ suffix) = front ++ [last ++ suffix] := by
  induction text with
  | nil => exact ⟨[], [], rfl, parts_of_no_slash plain⟩
  | cons c rest ih =>
    obtain ⟨front, last, whole, extended⟩ := ih
    cases slash : c == '/' with
    | true => exact ⟨[] :: front, last, by simp [parts, slash, whole],
        by simp [parts, slash, extended]⟩
    | false =>
      cases front with
      | nil => exact ⟨[], c :: last, by simp [parts, slash, whole],
          by simp [parts, slash, extended]⟩
      | cons first others => exact ⟨(c :: first) :: others, last, by simp [parts, slash, whole],
          by simp [parts, slash, extended]⟩

private theorem step?_of_long {name : List Char} (long : 2 < name.length) :
    step? name = some (.down (String.ofList name)) := by
  unfold step?
  split
  · cases long
  · simp at long
  · simp at long
  · rfl

private theorem eq_toList_of_step? {part : List Char} {name : String}
    (named : step? part = some (.down name)) : part = name.toList := by
  unfold step? at named
  split at named
  · cases named
  · cases named
  · cases named
  · cases named
    rw [String.toList_ofList]

end Path

namespace PartStore

/-- Where the file that is assembled for a path is. -/
def partPlace (text : String) : Location :=
  (Path.ofText (partPath text)).place

/-- A path leads to its last part in a directory, where the file that is assembled has the name of
that part with a suffix. -/
theorem place_cases (text : String) : ∃ (steps : List Path.Step) (last : List Char),
    (Path.ofText text).place = Location.after [] (steps ++ (Path.step? last).toList) ∧
      partPlace text = Location.after [] steps ++ [String.ofList (last ++ ".part".toList)] := by
  have plain : '/' ∉ ".part".toList := by decide
  obtain ⟨front, last, whole, extended⟩ := Path.parts_append plain text.toList
  have named : Path.step? (last ++ ".part".toList) =
      some (.down (String.ofList (last ++ ".part".toList))) := by
    apply Path.step?_of_long
    rw [List.length_append]
    have suffix : ".part".toList.length = 5 := by decide
    omega
  refine ⟨front.filterMap Path.step?, last, ?_, ?_⟩
  · rw [Path.place, Path.ofText, whole, List.filterMap_append]
    cases final : Path.step? last <;> simp [final]
  · rw [partPlace, partPath, Path.place, Path.ofText, String.toList_append, extended,
      List.filterMap_append, List.filterMap_cons_some named, List.filterMap_nil,
      Location.after_append]
    rfl

theorem partPlace_ne_place (text : String) : partPlace text ≠ (Path.ofText text).place := by
  intro same
  obtain ⟨steps, last, place, part⟩ := place_cases text
  rw [place, part, Location.after_append] at same
  cases step : Path.step? last with
  | none =>
    rw [step] at same
    exact absurd (congrArg List.length same) (by simp [Location.after])
  | some taken =>
    rw [step] at same
    cases taken with
    | up =>
      have shorter := congrArg List.length same
      simp only [Option.toList_some, Location.after, Location.parent, List.length_append,
        List.length_singleton, List.length_dropLast] at shorter
      omega
    | down name =>
      have named : last = name.toList := Path.eq_toList_of_step? step
      obtain ⟨_, names⟩ := List.append_inj' same rfl
      have longer := congrArg String.length (List.singleton_inj.mp names)
      simp [named] at longer

theorem place_eq_of_partPlace {first second : String}
    (same : partPlace first = partPlace second) :
    (Path.ofText first).place = (Path.ofText second).place := by
  obtain ⟨steps, last, place, part⟩ := place_cases first
  obtain ⟨otherSteps, otherLast, otherPlace, otherPart⟩ := place_cases second
  rw [part, otherPart] at same
  obtain ⟨above, names⟩ := List.append_inj' same rfl
  have lasts := List.append_cancel_right (String.ofList_injective (List.singleton_inj.mp names))
  rw [place, otherPlace, Location.after_append, Location.after_append, above, lasts]

/-- Two paths that do not lead to one file, also while files are assembled for them. -/
structure Apart (first second : String) : Prop where
  places : (Path.ofText first).place ≠ (Path.ofText second).place
  assembled : partPlace first ≠ (Path.ofText second).place
  assembles : (Path.ofText first).place ≠ partPlace second

instance (first second : String) : Decidable (Apart first second) :=
  decidable_of_iff (_ ∧ _ ∧ _)
    ⟨fun ⟨places, assembled, assembles⟩ => ⟨places, assembled, assembles⟩,
      fun apart => ⟨apart.places, apart.assembled, apart.assembles⟩⟩

theorem Apart.symm {first second : String} (apart : Apart first second) : Apart second first :=
  ⟨apart.places.symm, apart.assembles.symm, apart.assembled.symm⟩

theorem Apart.partPlaces {first second : String} (apart : Apart first second) :
    partPlace first ≠ partPlace second :=
  fun same => apart.places (place_eq_of_partPlace same)

end PartStore

end ChunkExchange
