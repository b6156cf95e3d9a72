import ChunkExchange.Fetcher
import ChunkExchange.Proofs.DownloadKin
import ChunkExchange.Proofs.Lists

namespace ChunkExchange.Fetcher

variable {fetcher before middle after : Fetcher} {download other next : Download} {file : File}
variable {ticket : Ticket}

/-- No two active files share an identifier. -/
def Distinct (downloads : List Download) : Prop :=
  (downloads.map (fun download => download.file.id)).Nodup

theorem mem_of_download? (found : fetcher.download? file = some download) :
    download ∈ fetcher.downloads ∧ download.file = file := by
  refine ⟨List.mem_of_find?_eq_some found, ?_⟩
  have selected := List.find?_some found
  exact beq_iff_eq.mp selected

theorem download?_eq_none_iff :
    fetcher.download? file = none ↔ ∀ download ∈ fetcher.downloads, download.file ≠ file := by
  simp [download?, List.find?_eq_none]

theorem isActive_eq_false_iff :
    fetcher.isActive file = false ↔ ∀ download ∈ fetcher.downloads, download.file ≠ file := by
  simp [isActive, download?]

theorem isActive_iff :
    fetcher.isActive file = true ↔ ∃ download ∈ fetcher.downloads, download.file = file := by
  rw [← Bool.not_eq_false, isActive_eq_false_iff]
  simp

theorem eq_of_id {downloads : List Download} (distinct : Distinct downloads)
    (left : download ∈ downloads) (right : other ∈ downloads)
    (same : download.file.id = other.file.id) : download = other := by
  induction downloads with
  | nil => cases left
  | cons head rest ih =>
    have split := List.nodup_cons.mp distinct
    rcases List.mem_cons.mp left with own | later
    · rcases List.mem_cons.mp right with alike | further
      · exact own.trans alike.symm
      · subst own
        exact absurd (List.mem_map.mpr ⟨other, further, same.symm⟩) split.1
    · rcases List.mem_cons.mp right with alike | further
      · subst alike
        exact absurd (List.mem_map.mpr ⟨download, later, same⟩) split.1
      · exact ih split.2 later further

theorem download?_of_mem (distinct : Distinct fetcher.downloads)
    (member : download ∈ fetcher.downloads) :
    fetcher.download? download.file = some download := by
  cases found : fetcher.download? download.file with
  | none => exact absurd rfl (download?_eq_none_iff.mp found download member)
  | some other =>
    obtain ⟨present, same⟩ := mem_of_download? found
    rw [eq_of_id distinct present member (by rw [same])]

theorem mem_replace :
    other ∈ (fetcher.replace next).downloads ↔
      (other ∈ fetcher.downloads ∧ other.file ≠ next.file) ∨
        (other = next ∧ ∃ download ∈ fetcher.downloads, download.file = next.file) := by
  simp only [replace, List.mem_map]
  constructor
  · rintro ⟨download, member, changed⟩
    by_cases same : download.file = next.file
    · rw [if_pos (beq_iff_eq.mpr same)] at changed
      exact .inr ⟨changed.symm, download, member, same⟩
    · rw [if_neg (fun equal => same (beq_iff_eq.mp equal))] at changed
      subst changed
      exact .inl ⟨member, same⟩
  · rintro (⟨member, different⟩ | ⟨same, download, member, alike⟩)
    · exact ⟨other, member, if_neg (fun equal => different (beq_iff_eq.mp equal))⟩
    · subst same
      exact ⟨download, member, if_pos (beq_iff_eq.mpr alike)⟩

theorem distinct_replace (distinct : Distinct fetcher.downloads) :
    Distinct (fetcher.replace next).downloads := by
  have ids : (fetcher.replace next).downloads.map (fun download => download.file.id) =
      fetcher.downloads.map (fun download => download.file.id) := by
    simp only [replace, List.map_map]
    apply List.map_congr_left
    intro download _
    by_cases same : download.file = next.file
    · simp [same]
    · simp [same]
  unfold Distinct
  rw [ids]
  exact distinct

theorem download?_replace (distinct : Distinct fetcher.downloads)
    (member : download ∈ fetcher.downloads) (next : Download)
    (same : next.file = download.file) (file : File) :
    (fetcher.replace next).download? file =
      if next.file = file then some next else fetcher.download? file := by
  by_cases own : next.file = file
  · rw [if_pos own, ← own]
    exact download?_of_mem (distinct_replace distinct)
      (mem_replace.mpr (.inr ⟨rfl, download, member, same.symm⟩))
  · rw [if_neg own]
    cases found : fetcher.download? file with
    | none =>
      rw [download?_eq_none_iff] at found ⊢
      intro other listed
      rcases mem_replace.mp listed with ⟨present, _⟩ | ⟨rfl, _⟩
      · exact found other present
      · exact own
    | some holder =>
      obtain ⟨present, rfl⟩ := mem_of_download? found
      exact download?_of_mem (distinct_replace distinct)
        (mem_replace.mpr (.inl ⟨present, Ne.symm own⟩))

theorem ne_of_distinct {front back : List Download}
    (distinct : Distinct (front ++ download :: back)) (listed : other ∈ front ++ back) :
    other.file ≠ download.file :=
  fun same => ne_of_nodup_map distinct listed (congrArg File.id same)

/-- The place of an active download, where it is replaced or dropped alone. -/
theorem split_of_mem (distinct : Distinct fetcher.downloads)
    (member : download ∈ fetcher.downloads) :
    ∃ front back, fetcher.downloads = front ++ download :: back ∧
      (∀ next : Download, next.file = download.file →
        (fetcher.replace next).downloads = front ++ next :: back) ∧
      (fetcher.drop download.file).downloads = front ++ back := by
  obtain ⟨front, back, whole⟩ := List.append_of_mem member
  rw [whole] at distinct
  have before (other : Download) (listed : other ∈ front) : other.file ≠ download.file :=
    ne_of_distinct distinct (List.mem_append_left back listed)
  have behind (other : Download) (listed : other ∈ back) : other.file ≠ download.file :=
    ne_of_distinct distinct (List.mem_append_right front listed)
  refine ⟨front, back, whole, ?_, ?_⟩
  · intro next same
    have kept (part : List Download) (apart : ∀ other ∈ part, other.file ≠ download.file) :
        part.map (fun other => if other.file == next.file then next else other) = part := by
      refine (List.map_congr_left (g := id) ?_).trans (List.map_id part)
      intro other listed
      simp [same, apart other listed]
    simp only [replace, whole, List.map_append, List.map_cons, kept front before,
      kept back behind]
    simp [same]
  · have kept (part : List Download) (apart : ∀ other ∈ part, other.file ≠ download.file) :
        part.filter (fun other => !(other.file == download.file)) = part := by
      rw [List.filter_eq_self]
      intro other listed
      simp [apart other listed]
    simp only [drop, whole, List.filter_append, kept front before]
    simp [kept back behind]

/-- What a download has in common with the one that replaces it, all have. -/
theorem map_replace {Kept : Type} {kept : Download → Kept} (distinct : Distinct fetcher.downloads)
    (member : download ∈ fetcher.downloads) (same : next.file = download.file)
    (alike : kept next = kept download) :
    (fetcher.replace next).downloads.map kept = fetcher.downloads.map kept := by
  obtain ⟨front, back, whole, replaced, _⟩ := split_of_mem distinct member
  rw [replaced next same, whole, List.map_append, List.map_append, List.map_cons, List.map_cons,
    alike]

def total (weight : Download → Nat) (downloads : List Download) : Nat :=
  (downloads.map weight).foldr (· + ·) 0

theorem total_append_cons (weight : Download → Nat) (front back : List Download)
    (download : Download) : total weight (front ++ download :: back) =
      weight download + total weight (front ++ back) := by
  induction front with
  | nil => rfl
  | cons head rest ih =>
    simp only [total, List.cons_append, List.map_cons, List.foldr_cons] at ih ⊢
    omega

theorem total_add_length_le {weight bound : Download → Nat} {downloads : List Download}
    (less : ∀ download ∈ downloads, weight download < bound download) :
    total weight downloads + downloads.length ≤ total bound downloads := by
  induction downloads with
  | nil => exact Nat.le_refl _
  | cons head rest ih =>
    have first := less head List.mem_cons_self
    have others := ih (fun download listed => less download (List.mem_cons_of_mem head listed))
    simp only [total, List.map_cons, List.foldr_cons, List.length_cons] at others ⊢
    omega

theorem mem_drop :
    download ∈ (fetcher.drop file).downloads ↔
      download ∈ fetcher.downloads ∧ download.file ≠ file := by
  simp [drop]

theorem insertInOrder_perm (download : Download) (downloads : List Download) :
    (insertInOrder download downloads).Perm (download :: downloads) := by
  induction downloads with
  | nil => exact .refl _
  | cons head rest ih =>
    unfold insertInOrder
    split
    · exact .refl _
    · exact (ih.cons head).trans (.swap download head rest)

theorem mem_insertInOrder {downloads : List Download} :
    other ∈ insertInOrder download downloads ↔ other = download ∨ other ∈ downloads := by
  rw [(insertInOrder_perm download downloads).mem_iff, List.mem_cons]

theorem foldl_drop (files : List File) (fetcher : Fetcher) :
    (files.foldl drop fetcher).options = fetcher.options ∧
      (files.foldl drop fetcher).peers = fetcher.peers ∧
      (files.foldl drop fetcher).downloads =
        fetcher.downloads.filter (fun download => !files.contains download.file) ∧
      (files.foldl drop fetcher).tickets =
        fetcher.tickets.filter (fun ticket => !files.contains ticket.file) := by
  induction files generalizing fetcher with
  | nil =>
    exact ⟨rfl, rfl, (List.filter_eq_self.mpr (by simp)).symm,
      (List.filter_eq_self.mpr (by simp)).symm⟩
  | cons file rest ih =>
    obtain ⟨options, peers, downloads, tickets⟩ := ih (fetcher.drop file)
    refine ⟨options, peers, ?_, ?_⟩
    · rw [List.foldl_cons, downloads, drop, List.filter_filter]
      apply List.filter_congr
      intro download _
      by_cases same : download.file = file <;> simp [same]
    · rw [List.foldl_cons, tickets, drop, List.filter_filter]
      apply List.filter_congr
      intro ticket _
      by_cases same : ticket.file = file <;> simp [same]

theorem mem_supersede :
    download ∈ (fetcher.supersede file).downloads ↔
      download ∈ fetcher.downloads ∧ download.file.id ≠ file.id := by
  obtain ⟨_, _, downloads, _⟩ := foldl_drop
    ((fetcher.downloads.map Download.file).filter (fun other => other.id == file.id)) fetcher
  rw [supersede, downloads, List.mem_filter]
  constructor
  · rintro ⟨member, kept⟩
    refine ⟨member, ?_⟩
    intro same
    simp only [List.contains_eq_mem, List.mem_filter, List.mem_map] at kept
    simp [same] at kept
    exact kept download member rfl
  · rintro ⟨member, different⟩
    refine ⟨member, ?_⟩
    simp [different]

theorem supersede_of_free (free : ∀ other ∈ fetcher.downloads, other.file.id ≠ file.id) :
    fetcher.supersede file = fetcher := by
  have none : (fetcher.downloads.map Download.file).filter (fun other => other.id == file.id) =
      [] := by
    rw [List.filter_eq_nil_iff]
    intro other listed same
    obtain ⟨download, member, rfl⟩ := List.mem_map.mp listed
    exact free download member (beq_iff_eq.mp same)
  rw [supersede, none]
  rfl

/-- The later fetcher has the same options and no other downloads, with the same chunks arrived. -/
structure Continues (before after : Fetcher) : Prop where
  options : after.options = before.options
  downloads : ∀ next ∈ after.downloads, ∃ download ∈ before.downloads, Download.Kin download next

theorem Continues.refl (fetcher : Fetcher) : Continues fetcher fetcher :=
  ⟨rfl, fun download member => ⟨download, member, .refl download⟩⟩

theorem Continues.trans (first : Continues before middle) (second : Continues middle after) :
    Continues before after := by
  refine ⟨second.options.trans first.options, ?_⟩
  intro next member
  obtain ⟨between, present, later⟩ := second.downloads next member
  obtain ⟨download, original, earlier⟩ := first.downloads between present
  exact ⟨download, original, earlier.trans later⟩

theorem continues_replace (member : download ∈ fetcher.downloads)
    (kin : Download.Kin download next) : Continues fetcher (fetcher.replace next) := by
  refine ⟨rfl, ?_⟩
  intro other present
  rcases mem_replace.mp present with ⟨original, _⟩ | ⟨same, _⟩
  · exact ⟨other, original, .refl other⟩
  · exact ⟨download, member, same ▸ kin⟩

theorem continues_of_subset (options : after.options = before.options)
    (subset : ∀ download ∈ after.downloads, download ∈ before.downloads) :
    Continues before after :=
  ⟨options, fun download member => ⟨download, subset download member, .refl download⟩⟩

theorem continues_drop (fetcher : Fetcher) (file : File) : Continues fetcher (fetcher.drop file) :=
  continues_of_subset rfl (fun _ member => (mem_drop.mp member).1)

theorem continues_supersede (fetcher : Fetcher) (file : File) :
    Continues fetcher (fetcher.supersede file) :=
  continues_of_subset (foldl_drop _ fetcher).1 (fun _ member => (mem_supersede.mp member).1)

theorem Continues.isActive_eq_false (continues : Continues before after)
    (inactive : before.isActive file = false) : after.isActive file = false := by
  rw [isActive_eq_false_iff] at inactive ⊢
  intro next member same
  obtain ⟨download, original, kin⟩ := continues.downloads next member
  exact inactive download original (kin.file.symm.trans same)

end ChunkExchange.Fetcher
