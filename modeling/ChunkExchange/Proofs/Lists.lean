namespace ChunkExchange

theorem eq_or_of_concat_eq {α : Type} {front earlier later : List α} {last marked : α}
    (same : front ++ [last] = earlier ++ marked :: later) :
    (later = [] ∧ earlier = front ∧ marked = last) ∨
      ∃ rest, later = rest ++ [last] ∧ front = earlier ++ marked :: rest := by
  rcases List.eq_nil_or_concat later with none | ⟨rest, final, whole⟩
  · subst none
    obtain ⟨fronts, lasts⟩ := List.append_inj' same rfl
    exact .inl ⟨rfl, fronts.symm, (List.singleton_inj.mp lasts).symm⟩
  · subst whole
    rw [List.concat_eq_append, ← List.cons_append, ← List.append_assoc] at same
    obtain ⟨fronts, lasts⟩ := List.append_inj' same rfl
    cases List.singleton_inj.mp lasts
    exact .inr ⟨rest, List.concat_eq_append, fronts⟩

theorem ne_of_nodup_map {α β : Type} {key : α → β} {front back : List α} {entry other : α}
    (nodup : ((front ++ entry :: back).map key).Nodup) (listed : other ∈ front ++ back) :
    key other ≠ key entry := by
  intro same
  rw [(List.perm_middle.map _).nodup_iff, List.map_cons, List.nodup_cons] at nodup
  exact nodup.1 (List.mem_map.mpr ⟨other, listed, same⟩)

theorem eq_singleton_of_mem {α : Type} {entries : List α} {entry : α}
    (single : entries.length ≤ 1) (listed : entry ∈ entries) : entries = [entry] := by
  match entries, listed with
  | [only], listed => rw [List.mem_singleton.mp listed]
  | first :: second :: rest, _ => simp at single

/-- The first selected entry is the only one that is selected, and it is erased. -/
theorem unselected_of_mem_eraseP {α : Type} {selects : α → Bool} {entries : List α} {entry : α}
    (single : entries.countP selects ≤ 1) (kept : entry ∈ entries.eraseP selects) :
    selects entry = false := by
  induction entries with
  | nil => cases kept
  | cons head rest ih =>
    cases selected : selects head with
    | true =>
      rw [List.eraseP_cons_of_pos selected] at kept
      rw [List.countP_cons_of_pos selected] at single
      have none : rest.countP selects = 0 := by omega
      exact Bool.eq_false_iff.mpr (List.countP_eq_zero.mp none entry kept)
    | false =>
      have passed : ¬ selects head = true := Bool.eq_false_iff.mp selected
      rw [List.eraseP_cons_of_neg passed] at kept
      rw [List.countP_cons_of_neg passed] at single
      rcases List.mem_cons.mp kept with first | later
      · exact first ▸ selected
      · exact ih single later

theorem foldr_add_append (first second : List Nat) :
    (first ++ second).foldr (· + ·) 0 =
      first.foldr (· + ·) 0 + second.foldr (· + ·) 0 := by
  induction first with
  | nil => simp
  | cons head rest ih =>
    rw [List.cons_append, List.foldr_cons, ih, List.foldr_cons, Nat.add_assoc]

theorem foldr_add_perm {first second : List Nat} (perm : first.Perm second) :
    first.foldr (· + ·) 0 = second.foldr (· + ·) 0 :=
  perm.foldr_eq' (fun left _ right _ sum => Nat.add_left_comm right left sum) 0

theorem bind_eq_ok_iff {Failure First Second : Type} {first : Except Failure First}
    {second : First → Except Failure Second} {result : Second} :
    first >>= second = .ok result ↔ ∃ value, first = .ok value ∧ second value = .ok result := by
  cases first with
  | error failure => simp [bind, Except.bind]
  | ok value => simp [bind, Except.bind]

end ChunkExchange
