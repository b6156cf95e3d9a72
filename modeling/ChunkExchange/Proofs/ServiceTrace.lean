import ChunkExchange.Node.Service
import ChunkExchange.Proofs.NodeTurns

/-! What happens at a service, as a trace: what was queued, handled and lost, what the node worked
through, and what senders were told. In a lawful trace every answer and every effect is what the two
sides say after the commands and ticks before it. -/

namespace ChunkExchange.Node.Service

open Supply (Reader)

variable {Source : Type}

/-- The calls among some letters, by their numbers. -/
def callsIn (letters : List Letter) : List Nat :=
  (letters.filter (·.command.isCall)).map Letter.number

/-- What a trace tells: the letters that were queued, handled and lost, what the node worked
through, what senders were told and what was done, each in order, and whether the loop has ended. -/
structure Record where
  queued : List Letter := []
  handled : List Letter := []
  lost : List Letter := []
  inputs : List (Input × Nat) := []
  answers : List (Nat × Answer) := []
  effects : List Effect := []
  stopped : Bool := false

namespace Record

def note (record : Record) (occurrence : Occurrence) (now : Nat) : Record :=
  let told : Record :=
    { record with
      answers := record.answers ++ occurrence.answer?.toList
      effects := record.effects ++ occurrence.effects }
  match occurrence with
  | .queued letter => { told with queued := record.queued ++ [letter] }
  | .bounced _ => told
  | .handled letter _ _ =>
    { told with
      handled := record.handled ++ [letter]
      inputs := record.inputs ++ [(.command letter.command, now)]
      stopped := record.stopped || Input.stops (.command letter.command) }
  | .ticked _ => { told with inputs := record.inputs ++ [(.tick, now)] }
  | .ended => { told with stopped := true }
  | .lost letter _ => { told with lost := record.lost ++ [letter] }

def ofTrace (trace : List (Occurrence × Nat)) : Record :=
  trace.foldl (fun record timed => record.note timed.1 timed.2) {}

/-- The sender of a letter is told this, once, and nothing else. -/
def Tells (record : Record) (number : Nat) (answer : Answer) : Prop :=
  record.answers.filter (·.1 == number) = [(number, answer)]

theorem ofTrace_append_singleton (trace : List (Occurrence × Nat)) (occurrence : Occurrence)
    (now : Nat) : ofTrace (trace ++ [(occurrence, now)]) = (ofTrace trace).note occurrence now := by
  simp [ofTrace]

/-- Losing letters changes nothing but what their senders are told. -/
theorem ofTrace_append_lost (trace : List (Occurrence × Nat)) (letters : List Letter)
    (answer : Answer) (now : Nat) :
    let before := ofTrace trace
    ofTrace (trace ++ letters.map fun letter => (.lost letter answer, now)) =
      { before with
        lost := before.lost ++ letters
        answers := before.answers ++ (callsIn letters).map (·, answer) } := by
  induction letters using List.reverseRecOn with
  | nil => simp [callsIn]
  | append_singleton letters letter ih =>
    rw [List.map_append, ← List.append_assoc, List.map_singleton, ofTrace_append_singleton, ih]
    cases call : letter.command.isCall <;>
      simp [note, callsIn, Occurrence.answer?, Occurrence.effects, call]

end Record

/-- The two sides after what happened: each took its part in the commands and ticks. -/
def sidesAfter (reader : Reader Source) (options : Options) (source : Source)
    (trace : List (Occurrence × Nat)) : Sides Source :=
  .run reader options source (Record.ofTrace trace).inputs

/-- What may happen at `now`, by what the sides have become and whether the loop has ended. Commands
are answered, and inputs have effects, as these sides say. -/
inductive Follows (reader : Reader Source) (sides : Sides Source) (now : Nat) :
    (stopped : Bool) → Occurrence → Prop where
  | queued {letter : Letter} : Follows reader sides now false (.queued letter)
  | bounced {letter : Letter} : Follows reader sides now true (.bounced letter)
  | handled {letter : Letter} :
    Follows reader sides now false
      (.handled letter (sides.answer letter.command)
        (sides.effects reader (.command letter.command) now))
  | ticked : Follows reader sides now false (.ticked (sides.effects reader .tick now))
  | ended : Follows reader sides now false .ended
  | lost {letter : Letter} : Follows reader sides now true (.lost letter (.error .closed))

inductive Lawful (reader : Reader Source) (options : Options) (source : Source) :
    List (Occurrence × Nat) → Prop where
  | nil : Lawful reader options source []
  | append {earlier : List (Occurrence × Nat)} {occurrence : Occurrence} {now : Nat}
      (lawful : Lawful reader options source earlier)
      (follows : Follows reader (sidesAfter reader options source earlier) now
        (Record.ofTrace earlier).stopped occurrence) :
    Lawful reader options source (earlier ++ [(occurrence, now)])

/-- Once the loop has ended, letters can only be lost or come too late. -/
def Occurrence.IsSilent (occurrence : Occurrence) : Prop :=
  ∃ letter, occurrence = .bounced letter ∨ occurrence = .lost letter (.error .closed)

section Trace

variable {reader : Reader Source} {options : Options} {source : Source}
variable {trace front back : List (Occurrence × Nat)} {timed : Occurrence × Nat}

namespace Record

theorem answers_ofTrace (trace : List (Occurrence × Nat)) :
    (ofTrace trace).answers = trace.filterMap (·.1.answer?) := by
  induction trace using List.reverseRecOn with
  | nil => rfl
  | append_singleton trace timed ih =>
    obtain ⟨occurrence, now⟩ := timed
    rw [ofTrace_append_singleton, List.filterMap_append, ← ih]
    have told : ((ofTrace trace).note occurrence now).answers =
        (ofTrace trace).answers ++ occurrence.answer?.toList := by
      cases occurrence <;> rfl
    rw [told]
    cases answered : occurrence.answer? <;> simp [answered]

private theorem mem_of_lost {letter : Letter} (lost : letter ∈ (ofTrace trace).lost) :
    ∃ answer now, (.lost letter answer, now) ∈ trace := by
  induction trace using List.reverseRecOn with
  | nil => cases lost
  | append_singleton trace timed ih =>
    obtain ⟨occurrence, now⟩ := timed
    rw [ofTrace_append_singleton] at lost
    have earlier (old : letter ∈ (ofTrace trace).lost) :
        ∃ answer before, (.lost letter answer, before) ∈ trace ++ [(occurrence, now)] := by
      obtain ⟨answer, before, listed⟩ := ih old
      exact ⟨answer, before, List.mem_append_left _ listed⟩
    cases occurrence with
    | queued | bounced | handled | ticked | ended => exact earlier lost
    | lost other answer =>
      rcases List.mem_append.mp lost with old | last
      · exact earlier old
      · rw [List.mem_singleton.mp last]
        exact ⟨answer, now, by simp⟩

theorem stopped_cases (stopped : (ofTrace trace).stopped = true) :
    (∃ letter answer effects now, (.handled letter answer effects, now) ∈ trace ∧
      letter.command = .shutdown) ∨ ∃ now, (.ended, now) ∈ trace := by
  induction trace using List.reverseRecOn with
  | nil => cases stopped
  | append_singleton trace timed ih =>
    obtain ⟨occurrence, now⟩ := timed
    rw [ofTrace_append_singleton] at stopped
    have earlier (old : (ofTrace trace).stopped = true) :
        (∃ letter answer effects before,
          (.handled letter answer effects, before) ∈ trace ++ [(occurrence, now)] ∧
            letter.command = .shutdown) ∨
          ∃ before, (.ended, before) ∈ trace ++ [(occurrence, now)] := by
      rcases ih old with ⟨letter, answer, effects, before, listed, stops⟩ | ⟨before, listed⟩
      · exact .inl ⟨letter, answer, effects, before, List.mem_append_left _ listed, stops⟩
      · exact .inr ⟨before, List.mem_append_left _ listed⟩
    cases occurrence with
    | queued | bounced | ticked | lost => exact earlier stopped
    | ended => exact .inr ⟨now, by simp⟩
    | handled letter answer effects =>
      rcases Bool.or_eq_true_iff.mp stopped with old | stops
      · exact earlier old
      · exact .inl ⟨letter, answer, effects, now, by simp, by simpa [Input.stops] using stops⟩

theorem ofTrace_append_silent (silent : ∀ timed ∈ back, timed.1.IsSilent) :
    let before := ofTrace front
    let after := ofTrace (front ++ back)
    after.inputs = before.inputs ∧ after.effects = before.effects ∧
      after.handled = before.handled ∧ after.stopped = before.stopped := by
  induction back using List.reverseRecOn with
  | nil => simp
  | append_singleton back timed ih =>
    obtain ⟨occurrence, now⟩ := timed
    obtain ⟨inputs, effects, handled, stopped⟩ :=
      ih fun other listed => silent other (List.mem_append_left _ listed)
    simp only [← List.append_assoc, ofTrace_append_singleton]
    obtain ⟨letter, rfl | rfl⟩ := silent (occurrence, now) (by simp)
    all_goals exact ⟨inputs, (List.append_nil _).trans effects, handled, stopped⟩

theorem stopped_append (stopped : (ofTrace front).stopped = true)
    (back : List (Occurrence × Nat)) : (ofTrace (front ++ back)).stopped = true := by
  induction back using List.reverseRecOn with
  | nil => rwa [List.append_nil]
  | append_singleton back timed ih =>
    rw [← List.append_assoc, ofTrace_append_singleton]
    cases timed.1 <;> simp [note, ih]

theorem stopped_of_ended {now : Nat} (ended : (.ended, now) ∈ trace) :
    (ofTrace trace).stopped = true := by
  obtain ⟨front, back, whole⟩ := List.append_of_mem ended
  rw [whole, List.append_cons]
  apply stopped_append
  rw [ofTrace_append_singleton]
  rfl

end Record

theorem Lawful.split {occurrence : Occurrence} {now : Nat}
    (lawful : Lawful reader options source (front ++ (occurrence, now) :: back)) :
    Follows reader (sidesAfter reader options source front) now (Record.ofTrace front).stopped
      occurrence := by
  generalize whole : front ++ (occurrence, now) :: back = trace at lawful
  induction lawful generalizing back with
  | nil => simp at whole
  | append lawful follows ih =>
    rcases eq_or_of_concat_eq whole.symm with ⟨_, same, last⟩ | ⟨rest, _, within⟩
    · cases last
      subst same
      exact follows
    · exact ih within.symm

/-- Behind the end of the loop nothing is carried out. -/
theorem Lawful.silent (lawful : Lawful reader options source (front ++ back))
    (stopped : (Record.ofTrace front).stopped = true) :
    ∀ timed ∈ back, timed.1.IsSilent := by
  rintro ⟨occurrence, now⟩ member
  obtain ⟨between, later, whole⟩ := List.append_of_mem member
  rw [whole, ← List.append_assoc] at lawful
  have follows := lawful.split
  rw [Record.stopped_append stopped between] at follows
  cases follows with
  | bounced => exact ⟨_, .inl rfl⟩
  | lost => exact ⟨_, .inr rfl⟩

theorem Lawful.closed (lawful : Lawful reader options source trace) {letter : Letter}
    (lost : letter ∈ (Record.ofTrace trace).lost) (call : letter.command.isCall = true) :
    (letter.number, .error .closed) ∈ (Record.ofTrace trace).answers := by
  obtain ⟨answer, now, listed⟩ := Record.mem_of_lost lost
  obtain ⟨front, back, whole⟩ := List.append_of_mem listed
  have follows := (whole ▸ lawful).split
  have same : answer = .error .closed := by
    generalize (Record.ofTrace front).stopped = stopped at follows
    cases follows
    rfl
  rw [Record.answers_ofTrace, List.mem_filterMap]
  exact ⟨_, listed, by simp [Occurrence.answer?, call, same]⟩

theorem Lawful.append_lost (lawful : Lawful reader options source trace)
    (stopped : (Record.ofTrace trace).stopped = true) (letters : List Letter) (now : Nat) :
    Lawful reader options source
      (trace ++ letters.map fun letter => (.lost letter (.error .closed), now)) := by
  induction letters using List.reverseRecOn with
  | nil => simpa using lawful
  | append_singleton letters letter ih =>
    rw [List.map_append, ← List.append_assoc]
    refine .append ih ?_
    have still : (Record.ofTrace (trace ++ letters.map fun letter =>
        (.lost letter (.error .closed), now))).stopped = true := by
      rw [Record.ofTrace_append_lost]
      exact stopped
    rw [still]
    exact .lost

end Trace

end ChunkExchange.Node.Service
