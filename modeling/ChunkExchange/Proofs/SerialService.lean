import ChunkExchange.Proofs.ServiceMoves

/-! Runs of a service: commands that any handles send, and ticks between them. As long as the
service runs, commands are carried out one at a time in the order of the queue, and each sender is
told once. Only a shutdown, or the absence of handles, ends that. -/

namespace ChunkExchange.Node.Service

open Supply (Reader)

variable {Source Queue : Type}

/-- A service with everything that happened, in order and each with its time. -/
structure History (Source Queue : Type) where
  service : Service Source Queue
  trace : List (Occurrence × Nat)

def History.next (channels : Channels Queue) (reader : Reader Source)
    (history : History Source Queue) (move : Move) (now : Nat) : History Source Queue :=
  let (occurrences, service) := history.service.move channels reader move now
  { service, trace := history.trace ++ occurrences.map (·, now) }

/-- The history of some moves of a service, each with its time. -/
def History.run (channels : Channels Queue) (reader : Reader Source)
    (service : Service Source Queue) (moves : List (Move × Nat)) : History Source Queue :=
  moves.foldl (fun history timed => history.next channels reader timed.1 timed.2)
    { service, trace := [] }

/-- A run keeps to its record, and ends without a shutdown only when nobody is left to send. -/
structure Sound (reader : Reader Source) (options : Options) (source : Source)
    (waiting : Queue → List Letter) (history : History Source Queue) : Prop where
  lawful : Lawful reader options source history.trace
  mirrors : Mirrors (sidesAfter reader options source history.trace) history.service
    (Record.ofTrace history.trace)
  balanced : Balanced waiting history.service (Record.ofTrace history.trace)
  left : ∀ now, (.ended, now) ∈ history.trace →
    history.service.attended = false ∧ (Record.ofTrace history.trace).lost = []

section Runs

variable {channels : Channels Queue} {waiting : Queue → List Letter} {reader : Reader Source}
variable {options : Options} {source : Source} {history : History Source Queue}
variable {config : Config} {service : Service Source Queue}

theorem start_eq_ok (started : start channels config source = .ok service) :
    service =
        { node := .start config.transfer, source, queue := channels.create config.commandBuffer
          sent := 0, attended := true } ∧
      0 < config.transfer.chunkSize := by
  simp only [start, Clocked.start, bind_eq_ok_iff] at started
  obtain ⟨clocked, ⟨options, accepted, period, _, _, _, opened⟩, same⟩ := started
  obtain ⟨used, positive⟩ := Config.accepted_options accepted
  subst used
  cases opened
  cases same
  exact ⟨rfl, positive⟩

theorem sound_start (reliable : Reliable channels waiting)
    (started : start channels config source = .ok service) (reader : Reader Source) :
    Sound reader config.transfer source waiting { service, trace := [] } := by
  obtain ⟨same, _⟩ := start_eq_ok started
  subst same
  have empty := reliable.create config.commandBuffer
  exact {
    lawful := .nil
    mirrors := ⟨rfl, rfl⟩
    balanced := {
      stopped := rfl
      order := empty.symm
      emptied := fun _ => empty
      kept := fun _ => rfl
      told := by simp [empty, callsIn, Record.ofTrace] }
    left := by simp }

theorem Sound.next (reliable : Reliable channels waiting) (positive : 0 < options.chunkSize)
    (sound : Sound reader options source waiting history) (move : Move) (now : Nat) :
    Sound reader options source waiting (history.next channels reader move now) := by
  have sized : 0 < history.service.node.fetcher.options.chunkSize := by
    rw [sound.mirrors.node, Sides.toNode, sidesAfter, Sides.options_run]
    exact positive
  have advances := advances_move reliable reader sized move now
  exact {
    lawful := advances.lawful sound.balanced sound.mirrors sound.lawful
    mirrors := advances.mirrors sound.balanced sound.mirrors
    balanced := advances.balanced sound.balanced
    left := advances.left sound.balanced sound.left }

/-- Whatever is sent, and whenever the loop works and the timer ticks. -/
theorem sound_run (reliable : Reliable channels waiting)
    (started : start channels config source = .ok service) (reader : Reader Source)
    (moves : List (Move × Nat)) :
    Sound reader config.transfer source waiting (.run channels reader service moves) := by
  have positive := (start_eq_ok started).2
  induction moves using List.reverseRecOn with
  | nil => exact sound_start reliable started reader
  | append_singleton moves timed ih =>
    rw [History.run, List.foldl_append]
    exact ih.next reliable positive timed.1 timed.2

theorem Balanced.tells {service : Service Source Queue} {record : Record}
    (balanced : Balanced waiting service record) {number : Nat} {answer : Answer}
    (listed : (number, answer) ∈ record.answers) : record.Tells number answer := by
  have distinct : (record.answers.map Prod.fst).Nodup :=
    (List.nodup_append.mp (balanced.told.nodup_iff.mpr List.nodup_range)).1
  obtain ⟨front, back, whole⟩ := List.append_of_mem listed
  rw [whole] at distinct
  have others (other : Nat × Answer) (among : other ∈ front ++ back) :
      ¬ (other.1 == number) = true := by
    simpa using ne_of_nodup_map distinct among
  rw [Record.Tells, whole, List.filter_append, List.filter_cons_of_pos (by simp),
    List.filter_eq_nil_iff.mpr fun other before => others other (List.mem_append_left _ before),
    List.filter_eq_nil_iff.mpr fun other after => others other (List.mem_append_right _ after)]
  rfl

private theorem handles_next (reliable : Reliable channels waiting) {letter : Letter}
    {rest : List Letter} (running : history.service.node.running = true)
    (waits : waiting history.service.queue = letter :: rest) (reader : Reader Source) (now : Nat) :
    ∃ answer effects later, (history.next channels reader .work now).trace =
      history.trace ++ (.handled letter answer effects, now) :: later := by
  cases popped : channels.pop history.service.queue with
  | none =>
    rw [reliable.pop_none popped] at waits
    cases waits
  | some taken =>
    obtain ⟨next, queue⟩ := taken
    rw [reliable.pop_some popped] at waits
    cases waits
    simp only [History.next, move, work, running, ↓reduceIte, popped]
    split <;> exact ⟨_, _, _, rfl⟩

private theorem ticks_next (channels : Channels Queue)
    (running : history.service.node.running = true) (reader : Reader Source) (now : Nat) :
    ∃ effects, (history.next channels reader .tick now).trace =
      history.trace ++ [(.ticked effects, now)] := by
  simp only [History.next, move, tick, running, ↓reduceIte]
  exact ⟨_, rfl⟩

end Runs

/-- What a shutdown leaves: the two sides as they were before it, and nothing more is done. Who
waits behind it, and who comes later, is told that the node has stopped. -/
structure Aftermath (reader : Reader Source) (options : Options) (source : Source)
    (history : History Source Queue) (earlier : List (Occurrence × Nat)) (shutdown : Letter)
    (later : List (Occurrence × Nat)) : Prop where
  node : history.service.node = (sidesAfter reader options source earlier).toNode false
  reads : history.service.source = (sidesAfter reader options source earlier).source
  effects : (Record.ofTrace history.trace).effects = (Record.ofTrace earlier).effects
  silent : ∀ timed ∈ later, timed.1.IsSilent
  behind : (Record.ofTrace history.trace).queued =
    (Record.ofTrace earlier).handled ++ shutdown :: (Record.ofTrace history.trace).lost
  closed : ∀ letter ∈ (Record.ofTrace history.trace).lost, letter.command.isCall = true →
    (Record.ofTrace history.trace).Tells letter.number (.error .closed)

/-- Commands are handled one at a time in the order of the queue, and answered once. -/
structure Serial (channels : Channels Queue) (reader : Reader Source) (options : Options)
    (source : Source) (waiting : Queue → List Letter) (history : History Source Queue) :
    Prop where
  lawful : Lawful reader options source history.trace
  mirrors : Mirrors (sidesAfter reader options source history.trace) history.service
    (Record.ofTrace history.trace)
  balanced : Balanced waiting history.service (Record.ofTrace history.trace)
  answered : ∀ letter answer effects now,
    (.handled letter answer effects, now) ∈ history.trace → letter.command.isCall = true →
      (Record.ofTrace history.trace).Tells letter.number answer
  /-- Whatever the sides refuse, only a shutdown ends the loop, or that nobody is left to send and
  everything was handled. -/
  ends : history.service.node.running = false →
    (∃ letter answer effects now, (.handled letter answer effects, now) ∈ history.trace ∧
      letter.command = .shutdown) ∨
    (history.service.attended = false ∧
      (Record.ofTrace history.trace).queued = (Record.ofTrace history.trace).handled)
  works : history.service.node.running = true → ∀ letter rest,
    waiting history.service.queue = letter :: rest → ∀ now, ∃ answer effects later,
      (history.next channels reader .work now).trace =
        history.trace ++ (.handled letter answer effects, now) :: later
  ticks : history.service.node.running = true → ∀ now, ∃ effects,
    (history.next channels reader .tick now).trace = history.trace ++ [(.ticked effects, now)]
  aftermath : ∀ earlier shutdown answer effects now later,
    history.trace = earlier ++ (.handled shutdown answer effects, now) :: later →
      shutdown.command = .shutdown →
        Aftermath reader options source history earlier shutdown later

section Serial

variable {channels : Channels Queue} {waiting : Queue → List Letter} {reader : Reader Source}
variable {options : Options} {source : Source} {history : History Source Queue}

theorem Sound.aftermath (sound : Sound reader options source waiting history)
    {earlier later : List (Occurrence × Nat)} {shutdown : Letter} {answer : Answer}
    {effects : List Effect} {now : Nat}
    (trace : history.trace = earlier ++ (.handled shutdown answer effects, now) :: later)
    (stops : shutdown.command = .shutdown) :
    Aftermath reader options source history earlier shutdown later := by
  have whole : history.trace = (earlier ++ [(.handled shutdown answer effects, now)]) ++ later := by
    rw [trace, List.append_assoc, List.singleton_append]
  have lawful := whole ▸ sound.lawful
  have stopped : (Record.ofTrace
      (earlier ++ [(.handled shutdown answer effects, now)])).stopped = true := by
    rw [Record.ofTrace_append_singleton]
    simp [Record.note, Input.stops, stops]
  have fetches : Input.fetch? (.command shutdown.command) = none := by rw [stops]; rfl
  have supplies : Input.supply? (.command shutdown.command) = none := by rw [stops]; rfl
  have nothing : effects = [] := by
    have follows := (trace ▸ sound.lawful).split
    generalize (Record.ofTrace earlier).stopped = ended at follows
    cases follows
    exact Sides.effects_of_none fetches supplies reader _ now
  have silent := lawful.silent stopped
  obtain ⟨inputs, done, handled, halted⟩ := Record.ofTrace_append_silent silent
  rw [← whole] at inputs done handled halted
  rw [Record.ofTrace_append_singleton] at inputs done handled
  have sides : sidesAfter reader options source history.trace =
      sidesAfter reader options source earlier := by
    rw [sidesAfter, inputs]
    exact Sides.run_append_of_none reader options source _ _ now fetches supplies
  have ended : (Record.ofTrace history.trace).stopped = true := halted.trans stopped
  have idle : history.service.node.running = false := by
    simpa [sound.balanced.stopped] using ended
  exact {
    node := by rw [sound.mirrors.node, sides, ended, Bool.not_true]
    reads := by rw [sound.mirrors.reads, sides]
    effects := by simpa [Record.note, Occurrence.effects, nothing] using done
    silent := silent
    behind := by
      rw [sound.balanced.order, handled, sound.balanced.emptied idle]
      simp [Record.note]
    closed := fun letter lost call => sound.balanced.tells (sound.lawful.closed lost call) }

private theorem Sound.serial (sound : Sound reader options source waiting history)
    (reliable : Reliable channels waiting) :
    Serial channels reader options source waiting history where
  lawful := sound.lawful
  mirrors := sound.mirrors
  balanced := sound.balanced
  answered := by
    intro letter answer effects now listed call
    apply sound.balanced.tells
    rw [Record.answers_ofTrace, List.mem_filterMap]
    exact ⟨_, listed, by simp [Occurrence.answer?, call]⟩
  ends := by
    intro idle
    have stopped : (Record.ofTrace history.trace).stopped = true := by
      rw [sound.balanced.stopped, idle, Bool.not_false]
    rcases Record.stopped_cases stopped with shutdown | ⟨now, ended⟩
    · exact .inl shutdown
    · obtain ⟨deserted, none⟩ := sound.left now ended
      refine .inr ⟨deserted, ?_⟩
      rw [sound.balanced.order, none, sound.balanced.emptied idle]
      exact List.append_nil _
  works := fun running letter rest waits now => handles_next reliable running waits reader now
  ticks := fun running now => ticks_next channels running reader now
  aftermath := fun _ _ _ _ _ _ trace stops => sound.aftermath trace stops

end Serial

/-- Every run of a service that was started with an accepted configuration, whatever is sent by any
handles and whenever the timer ticks. -/
theorem commands_serialised {channels : Channels Queue} {waiting : Queue → List Letter}
    (reliable : Reliable channels waiting) {config : Config} {source : Source}
    {service : Service Source Queue} (started : start channels config source = .ok service)
    (reader : Reader Source) (moves : List (Move × Nat)) :
    Serial channels reader config.transfer source waiting (.run channels reader service moves) :=
  (sound_run reliable started reader moves).serial reliable

/-- A queue with its capacity, from which letters come as they went in. Answers arrive as given. -/
def bounded : Channels (Nat × List Letter) where
  create capacity := (capacity, [])
  push queue letter :=
    if queue.2.length < queue.1 then some (queue.1, queue.2 ++ [letter]) else none
  pop queue :=
    match queue.2 with
    | [] => none
    | letter :: rest => some (letter, (queue.1, rest))
  close queue := (queue.2, (queue.1, []))
  receive given := given

private theorem reliable_bounded : Reliable bounded Prod.snd where
  create _ := rfl
  push := by
    intro queue next letter pushed
    simp only [bounded] at pushed
    split at pushed <;> cases pushed
    rfl
  pop_none := by
    rintro ⟨capacity, letters⟩ popped
    cases letters with
    | nil => rfl
    | cons => cases popped
  pop_some := by
    rintro ⟨capacity, letters⟩ letter next popped
    cases letters with
    | nil => cases popped
    | cons =>
      cases popped
      rfl
  close _ := ⟨rfl, rfl⟩
  given _ := rfl
  dropped := rfl

/-- Chunks of two bytes, and room for two commands. -/
def narrow : Config :=
  { transfer := { chunkSize := 2 }, commandBuffer := 2 }

/-- A file is asked for twice, which is refused, and the timer still ticks. Of two calls for the
status one waits behind a shutdown, and one comes after it. -/
theorem commands_serialised_shutdown :
    let file : File := { id := 1, hash := "", size := 6 }
    let failing : Reader Unit :=
      { read := fun _ _ _ _ => ({ claimed := none, contents := .replicate _ 0 }, ()) }
    let moves : List (Move × Nat) :=
      [(.send (.join (.ofNat 1)), 0), (.send (.request file "first"), 0), (.work, 1), (.work, 2),
        (.send (.request file "second"), 3), (.work, 3), (.tick, 5), (.send .shutdown, 6),
        (.send .status, 6), (.work, 7), (.send .status, 8)]
    ∃ service, start bounded narrow () = .ok service ∧
      (Record.ofTrace (History.run bounded failing service moves).trace).answers =
        [(0, .ok .done), (1, .ok .done), (2, .error (.transfer (.alreadyRequested file))),
          (3, .ok .done), (4, .error .closed), (5, .error .closed)] ∧
      Serial bounded failing narrow.transfer () Prod.snd
        (.run bounded failing service moves) := by
  intro file failing moves
  have started : start bounded narrow () = .ok
      { node := .start narrow.transfer, source := (), queue := (2, []), sent := 0
        attended := true } := by rfl
  refine ⟨_, started, ?_, commands_serialised reliable_bounded started failing moves⟩
  decide +kernel

end ChunkExchange.Node.Service
