import ChunkExchange.Proofs.ServiceTrace

/-! What a move of a service comes to, where letters are taken in the order in which they were sent,
and what every move keeps: the node stays made up of its two sides, no letter is passed over, and
nobody is told anything twice. -/

namespace ChunkExchange.Node.Service

open Supply (Reader)

variable {Source Queue : Type}

/-- What a service relies on: letters are taken in the order in which they were put, none is lost
before the queue is given up, and an answer arrives if it is given. -/
structure Reliable (channels : Channels Queue) (waiting : Queue → List Letter) : Prop where
  create : ∀ capacity, waiting (channels.create capacity) = []
  push : ∀ {queue next letter}, channels.push queue letter = some next →
    waiting next = waiting queue ++ [letter]
  pop_none : ∀ {queue}, channels.pop queue = none → waiting queue = []
  pop_some : ∀ {queue letter next}, channels.pop queue = some (letter, next) →
    waiting queue = letter :: waiting next
  close : ∀ queue, (channels.close queue).1 = waiting queue ∧
    waiting (channels.close queue).2 = []
  given : ∀ answer, channels.receive (some answer) = some answer
  dropped : channels.receive none = none

/-- What a move comes to, told by the letters that wait in the queue. -/
inductive Advances (reader : Reader Source) (waiting : Queue → List Letter)
    (service : Service Source Queue) (now : Nat) :
    List Occurrence → Service Source Queue → Prop where
  | idle : Advances reader waiting service now [] service
  | deserted : Advances reader waiting service now [] { service with attended := false }
  | queued {command : Command} {queue : Queue} (running : service.node.running = true)
      (put : waiting queue =
        waiting service.queue ++ [{ number := service.sent, command }]) :
    Advances reader waiting service now [.queued { number := service.sent, command }]
      { service with queue, sent := service.sent + 1 }
  | bounced {command : Command} (stopped : service.node.running = false) :
    Advances reader waiting service now [.bounced { number := service.sent, command }]
      { service with sent := service.sent + 1 }
  | handled {letter : Letter} {queue : Queue} {run : Run Source}
      (running : service.node.running = true)
      (next : waiting service.queue = letter :: waiting queue)
      (goesOn : Input.stops (.command letter.command) = false)
      (taken : service.node.take reader service.source (.command letter.command) now = run) :
    Advances reader waiting service now
      [.handled letter (service.node.answer letter.command) run.effects]
      { service with node := run.node, source := run.source, queue }
  | stopped {letter : Letter} {behind : List Letter} {queue : Queue} {run : Run Source}
      (running : service.node.running = true)
      (next : waiting service.queue = letter :: behind)
      (stops : Input.stops (.command letter.command) = true) (empty : waiting queue = [])
      (taken : service.node.take reader service.source (.command letter.command) now = run) :
    Advances reader waiting service now
      (.handled letter (service.node.answer letter.command) run.effects ::
        behind.map (fun letter => .lost letter (.error .closed)))
      { service with
        node := { run.node with running := false }, source := run.source, queue }
  | ended {queue : Queue} (running : service.node.running = true)
      (done : waiting service.queue = []) (empty : waiting queue = [])
      (left : service.attended = false) :
    Advances reader waiting service now [.ended]
      { service with node := { service.node with running := false }, queue }
  | ticked {run : Run Source} (running : service.node.running = true)
      (taken : service.node.take reader service.source .tick now = run) :
    Advances reader waiting service now [.ticked run.effects]
      { service with node := run.node, source := run.source }

section Moves

variable {channels : Channels Queue} {waiting : Queue → List Letter}
variable {service next : Service Source Queue} {occurrences : List Occurrence}

private theorem await_given (reliable : Reliable channels waiting) (answer : Answer) :
    channels.await (some answer) = answer := by
  rw [Channels.await, reliable.given]
  rfl

private theorem await_none (reliable : Reliable channels waiting) :
    channels.await none = .error .closed := by
  rw [Channels.await, reliable.dropped]
  rfl

private theorem advances_send (reliable : Reliable channels waiting) (reader : Reader Source)
    (command : Command) (now : Nat) (sent : service.send channels command = (occurrences, next)) :
    Advances reader waiting service now occurrences next := by
  simp only [send] at sent
  split at sent
  · split at sent
    · rename_i running
      split at sent
      · rename_i queue pushed
        cases sent
        exact .queued running (reliable.push pushed)
      · cases sent
        exact .idle
    · rename_i stopped
      cases sent
      exact .bounced (Bool.eq_false_iff.mpr stopped)
  · cases sent
    exact .idle

private theorem advances_work (reliable : Reliable channels waiting) (reader : Reader Source)
    (positive : 0 < service.node.fetcher.options.chunkSize) (now : Nat)
    (worked : service.work channels reader now = (occurrences, next)) :
    Advances reader waiting service now occurrences next := by
  simp only [work, close] at worked
  split at worked
  · rename_i running
    split at worked
    · rename_i letter queue popped
      have taken := reliable.pop_some popped
      rw [handle_eq reader positive running, await_given reliable, await_none reliable] at worked
      split at worked
      · rename_i goesOn
        cases worked
        exact .handled running taken (by simpa [take] using goesOn) rfl
      · rename_i stops
        obtain ⟨lost, empty⟩ := reliable.close queue
        rw [lost] at worked
        cases worked
        exact .stopped running taken (by simpa [take] using stops) empty rfl
    · rename_i popped
      have done := reliable.pop_none popped
      split at worked
      · cases worked
        exact .idle
      · rename_i deserted
        obtain ⟨lost, empty⟩ := reliable.close service.queue
        rw [lost, done] at worked
        cases worked
        exact .ended running done empty (Bool.eq_false_iff.mpr deserted)
  · cases worked
    exact .idle

private theorem advances_tick (reader : Reader Source) (now : Nat)
    (ticked : service.tick reader now = (occurrences, next)) :
    Advances reader waiting service now occurrences next := by
  simp only [tick] at ticked
  split at ticked
  · rename_i running
    cases ticked
    exact .ticked running (tick_eq reader running _ now).symm
  · cases ticked
    exact .idle

theorem advances_move (reliable : Reliable channels waiting) (reader : Reader Source)
    (positive : 0 < service.node.fetcher.options.chunkSize) (move : Move) (now : Nat) :
    Advances reader waiting service now (service.move channels reader move now).1
      (service.move channels reader move now).2 := by
  cases move with
  | send command => exact advances_send reliable reader command now rfl
  | work => exact advances_work reliable reader positive now rfl
  | tick => exact advances_tick reader now rfl
  | hangUp => exact .deserted

end Moves

/-- The node of a service is made up of the two sides. -/
structure Mirrors (sides : Sides Source) (service : Service Source Queue) (record : Record) :
    Prop where
  node : service.node = sides.toNode (!record.stopped)
  reads : service.source = sides.source

/-- What was queued is handled, lost or waits, in this order, and each sender was told once, except
the callers who wait. -/
structure Balanced (waiting : Queue → List Letter) (service : Service Source Queue)
    (record : Record) : Prop where
  stopped : record.stopped = !service.node.running
  order : record.queued = record.handled ++ (record.lost ++ waiting service.queue)
  emptied : service.node.running = false → waiting service.queue = []
  kept : service.node.running = true → record.lost = []
  told : (record.answers.map Prod.fst ++ callsIn (waiting service.queue)).Perm
    (List.range service.sent)

private theorem callsIn_cons (letter : Letter) (rest : List Letter) (answer : Answer)
    (effects : List Effect) :
    callsIn (letter :: rest) =
      (Occurrence.handled letter answer effects).answer?.toList.map Prod.fst ++ callsIn rest := by
  cases call : letter.command.isCall <;> simp [callsIn, Occurrence.answer?, call]

/-- The next sender is told at once, or waits behind the others. -/
private theorem perm_range_succ {told calls : List Nat} {sent : Nat}
    (before : (told ++ calls).Perm (List.range sent)) :
    (told ++ [sent] ++ calls).Perm (List.range (sent + 1)) ∧
      (told ++ (calls ++ [sent])).Perm (List.range (sent + 1)) := by
  have behind : (told ++ (calls ++ [sent])).Perm (List.range (sent + 1)) := by
    rw [List.range_succ, ← List.append_assoc]
    exact before.append_right [sent]
  refine ⟨?_, behind⟩
  rw [List.append_assoc]
  exact (List.perm_append_comm.append_left told).trans behind

section Steps

variable {reader : Reader Source} {options : Options} {source : Source}
variable {waiting : Queue → List Letter} {service next : Service Source Queue}
variable {trace : List (Occurrence × Nat)} {occurrences : List Occurrence} {now : Nat}
variable {letter : Letter} {rest : List Letter}

theorem Balanced.told_next {record : Record} (balanced : Balanced waiting service record)
    (waits : waiting service.queue = letter :: rest) (answer : Answer) (effects : List Effect)
    (now : Nat) :
    ((record.note (.handled letter answer effects) now).answers.map Prod.fst ++
      callsIn rest).Perm (List.range service.sent) := by
  have before := balanced.told
  rw [waits, callsIn_cons letter rest answer effects, ← List.append_assoc,
    ← List.map_append] at before
  exact before

theorem Advances.balanced (advances : Advances reader waiting service now occurrences next)
    (balanced : Balanced waiting service (Record.ofTrace trace)) :
    Balanced waiting next (Record.ofTrace (trace ++ occurrences.map (·, now))) := by
  have told := perm_range_succ balanced.told
  cases advances with
  | idle => simpa using balanced
  | deserted =>
    rw [List.map_nil, List.append_nil]
    exact { balanced with }
  | @queued command queue running put =>
    rw [List.map_singleton, Record.ofTrace_append_singleton]
    exact {
      stopped := balanced.stopped
      order := by simp only [Record.note, put, balanced.order, List.append_assoc]
      emptied := fun stopped => by cases running.symm.trans stopped
      kept := balanced.kept
      told := by
        cases call : command.isCall with
        | true => simpa [Record.note, put, callsIn, Occurrence.answer?, call] using told.2
        | false => simpa [Record.note, put, callsIn, Occurrence.answer?, call] using told.1 }
  | bounced stopped =>
    rw [List.map_singleton, Record.ofTrace_append_singleton]
    exact { balanced with
      told := by simpa [Record.note, Occurrence.answer?] using told.1 }
  | handled running waits goesOn taken =>
    subst taken
    rw [List.map_singleton, Record.ofTrace_append_singleton]
    exact {
      stopped := by simp [Record.note, balanced.stopped, running, goesOn, Node.take]
      order := by simp [Record.note, balanced.order, balanced.kept running, waits]
      emptied := fun stopped => by simp [Node.take, goesOn] at stopped
      kept := fun _ => balanced.kept running
      told := balanced.told_next waits _ _ now }
  | @stopped letter behind queue run running waits stops empty taken =>
    subst taken
    rw [List.map_cons, List.map_map, List.append_cons]
    simp only [Function.comp_def]
    rw [Record.ofTrace_append_lost, Record.ofTrace_append_singleton]
    exact {
      stopped := by simp [Record.note, stops]
      order := by simp [Record.note, balanced.order, balanced.kept running, waits, empty]
      emptied := fun _ => empty
      kept := fun running => by cases running
      told := by
        have before := balanced.told_next waits (service.node.answer letter.command)
          (service.node.take reader service.source (.command letter.command) now).effects now
        simpa [empty, callsIn, Function.comp_def] using before }
  | ended running done empty left =>
    rw [List.map_singleton, Record.ofTrace_append_singleton]
    exact {
      stopped := rfl
      order := by simp only [Record.note, balanced.order, done, empty]
      emptied := fun _ => empty
      kept := fun running => by cases running
      told := by simpa [Record.note, Occurrence.answer?, empty, done] using balanced.told }
  | ticked running taken =>
    subst taken
    rw [List.map_singleton, Record.ofTrace_append_singleton]
    exact {
      stopped := by simp [Record.note, balanced.stopped, running, Node.take, Input.stops]
      order := balanced.order
      emptied := fun stopped => by simp [Node.take, Input.stops] at stopped
      kept := fun _ => balanced.kept running
      told := by simpa [Record.note, Occurrence.answer?] using balanced.told }

theorem Mirrors.take
    (mirrors : Mirrors (sidesAfter reader options source trace) service (Record.ofTrace trace))
    (goesOn : (Record.ofTrace trace).stopped = false) (input : Input) (now : Nat) :
    let sides := sidesAfter reader options source trace
    let next := Sides.run reader options source ((Record.ofTrace trace).inputs ++ [(input, now)])
    let run := service.node.take reader service.source input now
    service.node.answer = sides.answer ∧ run.effects = sides.effects reader input now ∧
      run.node = next.toNode (!input.stops) ∧ run.source = next.source := by
  intro sides next run
  have node : service.node = sides.toNode true := by
    rw [mirrors.node, goesOn, Bool.not_false]
  have result := Sides.run_append_singleton reader options source (Record.ofTrace trace).inputs
    input now
  have same : run = (sides.toNode true).take reader sides.source input now := by
    simp only [run, node, mirrors.reads, sides]
  exact ⟨by rw [node]; rfl, by rw [same]; rfl, same ▸ result.1, same ▸ result.2⟩

theorem Advances.mirrors (advances : Advances reader waiting service now occurrences next)
    (balanced : Balanced waiting service (Record.ofTrace trace))
    (mirrors : Mirrors (sidesAfter reader options source trace) service (Record.ofTrace trace)) :
    let later := trace ++ occurrences.map (·, now)
    Mirrors (sidesAfter reader options source later) next (Record.ofTrace later) := by
  have stopped := balanced.stopped
  cases advances with
  | idle => simpa using mirrors
  | deserted =>
    simp only [List.map_nil, List.append_nil]
    exact { mirrors with }
  | queued | bounced =>
    simp only [List.map_singleton, sidesAfter, Record.ofTrace_append_singleton]
    exact { mirrors with }
  | @handled letter queue run running waits goesOn taken =>
    rw [running, Bool.not_true] at stopped
    obtain ⟨_, _, node, reads⟩ := mirrors.take stopped (.command letter.command) now
    subst taken
    simp only [List.map_singleton, sidesAfter, Record.ofTrace_append_singleton]
    exact ⟨by simpa [Record.note, stopped] using node, reads⟩
  | @stopped letter behind queue run running waits stops empty taken =>
    rw [running, Bool.not_true] at stopped
    obtain ⟨_, _, node, reads⟩ := mirrors.take stopped (.command letter.command) now
    subst taken
    simp only [List.map_cons, List.map_map, Function.comp_def, sidesAfter]
    rw [List.append_cons, Record.ofTrace_append_lost, Record.ofTrace_append_singleton]
    refine ⟨?_, reads⟩
    rw [node]
    simp [Record.note, stopped, stops, Sides.toNode]
  | ended =>
    simp only [List.map_singleton, sidesAfter, Record.ofTrace_append_singleton]
    refine ⟨?_, mirrors.reads⟩
    rw [mirrors.node]
    rfl
  | ticked running taken =>
    rw [running, Bool.not_true] at stopped
    obtain ⟨_, _, node, reads⟩ := mirrors.take stopped .tick now
    subst taken
    simp only [List.map_singleton, sidesAfter, Record.ofTrace_append_singleton]
    exact ⟨by simpa [Record.note, stopped, Input.stops] using node, reads⟩

/-- Where the loop ends without a shutdown, the last handle is gone and nothing is lost. -/
theorem Advances.left (advances : Advances reader waiting service now occurrences next)
    (balanced : Balanced waiting service (Record.ofTrace trace))
    (left : ∀ before, (.ended, before) ∈ trace →
      service.attended = false ∧ (Record.ofTrace trace).lost = []) :
    ∀ before, (.ended, before) ∈ trace ++ occurrences.map (·, now) →
      next.attended = false ∧
        (Record.ofTrace (trace ++ occurrences.map (·, now))).lost = [] := by
  intro before listed
  have halted (running : service.node.running = true) : (.ended, before) ∉ trace := by
    intro ended
    have stopped := Record.stopped_of_ended ended
    rw [balanced.stopped, running] at stopped
    cases stopped
  cases advances with
  | idle => simpa using left before (by simpa using listed)
  | deserted =>
    have ended : (.ended, before) ∈ trace := by simpa using listed
    simpa using (left before ended).2
  | bounced =>
    have ended : (.ended, before) ∈ trace := by simpa using listed
    rw [List.map_singleton, Record.ofTrace_append_singleton]
    exact left before ended
  | ended running _ _ deserted =>
    rw [List.map_singleton, Record.ofTrace_append_singleton]
    exact ⟨deserted, balanced.kept running⟩
  | queued running | handled running | ticked running | stopped running =>
    exact absurd (by simpa using listed) (halted running)

theorem Advances.lawful (advances : Advances reader waiting service now occurrences next)
    (balanced : Balanced waiting service (Record.ofTrace trace))
    (mirrors : Mirrors (sidesAfter reader options source trace) service (Record.ofTrace trace))
    (lawful : Lawful reader options source trace) :
    Lawful reader options source (trace ++ occurrences.map (·, now)) := by
  have stopped := balanced.stopped
  cases advances with
  | idle | deserted => simpa using lawful
  | queued running =>
    rw [running] at stopped
    exact .append lawful (stopped ▸ .queued)
  | bounced closed =>
    rw [closed] at stopped
    exact .append lawful (stopped ▸ .bounced)
  | @handled letter queue run running waits goesOn taken =>
    rw [running, Bool.not_true] at stopped
    obtain ⟨answer, effects, _⟩ := mirrors.take stopped (.command letter.command) now
    subst taken
    rw [answer, effects]
    exact .append lawful (stopped ▸ .handled)
  | @stopped letter behind queue run running waits stops empty taken =>
    rw [running, Bool.not_true] at stopped
    obtain ⟨answer, effects, _⟩ := mirrors.take stopped (.command letter.command) now
    subst taken
    rw [answer, effects, List.map_cons, List.map_map, List.append_cons]
    refine Lawful.append_lost (.append lawful (stopped ▸ .handled)) ?_ behind now
    rw [Record.ofTrace_append_singleton]
    simp [Record.note, stops]
  | ended running =>
    rw [running] at stopped
    exact .append lawful (stopped ▸ .ended)
  | ticked running taken =>
    rw [running, Bool.not_true] at stopped
    obtain ⟨_, effects, _⟩ := mirrors.take stopped .tick now
    subst taken
    rw [effects]
    exact .append lawful (stopped ▸ .ticked)

end Steps

end ChunkExchange.Node.Service
