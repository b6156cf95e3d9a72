import ChunkExchange.Node.Clock

/-! A node as a service. Handles put commands into one queue, and a loop works through it while a
timer ticks. When the loop ends, what waits in the queue is lost, and nothing more can be sent. -/

namespace ChunkExchange.Node

abbrev Answer := Except NodeError Reply

/-- Whether the sender of a command waits for its answer. -/
def Command.isCall : Command → Bool
  | .request _ _ | .cancel _ | .share _ _ | .unshare _ | .status | .shutdown => true
  | .join _ | .leave _ | .supply _ _ _ | .deliver _ _ _ _ | .miss _ _ _ => false

/-- A command that was sent, with the number of sendings before it. -/
structure Letter where
  number : Nat
  command : Command
deriving DecidableEq

/-- How letters come to a service, and answers to their senders. -/
structure Channels (Queue : Type) where
  create : (capacity : Nat) → Queue
  push : Queue → Letter → Option Queue
  pop : Queue → Option (Letter × Queue)
  close : Queue → List Letter × Queue
  /-- What arrives at a caller when it was given an answer, or when none will ever be given. -/
  receive : Option Answer → Option Answer

/-- What a caller is told: the answer that arrives, or else that the node has stopped. -/
def Channels.await {Queue : Type} (channels : Channels Queue) (given : Option Answer) : Answer :=
  (channels.receive given).getD (.error .closed)

/-- A node with the source of its reads and the queue of its commands. -/
structure Service (Source Queue : Type) where
  node : Node
  source : Source
  queue : Queue
  sent : Nat
  attended : Bool

namespace Service

inductive Move where
  | send (command : Command)
  | work
  | tick
  | hangUp
deriving DecidableEq

/-- What comes of a move. -/
inductive Occurrence where
  | queued (letter : Letter)
  | bounced (letter : Letter)
  | handled (letter : Letter) (answer : Answer) (effects : List Effect)
  | ticked (effects : List Effect)
  | ended
  /-- A letter was in the queue when the loop ended. -/
  | lost (letter : Letter) (answer : Answer)

/-- What a sender is told, with the number of its letter. Only callers wait until their letter is
handled or lost. -/
def Occurrence.answer? : Occurrence → Option (Nat × Answer)
  | .queued letter => if letter.command.isCall then none else some (letter.number, .ok .done)
  | .bounced letter => some (letter.number, .error .closed)
  | .handled letter answer _ | .lost letter answer =>
    if letter.command.isCall then some (letter.number, answer) else none
  | .ticked _ | .ended => none

def Occurrence.effects : Occurrence → List Effect
  | .handled _ _ effects | .ticked effects => effects
  | .queued _ | .bounced _ | .ended | .lost _ _ => []

variable {Source Queue : Type}

def start (channels : Channels Queue) (config : Config) (source : Source) :
    Except ConfigError (Service Source Queue) := do
  let clocked ← Clocked.start config source
  return { node := clocked.node, source := clocked.source
           queue := channels.create config.commandBuffer, sent := 0, attended := true }

/-- Puts a command into the queue. As long as the queue has no room the sender waits, and the
command is not sent yet. -/
def send (channels : Channels Queue) (service : Service Source Queue) (command : Command) :
    List Occurrence × Service Source Queue :=
  let letter : Letter := { number := service.sent, command }
  if service.attended then
    if service.node.running then
      match channels.push service.queue letter with
      | some queue => ([.queued letter], { service with queue, sent := service.sent + 1 })
      | none => ([], service)
    else ([.bounced letter], { service with sent := service.sent + 1 })
  else ([], service)

/-- Ends the loop for a reason. The queue is given up with the letters in it. -/
def close (channels : Channels Queue) (service : Service Source Queue) (reason : Occurrence) :
    List Occurrence × Service Source Queue :=
  let (letters, queue) := channels.close service.queue
  (reason :: letters.map (fun letter => .lost letter (channels.await none)),
    { service with node := { service.node with running := false }, queue })

/-- Carries out the next command. Without one the loop waits, unless nobody is left to send. -/
def work (channels : Channels Queue) (reader : Supply.Reader Source)
    (service : Service Source Queue) (now : Nat) : List Occurrence × Service Source Queue :=
  if service.node.running then
    match channels.pop service.queue with
    | some (letter, queue) =>
      let (answer, run) := service.node.handle reader service.source letter.command now
      let next := { service with node := run.node, source := run.source, queue }
      let handled := .handled letter (channels.await (some answer)) run.effects
      if run.node.running then ([handled], next) else next.close channels handled
    | none => if service.attended then ([], service) else service.close channels .ended
  else ([], service)

def tick (reader : Supply.Reader Source) (service : Service Source Queue) (now : Nat) :
    List Occurrence × Service Source Queue :=
  if service.node.running then
    let run := service.node.tick reader service.source now
    ([.ticked run.effects], { service with node := run.node, source := run.source })
  else ([], service)

def move (channels : Channels Queue) (reader : Supply.Reader Source)
    (service : Service Source Queue) (move : Move) (now : Nat) :
    List Occurrence × Service Source Queue :=
  match move with
  | .send command => service.send channels command
  | .work => service.work channels reader now
  | .tick => service.tick reader now
  | .hangUp => ([], { service with attended := false })

end Service

end ChunkExchange.Node
