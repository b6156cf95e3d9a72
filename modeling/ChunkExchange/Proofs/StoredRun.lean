import ChunkExchange.Proofs.Completion
import ChunkExchange.Proofs.PartFile

namespace ChunkExchange.Fetch

open FileTree (Outcome)
open PartStore (Apart)

def Effect.carryOut (tree : FileTree) : Effect → Outcome
  | .get _ => { tree, failure := none }
  | .write path offset data => PartStore.write tree path offset data
  | .close path => PartStore.close tree path

/-- What effects do to a tree of files, up to the first failure. -/
def carryOut (tree : FileTree) : List Effect → Outcome
  | [] => { tree, failure := none }
  | effect :: rest => (effect.carryOut tree).andThen fun tree => carryOut tree rest

/-- What events make of an empty tree, up to the first failure. -/
def onDisk (events : List Event) : Outcome :=
  carryOut .empty (events.flatMap Event.effects)

/-- The paths that are in use while an event takes place: the one of a file that is asked for, and
those of the active downloads that it leaves. -/
def Event.paths (event : Event) : List String :=
  match event.operation with
  | .request file path =>
    if event.before.isActive file then event.before.downloads.map Download.path
    else path :: (event.after.downloads.filter
      (fun download => decide (download.file ≠ file))).map Download.path
  | _ => event.before.downloads.map Download.path

/-- An event closes a path where a directory is in the place of the file that is assembled, and what
is at a location goes or comes with it. -/
def Event.Carries (event : Event) (tree : FileTree) (location : Location) : Prop :=
  ∃ path, .close path ∈ event.effects ∧ PartStore.Carries tree path location

variable {tree : FileTree} {effect : Effect} {effects rest : List Effect}

theorem carryOut_cons (succeeds : (carryOut tree (effect :: rest)).failure = none) :
    (effect.carryOut tree).failure = none ∧
      carryOut tree (effect :: rest) = carryOut (effect.carryOut tree).tree rest :=
  PartStore.andThen_failure_eq_none succeeds

theorem carryOut_get (tree : FileTree) (picks : List Pick) :
    carryOut tree (picks.map .get) = { tree, failure := none } := by
  induction picks with
  | nil => rfl
  | cons pick rest ih => exact ih

private theorem carryOut_append (tree : FileTree) (first second : List Effect) :
    carryOut tree (first ++ second) =
      (carryOut tree first).andThen fun tree => carryOut tree second := by
  induction first generalizing tree with
  | nil => rfl
  | cons effect rest ih => simp only [List.cons_append, carryOut, ih, PartStore.andThen_assoc]

theorem onDisk_append {earlier later : List Event}
    (succeeds : (onDisk (earlier ++ later)).failure = none) :
    (onDisk earlier).failure = none ∧
      onDisk (earlier ++ later) =
        carryOut (onDisk earlier).tree (later.flatMap Event.effects) := by
  unfold onDisk at succeeds ⊢
  rw [List.flatMap_append, carryOut_append] at succeeds ⊢
  exact PartStore.andThen_failure_eq_none succeeds

theorem Effect.rooted_carryOut (rooted : tree.Rooted)
    (succeeds : (effect.carryOut tree).failure = none) : (effect.carryOut tree).tree.Rooted := by
  cases effect with
  | get pick => exact rooted
  | write path offset data => exact (PartStore.write_spec rooted succeeds).1
  | close path => exact (PartStore.close_spec rooted succeeds).1

theorem rooted_carryOut (rooted : tree.Rooted) (succeeds : (carryOut tree effects).failure = none) :
    (carryOut tree effects).tree.Rooted := by
  induction effects generalizing tree with
  | nil => exact rooted
  | cons effect rest ih =>
    obtain ⟨first, later⟩ := carryOut_cons succeeds
    rw [later] at succeeds ⊢
    exact ih (Effect.rooted_carryOut rooted first) succeeds

theorem rooted_onDisk {events : List Event} (succeeds : (onDisk events).failure = none) :
    (onDisk events).tree.Rooted :=
  rooted_carryOut FileTree.rooted_empty succeeds

namespace Event

variable {Memory : Type} {scheduler : Scheduler Memory} {options : Options} {event : Event}

/-- What an event does to files. -/
inductive Stores (event : Event) : Prop where
  | nothing {picks : List Pick} (effects : event.effects = picks.map .get)
  | closes {file : File} {path : String} {picks : List Pick}
      (operation : event.operation = .request file path) (asks : event.opens file = true)
      (told : .completed file path ∈ event.notices)
      (effects : event.effects = .close path :: picks.map .get)
  | writes {download : Download} {extent : Extent} {data : Bytes} {peer : Peer}
      (closing : List Effect) {picks : List Pick} (member : download ∈ event.before.downloads)
      (operation : event.operation = .deliver download.file extent data peer)
      (effects : event.effects =
        .write download.path extent.offset (data.take extent.size) ::
          (closing ++ picks.map .get))
      (last : closing = [] ∨ (closing = [.close download.path] ∧
        .completed download.file download.path ∈ event.notices))

theorem Lawful.stores (lawful : event.Lawful scheduler options) : event.Stores := by
  obtain ⟨settled, picks, settles, continues, reply, effects, _⟩ := lawful.settles
  generalize named : event.operation = operation at settles
  cases settles with
  | quiet _ still =>
    rw [still, List.nil_append] at effects
    exact .nothing effects
  | begun => exact .nothing effects
  | empty inactive positive none =>
    refine .closes named (opens_iff.mpr ⟨⟨_, named⟩, inactive⟩) ?_ effects
    simp [notices, reply, Reply.notices]
  | arrived member => exact .writes [] member named effects (.inl rfl)
  | finished member =>
    refine .writes [_] member named effects (.inr ⟨rfl, ?_⟩)
    simp [notices, reply, Reply.notices]

end Event

end ChunkExchange.Fetch
