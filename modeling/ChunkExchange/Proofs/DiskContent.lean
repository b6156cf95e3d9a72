import ChunkExchange.Proofs.Assembly
import ChunkExchange.Proofs.StoredRun
import Mathlib.Data.List.Pairwise

namespace ChunkExchange.Fetch

open PartStore (partPlace Apart)

variable {Memory : Type} {scheduler : Scheduler Memory} {options : Options} {memory : Memory}
variable {commands : List (Operation × Nat)} {tree : FileTree}

private theorem fileAt_carryOut_stored {path other : String} {offset : Nat} {data : Bytes}
    {closing : List Effect} {picks : List Pick} (rooted : tree.Rooted) (apart : Apart path other)
    (last : closing = [] ∨ closing = [.close path])
    (succeeds : (carryOut tree
      (.write path offset data :: (closing ++ picks.map .get))).failure = none) :
    (carryOut tree (.write path offset data :: (closing ++ picks.map .get))).tree.fileAt
        (partPlace other) = tree.fileAt (partPlace other) := by
  obtain ⟨written, later⟩ := carryOut_cons succeeds
  have housed := Effect.rooted_carryOut rooted written
  have untouched := PartStore.fileAt_write_of_apart rooted apart written
  have found := (PartStore.write_spec rooted written).2.2.1
  rw [later] at succeeds ⊢
  rw [← untouched]
  rcases last with unfinished | closes
  · rw [unfinished, List.nil_append, carryOut_get]
    rfl
  · rw [closes, List.singleton_append] at succeeds ⊢
    obtain ⟨closed, final⟩ := carryOut_cons succeeds
    rw [final, carryOut_get]
    apply PartStore.fileAt_close_of_apart housed apart closed
    -- The file that was just written is there, so no directory can be carried off.
    intro carries
    have directory := carries.1
    rw [Effect.carryOut, found] at directory
    cases directory

namespace Event

variable {event : Event} {download other next : Download}

private theorem apart_of_mem (apart : event.paths.Pairwise Apart)
    (asksNot : ∀ file path, event.operation ≠ .request file path)
    (first : download ∈ event.before.downloads) (second : other ∈ event.before.downloads)
    (different : download ≠ other) : Apart download.path other.path := by
  have paths : event.paths = event.before.downloads.map Download.path := by
    unfold paths
    split
    · rename_i file path operation
      exact absurd operation (asksNot file path)
    · rfl
  rw [paths, List.pairwise_map] at apart
  have symmetric : Std.Symm (fun first second : Download => Apart first.path second.path) :=
    ⟨fun _ _ => Apart.symm⟩
  exact apart.forall first second different

private theorem apart_of_request {file : File} {path : String} (apart : event.paths.Pairwise Apart)
    (operation : event.operation = .request file path) (asks : event.opens file = true)
    (member : next ∈ event.after.downloads) (different : next.file ≠ file) :
    Apart path next.path := by
  have inactive := (opens_iff.mp asks).2
  simp only [paths, operation, inactive, Bool.false_eq_true, ↓reduceIte] at apart
  apply (List.pairwise_cons.mp apart).1
  exact List.mem_map.mpr ⟨next, List.mem_filter.mpr ⟨member, by simpa using different⟩, rfl⟩

/-- What is stored for other files leaves the file that is assembled for a download as it is. -/
private theorem Lawful.fileAt_spared (lawful : event.Lawful scheduler options)
    (rooted : tree.Rooted) (succeeds : (carryOut tree event.effects).failure = none)
    (apart : event.paths.Pairwise Apart)
    (steady : ¬ event.Carries tree (partPlace download.path))
    (member : download ∈ event.before.downloads) (after : next ∈ event.after.downloads)
    (named : next.file = download.file) (path : next.path = download.path)
    (asksNot : event.opens download.file = false) (silent : event.writes download.file = []) :
    (carryOut tree event.effects).tree.fileAt (partPlace download.path) =
      tree.fileAt (partPlace download.path) := by
  cases lawful.stores with
  | nothing effects => rw [effects, carryOut_get]
  | @closes file target picks operation asks _ effects =>
    have different : next.file ≠ file := by
      intro same
      rw [← same, named, asksNot] at asks
      cases asks
    have other := path ▸ apart_of_request apart operation asks after different
    rw [effects] at succeeds ⊢
    obtain ⟨closed, later⟩ := carryOut_cons succeeds
    rw [later, carryOut_get]
    apply PartStore.fileAt_close_of_apart rooted other closed
    intro carries
    exact steady ⟨target, by simp [effects], carries⟩
  | @writes writer extent data peer closing picks present operation effects last =>
    -- A download that is written to would not be silent, so the chunk belongs to another one.
    have different : writer ≠ download := by
      intro same
      subst same
      rw [writes_deliver operation, if_pos rfl, effects] at silent
      cases silent
    have asks (file : File) (path : String) : event.operation ≠ .request file path := by
      simp [operation]
    have other := apart_of_mem apart asks present member different
    rw [effects] at succeeds ⊢
    exact fileAt_carryOut_stored rooted other (last.imp_right And.left) succeeds

private theorem Lawful.fileAt_written {write : Write} (lawful : event.Lawful scheduler options)
    (rooted : tree.Rooted) (succeeds : (carryOut tree event.effects).failure = none)
    (member : download ∈ event.before.downloads) (after : next ∈ event.after.downloads)
    (named : next.file = download.file) (writes : event.writes download.file = [write]) :
    (carryOut tree event.effects).tree.fileAt (partPlace download.path) =
      some (PartStore.overlay ((tree.fileAt (partPlace download.path)).getD []) write.offset
        write.data) := by
  have active {path : String} (told : .completed download.file path ∈ event.notices) : False :=
    Fetcher.isActive_eq_false_iff.mp (lawful.completes told).2 next after named
  cases lawful.stores with
  | nothing effects =>
    have silent : event.writes download.file = [] :=
      writes_eq_nil_of_silent download.file fun index => by rw [effects, filterMap_write?_get]
    rw [silent] at writes
    cases writes
  | closes operation =>
    rw [writes_request operation] at writes
    cases writes
  | @writes writer extent data peer closing picks present operation effects last =>
    rw [writes_deliver operation] at writes
    split at writes
    · rename_i same
      have own : writer = download :=
        Fetcher.eq_of_id lawful.before.distinct present member (by rw [same])
      subst own
      rcases last with still | ⟨_, told⟩
      · rw [still, List.nil_append] at effects
        simp only [effects, List.filterMap_cons, Effect.write?, filterMap_write?_get] at writes
        cases writes
        rw [effects] at succeeds ⊢
        obtain ⟨written, later⟩ := carryOut_cons succeeds
        have found := (PartStore.write_spec rooted written).2.2.1
        rw [later, carryOut_get]
        exact FileTree.fileAt_eq_some_iff.mpr (FileTree.get?_place_of_find found)
      · exact (active told).elim
    · cases writes

private theorem Lawful.carryOut_of_opens (lawful : event.Lawful scheduler options)
    (asks : event.opens next.file = true) (member : next ∈ event.after.downloads)
    (tree : FileTree) : carryOut tree event.effects = { tree, failure := none } := by
  obtain ⟨operation, _⟩ := lawful.begun_of_opens asks member rfl
  cases lawful.stores with
  | nothing effects => rw [effects, carryOut_get]
  | closes asked _ told =>
    rw [operation] at asked
    cases asked
    exact absurd rfl
      (Fetcher.isActive_eq_false_iff.mp (lawful.completes told).2 next member)
  | writes _ _ delivered =>
    rw [operation] at delivered
    cases delivered

end Event

/-- No event after the request for a path carries a directory away from above the file that is
assembled for it, or to there. -/
def Steady (path : String) (past : List Event) (opening : Event) (recent : List Event) : Prop :=
  ∀ front event back, recent = front ++ event :: back →
    ¬ event.Carries (onDisk (past ++ opening :: front)).tree (partPlace path)

def assembledAt (events : List Event) (path : String) : Bytes :=
  ((onDisk events).tree.fileAt (partPlace path)).getD []

theorem layWrites_append (first second : List Write) (old : Bytes) :
    layWrites (first ++ second) old = layWrites second (layWrites first old) :=
  List.foldl_append

theorem Steady.of_append_singleton {path : String} {past recent : List Event}
    {opening event : Event} (steady : Steady path past opening (recent ++ [event])) :
    Steady path past opening recent ∧
      ¬ event.Carries (onDisk (past ++ opening :: recent)).tree (partPlace path) := by
  constructor
  · intro front other back whole
    exact steady front other (back ++ [event]) (by rw [whole, List.append_assoc, List.cons_append])
  · exact steady recent event [] rfl

namespace History

variable {history : History Memory}

/-- While a download is active, the file that is assembled for it is what its writes make of the
file that was there when it was asked for. -/
def Assembled (history : History Memory) : Prop :=
  ∀ download ∈ history.fetcher.downloads, ∃ past opening recent,
    Activation history.events download.file download.path past opening recent ∧
      (Steady download.path past opening recent →
        assembledAt history.events download.path =
          layWrites (writesSince download.file history.events)
            (assembledAt past download.path))

theorem Assembled.next (assembled : history.Assembled)
    (lawful : history.Lawful scheduler options) (operation : Operation) (now : Nat)
    (succeeds : (onDisk (history.next scheduler operation now).events).failure = none)
    (apart : (history.event scheduler operation now).paths.Pairwise Apart) :
    (history.next scheduler operation now).Assembled := by
  have event := lawful.event operation now
  have events : (history.next scheduler operation now).events =
      history.events ++ [history.event scheduler operation now] := rfl
  rw [events] at succeeds
  obtain ⟨before, later⟩ := onDisk_append succeeds
  have rooted := rooted_onDisk before
  rw [List.flatMap_singleton] at later
  rw [later] at succeeds
  intro next member
  cases event.advances member with
  | begun asks asked =>
    -- The download begins here, so nothing has been written for it and what is there is kept.
    refine ⟨history.events, history.event scheduler operation now, [],
      ⟨rfl, asked, asks, by simp⟩, ?_⟩
    intro _
    rw [events, writesSince_of_opens asks, assembledAt, later,
      event.carryOut_of_opens asks member]
    rfl
  | kept asksNot present kin silent =>
    obtain ⟨past, opening, recent, activation, formula⟩ := assembled _ present
    rw [kin.file] at asksNot ⊢
    rw [kin.path]
    refine ⟨past, opening, recent ++ [_], activation.append_singleton asksNot, ?_⟩
    intro steady
    obtain ⟨earlier, still⟩ := steady.of_append_singleton
    rw [← activation.events] at still
    have spared := event.fileAt_spared rooted succeeds apart still present member kin.file
      kin.path asksNot silent
    rw [events, writesSince_of_not_opens asksNot, silent, List.append_nil, ← formula earlier,
      assembledAt, later, spared, assembledAt]
  | written asksNot present file path writes =>
    obtain ⟨past, opening, recent, activation, formula⟩ := assembled _ present
    rw [file] at asksNot ⊢
    rw [path]
    refine ⟨past, opening, recent ++ [_], activation.append_singleton asksNot, ?_⟩
    intro steady
    obtain ⟨earlier, _⟩ := steady.of_append_singleton
    have overlaid := event.fileAt_written rooted succeeds present member file writes
    rw [events, writesSince_of_not_opens asksNot, writes, layWrites_append, ← formula earlier,
      assembledAt, later, overlaid]
    rfl

/-- In every successful run each active download is assembled by its writes. -/
theorem assembled_run (commands : List (Operation × Nat))
    (succeeds : (onDisk (run scheduler options memory commands).events).failure = none)
    (apart : ∀ event ∈ (run scheduler options memory commands).events,
      event.paths.Pairwise Apart) :
    (run scheduler options memory commands).Assembled := by
  induction commands using List.reverseRecOn with
  | nil =>
    intro download member
    cases member
  | append_singleton commands command ih =>
    rw [run_append_singleton] at succeeds apart ⊢
    have events : ((run scheduler options memory commands).next scheduler command.1
        command.2).events = (run scheduler options memory commands).events ++
          [(run scheduler options memory commands).event scheduler command.1 command.2] := rfl
    rw [events] at apart
    have earlier := ih (onDisk_append (events ▸ succeeds)).1
      (fun event member => apart event (List.mem_append_left _ member))
    exact earlier.next (lawful_run scheduler options memory commands) command.1 command.2 succeeds
      (apart _ (by simp))

end History

end ChunkExchange.Fetch
