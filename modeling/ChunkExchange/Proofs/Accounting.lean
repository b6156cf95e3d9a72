import ChunkExchange.Proofs.Lists
import ChunkExchange.Proofs.SupplyHistory

/-! Every request of a peer is accounted for: it was answered, superseded by a later one, or it is
queued; and nothing is sent that does not answer one. -/

namespace ChunkExchange.Supply

/-- What makes two requests ask for the same chunk. -/
structure Key where
  file : File
  index : Nat
  peer : Peer
deriving DecidableEq

def Request.key (request : Request) : Key :=
  { file := request.file, index := request.extent.index, peer := request.peer }

/-- A request that came in, or an answer that was sent, without its data. -/
inductive Entry where
  | get (request : Request)
  | chunk (answer : Request)
  | missing (answer : Request)
deriving DecidableEq

namespace Entry

def key : Entry → Key
  | .get request | .chunk request | .missing request => request.key

def isGet : Entry → Bool
  | .get _ => true
  | .chunk _ | .missing _ => false

/-- Whether an entry answers a request. A chunk may be shorter than what was asked for. -/
def Answers (request : Request) : Entry → Prop
  | .get _ => False
  | .chunk answer => ∃ size, answer = { request with extent := request.extent.resize size }
  | .missing answer => answer = request

private theorem key_of_answers {entry : Entry} {request : Request}
    (answers : entry.Answers request) : entry.key = request.key := by
  cases entry with
  | get => cases answers
  | chunk answer =>
    obtain ⟨size, same⟩ := answers
    subst same
    rfl
  | missing answer =>
    cases answers
    rfl

private theorem isGet_of_answers {entry : Entry} {request : Request}
    (answers : entry.Answers request) : entry.isGet = false := by
  cases entry with
  | get => cases answers
  | chunk | missing => rfl

end Entry

def Command.entry? : Command → Option Entry
  | .ask file extent peer => some (.get { file, extent, peer })
  | _ => none

def Effect.entry? : Effect → Option Entry
  | .chunk file extent peer _ => some (.chunk { file, extent, peer })
  | .missing file extent peer => some (.missing { file, extent, peer })
  | .read _ _ _ => none

def entriesOf (effects : List Effect) : List Entry :=
  effects.filterMap Effect.entry?

def Event.entries (event : Event) : List Entry :=
  event.command.entry?.toList ++ entriesOf event.effects

/-- How many queued requests for a key were dropped because the key was asked for again. -/
def Event.superseded (event : Event) (key : Key) : Nat :=
  match event.command with
  | .ask file extent peer =>
    if event.before.isShared file ∧ key = { file, index := extent.index, peer } then
      event.before.queue.countP (fun ticket => ticket.request.key = key)
    else 0
  | .share _ _ | .withdraw _ | .tick => 0

variable {Source : Type}

namespace History

/-- The requests for a key and the answers to them, in order. -/
def log (history : History Source) (key : Key) : List Entry :=
  (history.events.flatMap Event.entries).filter (fun entry => entry.key = key)

def superseded (history : History Source) (key : Key) : Nat :=
  (history.events.map (fun event => event.superseded key)).foldr (· + ·) 0

def queued (history : History Source) (key : Key) : Nat :=
  history.supplier.queue.countP (fun ticket => ticket.request.key = key)

end History

/-- The books on the requests for one key: what passed, how many were superseded, and which are
outstanding. A new request takes the place of the one outstanding. -/
inductive Ledger : List Entry → Nat → List Request → Prop where
  | empty : Ledger [] 0 []
  | get {log : List Entry} {superseded : Nat} {outstanding : List Request}
      (earlier : Ledger log superseded outstanding) (request : Request) :
    Ledger (log ++ [.get request]) (superseded + outstanding.length) [request]
  | answer {log : List Entry} {superseded : Nat} {request : Request} {entry : Entry}
      (earlier : Ledger log superseded [request]) (answers : entry.Answers request) :
    Ledger (log ++ [entry]) superseded []

namespace Ledger

variable {log : List Entry} {superseded : Nat} {outstanding : List Request} {request : Request}

theorem length_le_one (ledger : Ledger log superseded outstanding) : outstanding.length ≤ 1 := by
  cases ledger with
  | empty | answer => exact Nat.zero_le 1
  | get => exact Nat.le_refl 1

theorem balance (ledger : Ledger log superseded outstanding) :
    log.countP Entry.isGet =
      log.countP (fun entry => !entry.isGet) + superseded + outstanding.length := by
  induction ledger with
  | empty => rfl
  | get _ request ih =>
    have asked : (Entry.get request).isGet = true := rfl
    simp only [List.countP_append, List.countP_singleton, asked, Bool.not_true,
      Bool.false_eq_true, ↓reduceIte, List.length_singleton]
    omega
  | answer _ answers ih =>
    simp only [List.countP_append, List.countP_singleton, Entry.isGet_of_answers answers,
      Bool.not_false, Bool.false_eq_true, ↓reduceIte, List.length_singleton,
      List.length_nil] at ih ⊢
    omega

private theorem last_get (ledger : Ledger log superseded [request]) :
    ∃ front, log = front ++ [.get request] := by
  cases ledger with
  | get => exact ⟨_, rfl⟩

/-- Every answer follows directly upon the request it answers. -/
theorem answered (ledger : Ledger log superseded outstanding) {earlier later : List Entry}
    {entry : Entry} (whole : log = earlier ++ entry :: later) (reply : entry.isGet = false) :
    ∃ front request, earlier = front ++ [.get request] ∧ entry.Answers request := by
  induction ledger generalizing later with
  | empty => simp at whole
  | get _ request ih =>
    rcases eq_or_of_concat_eq whole with ⟨_, _, last⟩ | ⟨rest, _, within⟩
    · subst last
      cases reply
    · exact ih within
  | answer ledger answers ih =>
    rcases eq_or_of_concat_eq whole with ⟨_, same, last⟩ | ⟨rest, _, within⟩
    · obtain ⟨front, asked⟩ := ledger.last_get
      exact ⟨front, _, same.trans asked, last ▸ answers⟩
    · exact ih within

end Ledger

def Balanced (log : List Entry) (superseded : Key → Nat) (outstanding : List Request) : Prop :=
  ∀ key, Ledger (log.filter (fun entry => entry.key = key)) (superseded key)
    (outstanding.filter (fun request => request.key = key))

namespace Balanced

variable {log : List Entry} {superseded later : Key → Nat} {outstanding others : List Request}
variable {request : Request} {entry : Entry}

theorem perm (balanced : Balanced log superseded outstanding) (perm : outstanding.Perm others) :
    Balanced log superseded others := by
  intro key
  have ledger := balanced key
  have same := perm.filter (fun request => request.key = key)
  have one := ledger.length_le_one
  -- At most one request of a key is outstanding, so the order does not matter.
  match listed : outstanding.filter (fun request => request.key = key) with
  | [] =>
    rw [listed] at same ledger
    exact same.nil_eq ▸ ledger
  | [request] =>
    rw [listed] at same ledger
    exact (List.singleton_perm.mp same).symm ▸ ledger
  | first :: second :: rest =>
    rw [listed, List.length_cons, List.length_cons] at one
    omega

theorem get (balanced : Balanced log superseded outstanding) (request : Request)
    (more : ∀ key, later key = superseded key +
      if key = request.key then outstanding.countP (fun request => request.key = key) else 0) :
    Balanced (log ++ [.get request]) later
      (outstanding.filter (fun other => other.key ≠ request.key) ++ [request]) := by
  intro key
  rw [List.filter_append, List.filter_append, List.filter_filter, more key]
  by_cases same : key = request.key
  · have none : outstanding.filter (fun other =>
        decide (other.key = key) && decide (other.key ≠ request.key)) = [] := by
      rw [List.filter_eq_nil_iff]
      simp [same]
    have noted : [Entry.get request].filter (fun entry => entry.key = key) = [.get request] := by
      simp [Entry.key, same]
    have alone : [request].filter (fun request => request.key = key) = [request] := by
      simp [same]
    rw [none, noted, alone, if_pos same, List.countP_eq_length_filter]
    exact (balanced key).get request
  · have others : outstanding.filter (fun other =>
        decide (other.key = key) && decide (other.key ≠ request.key)) =
          outstanding.filter (fun other => other.key = key) := by
      apply List.filter_congr
      intro other _
      by_cases own : other.key = key
      · simp [own, same]
      · simp [own]
    have noted : [Entry.get request].filter (fun entry => entry.key = key) = [] := by
      simp [Entry.key, Ne.symm same]
    have alone : [request].filter (fun request => request.key = key) = [] := by
      simp [Ne.symm same]
    rw [others, noted, alone, if_neg same, List.append_nil, List.append_nil, Nat.add_zero]
    exact balanced key

theorem answer (balanced : Balanced log superseded (request :: outstanding))
    (answers : entry.Answers request) : Balanced (log ++ [entry]) superseded outstanding := by
  intro key
  have ledger := balanced key
  rw [List.filter_append]
  by_cases same : request.key = key
  · have noted : [entry].filter (fun entry => entry.key = key) = [entry] := by
      simp [Entry.key_of_answers answers, same]
    rw [List.filter_cons_of_pos (by simp [same])] at ledger
    have one := ledger.length_le_one
    have none : outstanding.filter (fun request => request.key = key) = [] := by
      rw [List.length_cons] at one
      exact List.eq_nil_of_length_eq_zero (Nat.le_zero.mp (Nat.le_of_succ_le_succ one))
    rw [none] at ledger ⊢
    rw [noted]
    exact ledger.answer answers
  · have noted : [entry].filter (fun entry => entry.key = key) = [] := by
      simp [Entry.key_of_answers answers, same]
    rw [List.filter_cons_of_neg (by simp [same])] at ledger
    rw [noted, List.append_nil]
    exact ledger

theorem declined {dropped : List Ticket}
    (balanced : Balanced log superseded (dropped.map Ticket.request ++ outstanding)) :
    Balanced (log ++ entriesOf (dropped.map Supplier.decline)) superseded outstanding := by
  induction dropped generalizing log with
  | nil => simpa [entriesOf] using balanced
  | cons ticket rest ih =>
    have first : Balanced (log ++ [.missing ticket.request]) superseded
        (rest.map Ticket.request ++ outstanding) := balanced.answer rfl
    have whole := ih first
    rw [List.append_assoc] at whole
    exact whole

section Runs

variable {Source : Type} {before after : Supplier.Run Source} {ticket : Ticket}

theorem entriesOf_append (first second : List Effect) :
    entriesOf (first ++ second) = entriesOf first ++ entriesOf second :=
  List.filterMap_append

theorem entriesOf_reads {reads : List Effect} (only : ∀ effect ∈ reads, effect.isRead = true) :
    entriesOf reads = [] := by
  rw [entriesOf, List.filterMap_eq_nil_iff]
  intro effect listed
  have read := only effect listed
  cases effect with
  | read => rfl
  | chunk | missing => cases read

/-- A request at work stays outstanding when it is queued, and is answered otherwise. -/
theorem handled (handles : Supplier.Handles ticket before after)
    (balanced : Balanced (log ++ entriesOf before.effects) superseded
      (ticket.request :: (outstanding ++ before.supplier.queue.map Ticket.request))) :
    Balanced (log ++ entriesOf after.effects) superseded
      (outstanding ++ after.supplier.queue.map Ticket.request) := by
  cases handles with
  | declined only =>
    have answers : (Entry.missing ticket.request).Answers ticket.request := rfl
    rw [entriesOf_append, entriesOf_append, entriesOf_reads only, List.nil_append,
      ← List.append_assoc]
    exact balanced.answer answers
  | @sent pool source reads size data only =>
    have answers : (Entry.chunk { ticket.request with
        extent := ticket.extent.resize size }).Answers ticket.request := ⟨size, rfl⟩
    rw [entriesOf_append, entriesOf_append, entriesOf_reads only, List.nil_append,
      ← List.append_assoc]
    exact balanced.answer answers
  | @queued pool source reads later only same =>
    simp only [entriesOf_append, entriesOf_reads only, List.append_nil, List.map_append,
      List.map_singleton, same, ← List.append_assoc]
    exact balanced.perm (List.perm_append_singleton _ _).symm

theorem retried (reader : Reader Source) (now : Nat) (due : List Ticket)
    (run : Supplier.Run Source)
    (balanced : Balanced (log ++ entriesOf run.effects) superseded
      (due.map Ticket.request ++ run.supplier.queue.map Ticket.request)) :
    let final := due.foldl (Supplier.retry reader now) run
    Balanced (log ++ entriesOf final.effects) superseded
      (final.supplier.queue.map Ticket.request) := by
  induction due generalizing run with
  | nil => exact balanced
  | cons ticket rest ih =>
    exact ih _ (balanced.handled (Supplier.handles_retry reader now run ticket))

end Runs

end Balanced

theorem matchesKey_iff {ticket : Ticket} {file : File} {index : Nat} {peer : Peer} :
    ticket.matchesKey file index peer = true ↔
      ticket.request.key = { file, index, peer } := by
  simp [Ticket.matchesKey, Ticket.isFor, Ticket.request, Request.key, and_assoc, and_left_comm]

section Steps

variable {Source : Type} {supplier : Supplier} {log : List Entry} {superseded later : Key → Nat}
variable {file : File} {extent : Extent} {peer : Peer}

private theorem balanced_ask_unshared (reader : Reader Source) (source : Source) (now : Nat)
    (queues : Supplier.QueuesShared supplier) (unshared : supplier.path? file = none)
    (balanced : Balanced log superseded (supplier.queue.map Ticket.request)) :
    Balanced (log ++ .get { file, extent, peer } ::
        entriesOf (supplier.ask reader source file extent peer now).effects) superseded
      ((supplier.ask reader source file extent peer now).supplier.queue.map Ticket.request) := by
  let request : Request := { file, extent, peer }
  -- What is queued is for shared files, so nothing is superseded here.
  have others : ∀ other ∈ supplier.queue.map Ticket.request, other.key ≠ request.key := by
    intro other listed same
    obtain ⟨ticket, queued, own⟩ := List.mem_map.mp listed
    have shared := queues ticket queued
    have file : ticket.file = file := by
      subst own
      exact congrArg Key.file same
    rw [Supplier.isShared, file, unshared] at shared
    cases shared
  have clear : (supplier.queue.map Ticket.request).filter (fun other => other.key ≠ request.key) =
      supplier.queue.map Ticket.request := by
    rw [List.filter_eq_self]
    exact fun other listed => decide_eq_true (others other listed)
  have kept (key : Key) : superseded key = superseded key +
      if key = request.key then
        (supplier.queue.map Ticket.request).countP (fun request => request.key = key) else 0 := by
    split
    · rename_i same
      have none : (supplier.queue.map Ticket.request).countP (fun request => request.key = key) =
          0 := by
        rw [List.countP_eq_zero, same]
        simpa using others
      rw [none, Nat.add_zero]
    · rfl
  have asked := balanced.get request kept
  rw [clear] at asked
  have declined : (Entry.missing request).Answers request := rfl
  have answered := (asked.perm (List.perm_append_singleton _ _)).answer declined
  rw [List.append_assoc] at answered
  simp only [Supplier.ask, unshared]
  exact answered

private theorem balanced_ask_shared {path : String} (reader : Reader Source) (source : Source)
    (now : Nat) (shared : supplier.path? file = some path)
    (more : ∀ key, later key = superseded key +
      if key = { file, index := extent.index, peer } then
        supplier.queue.countP (fun ticket => ticket.request.key = key) else 0)
    (balanced : Balanced log superseded (supplier.queue.map Ticket.request)) :
    Balanced (log ++ .get { file, extent, peer } ::
        entriesOf (supplier.ask reader source file extent peer now).effects) later
      ((supplier.ask reader source file extent peer now).supplier.queue.map Ticket.request) := by
  let request : Request := { file, extent, peer }
  have remaining : (supplier.queue.map Ticket.request).filter
      (fun other => other.key ≠ request.key) =
        (supplier.queue.filter (fun ticket => !ticket.matchesKey file extent.index peer)).map
          Ticket.request := by
    rw [List.filter_map]
    congr 1
    apply List.filter_congr
    intro ticket _
    by_cases same : ticket.request.key = request.key
    · have matching : ticket.matchesKey file extent.index peer = true := matchesKey_iff.mpr same
      simp [same, matching]
    · have other : ticket.matchesKey file extent.index peer = false :=
        Bool.eq_false_iff.mpr (mt matchesKey_iff.mp same)
      simp [same, other]
  have asked : Balanced (log ++ [.get request]) later _ :=
    balanced.get request (fun key => by rw [more key, List.countP_map]; rfl)
  rw [remaining] at asked
  -- From here on the new request is at work, with what is left of the queue.
  have working := asked.perm (List.perm_append_singleton _ _)
  rw [← List.append_nil (log ++ [_])] at working
  have answered : Balanced (log ++ [.get request] ++
        entriesOf (supplier.ask reader source file extent peer now).effects) later
      ([] ++ (supplier.ask reader source file extent peer now).supplier.queue.map
        Ticket.request) :=
    Balanced.handled (Supplier.handles_ask reader source extent peer now shared) working
  rw [List.append_assoc] at answered
  exact answered

theorem balanced_event (history : History Source) (reader : Reader Source)
    (command : Command) (now : Nat) (queues : Supplier.QueuesShared history.supplier)
    (balanced : Balanced log superseded (history.supplier.queue.map Ticket.request)) :
    let event := history.event reader command now
    Balanced (log ++ event.entries) (fun key => superseded key + event.superseded key)
      (event.after.queue.map Ticket.request) := by
  cases command with
  | share file path =>
    change Balanced (log ++ []) superseded _
    rw [List.append_nil]
    exact balanced
  | withdraw file =>
    have split := (List.filter_append_perm (fun ticket => ticket.file == file)
      history.supplier.queue).symm.map Ticket.request
    rw [List.map_append] at split
    exact (balanced.perm split).declined
  | ask file extent peer =>
    cases shared : history.supplier.path? file with
    | none =>
      have kept : (fun key => superseded key +
          (history.event reader (.ask file extent peer) now).superseded key) = superseded := by
        funext key
        simp [Event.superseded, History.event, Supplier.isShared, shared]
      intro event
      rw [kept]
      exact balanced_ask_unshared reader history.source now queues shared balanced
    | some path =>
      apply balanced_ask_shared reader history.source now shared _ balanced
      intro key
      simp [Event.superseded, History.event, Supplier.isShared, shared]
  | tick =>
    have split := (List.filter_append_perm (fun ticket => ticket.isExpired now)
      history.supplier.queue).symm.map Ticket.request
    rw [List.map_append] at split
    -- Due requests are off the queue, but outstanding until each one is tried.
    have started := balanced.perm split
    rw [← List.append_nil log] at started
    have final := Balanced.retried reader now _
      { supplier := { history.supplier with
          queue := history.supplier.queue.filter (fun ticket => !ticket.isExpired now) }
        source := history.source, effects := [] } started
    exact final

end Steps

theorem balanced_run {Source : Type} (reader : Reader Source) (backoff : Backoff)
    (pool : BufferPool) (source : Source) (commands : List (Command × Nat)) :
    let history := History.run reader backoff pool source commands
    Balanced (history.events.flatMap Event.entries) history.superseded
      (history.supplier.queue.map Ticket.request) := by
  refine (History.run_induction (motive := fun history =>
      Supplier.QueuesShared history.supplier ∧
        Balanced (history.events.flatMap Event.entries) history.superseded
          (history.supplier.queue.map Ticket.request)) ?_ ?_ commands).2
  · refine ⟨?_, fun key => .empty⟩
    intro ticket listed
    cases listed
  · intro history command now ⟨queues, balanced⟩
    refine ⟨Supplier.queuesShared_step queues reader history.source command now, ?_⟩
    have kept := balanced_event history reader command now queues balanced
    have entries : (history.next reader command now).events.flatMap Event.entries =
        history.events.flatMap Event.entries ++ (history.event reader command now).entries := by
      simp [History.next]
    have superseded : (history.next reader command now).superseded =
        fun key => history.superseded key +
          (history.event reader command now).superseded key := by
      funext key
      simp only [History.superseded, History.next, List.map_append, foldr_add_append]
      rfl
    rw [entries, superseded]
    exact kept

structure Accounted {Source : Type} (history : History Source) (key : Key) : Prop where
  /-- Each request was answered, superseded by a later one, or is queued. -/
  balance : (history.log key).countP Entry.isGet =
    (history.log key).countP (fun entry => !entry.isGet) + history.superseded key +
      history.queued key
  single : history.queued key ≤ 1
  answers : ∀ earlier entry later, history.log key = earlier ++ entry :: later →
    entry.isGet = false →
      ∃ front request, earlier = front ++ [.get request] ∧ entry.Answers request

/-- Whatever a supplier is asked to do and whatever its reads come to, every request for a chunk is
accounted for, and nothing is sent but answers to outstanding requests. -/
theorem requests_accounted {Source : Type} (reader : Reader Source) (backoff : Backoff)
    (pool : BufferPool) (source : Source) (commands : List (Command × Nat)) (key : Key) :
    Accounted (History.run reader backoff pool source commands) key := by
  have ledger := balanced_run reader backoff pool source commands key
  have queued : (History.run reader backoff pool source commands).queued key =
      (((History.run reader backoff pool source commands).supplier.queue.map
        Ticket.request).filter (fun request => request.key = key)).length := by
    rw [History.queued, ← List.countP_eq_length_filter, List.countP_map]
    rfl
  refine ⟨?_, ?_, fun earlier entry later => ledger.answered⟩
  · rw [queued]
    exact ledger.balance
  · rw [queued]
    exact ledger.length_le_one

end ChunkExchange.Supply
