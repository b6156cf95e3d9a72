import ChunkExchange.Proofs.Accounting

/-! One read for one request: the request is answered with a chunk, or it waits for another read, or
it is declined. Reads for other requests leave it alone. -/

namespace ChunkExchange

namespace Supply

/-- The answers among some effects to the requests for a key. -/
def answersTo (key : Key) (effects : List Effect) : List Entry :=
  (entriesOf effects).filter (fun entry => entry.key = key)

theorem answersTo_append (key : Key) (first second : List Effect) :
    answersTo key (first ++ second) = answersTo key first ++ answersTo key second := by
  rw [answersTo, Balanced.entriesOf_append, List.filter_append]
  rfl

def Request.read (request : Request) (path : String) : Effect :=
  .read path request.extent.offset
    (List.replicate (Supplier.replyLength request.file request.extent) 0)

theorem entriesOf_read_pair (request : Request) (path : String) {effect : Effect} {entry : Entry}
    (sends : effect.entry? = some entry) : entriesOf [request.read path, effect] = [entry] := by
  have silent : Effect.entry? (request.read path) = none := rfl
  rw [entriesOf, List.filterMap_cons_none silent, List.filterMap_cons_some sends,
    List.filterMap_nil]

/-- A read tells nobody anything; whatever is sent after it may. -/
theorem answersTo_read_pair (request : Request) (path : String) {key : Key} {effect : Effect}
    {entry : Entry} (sends : effect.entry? = some entry) (own : entry.key = key) :
    answersTo key [request.read path, effect] = [entry] := by
  rw [answersTo, entriesOf_read_pair request path sends,
    List.filter_cons_of_pos (by simpa using own), List.filter_nil]

theorem answersTo_read_pair_of_ne (request : Request) (path : String) {key : Key}
    {effect : Effect} {entry : Entry} (sends : effect.entry? = some entry)
    (other : entry.key ≠ key) : answersTo key [request.read path, effect] = [] := by
  rw [answersTo, entriesOf_read_pair request path sends,
    List.filter_cons_of_neg (by simpa using other), List.filter_nil]

/-- The reply to the read for a request of a file at a path, and what the source is after it. -/
def Reader.readFor {Source : Type} (reader : Reader Source) (source : Source) (path : String)
    (request : Request) :
    ReadReply (List.replicate (Supplier.replyLength request.file request.extent) (0 : UInt8)).length
      × Source :=
  reader.read source path request.extent.offset
    (List.replicate (Supplier.replyLength request.file request.extent) 0)

/-- What a read for a request brings, unless it fails: as many bytes of the buffer as it claims. -/
def Reader.data? {Source : Type} (reader : Reader Source) (source : Source) (path : String)
    (request : Request) : Option Bytes :=
  let reply := (reader.readFor source path request).1
  reply.claimed.map reply.contents.toList.take

def Request.chunk (request : Request) (data : Bytes) : Effect :=
  .chunk request.file (request.extent.resize data.length) request.peer data

/-- One read that was made for a request. -/
structure Trial where
  request : Request
  now : Nat
  succeeded : Bool
deriving DecidableEq

/-- What a read comes to when `attempt` reads for its request have failed before: the answers that
are sent and what is queued. -/
inductive Outcome (backoff : Backoff) (attempt : Nat) (trial : Trial) :
    List Entry → List Ticket → Prop where
  | sent (size : Nat) (succeeded : trial.succeeded = true) :
    Outcome backoff attempt trial
      [.chunk { trial.request with extent := trial.request.extent.resize size }] []
  | queued {later : Ticket} {delay : Nat} (failed : trial.succeeded = false)
      (allowed : backoff.delay? attempt = some delay) (same : later.request = trial.request)
      (attempts : later.attempts = attempt + 1) (expires : later.expires = trial.now + delay) :
    Outcome backoff attempt trial [] [later]
  | gaveUp (failed : trial.succeeded = false) (exhausted : backoff.delay? attempt = none) :
    Outcome backoff attempt trial [.missing trial.request] []

end Supply

open Supply (Effect Entry Key Reader Request Trial Outcome answersTo answersTo_append
  answersTo_read_pair answersTo_read_pair_of_ne)

namespace Supplier

/-- The queued requests for a key. -/
def queuedFor (supplier : Supplier) (key : Key) : List Ticket :=
  supplier.queue.filter (fun ticket => ticket.request.key = key)

/-- The read that the supplier can make for a request. -/
def readFor? (supplier : Supplier) (request : Request) : Option Effect :=
  (supplier.path? request.file).map request.read

variable {Source : Type} {reader : Reader Source} {before after run : Run Source}
variable {supplier : Supplier} {request : Request} {ticket : Ticket} {path : String}
variable {now attempt : Nat} {key : Key}

/-- The reads for some requests of shared files in turn, and what the source is after them. -/
def trials (supplier : Supplier) (reader : Reader Source) (now : Nat) (source : Source) :
    List Request → List Trial × Source
  | [] => ([], source)
  | request :: rest =>
    match supplier.path? request.file with
    | none => supplier.trials reader now source rest
    | some path =>
      let (reply, source) := reader.readFor source path request
      let (later, source) := supplier.trials reader now source rest
      ({ request, now, succeeded := reply.claimed.isSome } :: later, source)

/-- The read at `now` for a request of a file at a path, after what was done `before`. -/
def trial (reader : Reader Source) (now : Nat) (path : String) (before : Run Source)
    (request : Request) : Trial :=
  { request, now, succeeded := (reader.readFor before.source path request).1.claimed.isSome }

/-- One read for a request, of which `attempt` reads have failed before. -/
inductive Tries (reader : Reader Source) (now : Nat) (request : Request) (attempt : Nat)
    (path : String) (before : Run Source) : Run Source → Prop where
  | sent {pool : Supply.BufferPool} {size : Nat} {data : Bytes}
      (succeeded : (trial reader now path before request).succeeded = true) :
    Tries reader now request attempt path before
      { supplier := { before.supplier with pool }
        source := (reader.readFor before.source path request).2
        effects := before.effects ++ [request.read path,
          .chunk request.file (request.extent.resize size) request.peer data] }
  | queued {pool : Supply.BufferPool} {later : Ticket} {delay : Nat}
      (failed : (trial reader now path before request).succeeded = false)
      (allowed : before.supplier.backoff.delay? attempt = some delay)
      (same : later.request = request) (attempts : later.attempts = attempt + 1)
      (expires : later.expires = now + delay) :
    Tries reader now request attempt path before
      { supplier := { before.supplier with pool, queue := before.supplier.queue ++ [later] }
        source := (reader.readFor before.source path request).2
        effects := before.effects ++ [request.read path] }
  | gaveUp {pool : Supply.BufferPool}
      (failed : (trial reader now path before request).succeeded = false)
      (exhausted : before.supplier.backoff.delay? attempt = none) :
    Tries reader now request attempt path before
      { supplier := { before.supplier with pool }
        source := (reader.readFor before.source path request).2
        effects := before.effects ++ [request.read path,
          .missing request.file request.extent request.peer] }

theorem readAndReply_eq (reader : Reader Source) (run : Run Source) (path : String)
    (request : Request) :
    ∃ pool, readAndReply reader run path request.file request.extent request.peer =
      ((reader.data? run.source path request).isSome,
        { supplier := { run.supplier with pool }
          source := (reader.readFor run.source path request).2
          effects := run.effects ++ request.read path ::
            ((reader.data? run.source path request).map request.chunk).toList }) := by
  have lent := Supply.BufferPool.contents_acquire run.supplier.pool
    (replyLength request.file request.extent)
  -- The type of a reply depends on the buffer, so only what does not is carried over.
  have told := congrArg (fun buffer =>
    let reply := reader.read run.source path request.extent.offset buffer
    (reply.1.claimed, reply.1.contents.toList, reply.2)) lent
  simp only [Prod.mk.injEq] at told
  obtain ⟨claimed, contents, source⟩ := told
  refine ⟨(run.supplier.pool.acquire (replyLength request.file request.extent)).2.release
    { (run.supplier.pool.acquire (replyLength request.file request.extent)).1 with
      contents := (reader.readFor run.source path request).1.contents.toList }, ?_⟩
  simp only [readAndReply, claimed, contents, source, lent]
  unfold Reader.data? Reader.readFor
  dsimp only
  cases (reader.read run.source path request.extent.offset
      (List.replicate (replyLength request.file request.extent) 0)).1.claimed with
  | none => rfl
  | some count =>
    simp only [List.append_assoc]
    rfl

theorem readAndReply_readFor (reader : Reader Source) (run : Run Source) (path : String)
    (request : Request) :
    let reading := reader.readFor run.source path request
    ∃ pool, (reading.1.claimed.isSome = false ∧
        readAndReply reader run path request.file request.extent request.peer =
          (false, { supplier := { run.supplier with pool }, source := reading.2
                    effects := run.effects ++ [request.read path] })) ∨
      reading.1.claimed.isSome = true ∧ ∃ size data,
        readAndReply reader run path request.file request.extent request.peer =
          (true, { supplier := { run.supplier with pool }, source := reading.2
                   effects := run.effects ++ [request.read path,
                     .chunk request.file (request.extent.resize size) request.peer data] }) := by
  intro reading
  obtain ⟨pool, result⟩ := readAndReply_eq reader run path request
  have told : (reader.data? run.source path request).isSome = reading.1.claimed.isSome :=
    Option.isSome_map ..
  rw [← told, result]
  cases reader.data? run.source path request with
  | none => exact ⟨pool, .inl ⟨rfl, rfl⟩⟩
  | some data => exact ⟨pool, .inr ⟨rfl, data.length, data, rfl⟩⟩

private theorem tries_requeue {pool : Supply.BufferPool} (before : Run Source) (ticket : Ticket)
    (failed : (trial reader now path before ticket.request).succeeded = false)
    (retry : Nat → Ticket) (same : ∀ delay, (retry delay).request = ticket.request)
    (attempts : ∀ delay, (retry delay).attempts = attempt + 1)
    (expires : ∀ delay, (retry delay).expires = now + delay) :
    Tries reader now ticket.request attempt path before
      (requeue { supplier := { before.supplier with pool }
                 source := (reader.readFor before.source path ticket.request).2
                 effects := before.effects ++ [ticket.request.read path] } ticket retry
        attempt) := by
  unfold requeue
  split
  · rename_i delay allowed
    exact .queued failed allowed (same delay) (attempts delay) (expires delay)
  · rename_i exhausted
    rw [List.append_assoc]
    exact .gaveUp failed exhausted

/-- A queued request that is due is read for once more. -/
theorem tries_retry (reader : Reader Source) (now : Nat) (run : Run Source)
    (shared : run.supplier.path? ticket.file = some path) :
    Tries reader now ticket.request ticket.attempts path run (retry reader now run ticket) := by
  unfold retry
  simp only [shared]
  obtain ⟨pool, ⟨failed, result⟩ | ⟨succeeded, size, data, result⟩⟩ :=
    readAndReply_readFor reader run path ticket.request
  · simp only [Ticket.request] at result
    simp only [result, Bool.false_eq_true, ↓reduceIte]
    exact tries_requeue run ticket failed _ (fun _ => rfl) (fun _ => rfl) (fun _ => rfl)
  · simp only [Ticket.request] at result
    simp only [result, ↓reduceIte]
    exact .sent succeeded

/-- A new request for a shared file is read for once, in the place of a queued one. -/
theorem tries_ask (reader : Reader Source) (supplier : Supplier) (source : Source)
    (request : Request) (now : Nat) (shared : supplier.path? request.file = some path) :
    Tries reader now request 0 path
      { supplier := { supplier with queue := supplier.queue.filter (fun ticket =>
          !ticket.matchesKey request.file request.extent.index request.peer) }
        source, effects := [] }
      (supplier.ask reader source request.file request.extent request.peer now) := by
  unfold ask
  simp only [shared]
  obtain ⟨pool, ⟨failed, result⟩ | ⟨succeeded, size, data, result⟩⟩ :=
    readAndReply_readFor reader { supplier, source, effects := [] } path request
  · simp only [result, Bool.false_eq_true, ↓reduceIte]
    let cleared : Run Source :=
      { supplier := { supplier with queue := supplier.queue.filter (fun ticket =>
          !ticket.matchesKey request.file request.extent.index request.peer) }
        source, effects := [] }
    exact tries_requeue cleared (Ticket.first request.file request.extent request.peer now 0)
      failed (Ticket.first request.file request.extent request.peer now) (fun _ => rfl)
      (fun _ => rfl) (fun _ => rfl)
  · simp only [result, ↓reduceIte]
    exact .sent succeeded

section Single

variable (tries : Tries reader now request attempt path before after)

include tries

theorem Tries.shared : after.supplier.shared = before.supplier.shared := by
  cases tries <;> rfl

theorem Tries.backoff : after.supplier.backoff = before.supplier.backoff := by
  cases tries <;> rfl

theorem Tries.source : after.source = (reader.readFor before.source path request).2 := by
  cases tries <;> rfl

theorem Tries.reads : after.effects.filter Effect.isRead =
    before.effects.filter Effect.isRead ++ [request.read path] := by
  cases tries <;> rw [List.filter_append] <;> rfl

theorem Tries.others (different : key ≠ request.key) :
    after.supplier.queuedFor key = before.supplier.queuedFor key ∧
      answersTo key after.effects = answersTo key before.effects := by
  cases tries with
  | sent | gaveUp =>
    refine ⟨rfl, ?_⟩
    rw [answersTo_append, answersTo_read_pair_of_ne request path rfl (Ne.symm different),
      List.append_nil]
  | @queued pool later delay _ _ same =>
    have apart : later.request.key ≠ key := by
      rw [same]
      exact Ne.symm different
    refine ⟨?_, by rw [answersTo_append]; exact List.append_nil _⟩
    simp [queuedFor, apart]

theorem Tries.own (free : before.supplier.queuedFor request.key = []) : ∃ answers,
    answersTo request.key after.effects = answersTo request.key before.effects ++ answers ∧
      Outcome before.supplier.backoff attempt (trial reader now path before request) answers
        (after.supplier.queuedFor request.key) := by
  cases tries with
  | @sent pool size data succeeded =>
    have told : answersTo request.key [request.read path,
        .chunk request.file (request.extent.resize size) request.peer data] =
          [.chunk { request with extent := request.extent.resize size }] :=
      answersTo_read_pair request path rfl rfl
    have queue : queuedFor { before.supplier with pool } request.key = [] := free
    refine ⟨_, answersTo_append .., ?_⟩
    rw [told]
    exact queue ▸ .sent size succeeded
  | @queued pool later delay failed allowed same attempts expires =>
    refine ⟨[], by rw [answersTo_append]; rfl, ?_⟩
    have queue : queuedFor { before.supplier with
        pool, queue := before.supplier.queue ++ [later] } request.key = [later] := by
      unfold queuedFor at free ⊢
      rw [List.filter_append, free]
      simp [same]
    rw [queue]
    exact .queued failed allowed same attempts expires
  | @gaveUp pool failed exhausted =>
    have told : answersTo request.key [request.read path,
        .missing request.file request.extent request.peer] = [.missing request] :=
      answersTo_read_pair request path rfl rfl
    have queue : queuedFor { before.supplier with pool } request.key = [] := free
    refine ⟨_, answersTo_append .., ?_⟩
    rw [told]
    exact queue ▸ .gaveUp failed exhausted

end Single

section Trials

variable {first second : List Request} {source : Source}

theorem readFor?_of_shared {other : Supplier} (same : supplier.shared = other.shared) :
    supplier.readFor? = other.readFor? := by
  funext request
  rw [readFor?, readFor?, path?, path?, same]

theorem trials_of_shared {other : Supplier} {requests : List Request}
    (same : supplier.shared = other.shared) (source : Source) :
    supplier.trials reader now source requests = other.trials reader now source requests := by
  induction requests generalizing source with
  | nil => rfl
  | cons request rest ih =>
    have path : supplier.path? request.file = other.path? request.file := by
      rw [path?, path?, same]
    simp only [trials, path, ih]

theorem trials_cons (reader : Reader Source) (now : Nat) (run : Run Source) (request : Request)
    (shared : run.supplier.path? request.file = some path) (rest : List Request) :
    run.supplier.trials reader now run.source (request :: rest) =
      let later := run.supplier.trials reader now (reader.readFor run.source path request).2 rest
      (trial reader now path run request :: later.1, later.2) := by
  simp only [trials, shared]
  rfl

private theorem trials_append (supplier : Supplier) (source : Source)
    (first second : List Request) : supplier.trials reader now source (first ++ second) =
      let early := supplier.trials reader now source first
      let late := supplier.trials reader now early.2 second
      (early.1 ++ late.1, late.2) := by
  induction first generalizing source with
  | nil => rfl
  | cons request rest ih =>
    rw [List.cons_append, trials, trials]
    split
    · exact ih source
    · simp only [ih, List.cons_append]

theorem request_of_mem_trials {requests : List Request} {entry : Trial}
    (listed : entry ∈ (supplier.trials reader now source requests).1) :
    entry.request ∈ requests ∧ entry.now = now := by
  induction requests generalizing source with
  | nil => cases listed
  | cons request rest ih =>
    rw [trials] at listed
    split at listed
    · obtain ⟨asked, time⟩ := ih listed
      exact ⟨List.mem_cons_of_mem request asked, time⟩
    · rcases List.mem_cons.mp listed with same | later
      · subst same
        exact ⟨List.mem_cons_self, rfl⟩
      · obtain ⟨asked, time⟩ := ih later
        exact ⟨List.mem_cons_of_mem request asked, time⟩

end Trials

def trialsFor (key : Key) (trials : List Trial) : List Trial :=
  trials.filter (fun trial => trial.request.key = key)

private theorem trialsFor_append (first second : List Trial) :
    trialsFor key (first ++ second) = trialsFor key first ++ trialsFor key second :=
  List.filter_append ..

theorem trialsFor_eq_nil {made : List Trial} (others : ∀ trial ∈ made, trial.request.key ≠ key) :
    trialsFor key made = [] := by
  rw [trialsFor, List.filter_eq_nil_iff]
  simpa using others

theorem trialsFor_trials_of_ne {requests : List Request}
    (different : ∀ request ∈ requests, request.key ≠ key) :
    trialsFor key (supplier.trials reader now source requests).1 = [] :=
  trialsFor_eq_nil fun trial listed => different trial.request (request_of_mem_trials listed).1

section Queue

variable {due front back : List Ticket}

theorem exists_tries_retry (reader : Reader Source) (now : Nat) (run : Run Source)
    (shared : run.supplier.isShared ticket.file = true) :
    ∃ path, run.supplier.path? ticket.file = some path ∧
      Tries reader now ticket.request ticket.attempts path run (retry reader now run ticket) := by
  obtain ⟨path, found⟩ := Option.isSome_iff_exists.mp shared
  exact ⟨path, found, tries_retry reader now run found⟩

/-- Requests for shared files that are due are read for in turn, each once. -/
theorem foldl_retry_reads (reader : Reader Source) (now : Nat) (run : Run Source)
    (shared : ∀ ticket ∈ due, run.supplier.isShared ticket.file = true) :
    let final := due.foldl (retry reader now) run
    let trials := run.supplier.trials reader now run.source (due.map Ticket.request)
    final.supplier.shared = run.supplier.shared ∧
      final.supplier.backoff = run.supplier.backoff ∧ final.source = trials.2 ∧
      trials.1.map Trial.request = due.map Ticket.request ∧
      (final.effects.filter Effect.isRead).map some =
        (run.effects.filter Effect.isRead).map some ++
          (due.map Ticket.request).map run.supplier.readFor? := by
  induction due generalizing run with
  | nil => simp [trials]
  | cons ticket rest ih =>
    obtain ⟨path, found, tries⟩ :=
      exists_tries_retry reader now run (shared ticket List.mem_cons_self)
    obtain ⟨kept, backoff, left, requests, reads⟩ := ih (retry reader now run ticket)
      (fun other listed => by
        rw [isShared_of_shared tries.shared]
        exact shared other (List.mem_cons_of_mem ticket listed))
    have first : run.supplier.readFor? ticket.request = some (ticket.request.read path) := by
      simp [readFor?, Ticket.request, found]
    have later := trials_cons reader now run ticket.request found (rest.map Ticket.request)
    rw [trials_of_shared tries.shared, tries.source] at left requests
    intro final trials
    refine ⟨kept.trans tries.shared, backoff.trans tries.backoff, ?_, ?_, ?_⟩
    · exact left.trans (congrArg Prod.snd later).symm
    · rw [List.map_cons, ← requests]
      exact congrArg (fun trials => trials.1.map Trial.request) later
    · rw [readFor?_of_shared tries.shared, tries.reads] at reads
      simp only [final, List.foldl_cons, reads, List.map_append, List.map_cons, List.map_nil, first,
        List.append_assoc, List.singleton_append]

theorem foldl_retry_others (reader : Reader Source) (now : Nat) (run : Run Source)
    (shared : ∀ ticket ∈ due, run.supplier.isShared ticket.file = true)
    (different : ∀ ticket ∈ due, ticket.request.key ≠ key) :
    (due.foldl (retry reader now) run).supplier.queuedFor key = run.supplier.queuedFor key ∧
      answersTo key (due.foldl (retry reader now) run).effects = answersTo key run.effects := by
  induction due generalizing run with
  | nil => exact ⟨rfl, rfl⟩
  | cons ticket rest ih =>
    obtain ⟨path, _, tries⟩ :=
      exists_tries_retry reader now run (shared ticket List.mem_cons_self)
    obtain ⟨queue, answers⟩ := ih (retry reader now run ticket)
      (fun other listed => by
        rw [isShared_of_shared tries.shared]
        exact shared other (List.mem_cons_of_mem ticket listed))
      (fun other listed => different other (List.mem_cons_of_mem ticket listed))
    obtain ⟨kept, silent⟩ := tries.others (different ticket List.mem_cons_self).symm
    exact ⟨queue.trans kept, answers.trans silent⟩

section Own

variable (shared : ∀ other ∈ front ++ ticket :: back, run.supplier.isShared other.file = true)
variable (alone : ∀ other ∈ front ++ back, other.request.key ≠ ticket.request.key)

include shared alone

/-- The one request for a key among those that are due is the one that is read for. -/
theorem trialsFor_retry_own (reader : Reader Source) (now : Nat)
    (found : run.supplier.path? ticket.file = some path) :
    trialsFor ticket.request.key (run.supplier.trials reader now run.source
        ((front ++ ticket :: back).map Ticket.request)).1 =
      [trial reader now path (front.foldl (retry reader now) run) ticket.request] := by
  obtain ⟨kept, _, left, _, _⟩ := foldl_retry_reads reader now run
    fun other listed => shared other (List.mem_append_left _ listed)
  have before : trialsFor ticket.request.key (run.supplier.trials reader now run.source
      (front.map Ticket.request)).1 = [] :=
    trialsFor_trials_of_ne (by simpa using fun other listed => alone other (by simp [listed]))
  have after (source : Source) : trialsFor ticket.request.key
      (run.supplier.trials reader now source (back.map Ticket.request)).1 = [] :=
    trialsFor_trials_of_ne (by
      intro request listed
      obtain ⟨other, last, same⟩ := List.mem_map.mp listed
      exact same ▸ alone other (List.mem_append_right front last))
  have reached : (front.foldl (retry reader now) run).supplier.path? ticket.request.file =
      some path := by
    rw [path?, kept]
    exact found
  have own := trials_cons reader now _ ticket.request reached (back.map Ticket.request)
  rw [trials_of_shared kept, trials_of_shared kept, left] at own
  rw [List.map_append, List.map_cons, trials_append]
  dsimp only
  rw [own, trialsFor_append, before, List.nil_append]
  unfold trialsFor at after ⊢
  rw [List.filter_cons_of_pos (by simp [trial]), after]

theorem foldl_retry_own (reader : Reader Source) (now : Nat)
    (free : run.supplier.queuedFor ticket.request.key = []) :
    let final := (front ++ ticket :: back).foldl (retry reader now) run
    ∃ trial answers, trial.request = ticket.request ∧
      trialsFor ticket.request.key (run.supplier.trials reader now run.source
        ((front ++ ticket :: back).map Ticket.request)).1 = [trial] ∧
      answersTo ticket.request.key final.effects =
        answersTo ticket.request.key run.effects ++ answers ∧
      Outcome run.supplier.backoff ticket.attempts trial answers
        (final.supplier.queuedFor ticket.request.key) := by
  have ahead (other : Ticket) (listed : other ∈ front) :
      run.supplier.isShared other.file = true :=
    shared other (List.mem_append_left _ listed)
  have apart (other : Ticket) (listed : other ∈ front) :
      other.request.key ≠ ticket.request.key :=
    alone other (List.mem_append_left back listed)
  let reached := front.foldl (retry reader now) run
  obtain ⟨kept, backoff, _, _, _⟩ := foldl_retry_reads reader now run ahead
  obtain ⟨queue, silent⟩ := foldl_retry_others reader now run ahead apart
  have still (other : Ticket) (listed : other ∈ ticket :: back) :
      reached.supplier.isShared other.file = true := by
    rw [isShared_of_shared kept]
    exact shared other (List.mem_append_right front listed)
  obtain ⟨path, found, tries⟩ :=
    exists_tries_retry reader now reached (still ticket List.mem_cons_self)
  obtain ⟨answers, told, outcome⟩ := tries.own (queue.trans free)
  have behind (other : Ticket) (listed : other ∈ back) :
      (retry reader now reached ticket).supplier.isShared other.file = true := by
    rw [isShared_of_shared tries.shared]
    exact still other (List.mem_cons_of_mem ticket listed)
  obtain ⟨later, quiet⟩ := foldl_retry_others reader now (retry reader now reached ticket) behind
    (fun other listed => alone other (List.mem_append_right front listed))
  rw [path?, kept] at found
  refine ⟨trial reader now path reached ticket.request, answers, rfl,
    trialsFor_retry_own shared alone reader now found, ?_, ?_⟩
  · rw [List.foldl_append, List.foldl_cons, quiet, told, silent]
  · rw [List.foldl_append, List.foldl_cons, later, ← backoff]
    exact outcome

end Own

end Queue

end Supplier

end ChunkExchange
