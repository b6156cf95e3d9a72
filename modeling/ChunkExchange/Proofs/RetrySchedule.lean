import ChunkExchange.Proofs.ReadAttempts
import Mathlib.Data.List.Basic

/-! The retry schedule. A request whose reads fail is read for again after the delay of each
attempt, and is declined at the read that uses up the attempts; the first read that succeeds answers
it. -/

namespace ChunkExchange

namespace Supply

def Command.asked? (command : Command) (key : Key) : Option Request :=
  match command with
  | .ask file extent peer =>
    let request : Request := { file, extent, peer }
    if request.key = key then some request else none
  | .share _ _ | .withdraw _ | .tick => none

end Supply

open Supply (Command Effect Key Outcome Reader Request Trial answersTo)

namespace Supplier

variable {Source : Type} {reader : Reader Source} {supplier : Supplier} {source : Source}
variable {command : Command} {now : Nat} {key : Key} {ticket : Ticket} {request : Request}
variable {file : File} {path : String} {made : List Trial} {answers : List Supply.Entry}
variable {queued : List Ticket}

/-- The requests that a command at `now` reads for: a new one for a shared file, or those that are
queued and due. -/
def readers (supplier : Supplier) (command : Command) (now : Nat) : List Request :=
  match command with
  | .ask file extent peer => if supplier.isShared file then [{ file, extent, peer }] else []
  | .tick => (supplier.queue.filter (·.isExpired now)).map Ticket.request
  | .share _ _ | .withdraw _ => []

/-- What a command means to the requests for a key: the reads that are made for them, the answers
that are sent, and what is queued then. -/
inductive Treats (key : Key) (before : Supplier) (command : Command) :
    List Trial → List Supply.Entry → List Ticket → Prop where
  | asked {request : Request} {trial : Trial} {answers : List Supply.Entry} {queued : List Ticket}
      (asks : command.asked? key = some request) (own : trial.request = request)
      (outcome : Outcome before.backoff 0 trial answers queued) :
    Treats key before command [trial] answers queued
  | retried {ticket : Ticket} {trial : Trial} {answers : List Supply.Entry} {queued : List Ticket}
      (silent : command.asked? key = none) (held : before.queuedFor key = [ticket])
      (own : trial.request = ticket.request)
      (outcome : Outcome before.backoff ticket.attempts trial answers queued) :
    Treats key before command [trial] answers queued
  | refused {request : Request} (asks : command.asked? key = some request)
      (unshared : before.isShared key.file = false) :
    Treats key before command [] [.missing request] []
  | withdrawn (withdraws : command = .withdraw key.file) :
    Treats key before command []
      ((before.queuedFor key).map (fun ticket => .missing ticket.request)) []
  | kept (silent : command.asked? key = none) :
    Treats key before command [] [] (before.queuedFor key)

/-- Without a read what is queued stays queued, unless its key is asked for anew or its file is
withdrawn. -/
theorem Treats.stays (treats : Treats key supplier command made answers queued)
    (unread : made = []) (unasked : command.asked? key = none)
    (shares : command ≠ .withdraw key.file) : queued = supplier.queuedFor key := by
  cases treats with
  | asked | retried => cases unread
  | refused asks =>
    rw [asks] at unasked
    cases unasked
  | withdrawn withdraws => exact absurd withdraws shares
  | kept => rfl

theorem Treats.silent (treats : Treats key supplier command made answers queued)
    (unread : made = []) :
    answers = [] ∨ command = .withdraw key.file ∨
      (∃ request, command.asked? key = some request) ∧ supplier.isShared key.file = false := by
  cases treats with
  | asked | retried => cases unread
  | refused asks unshared => exact .inr (.inr ⟨⟨_, asks⟩, unshared⟩)
  | withdrawn withdraws => exact .inr (.inl withdraws)
  | kept => exact .inl rfl

theorem Treats.length_le (treats : Treats key supplier command made answers queued) :
    made.length ≤ 1 := by
  cases treats with
  | asked | retried => exact Nat.le_refl 1
  | refused | withdrawn | kept => exact Nat.zero_le 1

theorem file_of_mem_queuedFor (listed : ticket ∈ supplier.queuedFor key) :
    ticket.file = key.file :=
  congrArg Key.file (of_decide_eq_true (List.mem_filter.mp listed).2)

private theorem queuedFor_of_unshared (queues : QueuesShared supplier)
    (unshared : supplier.isShared key.file = false) : supplier.queuedFor key = [] := by
  rw [List.eq_nil_iff_forall_not_mem]
  intro ticket listed
  have shared := queues ticket (List.mem_filter.mp listed).1
  rw [file_of_mem_queuedFor listed, unshared] at shared
  cases shared

private theorem queuedFor_filter (keep : Ticket → Bool)
    (all : ∀ ticket ∈ supplier.queuedFor key, keep ticket = true) :
    queuedFor { supplier with queue := supplier.queue.filter keep } key =
      supplier.queuedFor key := by
  unfold queuedFor at all ⊢
  rw [List.filter_comm, List.filter_eq_self]
  exact all

private theorem queuedFor_filter_of_none (keep : Ticket → Bool)
    (none : ∀ ticket ∈ supplier.queuedFor key, keep ticket = false) :
    queuedFor { supplier with queue := supplier.queue.filter keep } key = [] := by
  unfold queuedFor at none ⊢
  rw [List.filter_comm, List.filter_eq_nil_iff]
  intro ticket listed
  rw [none ticket listed]
  exact Bool.false_ne_true

theorem answersTo_decline (tickets : List Ticket) :
    answersTo key (tickets.map decline) =
      (tickets.filter (fun ticket => ticket.request.key = key)).map
        (fun ticket => .missing ticket.request) := by
  induction tickets with
  | nil => rfl
  | cons ticket rest ih =>
    have told : answersTo key [decline ticket] =
        [Supply.Entry.missing ticket.request].filter (fun entry => entry.key = key) := rfl
    rw [List.map_cons, ← List.singleton_append, Supply.answersTo_append, ih, told]
    by_cases own : ticket.request.key = key
    · simp [Supply.Entry.key, own]
    · simp [Supply.Entry.key, own]

theorem treats_withdraw (supplier : Supplier) (file : File) :
    Treats key supplier (.withdraw file) [] (answersTo key (supplier.withdraw file).2)
      ((supplier.withdraw file).1.queuedFor key) := by
  unfold withdraw
  rw [answersTo_decline, List.filter_comm]
  by_cases own : file = key.file
  · have declined : (supplier.queuedFor key).filter (fun ticket => ticket.file == file) =
        supplier.queuedFor key := by
      rw [List.filter_eq_self]
      intro ticket listed
      simp [file_of_mem_queuedFor listed, own]
    have gone := queuedFor_filter_of_none (fun ticket => !(ticket.file == file))
      (fun ticket (listed : ticket ∈ supplier.queuedFor key) => by
        simp [file_of_mem_queuedFor listed, own])
    exact gone ▸ declined.symm ▸ .withdrawn (own ▸ rfl)
  · have declined : (supplier.queuedFor key).filter (fun ticket => ticket.file == file) = [] := by
      rw [List.filter_eq_nil_iff]
      intro ticket listed
      simp [file_of_mem_queuedFor listed, Ne.symm own]
    have left := queuedFor_filter (fun ticket => !(ticket.file == file))
      (fun ticket (listed : ticket ∈ supplier.queuedFor key) => by
        simp [file_of_mem_queuedFor listed, Ne.symm own])
    exact left ▸ declined.symm ▸ .kept rfl

theorem treats_ask (queues : QueuesShared supplier) (reader : Reader Source) (source : Source)
    (request : Request) (now : Nat) :
    let command : Command := .ask request.file request.extent request.peer
    let run := supplier.ask reader source request.file request.extent request.peer now
    Treats key supplier command
      (trialsFor key (supplier.trials reader now source (supplier.readers command now)).1)
      (answersTo key run.effects) (run.supplier.queuedFor key) := by
  intro command run
  have asks : command.asked? key = if request.key = key then some request else none := rfl
  cases shared : supplier.path? request.file with
  | none =>
    have unshared : supplier.isShared request.file = false := by
      rw [isShared, shared]
      rfl
    have readers : supplier.readers command now = [] := by
      simp [readers, command, unshared]
    have result : run = { supplier, source
                          effects := [.missing request.file request.extent request.peer] } := by
      simp only [run, ask, shared]
    have told : answersTo key run.effects =
        [Supply.Entry.missing request].filter (fun entry => entry.key = key) := by
      rw [result]
      rfl
    rw [readers, told, result]
    by_cases own : request.key = key
    · rw [List.filter_cons_of_pos (by simp [Supply.Entry.key, own]), List.filter_nil]
      have file : supplier.isShared key.file = false := own ▸ unshared
      have gone := queuedFor_of_unshared queues file
      exact gone ▸ .refused (by rw [asks, if_pos own]) file
    · rw [List.filter_cons_of_neg (by simp [Supply.Entry.key, own]), List.filter_nil]
      exact .kept (by rw [asks, if_neg own])
  | some path =>
    let cleared : Run Source :=
      { supplier := { supplier with queue := supplier.queue.filter (fun ticket =>
          !ticket.matchesKey request.file request.extent.index request.peer) }
        source, effects := [] }
    have tries := tries_ask reader supplier source request now shared
    have readers : supplier.readers command now = [request] := by
      simp [readers, command, isShared, shared]
    have trials : supplier.trials reader now source [request] =
        ([trial reader now path cleared request], (reader.readFor source path request).2) := by
      simp only [trials, shared]
      rfl
    rw [readers, trials]
    by_cases own : request.key = key
    · subst own
      have free : cleared.supplier.queuedFor request.key = [] := by
        apply queuedFor_filter_of_none
        intro ticket listed
        rw [Bool.not_eq_false', Supply.matchesKey_iff]
        exact of_decide_eq_true (List.mem_filter.mp listed).2
      obtain ⟨answers, told, outcome⟩ := tries.own free
      have sent : answersTo request.key run.effects = answers := told
      have asked : command.asked? request.key = some request := by rw [asks, if_pos rfl]
      have noted : trialsFor request.key [trial reader now path cleared request] =
          [trial reader now path cleared request] := by
        rw [trialsFor, List.filter_cons_of_pos (by simp [trial]), List.filter_nil]
      rw [sent, noted]
      exact .asked asked rfl outcome
    · obtain ⟨kept, silent⟩ := tries.others (Ne.symm own)
      have others : trialsFor key [trial reader now path cleared request] = [] := by
        rw [trialsFor, List.filter_cons_of_neg (by simp [trial, own]), List.filter_nil]
      have left : cleared.supplier.queuedFor key = supplier.queuedFor key := by
        apply queuedFor_filter
        intro ticket listed
        rw [Bool.not_eq_true', ← Bool.not_eq_true, Supply.matchesKey_iff]
        intro same
        exact own (same.symm.trans (of_decide_eq_true (List.mem_filter.mp listed).2))
      have quiet : answersTo key run.effects = [] := silent
      have unchanged : run.supplier.queuedFor key = supplier.queuedFor key := kept.trans left
      rw [others, quiet, unchanged]
      exact .kept (by rw [asks, if_neg own])

/-- A tick that has worked through the beginning of what was due. -/
def midTick (reader : Reader Source) (supplier : Supplier) (source : Source) (now : Nat)
    (done : List Ticket) : Run Source :=
  done.foldl (retry reader now)
    { supplier := { supplier with queue := supplier.queue.filter (fun ticket =>
        !ticket.isExpired now) }
      source, effects := [] }

/-- A tick is over when everything that was due has been worked through. -/
theorem tick_eq_midTick (reader : Reader Source) (supplier : Supplier) (source : Source)
    (now : Nat) : supplier.tick reader source now =
      midTick reader supplier source now (supplier.queue.filter (·.isExpired now)) :=
  rfl

theorem alone_of_single {front back : List Ticket}
    (single : (supplier.queuedFor ticket.request.key).length ≤ 1)
    (split : supplier.queue.filter (·.isExpired now) = front ++ ticket :: back) :
    ∀ other ∈ front ++ back, other.request.key ≠ ticket.request.key := by
  have one : ((front ++ ticket :: back).filter
      (fun other => other.request.key = ticket.request.key)).length ≤ 1 := by
    rw [← split, List.filter_comm]
    exact Nat.le_trans (List.length_filter_le _ _) single
  rw [List.filter_append, List.filter_cons_of_pos (by simp), List.length_append,
    List.length_cons] at one
  intro other listed same
  have counted : other ∈ (front ++ back).filter
      (fun other => other.request.key = ticket.request.key) :=
    List.mem_filter.mpr ⟨listed, decide_eq_true same⟩
  have some := List.length_pos_of_mem counted
  rw [List.filter_append, List.length_append] at some
  omega

theorem treats_tick (queues : QueuesShared supplier)
    (single : (supplier.queuedFor key).length ≤ 1) (reader : Reader Source) (source : Source)
    (now : Nat) :
    let run := supplier.tick reader source now
    Treats key supplier .tick
      (trialsFor key (supplier.trials reader now source (supplier.readers .tick now)).1)
      (answersTo key run.effects) (run.supplier.queuedFor key) := by
  intro run
  let due := supplier.queue.filter (·.isExpired now)
  let started : Run Source :=
    { supplier := { supplier with
        queue := supplier.queue.filter (fun ticket => !ticket.isExpired now) }
      source, effects := [] }
  have shared (ticket : Ticket) (listed : ticket ∈ due) :
      started.supplier.isShared ticket.file = true :=
    queues ticket (List.mem_filter.mp listed).1
  by_cases found : ∃ ticket ∈ supplier.queuedFor key, ticket.isExpired now = true
  · obtain ⟨ticket, listed, expired⟩ := found
    obtain ⟨queued, same⟩ := List.mem_filter.mp listed
    have own : ticket.request.key = key := of_decide_eq_true same
    subst own
    have held : supplier.queuedFor ticket.request.key = [ticket] :=
      eq_singleton_of_mem single listed
    have member : ticket ∈ due := List.mem_filter.mpr ⟨queued, expired⟩
    obtain ⟨front, back, split⟩ := List.append_of_mem member
    have free : started.supplier.queuedFor ticket.request.key = [] := by
      apply queuedFor_filter_of_none
      rw [held]
      simpa using expired
    obtain ⟨trial, answers, request, trials, told, outcome⟩ :=
      foldl_retry_own (split ▸ shared) (alone_of_single single split) reader now free
    rw [← split] at trials told outcome
    have noted : trialsFor ticket.request.key (supplier.trials reader now source
        (supplier.readers .tick now)).1 = [trial] := by
      have same : supplier.shared = started.supplier.shared := rfl
      rw [← trials, trials_of_shared same]
      rfl
    have sent : answersTo ticket.request.key run.effects = answers := told
    rw [noted, sent]
    exact .retried rfl held request outcome
  · have waiting : ∀ ticket ∈ supplier.queuedFor key, ticket.isExpired now = false := by
      simpa using found
    have different (ticket : Ticket) (listed : ticket ∈ due) : ticket.request.key ≠ key := by
      intro own
      obtain ⟨queued, expired⟩ := List.mem_filter.mp listed
      exact found ⟨ticket, List.mem_filter.mpr ⟨queued, decide_eq_true own⟩, expired⟩
    obtain ⟨kept, silent⟩ := foldl_retry_others reader now started shared different
    have left : started.supplier.queuedFor key = supplier.queuedFor key :=
      queuedFor_filter _ (by simpa using waiting)
    have quiet : answersTo key run.effects = [] := silent
    have unchanged : run.supplier.queuedFor key = supplier.queuedFor key := kept.trans left
    have unread : trialsFor key (supplier.trials reader now source
        (supplier.readers .tick now)).1 = [] :=
      trialsFor_trials_of_ne (by
        intro request listed
        obtain ⟨ticket, expired, same⟩ := List.mem_map.mp listed
        exact same ▸ different ticket expired)
    rw [unread, quiet, unchanged]
    exact .kept rfl

/-- Every command treats every key in one of these ways. -/
theorem treats_step (queues : QueuesShared supplier)
    (single : (supplier.queuedFor key).length ≤ 1) (reader : Reader Source) (source : Source)
    (command : Command) (now : Nat) :
    let run := supplier.step reader source command now
    Treats key supplier command
      (trialsFor key (supplier.trials reader now source (supplier.readers command now)).1)
      (answersTo key run.effects) (run.supplier.queuedFor key) := by
  cases command with
  | share file path => exact .kept rfl
  | withdraw file => exact treats_withdraw supplier file
  | ask file extent peer => exact treats_ask queues reader source { file, extent, peer } now
  | tick => exact treats_tick queues single reader source now

/-- The backoff never changes, and a command makes the reads it calls for, each once. -/
theorem step_reads (queues : QueuesShared supplier) (reader : Reader Source) (source : Source)
    (command : Command) (now : Nat) :
    let run := supplier.step reader source command now
    let trials := (supplier.trials reader now source (supplier.readers command now)).1
    run.supplier.backoff = supplier.backoff ∧
      trials.map Trial.request = supplier.readers command now ∧
      (run.effects.filter Effect.isRead).map some =
        (supplier.readers command now).map supplier.readFor? := by
  cases command with
  | share file path => exact ⟨rfl, rfl, rfl⟩
  | withdraw file =>
    refine ⟨rfl, rfl, ?_⟩
    have silent : (supplier.withdraw file).2.filter Effect.isRead = [] := by
      rw [List.filter_eq_nil_iff]
      intro effect listed
      obtain ⟨ticket, _, told⟩ := List.mem_map.mp listed
      subst told
      exact Bool.false_ne_true
    simp only [step, silent]
    rfl
  | ask file extent peer =>
    let request : Request := { file, extent, peer }
    cases shared : supplier.path? file with
    | none =>
      have unshared : supplier.isShared file = false := by
        rw [isShared, shared]
        rfl
      simp only [step, ask, shared, readers, unshared]
      exact ⟨trivial, rfl, rfl⟩
    | some path =>
      have tries := tries_ask reader supplier source request now shared
      have readers : supplier.readers (.ask file extent peer) now = [request] := by
        simp [readers, isShared, shared, request]
      have read : supplier.readFor? request = some (request.read path) := by
        rw [readFor?, shared]
        rfl
      rw [readers]
      refine ⟨tries.backoff, ?_, ?_⟩
      · simp only [trials, request, shared]
        rfl
      · simp only [List.map_cons, read]
        exact congrArg (List.map some) tries.reads
  | tick =>
    let started : Run Source :=
      { supplier := { supplier with
          queue := supplier.queue.filter (fun ticket => !ticket.isExpired now) }
        source, effects := [] }
    have same : started.supplier.shared = supplier.shared := rfl
    obtain ⟨_, backoff, _, requests, reads⟩ := foldl_retry_reads reader now started
      (fun ticket listed => queues ticket (List.mem_filter.mp listed).1)
    rw [trials_of_shared same] at requests
    rw [readFor?_of_shared same] at reads
    exact ⟨backoff, requests, reads⟩

end Supplier

namespace Supply

/-- The latest request for a key, and the reads that were made for it, in order. -/
structure Course where
  request : Request
  trials : List Trial
deriving DecidableEq

namespace Course

/-- The course of the requests for a key after a command that made some reads for it. -/
def next (command : Command) (key : Key) (made : List Trial) (course? : Option Course) :
    Option Course :=
  match command.asked? key with
  | some request => some { request, trials := made }
  | none => course?.map (fun course => { course with trials := course.trials ++ made })

/-- What a queued request waits for: the delay after the latest of its reads, which all failed. -/
structure Waits (backoff : Backoff) (course : Course) (ticket : Ticket) : Prop where
  request : ticket.request = course.request
  attempted : 1 ≤ ticket.attempts
  limited : ∀ limit, backoff.limit = some limit → ticket.attempts ≤ limit
  counted : course.trials.length = ticket.attempts
  failed : ∀ trial ∈ course.trials, trial.succeeded = false
  due : ∃ latest delay, course.trials.getLast? = some latest ∧
    backoff.delay? (ticket.attempts - 1) = some delay ∧ ticket.expires = latest.now + delay

/-- A read that succeeds is the last one for its request, and so is the one that uses up the
attempts. -/
structure Bounded (backoff : Backoff) (course : Course) : Prop where
  own : ∀ trial ∈ course.trials, trial.request = course.request
  failed : ∀ trial ∈ course.trials.dropLast, trial.succeeded = false
  limited : ∀ limit, backoff.limit = some limit → course.trials.length ≤ limit + 1

/-- What is answered to the latest read: a chunk when it succeeds, and otherwise nothing before the
attempts are used up. Only then the request is queued no more. -/
structure Answered (backoff : Backoff) (course : Course) (trial : Trial) (answers : List Entry)
    (queued : List Ticket) : Prop where
  latest : course.trials.getLast? = some trial
  sent : trial.succeeded = true → ∃ size, answers =
    [.chunk { course.request with extent := course.request.extent.resize size }]
  declined : trial.succeeded = false → answers =
    if backoff.limit.map (· + 1) = some course.trials.length then [.missing course.request] else []
  ends : queued = [] ↔
    trial.succeeded = true ∨ backoff.limit.map (· + 1) = some course.trials.length

/-- How the course of a key goes with what is queued for it. -/
inductive Follows (backoff : Backoff) : Option Course → List Ticket → Prop where
  | unasked : Follows backoff none []
  | waiting {course : Course} {ticket : Ticket} (bounded : course.Bounded backoff)
      (waits : course.Waits backoff ticket) :
    Follows backoff (some course) [ticket]
  | ended {course : Course} (bounded : course.Bounded backoff) : Follows backoff (some course) []

variable {backoff : Backoff} {course : Course} {course? : Option Course} {trial : Trial}
variable {attempt : Nat} {answers : List Entry} {queued : List Ticket}

theorem lt_of_delay? {delay limit : Nat} (allowed : backoff.delay? attempt = some delay)
    (limited : backoff.limit = some limit) : attempt < limit := by
  unfold Backoff.delay? Backoff.exhausted at allowed
  rw [limited] at allowed
  by_contra beyond
  simp [Nat.le_of_not_lt beyond] at allowed

theorem exists_limit_of_delay? (exhausted : backoff.delay? attempt = none) :
    ∃ limit, backoff.limit = some limit ∧ limit ≤ attempt := by
  unfold Backoff.delay? Backoff.exhausted at exhausted
  cases limited : backoff.limit with
  | none => simp [limited] at exhausted
  | some limit =>
    refine ⟨limit, rfl, ?_⟩
    by_contra under
    simp [limited, under] at exhausted

/-- One more read for a request, of which every read before failed. -/
theorem follows_trial (course : Course)
    (own : ∀ trial ∈ course.trials, trial.request = course.request)
    (failed : ∀ trial ∈ course.trials, trial.succeeded = false)
    (within : ∀ limit, backoff.limit = some limit → course.trials.length ≤ limit)
    (same : trial.request = course.request)
    (outcome : Outcome backoff course.trials.length trial answers queued) :
    let later := { course with trials := course.trials ++ [trial] }
    Follows backoff (some later) queued ∧ later.Answered backoff trial answers queued := by
  intro later
  have bounded : later.Bounded backoff := by
    refine ⟨?_, ?_, ?_⟩
    · intro other listed
      rcases List.mem_append.mp listed with old | new
      · exact own other old
      · exact List.mem_singleton.mp new ▸ same
    · intro other listed
      rw [List.dropLast_concat] at listed
      exact failed other listed
    · intro limit limited
      rw [List.length_append]
      exact Nat.succ_le_succ (within limit limited)
  have latest : later.trials.getLast? = some trial := List.getLast?_concat
  have length : later.trials.length = course.trials.length + 1 := List.length_append ..
  cases outcome with
  | sent size succeeded =>
    refine ⟨.ended bounded, latest, fun _ => ⟨size, by rw [same]⟩, fun failed => ?_,
      fun _ => .inl succeeded, fun _ => rfl⟩
    rw [succeeded] at failed
    cases failed
  | @queued ticket delay fails allowed request attempts expires =>
    have waits : later.Waits backoff ticket := by
      refine ⟨request.trans same, ?_, ?_, ?_, ?_, trial, delay, latest, ?_, expires⟩
      · rw [attempts]
        exact Nat.succ_le_succ (Nat.zero_le _)
      · intro limit limited
        rw [attempts]
        exact lt_of_delay? allowed limited
      · rw [length, attempts]
      · intro other listed
        rcases List.mem_append.mp listed with old | new
        · exact failed other old
        · exact List.mem_singleton.mp new ▸ fails
      · rw [attempts]
        exact allowed
    have unused : ¬ backoff.limit.map (· + 1) = some later.trials.length := by
      intro used
      obtain ⟨limit, limited, last⟩ := Option.map_eq_some_iff.mp used
      have under := lt_of_delay? allowed limited
      omega
    refine ⟨.waiting bounded waits, latest, fun succeeded => ?_, fun _ => (if_neg unused).symm, ?_⟩
    · rw [fails] at succeeded
      cases succeeded
    · simp [fails, unused]
  | gaveUp fails exhausted =>
    have used : backoff.limit.map (· + 1) = some later.trials.length := by
      obtain ⟨limit, limited, reached⟩ := exists_limit_of_delay? exhausted
      have under := within limit limited
      rw [limited, length, Option.map_some, Nat.le_antisymm reached under]
    refine ⟨.ended bounded, latest, fun succeeded => ?_, fun _ => by rw [if_pos used, same],
      fun _ => .inr used, fun _ => rfl⟩
    rw [fails] at succeeded
    cases succeeded

theorem Follows.bounded (follows : Follows backoff (some course) queued) :
    course.Bounded backoff := by
  cases follows with
  | waiting bounded | ended bounded => exact bounded

theorem Follows.single (follows : Follows backoff course? queued) : queued.length ≤ 1 := by
  cases follows with
  | unasked | ended => exact Nat.zero_le 1
  | waiting => exact Nat.le_refl 1

theorem Follows.dropped (follows : Follows backoff course? queued) :
    Follows backoff course? [] := by
  cases follows with
  | unasked => exact .unasked
  | waiting bounded | ended bounded => exact .ended bounded

/-- A command keeps the course of each key in step with what is queued for it. -/
theorem follows_next {key : Key} {supplier : Supplier} {command : Command} {made : List Trial}
    (treats : Supplier.Treats key supplier command made answers queued)
    (follows : Follows supplier.backoff course? (supplier.queuedFor key)) :
    Follows supplier.backoff (next command key made course?) queued ∧
      ∀ trial ∈ made, ∃ course, next command key made course? = some course ∧
        course.Answered supplier.backoff trial answers queued := by
  cases treats with
  | asked asks own outcome =>
    rename_i request trial
    have course : next command key [trial] course? = some { request, trials := [trial] } := by
      rw [next, asks]
    have first : ∀ entry ∈ ([] : List Trial), entry.succeeded = false := by simp
    let unread : Course := { request, trials := [] }
    obtain ⟨follows, answered⟩ := unread.follows_trial (by simp [unread]) first
      (fun _ _ => Nat.zero_le _) own outcome
    rw [course]
    refine ⟨follows, fun other listed => ⟨_, rfl, ?_⟩⟩
    exact List.mem_singleton.mp listed ▸ answered
  | retried silent held own outcome =>
    rename_i ticket trial
    rw [held] at follows
    cases follows with
    | @waiting course ticket bounded waits =>
      have later : next command key [trial] (some course) =
          some { course with trials := course.trials ++ [trial] } := by
        rw [next, silent]
        rfl
      rw [← waits.counted] at outcome
      obtain ⟨follows, answered⟩ := course.follows_trial bounded.own waits.failed
        (waits.counted ▸ waits.limited) (own.trans waits.request) outcome
      rw [later]
      refine ⟨follows, fun other listed => ⟨_, rfl, ?_⟩⟩
      exact List.mem_singleton.mp listed ▸ answered
  | refused asks unshared =>
    rw [next, asks]
    exact ⟨.ended ⟨by simp, by simp, fun _ _ => Nat.zero_le _⟩, by simp⟩
  | withdrawn withdraws =>
    have course : next command key [] course? = course? := by
      rw [next, withdraws]
      simp [Command.asked?]
    rw [course]
    exact ⟨follows.dropped, by simp⟩
  | kept silent =>
    have course : next command key [] course? = course? := by
      rw [next, silent]
      simp
    rw [course]
    exact ⟨follows, by simp⟩

end Course

variable {Source : Type}

/-- The reads of the next command of a history. -/
def History.trials (reader : Reader Source) (history : History Source) (command : Command)
    (now : Nat) : List Trial :=
  (history.supplier.trials reader now history.source (history.supplier.readers command now)).1

/-- A history, with the course of each key that was asked for. -/
structure Tracked (Source : Type) where
  history : History Source
  course? : Key → Option Course

namespace Tracked

def start (backoff : Backoff) (pool : BufferPool) (source : Source) : Tracked Source :=
  { history := .start backoff pool source, course? := fun _ => none }

def next (reader : Reader Source) (tracked : Tracked Source) (command : Command) (now : Nat) :
    Tracked Source :=
  { history := tracked.history.next reader command now
    course? := fun key =>
      let made := Supplier.trialsFor key (tracked.history.trials reader command now)
      Course.next command key made (tracked.course? key) }

/-- The history of some commands, each with its time, from a supplier that shares nothing. -/
def run (reader : Reader Source) (backoff : Backoff) (pool : BufferPool) (source : Source)
    (commands : List (Command × Nat)) : Tracked Source :=
  commands.foldl (fun tracked timed => tracked.next reader timed.1 timed.2)
    (start backoff pool source)

theorem run_append_singleton (reader : Reader Source) (backoff : Backoff) (pool : BufferPool)
    (source : Source) (commands : List (Command × Nat)) (timed : Command × Nat) :
    run reader backoff pool source (commands ++ [timed]) =
      (run reader backoff pool source commands).next reader timed.1 timed.2 := by
  simp [run]

theorem history_run (reader : Reader Source) (backoff : Backoff) (pool : BufferPool)
    (source : Source) (commands : List (Command × Nat)) :
    (run reader backoff pool source commands).history =
      History.run reader backoff pool source commands := by
  induction commands using List.reverseRecOn with
  | nil => rfl
  | append_singleton commands timed ih =>
    rw [run_append_singleton, History.run_append_singleton, ← ih]
    rfl

/-- What every run keeps: what is queued for a key goes with its course. -/
structure Consistent (backoff : Backoff) (tracked : Tracked Source) : Prop where
  constant : tracked.history.supplier.backoff = backoff
  shared : tracked.history.supplier.QueuesShared
  follows : ∀ key,
    Course.Follows backoff (tracked.course? key) (tracked.history.supplier.queuedFor key)

variable {reader : Reader Source} {backoff : Backoff} {tracked : Tracked Source}

theorem Consistent.single (consistent : Consistent backoff tracked) (key : Key) :
    (tracked.history.supplier.queuedFor key).length ≤ 1 :=
  (consistent.follows key).single

theorem Consistent.waits (consistent : Consistent backoff tracked) {ticket : Ticket}
    (queued : ticket ∈ tracked.history.supplier.queue) : ∃ course,
      tracked.course? ticket.request.key = some course ∧ course.Waits backoff ticket := by
  have listed : ticket ∈ tracked.history.supplier.queuedFor ticket.request.key :=
    List.mem_filter.mpr ⟨queued, decide_eq_true rfl⟩
  have follows := consistent.follows ticket.request.key
  rw [eq_singleton_of_mem (consistent.single _) listed] at follows
  generalize tracked.course? ticket.request.key = course? at follows
  cases follows with
  | waiting _ waits => exact ⟨_, rfl, waits⟩

theorem Consistent.treats (consistent : Consistent backoff tracked) (reader : Reader Source)
    (command : Command) (now : Nat) (key : Key) :
    let event := tracked.history.event reader command now
    Supplier.Treats key event.before command
      (Supplier.trialsFor key (tracked.history.trials reader command now))
      (answersTo key event.effects) (event.after.queuedFor key) :=
  Supplier.treats_step consistent.shared (consistent.single key) reader tracked.history.source
    command now

theorem Consistent.follows_next (consistent : Consistent backoff tracked)
    (reader : Reader Source) (command : Command) (now : Nat) (key : Key) :
    let event := tracked.history.event reader command now
    let course? := (tracked.next reader command now).course? key
    Course.Follows backoff course? (event.after.queuedFor key) ∧
      ∀ trial ∈ Supplier.trialsFor key (tracked.history.trials reader command now),
        ∃ course, course? = some course ∧
          course.Answered backoff trial (answersTo key event.effects)
            (event.after.queuedFor key) := by
  have follows := consistent.follows key
  rw [← consistent.constant] at follows ⊢
  exact Course.follows_next (consistent.treats reader command now key) follows

theorem Consistent.next (consistent : Consistent backoff tracked) (reader : Reader Source)
    (command : Command) (now : Nat) : Consistent backoff (tracked.next reader command now) := by
  refine ⟨?_, ?_, ?_⟩
  · exact (Supplier.step_reads consistent.shared reader tracked.history.source command now).1.trans
      consistent.constant
  · exact Supplier.queuesShared_step consistent.shared reader tracked.history.source command now
  · exact fun key => (consistent.follows_next reader command now key).1

theorem consistent_run (reader : Reader Source) (backoff : Backoff) (pool : BufferPool)
    (source : Source) (commands : List (Command × Nat)) :
    Consistent backoff (run reader backoff pool source commands) := by
  induction commands using List.reverseRecOn with
  | nil =>
    refine ⟨rfl, ?_, fun _ => .unasked⟩
    intro ticket listed
    cases listed
  | append_singleton commands timed ih =>
    rw [run_append_singleton]
    exact ih.next reader timed.1 timed.2

end Tracked

/-- The retries of a history keep to a backoff, now and with any next command. -/
structure KeepsTo (reader : Reader Source) (backoff : Backoff) (tracked : Tracked Source) :
    Prop where
  queued : ∀ ticket ∈ tracked.history.supplier.queue, ∃ course,
    tracked.course? ticket.request.key = some course ∧ course.Waits backoff ticket
  bounded : ∀ key course, tracked.course? key = some course → course.Bounded backoff
  reads : ∀ command now,
    let event := tracked.history.event reader command now
    let readers := event.before.readers command now
    (tracked.history.trials reader command now).map Trial.request = readers ∧
      (event.effects.filter Effect.isRead).map some = readers.map event.before.readFor?
  answered : ∀ command now, ∀ trial ∈ tracked.history.trials reader command now,
    let event := tracked.history.event reader command now
    ∃ course, (tracked.next reader command now).course? trial.request.key = some course ∧
      course.Answered backoff trial (answersTo trial.request.key event.effects)
        (event.after.queuedFor trial.request.key)
  /-- What is queued and not read for stays queued, unless it is asked for anew or its file is
  withdrawn. -/
  stays : ∀ command now key,
    let event := tracked.history.event reader command now
    (∀ trial ∈ tracked.history.trials reader command now, trial.request.key ≠ key) →
      command.asked? key = none → command ≠ .withdraw key.file →
        event.after.queuedFor key = event.before.queuedFor key
  silent : ∀ command now key,
    (∀ trial ∈ tracked.history.trials reader command now, trial.request.key ≠ key) →
      answersTo key (tracked.history.event reader command now).effects = [] ∨
        command = .withdraw key.file ∨
        (∃ request, command.asked? key = some request) ∧
          tracked.history.supplier.isShared key.file = false

/-- Whatever a supplier is asked to do and whatever its reads come to, it reads for each request as
its backoff says and gives up when the attempts are used up. -/
theorem retries_scheduled (reader : Reader Source) (backoff : Backoff) (pool : BufferPool)
    (source : Source) (commands : List (Command × Nat)) :
    KeepsTo reader backoff (Tracked.run reader backoff pool source commands) := by
  have consistent := Tracked.consistent_run reader backoff pool source commands
  refine ⟨?_, ?_, ?_, ?_, ?_, ?_⟩
  · exact fun ticket queued => consistent.waits queued
  · intro key course asked
    have follows := consistent.follows key
    rw [asked] at follows
    exact follows.bounded
  · intro command now
    exact (Supplier.step_reads consistent.shared reader _ command now).2
  · intro command now trial listed
    exact (consistent.follows_next reader command now trial.request.key).2 trial
      (List.mem_filter.mpr ⟨listed, decide_eq_true rfl⟩)
  · intro command now key _ others unasked shares
    have unread := Supplier.trialsFor_eq_nil others
    exact (consistent.treats reader command now key).stays unread unasked shares
  · intro command now key others
    exact (consistent.treats reader command now key).silent (Supplier.trialsFor_eq_nil others)

end Supply

end ChunkExchange
