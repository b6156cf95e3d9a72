import ChunkExchange.Supplier

/-! A supplier that is asked for whole chunks only, and whose reads of a file bring its content or
fail, sends whole chunks of the content only. -/

namespace ChunkExchange

/-- A run of bytes that is a whole chunk of a file. -/
def Extent.IsChunk (extent : Extent) (file : File) (chunkSize : Nat) : Prop :=
  extent = file.extent extent.index chunkSize

def Extent.bytes (extent : Extent) (content : Bytes) : Bytes :=
  (content.drop extent.offset).take extent.size

namespace Supplier

/-- A sent chunk of a file is a whole one and has the bytes of the content. -/
def Truthful (file : File) (content : Bytes) (chunkSize : Nat) : Supply.Effect → Prop
  | .chunk named extent _ data =>
    named = file → extent.IsChunk file chunkSize ∧ data = extent.bytes content
  | _ => True

variable {Source : Type}

/-- The read that an answer makes fails, or fills the buffer with the content. -/
def Faithful (reader : Supply.Reader Source) (content : Bytes) (run : Run Source) (path : String)
    (file : File) (extent : Extent) : Prop :=
  let buffer := (run.supplier.pool.acquire (replyLength file extent)).1.contents
  let reply := (reader.read run.source path extent.offset buffer).1
  reply.claimed = none ∨
    (reply.claimed = some buffer.length ∧
      reply.contents.toList = (content.drop extent.offset).take buffer.length)

/-- Each read of a file that is tried again is faithful to the content. -/
def RetriesFaithful (reader : Supply.Reader Source) (file : File) (content : Bytes) (now : Nat) :
    Run Source → List Ticket → Prop
  | _, [] => True
  | run, ticket :: rest =>
    (ticket.file = file → ∀ path, run.supplier.path? file = some path →
      Faithful reader content run path file ticket.extent) ∧
    RetriesFaithful reader file content now (retry reader now run ticket) rest

/-- Only whole chunks of a file wait for another try. -/
def QueuesChunks (supplier : Supplier) (file : File) (chunkSize : Nat) : Prop :=
  ∀ ticket ∈ supplier.queue, ticket.file = file → ticket.extent.IsChunk file chunkSize

/-- A supplier at work has whole chunks of a file in its queue and sent the content only. -/
structure Serves (run : Run Source) (file : File) (content : Bytes) (chunkSize : Nat) : Prop where
  queue : QueuesChunks run.supplier file chunkSize
  effects : ∀ effect ∈ run.effects, Truthful file content chunkSize effect

variable {reader : Supply.Reader Source} {run : Run Source} {file named : File} {content : Bytes}
variable {chunkSize now attempt : Nat} {path : String} {extent : Extent} {peer : Peer}
variable {ticket : Ticket} {supplier : Supplier} {source : Source}

private theorem replyLength_of_isChunk (whole : extent.IsChunk file chunkSize) :
    replyLength file extent = extent.size := by
  rw [replyLength, whole]
  simp only [File.extent]
  omega

private theorem length_bytes (measured : content.length = file.size)
    (whole : extent.IsChunk file chunkSize) : (extent.bytes content).length = extent.size := by
  rw [Extent.bytes, List.length_take, List.length_drop, measured, whole]
  simp only [File.extent]
  omega

theorem readAndReply_cases (reader : Supply.Reader Source) (run : Run Source) (path : String)
    (named : File) (extent : Extent) (peer : Peer) :
    let buffer := (run.supplier.pool.acquire (replyLength named extent)).1.contents
    let reply := (reader.read run.source path extent.offset buffer).1
    ∃ pool source,
      (reply.claimed = none ∧ readAndReply reader run path named extent peer =
        (false, { supplier := { run.supplier with pool }, source
                  effects := run.effects ++ [.read path extent.offset buffer] })) ∨
      ∃ claimed, reply.claimed = some claimed ∧
        let data := reply.contents.toList.take claimed
        readAndReply reader run path named extent peer =
          (true, { supplier := { run.supplier with pool }, source
                   effects := run.effects ++ [.read path extent.offset buffer] ++
                     [.chunk named (extent.resize data.length) peer data] }) := by
  intro buffer reply
  let lent := run.supplier.pool.acquire (replyLength named extent)
  refine ⟨lent.2.release { lent.1 with contents := reply.contents.toList },
    (reader.read run.source path extent.offset buffer).2, ?_⟩
  cases told : reply.claimed with
  | none =>
    refine .inl ⟨rfl, ?_⟩
    simp only [readAndReply, lent, buffer, reply] at told ⊢
    rw [told]
  | some claimed =>
    refine .inr ⟨claimed, rfl, ?_⟩
    simp only [readAndReply, lent, buffer, reply] at told ⊢
    rw [told]

theorem Serves.readAndReply (serves : Serves run file content chunkSize)
    (measured : content.length = file.size)
    (whole : named = file → extent.IsChunk file chunkSize)
    (faithful : named = file → Faithful reader content run path named extent) :
    Serves (readAndReply reader run path named extent peer).2 file content chunkSize := by
  have reading : ∀ effect ∈ run.effects ++ [.read path extent.offset
      (run.supplier.pool.acquire (replyLength named extent)).1.contents],
      Truthful file content chunkSize effect := by
    intro effect listed
    rcases List.mem_append.mp listed with old | read
    · exact serves.effects effect old
    · cases List.mem_singleton.mp read
      trivial
  obtain ⟨pool, source, ⟨_, result⟩ | ⟨claimed, told, result⟩⟩ :=
    readAndReply_cases reader run path named extent peer
  · rw [result]
    exact ⟨serves.queue, reading⟩
  · rw [result]
    refine ⟨serves.queue, ?_⟩
    intro effect listed
    rcases List.mem_append.mp listed with earlier | sent
    · exact reading effect earlier
    · cases List.mem_singleton.mp sent
      intro same
      subst same
      have chunk := whole rfl
      rcases faithful rfl with failed | ⟨filled, contents⟩
      · rw [told] at failed
        cases failed
      · rw [told] at filled
        cases filled
        rw [contents, List.take_take, Nat.min_self, Supply.BufferPool.length_acquire,
          replyLength_of_isChunk chunk]
        have length := length_bytes measured chunk
        unfold Extent.bytes at length
        rw [length]
        exact ⟨chunk, rfl⟩

theorem Serves.decline (serves : Serves run file content chunkSize) (ticket : Ticket) :
    Serves { run with effects := run.effects ++ [decline ticket] } file content chunkSize := by
  refine ⟨serves.queue, ?_⟩
  intro effect listed
  rcases List.mem_append.mp listed with old | last
  · exact serves.effects effect old
  · cases List.mem_singleton.mp last
    trivial

theorem Serves.requeue (serves : Serves run file content chunkSize) {retry : Nat → Ticket}
    (whole : ∀ delay, (retry delay).file = file →
      (retry delay).extent.IsChunk file chunkSize) :
    Serves (requeue run ticket retry attempt) file content chunkSize := by
  unfold Supplier.requeue
  split
  · rename_i delay _
    refine ⟨?_, serves.effects⟩
    intro queued listed
    rcases List.mem_append.mp listed with old | last
    · exact serves.queue queued old
    · cases List.mem_singleton.mp last
      exact whole delay
  · exact serves.decline ticket

theorem Serves.retry (serves : Serves run file content chunkSize)
    (measured : content.length = file.size)
    (whole : ticket.file = file → ticket.extent.IsChunk file chunkSize)
    (faithful : ticket.file = file → ∀ path, run.supplier.path? file = some path →
      Faithful reader content run path file ticket.extent) :
    Serves (retry reader now run ticket) file content chunkSize := by
  unfold Supplier.retry
  split
  · exact serves.decline ticket
  · rename_i path shared
    have answered : Serves (Supplier.readAndReply reader run path ticket.file ticket.extent
        ticket.peer).2 file content chunkSize :=
      serves.readAndReply measured whole (fun same => same ▸ faithful same path (same ▸ shared))
    generalize Supplier.readAndReply reader run path ticket.file ticket.extent ticket.peer =
      answer at answered ⊢
    obtain ⟨succeeded, next⟩ := answer
    dsimp only at answered ⊢
    split
    · exact answered
    · exact answered.requeue (fun _ => whole)

private theorem Serves.foldl_retry (measured : content.length = file.size) (now : Nat)
    (due : List Ticket) (serves : Serves run file content chunkSize)
    (whole : ∀ ticket ∈ due, ticket.file = file → ticket.extent.IsChunk file chunkSize)
    (faithful : RetriesFaithful reader file content now run due) :
    Serves (due.foldl (Supplier.retry reader now) run) file content chunkSize := by
  induction due generalizing run with
  | nil => exact serves
  | cons ticket rest ih =>
    obtain ⟨first, later⟩ := faithful
    have kept : Serves (Supplier.retry reader now run ticket) file content chunkSize :=
      serves.retry measured (whole ticket List.mem_cons_self) first
    exact ih kept (fun other listed => whole other (List.mem_cons_of_mem _ listed)) later

theorem serves_tick (measured : content.length = file.size)
    (queue : supplier.QueuesChunks file chunkSize) (source : Source) (now : Nat)
    (faithful : RetriesFaithful reader file content now
      { supplier := { supplier with
          queue := supplier.queue.filter (fun ticket => !ticket.isExpired now) }
        source, effects := [] }
      (supplier.queue.filter (·.isExpired now))) :
    Serves (supplier.tick reader source now) file content chunkSize := by
  apply Serves.foldl_retry measured now _ _ _ faithful
  · refine ⟨?_, by simp⟩
    intro ticket listed
    exact queue ticket (List.mem_filter.mp listed).1
  · intro ticket listed
    exact queue ticket (List.mem_filter.mp listed).1

theorem serves_ask (measured : content.length = file.size)
    (queue : supplier.QueuesChunks file chunkSize) (source : Source) (peer : Peer) (now : Nat)
    (whole : named = file → extent.IsChunk file chunkSize)
    (faithful : named = file → ∀ path, supplier.path? file = some path →
      Faithful reader content { supplier, source, effects := [] } path file extent) :
    Serves (supplier.ask reader source named extent peer now) file content chunkSize := by
  unfold Supplier.ask
  split
  · refine ⟨queue, ?_⟩
    intro effect listed
    cases List.mem_singleton.mp listed
    trivial
  · rename_i path shared
    let start : Run Source := { supplier, source, effects := [] }
    have idle : Serves start file content chunkSize := ⟨queue, by simp [start]⟩
    have answered : Serves (Supplier.readAndReply reader { supplier, source, effects := [] } path
        named extent peer).2 file content chunkSize :=
      idle.readAndReply measured whole (fun same => same ▸ faithful same path (same ▸ shared))
    generalize Supplier.readAndReply reader { supplier, source, effects := [] } path named extent
      peer = answer at answered ⊢
    obtain ⟨succeeded, next⟩ := answer
    dsimp only at answered ⊢
    have superseded : Serves { next with supplier := { next.supplier with
        queue := next.supplier.queue.filter (fun ticket =>
          !ticket.matchesKey named extent.index peer) } } file content chunkSize := by
      refine ⟨?_, answered.effects⟩
      intro ticket listed
      exact answered.queue ticket (List.mem_filter.mp listed).1
    split
    · exact superseded
    · exact superseded.requeue (fun _ => whole)

theorem serves_withdraw (queue : supplier.QueuesChunks file chunkSize) (named : File) :
    (supplier.withdraw named).1.QueuesChunks file chunkSize ∧
      ∀ effect ∈ (supplier.withdraw named).2, Truthful file content chunkSize effect := by
  constructor
  · intro ticket listed
    exact queue ticket (List.mem_filter.mp listed).1
  · intro effect listed
    obtain ⟨ticket, _, same⟩ := List.mem_map.mp listed
    subst same
    trivial

end Supplier

/-- A reader that knows one content, whatever the path. -/
def Supply.Reader.ofContent (content : Bytes) : Supply.Reader Unit where
  read _ _ offset buffer :=
    ({ claimed := some buffer.length
       contents := Vector.ofFn fun place => content.getD (offset + place) 0 }, ())

theorem Supplier.faithful_ofContent {file : File} {content : Bytes}
    (measured : content.length = file.size) (run : Supplier.Run Unit) (path : String)
    (extent : Extent) : Faithful (.ofContent content) content run path file extent := by
  refine .inr ⟨rfl, ?_⟩
  have short : (run.supplier.pool.acquire (replyLength file extent)).1.contents.length ≤
      content.length - extent.offset := by
    rw [Supply.BufferPool.length_acquire, replyLength, measured]
    exact Nat.min_le_right _ _
  generalize (run.supplier.pool.acquire (replyLength file extent)).1.contents = buffer at short ⊢
  apply List.ext_getElem
  · simp only [Vector.length_toList, List.length_take, List.length_drop]
    omega
  · intro place inside _
    rw [Vector.length_toList] at inside
    have present : extent.offset + place < content.length := by omega
    simp [Supply.Reader.ofContent, present]

end ChunkExchange
