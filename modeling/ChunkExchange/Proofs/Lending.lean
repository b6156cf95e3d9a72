import ChunkExchange.Supply.BufferPool
import Mathlib.Data.List.Induction

/-! A pool together with the buffers that it has lent. Whatever is borrowed, written and given back,
in any order, every borrower gets zeros of the length asked for, and only buffers of the size of the
pool are idle, no more of them than it may keep. -/

namespace ChunkExchange.Supply

/-- A buffer that is lent, and how long it was asked to be. -/
structure Loan where
  length : Nat
  buffer : Buffer

/-- A pool with the buffers that are lent, in the order they were borrowed. -/
structure Lending where
  pool : BufferPool
  loans : List Loan

/-- What those who need buffers do. -/
inductive Dealing where
  /-- Someone borrows a buffer. Where an idle one has to grow for that, it may get some memory to
  spare. -/
  | borrow (length spare : Nat)
  | write (place position : Nat) (octet : UInt8)
  | giveBack (place : Nat)

/-- A lent buffer with one octet written. There is no writing past its end. -/
def Loan.write (loan : Loan) (position : Nat) (octet : UInt8) : Loan :=
  { loan with buffer := { loan.buffer with
      contents := loan.buffer.contents.set position octet } }

namespace BufferPool

/-- Whether an idle buffer has to grow when it is lent. -/
def grows (pool : BufferPool) (length : Nat) : Bool :=
  pool.idle.head?.any (fun buffer => buffer.capacity < length)

def loan (pool : BufferPool) (length spare : Nat) : Loan :=
  let buffer := (pool.acquire length).1
  { length, buffer := { buffer with
      capacity := buffer.capacity + if pool.grows length then spare else 0 } }

theorem acquire_idle (pool : BufferPool) (length : Nat) :
    (pool.acquire length).2 = { pool with idle := pool.idle.tail } := by
  unfold acquire
  split
  · rename_i idle
    rw [idle, List.tail_cons]
  · rename_i none
    rw [none, List.tail_nil, ← none]

private theorem release_eq (pool : BufferPool) (buffer : Buffer) :
    pool.release buffer =
      { pool with
        idle := if buffer.capacity ≤ pool.bufferSize ∧ pool.idle.length < pool.maxIdle
          then buffer :: pool.idle else pool.idle } := by
  unfold release
  split <;> rfl

/-- Where all idle buffers have the size of the pool, the buffer that is lent has it too unless
more is asked for, which it then has room for. -/
private theorem capacity_loan {pool : BufferPool}
    (sized : ∀ buffer ∈ pool.idle, buffer.capacity = pool.bufferSize) (length spare : Nat) :
    if length ≤ pool.bufferSize then (pool.loan length spare).buffer.capacity = pool.bufferSize
    else length ≤ (pool.loan length spare).buffer.capacity := by
  unfold loan acquire grows
  cases idle : pool.idle with
  | nil =>
    simp only [Buffer.capacity_resize_clear, List.head?_nil, Option.any_none, Bool.false_eq_true,
      ↓reduceIte]
    split <;> omega
  | cons buffer rest =>
    have size := sized buffer (idle ▸ List.mem_cons_self)
    simp only [Buffer.capacity_resize_clear, List.head?_cons, Option.any_some, decide_eq_true_eq]
    split <;> split <;> omega

end BufferPool

namespace Lending

def start (bufferSize maxIdle : Nat) : Lending :=
  { pool := .empty bufferSize maxIdle, loans := [] }

def next (lending : Lending) : Dealing → Lending
  | .borrow length spare =>
    { pool := (lending.pool.acquire length).2
      loans := lending.loans ++ [lending.pool.loan length spare] }
  | .write place position octet =>
    { lending with loans := lending.loans.modify place (·.write position octet) }
  | .giveBack place =>
    match lending.loans[place]? with
    | some loan =>
      { pool := lending.pool.release loan.buffer, loans := lending.loans.eraseIdx place }
    | none => lending

def run (bufferSize maxIdle : Nat) (dealings : List Dealing) : Lending :=
  dealings.foldl next (start bufferSize maxIdle)

end Lending

/-- The memory of a lent buffer is that of a new one unless more was asked for, and its length is
the one that was asked for. -/
structure Loan.Sound (bufferSize : Nat) (loan : Loan) : Prop where
  held : loan.buffer.contents.length = loan.length
  capacity : if loan.length ≤ bufferSize then loan.buffer.capacity = bufferSize
    else loan.length ≤ loan.buffer.capacity

private theorem Loan.Sound.capacity_le_iff {bufferSize : Nat} {loan : Loan}
    (sound : loan.Sound bufferSize) :
    loan.buffer.capacity ≤ bufferSize ↔ loan.length ≤ bufferSize := by
  have capacity := sound.capacity
  split at capacity <;> omega

theorem Loan.Sound.write {bufferSize : Nat} {loan : Loan} (sound : loan.Sound bufferSize)
    (position : Nat) (octet : UInt8) : (loan.write position octet).Sound bufferSize :=
  ⟨List.length_set.trans sound.held, sound.capacity⟩

namespace Lending

variable {bufferSize maxIdle length spare place : Nat} {lending : Lending} {loan : Loan}

/-- The invariant of a pool and the buffers that it has lent. -/
structure Sound (bufferSize maxIdle : Nat) (lending : Lending) : Prop where
  size : lending.pool.bufferSize = bufferSize
  limit : lending.pool.maxIdle = maxIdle
  bounded : lending.pool.idle.length ≤ maxIdle
  sized : ∀ buffer ∈ lending.pool.idle, buffer.capacity = bufferSize
  loans : ∀ loan ∈ lending.loans, loan.Sound bufferSize

theorem sound_start (bufferSize maxIdle : Nat) :
    (start bufferSize maxIdle).Sound bufferSize maxIdle :=
  ⟨rfl, rfl, Nat.zero_le _, nofun, nofun⟩

theorem Sound.borrow (sound : lending.Sound bufferSize maxIdle) (length spare : Nat) :
    (lending.next (.borrow length spare)).Sound bufferSize maxIdle := by
  have sized : ∀ buffer ∈ lending.pool.idle, buffer.capacity = lending.pool.bufferSize :=
    fun buffer idle => (sound.sized buffer idle).trans sound.size.symm
  have room := BufferPool.capacity_loan sized length spare
  rw [sound.size] at room
  have fewer : lending.pool.idle.tail.length ≤ maxIdle :=
    Nat.le_trans (List.tail_sublist _).length_le sound.bounded
  simp only [next, BufferPool.acquire_idle]
  refine ⟨sound.size, sound.limit, fewer, ?_, ?_⟩
  · exact fun buffer idle => sound.sized buffer (List.mem_of_mem_tail idle)
  · intro loan lent
    rcases List.mem_append.mp lent with old | new
    · exact sound.loans loan old
    · rw [List.mem_singleton.mp new]
      exact ⟨BufferPool.length_acquire .., room⟩

theorem Sound.write (sound : lending.Sound bufferSize maxIdle) (place position : Nat)
    (octet : UInt8) :
    (lending.next (.write place position octet)).Sound bufferSize maxIdle := by
  refine ⟨sound.size, sound.limit, sound.bounded, sound.sized, ?_⟩
  intro loan lent
  obtain ⟨here, found⟩ := List.mem_iff_getElem?.mp lent
  rw [Lending.next, List.getElem?_modify] at found
  obtain ⟨old, listed, rfl⟩ := Option.map_eq_some_iff.mp found
  have before := sound.loans old (List.mem_of_getElem? listed)
  split
  · exact before.write position octet
  · exact before

/-- A buffer that is given back is kept where no more was asked for and there is room. -/
theorem Sound.pool_giveBack (sound : lending.Sound bufferSize maxIdle)
    (lent : lending.loans[place]? = some loan) :
    (lending.next (.giveBack place)).pool =
      { lending.pool with
        idle := if loan.length ≤ bufferSize ∧ lending.pool.idle.length < maxIdle
          then loan.buffer :: lending.pool.idle else lending.pool.idle } := by
  have small := (sound.loans loan (List.mem_of_getElem? lent)).capacity_le_iff
  simp only [next, lent, BufferPool.release_eq, sound.size, sound.limit, small]

theorem Sound.giveBack (sound : lending.Sound bufferSize maxIdle) (place : Nat) :
    (lending.next (.giveBack place)).Sound bufferSize maxIdle := by
  cases lent : lending.loans[place]? with
  | none =>
    simp only [next, lent]
    exact sound
  | some loan =>
    have pool := sound.pool_giveBack lent
    have capacity := (sound.loans loan (List.mem_of_getElem? lent)).capacity
    refine ⟨?_, ?_, ?_, ?_, ?_⟩
    · rw [pool]
      exact sound.size
    · rw [pool]
      exact sound.limit
    · rw [pool]
      dsimp only
      split
      · rename_i kept
        exact kept.2
      · exact sound.bounded
    · rw [pool]
      dsimp only
      intro buffer idle
      split at idle
      · rename_i kept
        rw [if_pos kept.1] at capacity
        rcases List.mem_cons.mp idle with first | rest
        · exact first ▸ capacity
        · exact sound.sized buffer rest
      · exact sound.sized buffer idle
    · simp only [next, lent]
      exact fun other still => sound.loans other (List.mem_of_mem_eraseIdx still)

theorem Sound.next (sound : lending.Sound bufferSize maxIdle) (dealing : Dealing) :
    (lending.next dealing).Sound bufferSize maxIdle := by
  cases dealing with
  | borrow length spare => exact sound.borrow length spare
  | write place position octet => exact sound.write place position octet
  | giveBack place => exact sound.giveBack place

theorem sound_run (bufferSize maxIdle : Nat) (dealings : List Dealing) :
    (run bufferSize maxIdle dealings).Sound bufferSize maxIdle := by
  induction dealings using List.reverseRecOn with
  | nil => exact sound_start bufferSize maxIdle
  | append_singleton dealings dealing ih =>
    rw [run, List.foldl_append]
    exact ih.next dealing

end Lending

/-- What becomes of the idle buffers of a pool when buffers are borrowed and given back. -/
structure Lending.Disciplined (bufferSize maxIdle : Nat) (lending : Lending) : Prop where
  bounded : lending.pool.idle.length ≤ maxIdle
  sized : ∀ buffer ∈ lending.pool.idle, buffer.capacity = bufferSize
  held : ∀ loan ∈ lending.loans, loan.buffer.contents.length = loan.length
  zeros : ∀ length spare, ∃ loan,
    (lending.next (.borrow length spare)).loans = lending.loans ++ [loan] ∧
      loan.length = length ∧ loan.buffer.contents = List.replicate length 0
  lowers : ∀ length spare,
    (lending.next (.borrow length spare)).pool.idle.length + 1 = lending.pool.idle.length ↔
      0 < lending.pool.idle.length
  unchanged : lending.pool.idle.length = 0 → ∀ length spare,
    (lending.next (.borrow length spare)).pool = lending.pool
  /-- A buffer that is given back becomes idle exactly if it was not asked to be too long and there
  is room. -/
  raises : ∀ place loan, lending.loans[place]? = some loan →
    ((lending.next (.giveBack place)).pool.idle.length = lending.pool.idle.length + 1 ↔
      loan.length ≤ bufferSize ∧ lending.pool.idle.length < maxIdle)
  drops : ∀ place loan, lending.loans[place]? = some loan →
    ¬ (loan.length ≤ bufferSize ∧ lending.pool.idle.length < maxIdle) →
      (lending.next (.giveBack place)).pool = lending.pool

namespace Lending

/-- A pool of any size, whatever is borrowed, written and given back. -/
theorem pool_disciplined (bufferSize maxIdle : Nat) (dealings : List Dealing) :
    (run bufferSize maxIdle dealings).Disciplined bufferSize maxIdle := by
  have sound := sound_run bufferSize maxIdle dealings
  refine ⟨sound.bounded, sound.sized, fun loan lent => (sound.loans loan lent).held, ?_, ?_, ?_,
    ?_, ?_⟩
  · exact fun length spare => ⟨_, rfl, rfl, BufferPool.contents_acquire ..⟩
  · intro length spare
    simp only [next, BufferPool.acquire_idle, List.length_tail]
    omega
  · intro none length spare
    have empty := List.length_eq_zero_iff.mp none
    simp only [next, BufferPool.acquire_idle, empty, List.tail_nil]
    rw [← empty]
  · intro place loan lent
    rw [sound.pool_giveBack lent]
    dsimp only
    split <;> simp [*]
  · intro place loan lent dropped
    rw [sound.pool_giveBack lent, if_neg dropped]

/-- A buffer of the size of the pool is kept, and dropped once it had to grow. -/
example : (run 16 4 [.borrow 16 0, .write 0 3 255, .giveBack 0]).pool.idle.length = 1 ∧
    (run 16 4 [.borrow 16 0, .giveBack 0, .borrow 17 5, .giveBack 0]).pool.idle = [] := by
  decide

end Lending

end ChunkExchange.Supply
