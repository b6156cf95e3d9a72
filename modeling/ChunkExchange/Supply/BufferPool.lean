import ChunkExchange.Bytes

namespace ChunkExchange.Supply

/-- A buffer with its contents and the size of its memory. -/
structure Buffer where
  contents : Bytes
  capacity : Nat
deriving DecidableEq

namespace Buffer

def clear (buffer : Buffer) : Buffer :=
  { buffer with contents := [] }

/-- Cuts the contents to `length`, or fills them up with zeros. The memory grows where it is too
small. -/
def resize (buffer : Buffer) (length : Nat) : Buffer where
  contents := buffer.contents.take length ++ List.replicate (length - buffer.contents.length) 0
  capacity := max buffer.capacity length

/-- Whatever was in a buffer, nothing of it is left once it is cleared. -/
theorem contents_resize_clear (buffer : Buffer) (length : Nat) :
    (buffer.clear.resize length).contents = List.replicate length 0 := by
  simp only [resize, clear, List.take_nil, List.length_nil, Nat.sub_zero, List.nil_append]

@[simp] theorem capacity_resize_clear (buffer : Buffer) (length : Nat) :
    (buffer.clear.resize length).capacity = max buffer.capacity length :=
  rfl

end Buffer

/-- Buffers that wait to be lent again, the latest first. -/
structure BufferPool where
  /-- The capacity of new buffers, and the largest one that is kept. -/
  bufferSize : Nat
  maxIdle : Nat
  idle : List Buffer
deriving DecidableEq

namespace BufferPool

def empty (bufferSize maxIdle : Nat) : BufferPool :=
  { bufferSize, maxIdle, idle := [] }

/-- Lends a buffer of `length` zeros: the latest idle one, or a new one. -/
def acquire (pool : BufferPool) (length : Nat) : Buffer × BufferPool :=
  match pool.idle with
  | buffer :: idle => (buffer.clear.resize length, { pool with idle })
  | [] =>
    let buffer : Buffer := { contents := [], capacity := max pool.bufferSize length }
    (buffer.clear.resize length, pool)

theorem contents_acquire (pool : BufferPool) (length : Nat) :
    (pool.acquire length).1.contents = List.replicate length 0 := by
  unfold acquire
  split <;> exact Buffer.contents_resize_clear ..

theorem length_acquire (pool : BufferPool) (length : Nat) :
    (pool.acquire length).1.contents.length = length := by
  rw [contents_acquire, List.length_replicate]

/-- Takes a buffer back. One that grew is dropped, and so is one too many. -/
def release (pool : BufferPool) (buffer : Buffer) : BufferPool :=
  if buffer.capacity ≤ pool.bufferSize ∧ pool.idle.length < pool.maxIdle then
    { pool with idle := buffer :: pool.idle }
  else pool

end BufferPool

end ChunkExchange.Supply
