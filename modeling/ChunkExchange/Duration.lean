import ChunkExchange.Binary64

namespace ChunkExchange.Duration

def millisecond : Nat := 1000000

def second : Nat := 1000000000

/-- Keeps the whole seconds in a word, where they wrap round, and what is left below a second. -/
def wrap (nanoseconds : Nat) : Nat :=
  nanoseconds / second % (wordLimit + 1) * second + nanoseconds % second

end ChunkExchange.Duration
