import ChunkExchange.Bytes

namespace ChunkExchange

structure Peer where
  number : BitVec 128
deriving DecidableEq, Inhabited

structure LengthMismatch where
  expected : Nat
  actual : Nat
deriving DecidableEq

def LengthMismatch.message (mismatch : LengthMismatch) : String :=
  s!"invalid length: expected {mismatch.expected} bytes, got {mismatch.actual}"

namespace Peer

def octets : Nat := 16

def ofNat (number : Nat) : Peer :=
  ⟨BitVec.ofNat 128 number⟩

def toBytes (peer : Peer) : Bytes :=
  Bytes.ofNat octets peer.number.toNat

/-- Reads an identifier from exactly sixteen octets. -/
def ofBytes (bytes : Bytes) : Except LengthMismatch Peer :=
  if bytes.length = octets then .ok (ofNat (Bytes.toNat bytes))
  else .error { expected := octets, actual := bytes.length }

/-- All sixteen octets in hexadecimal. -/
def text (peer : Peer) : String :=
  Bytes.hex peer.toBytes

/-- The first four octets in hexadecimal, marked as an abbreviation. -/
def shortText (peer : Peer) : String :=
  "PeerId(" ++ Bytes.hex (peer.toBytes.take 4) ++ "..)"

instance : LE Peer :=
  ⟨fun first second => first.number ≤ second.number⟩

instance (first second : Peer) : Decidable (first ≤ second) :=
  inferInstanceAs (Decidable (first.number ≤ second.number))

def sort (peers : List Peer) : List Peer :=
  peers.mergeSort (fun first second => decide (first ≤ second))

end Peer

end ChunkExchange
