import ChunkExchange.Binary64

namespace ChunkExchange.Decimal

/-- The double nearest `digits * 10 ^ scale`, ties to even. Far outside the range of doubles the
power of ten is not computed. -/
def nearest (digits : Nat) (scale : Int) : Float :=
  let places := ((toString digits).length : Int) + scale
  if digits = 0 then 0
  else if 400 < places then 1 / 0
  else if places < -400 then 0
  else Float.ofScientific digits (decide (scale < 0)) scale.natAbs

def nearestSigned (negative : Bool) (digits : Nat) (scale : Int) : Float :=
  if negative then -nearest digits scale else nearest digits scale

end ChunkExchange.Decimal
