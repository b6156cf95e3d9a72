import ChunkExchange.Binary64

namespace ChunkExchange.Decimal

structure Scaled where
  digits : Nat
  scale : Int
deriving DecidableEq

/-- The reals that round to one double, in quarters of its last place: the double itself, the two
ends, and whether the ends belong. -/
structure Interval where
  centre : Nat
  low : Nat
  high : Nat
  closed : Bool
  exponent : Int
deriving DecidableEq

/-- The rounding interval of a nonzero double; below a power of two the spacing halves. -/
private def Interval.ofDyadic (value : Dyadic) : Interval :=
  let narrow := value.significand = Nat.pow 2 52 ∧ -1074 < value.exponent
  { centre := 4 * value.significand
    low := 4 * value.significand - (if narrow then 1 else 2)
    high := 4 * value.significand + 2
    closed := value.significand % 2 = 0
    exponent := value.exponent - 2 }

/-- The factors that turn interval units into units of `10 ^ scale`. -/
private def Interval.units (interval : Interval) (scale : Int) : Nat × Nat :=
  (Nat.pow 2 interval.exponent.toNat * Nat.pow 10 (-scale).toNat,
    Nat.pow 2 (-interval.exponent).toNat * Nat.pow 10 scale.toNat)

def Interval.contains (interval : Interval) (digits : Nat) (scale : Int) : Bool :=
  let (up, down) := interval.units scale
  if interval.closed then
    interval.low * up ≤ digits * down && digits * down ≤ interval.high * up
  else
    interval.low * up < digits * down && digits * down < interval.high * up

/-- The neighbour of the double on the grid of `10 ^ scale` that reads back as it: the nearer one
where both do, the upper one at equal distance. -/
private def Interval.point? (interval : Interval) (scale : Int) : Option Nat :=
  let (up, down) := interval.units scale
  let below := interval.centre * up / down
  let rest := interval.centre * up % down
  match interval.contains below scale, interval.contains (below + 1) scale with
  | true, true => some (if 2 * rest < down then below else below + 1)
  | true, false => some below
  | false, true => some (below + 1)
  | false, false => none

/-- Tries ever finer grids until one has a point in the interval. -/
private def Interval.search (interval : Interval) : (grids : Nat) → (scale : Int) → Scaled
  | 0, scale => { digits := 0, scale }
  | grids + 1, scale =>
    match interval.point? scale with
    | some digits => { digits, scale }
    | none => interval.search grids (scale - 1)

/-- The fewest digits that read back as a nonzero double. The first grid is coarser than the
double, and the seventeenth digit always suffices. -/
def shortest (value : Dyadic) : Scaled :=
  let places := ((value.significand.log2 : Int) + 1 + value.exponent) * 3 / 10 + 3
  (Interval.ofDyadic value).search 40 places

private def Scaled.positional (value : Scaled) : String :=
  let digits := toString value.digits
  match value.scale with
  | .ofNat scale => digits ++ String.ofList (List.replicate scale '0')
  | .negSucc scale =>
    let places := scale + 1
    let padded := String.ofList (List.replicate (places + 1 - digits.length) '0') ++ digits
    let whole := padded.length - places
    String.ofList (padded.toList.take whole) ++ "." ++ String.ofList (padded.toList.drop whole)

/-- The text of a double in messages: shortest digits, never an exponent, no point on whole
numbers. -/
def text (value : Float) : String :=
  match Binary64.decode value with
  | none => if value.isNaN then "NaN" else if value < 0 then "-inf" else "inf"
  | some dyadic =>
    let magnitude := if dyadic.significand = 0 then "0" else (shortest dyadic).positional
    if dyadic.negative then "-" ++ magnitude else magnitude

end ChunkExchange.Decimal
