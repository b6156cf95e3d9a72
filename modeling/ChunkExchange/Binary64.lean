/-! Double-precision numbers seen as exact multiples of powers of two, with roundings to whole
numbers in exact arithmetic. -/

namespace ChunkExchange

/-- A signed multiple of a power of two. -/
structure Dyadic where
  negative : Bool
  significand : Nat
  exponent : Int
deriving DecidableEq

def wordLimit : Nat := 18446744073709551615

namespace Dyadic

def ceil (value : Dyadic) : Nat :=
  match value.exponent with
  | .ofNat exponent => value.significand * Nat.pow 2 exponent
  | .negSucc exponent =>
    (value.significand + Nat.pow 2 (exponent + 1) - 1) / Nat.pow 2 (exponent + 1)

/-- The whole number nearest the magnitude, a half going up. -/
def nearest (value : Dyadic) : Nat :=
  match value.exponent with
  | .ofNat exponent => value.significand * Nat.pow 2 exponent
  | .negSucc exponent => (value.significand + Nat.pow 2 exponent) / Nat.pow 2 (exponent + 1)

end Dyadic

namespace Binary64

/-- The exact value of a finite number; infinities and not-a-number have none. -/
def decode (value : Float) : Option Dyadic :=
  let bits := value.toBits.toNat
  let negative := decide (bits / Nat.pow 2 63 = 1)
  let scale := bits / Nat.pow 2 52 % Nat.pow 2 11
  let fraction := bits % Nat.pow 2 52
  if scale = 2047 then none
  else if scale = 0 then some { negative, significand := fraction, exponent := -1074 }
  else some { negative, significand := Nat.pow 2 52 + fraction, exponent := Int.ofNat scale - 1075 }

/-- One step of repeated squaring per bit of the exponent, lowest bit first. -/
private def powerFrom (product square : Float) (exponent : Nat) : Float :=
  let product := if exponent % 2 = 1 then product * square else product
  if exponent / 2 = 0 then product
  else powerFrom product (square * square) (exponent / 2)
termination_by exponent

/-- `base` to the power `exponent`, each product rounded. -/
def power (base : Float) (exponent : Nat) : Float :=
  powerFrom 1 base exponent

/-- The least whole number not below `value`, kept within a word; not-a-number counts as zero. -/
def ceilWord (value : Float) : Nat :=
  match decode value with
  | some dyadic => if dyadic.negative then 0 else min dyadic.ceil wordLimit
  | none => if 0 < value then wordLimit else 0

/-- The whole number nearest a finite `value`, a half going up and negative numbers to zero. -/
def nearestNat? (value : Float) : Option Nat :=
  (decode value).map fun dyadic => if dyadic.negative then 0 else dyadic.nearest

/-- The double nearest `number`, read back as a whole number. -/
def roundNat (number : Nat) : Nat :=
  (nearestNat? (Float.ofNat number)).getD 0

end Binary64

end ChunkExchange
