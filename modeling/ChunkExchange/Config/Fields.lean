import ChunkExchange.Duration
import ChunkExchange.Toml.Value

namespace ChunkExchange.Config

open Toml (Value Entries)

inductive Fields where
  | named (entries : Entries)
  | listed (items : List Value)

namespace Fields

/-- A table names its fields and an array lists them. A date is a record without fields. -/
def ofValue? : Value → Option Fields
  | .table _ entries => some (.named entries)
  | .tables earlier current => some (.listed (earlier ++ [.table .header current]))
  | .array items => some (.listed items)
  | .moment => some (.named [])
  | _ => none

/-- The value of a field, which has both a name and a position. -/
def get? (fields : Fields) (position : Nat) (name : String) : Option Value :=
  match fields with
  | .named entries => entries.get? name
  | .listed items => items[position]?

/-- Decodes the value of a field, or takes a default for an absent one. -/
def decode {α : Type} (fields : Fields) (position : Nat) (name : String) (value? : Value → Option α)
    (default : α) : Option α :=
  match fields.get? position name with
  | some value => value? value
  | none => some default

end Fields

def natural? : Value → Option Nat
  | .integer number => if 0 ≤ number then some number.toNat else none
  | _ => none

def natural32? (value : Value) : Option Nat :=
  (natural? value).filter (fun number => decide (number < 4294967296))

/-- A duration in milliseconds, as nanoseconds. -/
def milliseconds? (value : Value) : Option Nat :=
  (natural? value).map (fun number => number * Duration.millisecond)

/-- A float, or the float nearest an integer. -/
def real? : Value → Option Float
  | .float number => some number
  | .integer number => some (Float.ofInt number)
  | _ => none

def string? : Value → Option String
  | .string text => some text
  | _ => none

end ChunkExchange.Config
