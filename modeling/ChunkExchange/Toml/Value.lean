/-! The values of a TOML document, with what its tables remember of how they were written. -/

namespace ChunkExchange.Toml

/-- How a table came to be, which decides what may still be added to it. -/
inductive Origin where
  | header
  /-- Named on the way to the table of a longer header. -/
  | implied
  /-- Named on the way of a dotted key. -/
  | dotted
  | inline
deriving DecidableEq

inductive Value where
  | string (text : String)
  | integer (number : Int)
  | float (number : Float)
  | boolean (truth : Bool)
  | moment
  | array (items : List Value)
  | table (origin : Origin) (entries : List (String × Value))
  | tables (earlier : List Value) (current : List (String × Value))

abbrev Entries := List (String × Value)

namespace Entries

def get? (entries : Entries) (key : String) : Option Value :=
  entries.lookup key

/-- Replaces the value of a key by what `change` makes of it; a key without a value comes last. -/
private def alter (key : String) (change : Option Value → Option Value) : Entries → Option Entries
  | [] => (change none).map fun value => [(key, value)]
  | (name, value) :: rest =>
    if name == key then (change (some value)).map fun changed => (name, changed) :: rest
    else (alter key change rest).map fun changed => (name, value) :: changed

def add (entries : Entries) (key : String) (value : Value) : Option Entries :=
  entries.alter key fun
    | none => some value
    | some _ => none

/-- Changes the table at the end of a header's path. Missing tables on the way are implied, and of
tables that share a header the last one is meant; complete values cannot be entered. -/
def within (change : Entries → Option Entries) : (path : List String) → Entries → Option Entries
  | [], entries => change entries
  | key :: path, entries =>
    entries.alter key fun
      | none => (within change path []).map (Value.table .implied)
      | some (.table .inline _) => none
      | some (.table origin inner) => (within change path inner).map (Value.table origin)
      | some (.tables earlier current) =>
        (within change path current).map (Value.tables earlier)
      | some _ => none

/-- Gives a dotted key its value. A table with its own header cannot be entered that way, and the
table that gets the value must itself come from dotted keys. -/
def assign (key : String) (value : Value) : (path : List String) → Entries → Option Entries
  | [], entries => entries.add key value
  | next :: path, entries =>
    entries.alter next fun
      | none => (assign key value path []).map (Value.table .dotted)
      | some (.table .dotted inner) => (assign key value path inner).map (Value.table .dotted)
      | some (.table .implied inner) =>
        if path.isEmpty then none else (assign key value path inner).map (Value.table .implied)
      | some (.tables earlier current) =>
        if path.isEmpty then none
        else (assign key value path current).map (Value.tables earlier)
      | some _ => none

/-- Opens the table of a header. It must be new, or only implied so far. -/
def openTable (path : List String) (key : String) (entries : Entries) : Option Entries :=
  entries.within (fun inner => inner.alter key fun
    | none => some (.table .header [])
    | some (.table .implied known) => some (.table .header known)
    | some _ => none) path

/-- Opens the next of the tables that share a header. -/
def openNext (path : List String) (key : String) (entries : Entries) : Option Entries :=
  entries.within (fun inner => inner.alter key fun
    | none => some (.tables [] [])
    | some (.tables earlier current) => some (.tables (earlier ++ [.table .header current]) [])
    | some _ => none) path

end Entries

end ChunkExchange.Toml
