import ChunkExchange.Toml.Character

/-! Dates and times. Only their well-formedness matters here. -/

namespace ChunkExchange.Toml

private def fixedNumber? (count : Nat) (text : List Char) : Option (Nat × List Char) :=
  let digits := text.take count
  if digits.length = count ∧ digits.all Char.isDigit then
    some (numberIn 10 digits, text.drop count)
  else none

def after? (c : Char) : List Char → Option (List Char)
  | first :: rest => if first == c then some rest else none
  | [] => none

private def isLeapYear (year : Nat) : Bool :=
  year % 4 == 0 && (year % 100 != 0 || year % 400 == 0)

private def daysInMonth (year month : Nat) : Nat :=
  if month = 2 then (if isLeapYear year then 29 else 28)
  else if month ∈ [4, 6, 9, 11] then 30
  else 31

private def afterDate? (text : List Char) : Option (List Char) := do
  let (year, text) ← fixedNumber? 4 text
  let (month, text) ← fixedNumber? 2 (← after? '-' text)
  let (day, text) ← fixedNumber? 2 (← after? '-' text)
  guard (1 ≤ month ∧ month ≤ 12 ∧ 1 ≤ day ∧ day ≤ daysInMonth year month)
  return text

/-- The rest of a text after a fraction of a second, which may be absent. -/
private def afterFraction? : List Char → Option (List Char)
  | '.' :: digit :: rest => if digit.isDigit then some (rest.dropWhile Char.isDigit) else none
  | '.' :: [] => none
  | text => some text

private def afterClock? (text : List Char) : Option (List Char) := do
  let (hour, text) ← fixedNumber? 2 text
  let (minute, text) ← fixedNumber? 2 (← after? ':' text)
  guard (hour ≤ 23 ∧ minute ≤ 59)
  return text

/-- The rest of a text after a time of day; a leap second is allowed. -/
private def afterTime? (text : List Char) : Option (List Char) := do
  let (second, text) ← fixedNumber? 2 (← after? ':' (← afterClock? text))
  guard (second ≤ 60)
  afterFraction? text

/-- The rest of a text after an offset from universal time. -/
private def afterOffset? : List Char → Option (List Char)
  | 'Z' :: rest => some rest
  | 'z' :: rest => some rest
  | '+' :: rest => afterClock? rest
  | '-' :: rest => afterClock? rest
  | text => some text

def isTime (offset : Bool) (text : List Char) : Bool :=
  match afterTime? text with
  | some rest => (if offset then afterOffset? rest else some rest) == some []
  | none => false

def isDate (text : List Char) : Bool :=
  afterDate? text == some []

/-- Whether a text is a date, a time, or a date and a time joined by a letter. -/
def isMoment (text : List Char) : Bool :=
  match afterDate? text with
  | some [] => true
  | some ('T' :: time) => isTime true time
  | some ('t' :: time) => isTime true time
  | some _ => false
  | none => isTime false text

end ChunkExchange.Toml
