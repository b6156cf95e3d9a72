import ChunkExchange.Decimal.Nearest
import ChunkExchange.Toml.Character
import ChunkExchange.Toml.Value

/-! Numbers and truth values. Underscores may stand between digits. -/

namespace ChunkExchange.Toml

/-- The digits of a run, in which single underscores may stand between digits. -/
private def ungrouped? (isDigit : Char → Bool) : List Char → Option (List Char)
  | [] => none
  | [digit] => if isDigit digit then some [digit] else none
  | digit :: '_' :: rest =>
    if isDigit digit then (ungrouped? isDigit rest).map (digit :: ·) else none
  | digit :: rest =>
    if isDigit digit then (ungrouped? isDigit rest).map (digit :: ·) else none

/-- A sign in front of a number, and the rest. -/
private def splitSign : List Char → Bool × List Char
  | '-' :: rest => (true, rest)
  | '+' :: rest => (false, rest)
  | text => (false, text)

/-- The digits of a decimal number without leading zeros. -/
private def wholeDigits? (text : List Char) : Option (List Char) :=
  match text with
  | '0' :: _ :: _ => none
  | _ => ungrouped? Char.isDigit text

private def integer? (number : Int) : Option Value :=
  if -9223372036854775808 ≤ number ∧ number ≤ 9223372036854775807 then some (.integer number)
  else none

/-- An unsigned integer in a base marked by a letter after a zero. -/
private def basedInteger? (base : Nat) (isDigit : Char → Bool) (text : List Char) :
    Option Value := do
  let digits ← ungrouped? isDigit text
  integer? (numberIn base digits)

private def exponent? (text : List Char) : Option Int := do
  let (negative, digits) := splitSign text
  let digits ← ungrouped? Char.isDigit digits
  let magnitude : Int := numberIn 10 digits
  return if negative then -magnitude else magnitude

/-- The exponent after a mantissa, zero if nothing follows. -/
private def exponentPart? : List Char → Option Int
  | [] => some 0
  | 'e' :: rest => exponent? rest
  | 'E' :: rest => exponent? rest
  | _ => none

/-- A float from its digits. Only a positive number may not be too large. -/
private def float? (negative : Bool) (digits : List Char) (scale : Int) : Option Value :=
  let number := Decimal.nearestSigned negative (numberIn 10 digits) scale
  if number == 1 / 0 then none else some (.float number)

private def isGroupedDigit (c : Char) : Bool :=
  c.isDigit || c == '_'

/-- A decimal number: an integer, or a float if it has a fraction or an exponent. -/
private def decimal? (text : List Char) : Option Value := do
  let (negative, unsigned) := splitSign text
  let whole ← wholeDigits? (unsigned.takeWhile isGroupedDigit)
  match unsigned.dropWhile isGroupedDigit with
  | [] =>
    let magnitude : Int := numberIn 10 whole
    integer? (if negative then -magnitude else magnitude)
  | '.' :: rest =>
    let fraction ← ungrouped? Char.isDigit (rest.takeWhile isGroupedDigit)
    let exponent ← exponentPart? (rest.dropWhile isGroupedDigit)
    float? negative (whole ++ fraction) (exponent - fraction.length)
  | rest =>
    let exponent ← exponentPart? rest
    float? negative whole exponent

private def special? (text : List Char) : Option Value :=
  let (negative, unsigned) := splitSign text
  if unsigned = ['i', 'n', 'f'] then some (.float (if negative then -(1 / 0) else 1 / 0))
  else if unsigned = ['n', 'a', 'n'] then some (.float (0 / 0))
  else none

def boolean? (text : List Char) : Option Value :=
  if text = ['t', 'r', 'u', 'e'] then some (.boolean true)
  else if text = ['f', 'a', 'l', 's', 'e'] then some (.boolean false)
  else none

def number? : List Char → Option Value
  | '0' :: 'x' :: digits => basedInteger? 16 isHexDigit digits
  | '0' :: 'o' :: digits => basedInteger? 8 (fun c => '0' ≤ c && c ≤ '7') digits
  | '0' :: 'b' :: digits => basedInteger? 2 (fun c => c == '0' || c == '1') digits
  | text => special? text <|> decimal? text

end ChunkExchange.Toml
