import ChunkExchange.Toml.Moment
import ChunkExchange.Toml.Number
import ChunkExchange.Toml.Text

namespace ChunkExchange.Toml

/-- Brackets and dotted keys may go this deep. -/
private def nestingLimit : Nat := 79

private def keyPart? (text : List Char) : Option (String × List Char) :=
  match text with
  | '\x22' :: _ => oneLine? text
  | '\x27' :: _ => oneLine? text
  | _ =>
    let bare := text.takeWhile isBare
    if bare.isEmpty then none else some (String.ofList bare, text.dropWhile isBare)

/-- The parts of a key, of which there are at most `parts`, with blanks around the dots. -/
private def keyParts? : (parts : Nat) → Scan (List String)
  | 0, _ => none
  | parts + 1, text => do
    let (part, rest) ← keyPart? (skipBlanks text)
    match skipBlanks rest with
    | '.' :: rest => (keyParts? parts rest).map fun (others, rest) => (part :: others, rest)
    | rest => some ([part], rest)

/-- A dotted key: the path to its table, and its own name. -/
structure Key where
  path : List String
  name : String
deriving DecidableEq

private def Key.ofParts? (parts : List String) : Option Key :=
  parts.getLast?.map fun name => { path := parts.dropLast, name }

private def key? (text : List Char) : Option (Key × List Char) := do
  let (parts, rest) ← keyParts? nestingLimit text
  return (← Key.ofParts? parts, rest)

/-- A character of a value without quotes and brackets. -/
private def isPlain (c : Char) : Bool :=
  isBare c || c == '+' || c == '.' || c == ':'

/-- A value without quotes and brackets. A date and a time may be joined by a space. -/
private def plain? (text : List Char) : Option (Value × List Char) := do
  let word := text.takeWhile isPlain
  let rest := text.dropWhile isPlain
  match isDate word, rest with
  | true, ' ' :: digit :: more =>
    if digit.isDigit then
      guard (isTime true ((digit :: more).takeWhile isPlain))
      return (.moment, (digit :: more).dropWhile isPlain)
    else return (.moment, rest)
  | _, _ =>
    if isMoment word then return (.moment, rest)
    else return (← boolean? word <|> number? word, rest)

private def simple? (text : List Char) : Option (Value × List Char) :=
  match text with
  | '\x22' :: _ => (quoted? text).map fun (text, rest) => (.string text, rest)
  | '\x27' :: _ => (quoted? text).map fun (text, rest) => (.string text, rest)
  | _ => plain? text

/-- The items of an array after its opening bracket, of which there are fewer than `bound`. A comma
may follow the last one. -/
private def items? (item? : Scan Value) : (bound : Nat) → Scan (List Value)
  | 0, _ => none
  | bound + 1, text =>
    match skipSpace false text with
    | ']' :: rest => some ([], rest)
    | text => do
      let (item, rest) ← item? text
      match skipSpace false rest with
      | ']' :: rest => return ([item], rest)
      | ',' :: rest =>
        let (items, rest) ← items? item? bound rest
        return (item :: items, rest)
      | _ => none

private def assignment? (item? : Scan Value) (text : List Char) :
    Option ((Key × Value) × List Char) := do
  let (key, rest) ← key? text
  match rest with
  | '=' :: rest =>
    let (value, rest) ← item? (skipBlanks rest)
    return ((key, value), rest)
  | _ => none

/-- The entries of an inline table up to its closing brace, of which there are at most `bound`. -/
private def inlineEntries? (item? : Scan Value) : (bound : Nat) → Entries → Scan Entries
  | 0, _, _ => none
  | bound + 1, entries, text => do
    let ((key, value), rest) ← assignment? item? text
    let entries ← entries.assign key.name value key.path
    match skipBlanks rest with
    | '\x7d' :: rest => return (entries, rest)
    | ',' :: rest => inlineEntries? item? bound entries rest
    | _ => none

/-- A value with brackets at most `depth` deep. -/
def value? : (depth : Nat) → Scan Value
  | depth + 1, '[' :: rest =>
    (items? (value? depth) (rest.length + 1) rest).map fun (items, rest) => (.array items, rest)
  | depth + 1, '\x7b' :: rest =>
    match skipBlanks rest with
    | '\x7d' :: rest => some (.table .inline [], rest)
    | _ =>
      (inlineEntries? (value? depth) rest.length [] rest).map fun (entries, rest) =>
        (.table .inline entries, rest)
  | _, text => simple? text

inductive Statement where
  | table (key : Key)
  | next (key : Key)
  | assign (key : Key) (value : Value)

/-- A line that says something, with its end. -/
private def statement? (text : List Char) : Option (Statement × List Char) := do
  match text with
  | '[' :: '[' :: rest =>
    let (key, rest) ← key? rest
    let rest ← after? ']' (← after? ']' rest)
    return (.next key, ← lineEnd? rest)
  | '[' :: rest =>
    let (key, rest) ← key? rest
    let rest ← after? ']' rest
    return (.table key, ← lineEnd? rest)
  | _ =>
    let ((key, value), rest) ← assignment? (value? nestingLimit) text
    return (.assign key value, ← lineEnd? rest)

/-- The statements of a text of at most `bound` lines. -/
def statements? : (bound : Nat) → List Char → Option (List Statement)
  | 0, _ => none
  | bound + 1, text =>
    match skipBlanks text with
    | [] => some []
    | '#' :: comment => do statements? bound (← lineEnd? ('#' :: comment))
    | text =>
      match lineBreak? text with
      | some rest => statements? bound rest
      | none => do
        let (statement, rest) ← statement? text
        return statement :: (← statements? bound rest)

end ChunkExchange.Toml
