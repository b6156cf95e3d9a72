import ChunkExchange.Toml.Character

namespace ChunkExchange.Toml

private def quote : Char := '\x22'

private def apostrophe : Char := '\x27'

private def backslash : Char := '\x5c'

/-- What a one-letter escape stands for. -/
private def escaped? (letter : Char) : Option Char :=
  if letter == 'b' then some '\x08'
  else if letter == 't' then some '\t'
  else if letter == 'n' then some '\n'
  else if letter == 'f' then some '\x0c'
  else if letter == 'r' then some '\r'
  else if letter == quote then some quote
  else if letter == backslash then some backslash
  else none

private def codePoint? (digits : List Char) : Option Char :=
  let number := numberIn 16 digits
  if digits.all isHexDigit && decide (number.isValidChar) then some (Char.ofNat number) else none

private def prepend (c : Char) (read : List Char × List Char) : List Char × List Char :=
  (c :: read.1, read.2)

/-- The rest of a one-line text with escapes, after its opening mark. -/
private def basicRest : Scan (List Char)
  | '\x22' :: rest => some ([], rest)
  | '\x5c' :: 'u' :: a :: b :: c :: d :: rest => do
    return prepend (← codePoint? [a, b, c, d]) (← basicRest rest)
  | '\x5c' :: 'U' :: a :: b :: c :: d :: e :: f :: g :: h :: rest => do
    return prepend (← codePoint? [a, b, c, d, e, f, g, h]) (← basicRest rest)
  | '\x5c' :: letter :: rest => do
    return prepend (← escaped? letter) (← basicRest rest)
  | c :: rest =>
    if isText c && c != backslash then (basicRest rest).map (prepend c) else none
  | [] => none

private def literalRest : Scan (List Char)
  | '\x27' :: rest => some ([], rest)
  | c :: rest => if isText c then (literalRest rest).map (prepend c) else none
  | [] => none

/-- Whether only blanks stand before the next line break. -/
private def endsLine (text : List Char) : Bool :=
  (lineBreak? (skipBlanks text)).isSome

/-- The rest of a text with escapes that may span lines, after its opening marks. Up to two marks
before the closing three belong to the text. A backslash at the end of a line joins the next line
that is not blank; `joining` tells that blanks and line breaks are being skipped for it. -/
private def basicLinesRest (joining : Bool) : Scan (List Char)
  | '\x22' :: '\x22' :: '\x22' :: '\x22' :: '\x22' :: rest => some ([quote, quote], rest)
  | '\x22' :: '\x22' :: '\x22' :: '\x22' :: rest => some ([quote], rest)
  | '\x22' :: '\x22' :: '\x22' :: rest => some ([], rest)
  | '\r' :: '\n' :: rest =>
    if joining then basicLinesRest true rest
    else (basicLinesRest false rest).map (prepend '\n')
  | '\n' :: rest =>
    if joining then basicLinesRest true rest
    else (basicLinesRest false rest).map (prepend '\n')
  | '\x5c' :: 'u' :: a :: b :: c :: d :: rest => do
    return prepend (← codePoint? [a, b, c, d]) (← basicLinesRest false rest)
  | '\x5c' :: 'U' :: a :: b :: c :: d :: e :: f :: g :: h :: rest => do
    return prepend (← codePoint? [a, b, c, d, e, f, g, h]) (← basicLinesRest false rest)
  | '\x5c' :: letter :: rest =>
    if endsLine (letter :: rest) then basicLinesRest true (letter :: rest)
    else do return prepend (← escaped? letter) (← basicLinesRest false rest)
  | c :: rest =>
    if joining && isBlank c then basicLinesRest true rest
    else if isText c && c != backslash then (basicLinesRest false rest).map (prepend c)
    else none
  | [] => none

private def literalLinesRest : Scan (List Char)
  | '\x27' :: '\x27' :: '\x27' :: '\x27' :: '\x27' :: rest => some ([apostrophe, apostrophe], rest)
  | '\x27' :: '\x27' :: '\x27' :: '\x27' :: rest => some ([apostrophe], rest)
  | '\x27' :: '\x27' :: '\x27' :: rest => some ([], rest)
  | '\r' :: '\n' :: rest => (literalLinesRest rest).map (prepend '\n')
  | '\n' :: rest => (literalLinesRest rest).map (prepend '\n')
  | c :: rest => if isText c then (literalLinesRest rest).map (prepend c) else none
  | [] => none

/-- A line break right after the opening marks is not part of the text. -/
private def skipFirstBreak (text : List Char) : List Char :=
  (lineBreak? text).getD text

/-- A text on one line, as keys may be written. -/
def oneLine? : Scan String
  | '\x22' :: rest => (basicRest rest).map fun (text, rest) => (String.ofList text, rest)
  | '\x27' :: rest => (literalRest rest).map fun (text, rest) => (String.ofList text, rest)
  | _ => none

/-- A quoted text of any kind. -/
def quoted? : Scan String
  | '\x22' :: '\x22' :: '\x22' :: rest =>
    (basicLinesRest false (skipFirstBreak rest)).map fun (text, rest) => (String.ofList text, rest)
  | '\x27' :: '\x27' :: '\x27' :: rest =>
    (literalLinesRest (skipFirstBreak rest)).map fun (text, rest) => (String.ofList text, rest)
  | text => oneLine? text

end ChunkExchange.Toml
