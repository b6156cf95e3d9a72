import ChunkExchange.Toml.Grammar

namespace ChunkExchange.Toml

/-- A document in the making: its entries, and the path of the table whose lines are read. -/
structure Draft where
  entries : Entries
  current : List String

private def Draft.apply? (draft : Draft) : Statement → Option Draft
  | .table key => do
    let entries ← draft.entries.openTable key.path key.name
    return { entries, current := key.path ++ [key.name] }
  | .next key => do
    let entries ← draft.entries.openNext key.path key.name
    return { entries, current := key.path ++ [key.name] }
  | .assign key value => do
    let entries ← draft.entries.within (Entries.assign key.name value key.path) draft.current
    return { draft with entries }

/-- A byte order mark at the start of a text is no part of it. -/
private def skipMark : List Char → List Char
  | '\ufeff' :: rest => rest
  | text => text

/-- Reads a document; a text that is not TOML has none. -/
def parse? (text : String) : Option Entries := do
  let characters := skipMark text.toList
  let statements ← statements? (characters.length + 1) characters
  let draft ← statements.foldlM Draft.apply? { entries := [], current := [] }
  return draft.entries

end ChunkExchange.Toml
