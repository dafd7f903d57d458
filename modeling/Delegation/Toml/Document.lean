import Delegation.Toml.Scalar

/-!
# Documents

A document is a list of sections: assignments, under a header except for the
first. Its table results from the sections in order. No table is named by two
headers, and no key is set twice.
-/

namespace Delegation.Toml

open Scan

abbrev Assignment := List String × Value

/-- A value that may hold so many levels of arrays and inline tables. -/
def value : Nat → Scan Value
  | 0 => scalar
  | nesting + 1 => scalar <|> array (value nesting) <|> inlineTable (value nesting)
where
  array (item : Scan Value) : Scan Value := do
    char '['
    let items ← option (separated (filler *> item <* filler) (char ','))
    if items.isSome then discard (option (char ','))
    filler
    char ']'
    return .array (items.getD [])
  /-- An inline table stays on one line and has no comma at its end. -/
  inlineTable (item : Scan Value) : Scan Value := do
    char '\x7b'
    let assignment : Scan Assignment := do
      let path ← key
      char '='
      blanks
      let value ← item
      blanks
      return (path, value)
    let assignments ← option (separated assignment (char ','))
    blanks
    char '\x7d'
    match Table.assignAll (assignments.getD []) [] with
    | some entries => return .table .inline entries
    | none => failure

inductive Header where
  | table (path : List String)
  | element (path : List String)

structure Section where
  header : Option Header
  assignments : List Assignment

def header : Scan Header := do
  let header ← (do
    exactly ['[', '[']
    let path ← key
    exactly [']', ']']
    return .element path) <|> (do
    char '['
    let path ← key
    char ']'
    return .table path)
  lineEnd
  return header

def assignment : Scan Assignment := do
  let path ← key
  char '='
  blanks
  let value ← value maxNesting
  lineEnd
  return (path, value)

def emptyLines : Scan Unit := do
  discard (many (blanks *> (newline <|> (comment *> (newline <|> finish)))))
  blanks

def assignments : Scan (List Assignment) := do
  emptyLines
  many (assignment <* emptyLines)

def sections : Scan (List Section) := do
  let first ← assignments
  let rest ← many (do
    let header ← header
    return ⟨some header, ← assignments⟩)
  finish
  return ⟨none, first⟩ :: rest

def Table.addSection (table : Table) (part : Section) : Option Table :=
  match part.header with
  | none => table.assignAll part.assignments
  | some (.table path) =>
    let entry (held : Option Value) : Option Value := do
      let entries ← match held with
        | none => some []
        | some (.table .implied entries) => some entries
        | some _ => none
      return .table .header (← Table.assignAll part.assignments entries)
    table.change entry path
  | some (.element path) =>
    let entry (held : Option Value) : Option Value := do
      let elements ← match held with
        | none => some []
        | some (.tables elements) => some elements
        | some _ => none
      return .tables (elements ++ [← Table.assignAll part.assignments []])
    table.change entry path

/-- Reads a document; a byte order mark may precede it. -/
def parse? (text : String) : Option Table := do
  let input := match text.toList with
    | '\ufeff' :: rest => rest
    | input => input
  let (parts, _) ← sections input
  parts.foldlM Table.addSection []

end Delegation.Toml
