/-!
# TOML values

A table remembers how it came about, since that decides what the rest of a
document may still add to it. Floats and dates are kept as they are written.
-/

namespace Delegation.Toml

inductive Origin where
  | header
  /-- Named only inside longer headers. -/
  | implied
  | dotted
  | inline
  deriving DecidableEq, Repr

inductive Value where
  | text (s : String)
  | integer (n : Int)
  | float (literal : String)
  | boolean (b : Bool)
  | datetime (literal : String)
  | array (items : List Value)
  | table (origin : Origin) (entries : List (String × Value))
  /-- A table for each header between double brackets. -/
  | tables (elements : List (List (String × Value)))

abbrev Table := List (String × Value)

namespace Table

def get? (table : Table) (key : String) : Option Value := table.lookup key

def put (key : String) (value : Value) : Table → Table
  | [] => [(key, value)]
  | (other, held) :: rest =>
    if other = key then (key, value) :: rest else (other, held) :: put key value rest

/-- Adds a value under a dotted key. A key is set only once, and only a table
named by dotted keys takes a key from one; `takes` says whether this table
takes the last key. -/
def assign (value : Value) : Bool → List String → Table → Option Table
  | _, [], _ => none
  | takes, [key], table =>
    if takes && (table.get? key).isNone then some (table.put key value) else none
  | _, key :: next :: rest, table =>
    match table.get? key with
    | none => do return table.put key (.table .dotted (← assign value true (next :: rest) []))
    | some (.table .dotted entries) => do
      return table.put key (.table .dotted (← assign value true (next :: rest) entries))
    | some (.table .implied entries) => do
      return table.put key (.table .implied (← assign value false (next :: rest) entries))
    | some (.tables elements) => do
      let last ← assign value false (next :: rest) (← elements.getLast?)
      return table.put key (.tables (elements.dropLast ++ [last]))
    | _ => none

/-- Changes the entry that a header names. Tables on the way that are missing
are implied by it; of several tables under one name the last is meant. -/
def change (entry : Option Value → Option Value) : List String → Table → Option Table
  | [], _ => none
  | [key], table => do return table.put key (← entry (table.get? key))
  | key :: next :: rest, table =>
    match table.get? key with
    | none => do return table.put key (.table .implied (← change entry (next :: rest) []))
    | some (.table .inline _) => none
    | some (.table origin entries) => do
      return table.put key (.table origin (← change entry (next :: rest) entries))
    | some (.tables elements) => do
      let last ← change entry (next :: rest) (← elements.getLast?)
      return table.put key (.tables (elements.dropLast ++ [last]))
    | _ => none

def assignAll (assignments : List (List String × Value)) (table : Table) : Option Table :=
  assignments.foldlM (fun table (path, value) => table.assign value true path) table

end Table

end Delegation.Toml
