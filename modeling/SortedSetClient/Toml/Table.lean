import SortedSetClient.Binary64

/-! The values of a document and how its lines build them up. A table is written in one place: a
header may take over a table that was only passed through by longer headers, dotted keys may add to
tables that dotted keys began, and a table in braces is complete. -/
namespace SortedSetClient.Toml

/-- How a table came to be. -/
inductive TableOrigin where
  /-- By a header of its own. -/
  | header
  /-- By the header of a table inside it. -/
  | passed
  /-- By a dotted key. -/
  | dotted
  /-- In braces. -/
  | braces
deriving DecidableEq

inductive Value where
  | string (text : String)
  | integer (n : Int64)
  | float (x : Binary64)
  | boolean (b : Bool)
  | moment
  | array (items : List Value)
  | table (origin : TableOrigin) (entries : List (String × Value))
  /-- Tables by repeated headers, of which the last may still grow. -/
  | tables (earlier : List (List (String × Value))) (last : List (String × Value))

abbrev Entries := List (String × Value)

namespace Entries

/-- Put a value in place of one that is there. -/
def replace (entries : Entries) (key : String) (value : Value) : Entries :=
  entries.map fun (found, old) => if found = key then (found, value) else (found, old)

/-- Add an entry under a new key. -/
def add? (entries : Entries) (key : String) (value : Value) : Option Entries :=
  if (entries.lookup key).isSome then none else some (entries ++ [(key, value)])

/-- Change the table at a path. Tables on the way that are missing come to be, by a dotted key or
by a header; some on the way may not be entered, and a dotted key enters fewer than a header. -/
def change? (byKey : Bool) (change : TableOrigin → Entries → Option Entries) :
    List String → TableOrigin → Entries → Option Entries
  | [], origin, entries => change origin entries
  | key :: path, _, entries =>
    match entries.lookup key with
    | none => do
      let origin := if byKey then .dotted else .passed
      let inner ← change? byKey change path origin []
      return entries ++ [(key, .table origin inner)]
    | some (.table origin inner) =>
      if origin = .braces ∨ byKey ∧ origin = .header then none
      else do
        let inner ← change? byKey change path origin inner
        return replace entries key (.table origin inner)
    | some (.tables earlier last) => do
      let last ← change? byKey change path .header last
      return replace entries key (.tables earlier last)
    | some _ => none

/-- Add an entry in a table that may take it: by a plain key not in a table of dotted keys, and by
a dotted key in no other. -/
def assign? (path : List String) (key : String) (value : Value) (entries : Entries) :
    Option Entries :=
  change? true (fun origin entries =>
    if (origin = .dotted) = path.isEmpty then none else add? entries key value) path .header entries

/-- Open a table by a header. -/
def openTable? (path : List String) (key : String) (entries : Entries) : Option Entries :=
  change? false (fun _ entries =>
    match entries.lookup key with
    | none => some (entries ++ [(key, .table .header [])])
    | some (.table .passed inner) => some (replace entries key (.table .header inner))
    | some _ => none) path .header entries

/-- Open one more table by a repeated header. -/
def openNext? (path : List String) (key : String) (entries : Entries) : Option Entries :=
  change? false (fun _ entries =>
    match entries.lookup key with
    | none => some (entries ++ [(key, .tables [] [])])
    | some (.tables earlier last) => some (replace entries key (.tables (earlier ++ [last]) []))
    | some _ => none) path .header entries

/-- Add an entry in the table of the latest header. -/
def assignIn? (current path : List String) (key : String) (value : Value) (entries : Entries) :
    Option Entries :=
  change? false (fun _ entries => assign? path key value entries) current .header entries

/-- The entries of a table in braces. -/
def ofPairs? (pairs : List (List String × String × Value)) : Option Entries :=
  pairs.foldlM (fun entries (path, key, value) => assign? path key value entries) []

end Entries
end SortedSetClient.Toml
