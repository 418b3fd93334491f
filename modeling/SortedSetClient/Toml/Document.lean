import SortedSetClient.Toml.Scalar
import SortedSetClient.Toml.Table

/-! Reading a whole document: lines that assign a value to a key, or open the table that the next
lines belong to. -/
namespace SortedSetClient.Toml
open Reader

/-- Values inside one another are read this deep. -/
def maxNesting : Nat := 79

/-- The parts of a dotted key are fewer than this. -/
def maxKeyParts : Nat := 80

private def isBare (c : Char) : Bool :=
  c.isAlphanum || c == '_' || c == '-'

private def keyPart : Reader String := do
  blanks
  let part ← basicString <|> literalString <|> String.ofList <$> someChars isBare
  blanks
  return part

/-- A key: the path to a table, and the name of an entry there. -/
def key : Reader (List String × String) := do
  let parts ← separated (exactly ".") keyPart
  match parts.getLast? with
  | some last => if parts.length < maxKeyParts then return (parts.dropLast, last) else failure
  | none => failure

private def scalar : Reader Value :=
  Value.string <$> string <|> (fun _ => .moment) <$> moment <|> Value.float <$> float <|>
    Value.integer <$> integer <|> Value.boolean <$> boolean

private def array (value : Reader Value) : Reader Value := do
  exactly "["
  gaps
  let items ← separated (gaps *> exactly "," *> gaps) value <|> pure []
  gaps
  if !items.isEmpty then let _ ← optional (exactly "," *> gaps)
  exactly "]"
  return .array items

private def assignment (value : Reader Value) : Reader (List String × String × Value) := do
  let (path, name) ← key
  exactly "="
  blanks
  let value ← value
  return (path, name, value)

private def braces (value : Reader Value) : Reader Value := do
  exactly "\x7b"
  blanks
  let pairs ← separated (exactly ",") (assignment value <* blanks) <|> pure []
  exactly "\x7d"
  match Entries.ofPairs? pairs with
  | some entries => return .table .braces entries
  | none => failure

/-- A value with at most `levels` values inside one another. -/
def valueWithin : Nat → Reader Value
  | 0 => scalar
  | levels + 1 => scalar <|> array (valueWithin levels) <|> braces (valueWithin levels)

/-- What one line says. -/
inductive Statement where
  | assign (path : List String) (key : String) (value : Value)
  | openTable (path : List String) (key : String)
  | openNext (path : List String) (key : String)
  | empty

private def statement : Reader Statement := do
  blanks
  (do
    exactly "[["
    let (path, name) ← key
    exactly "]]"
    lineEnd
    return .openNext path name) <|> (do
    exactly "["
    let (path, name) ← key
    exactly "]"
    lineEnd
    return .openTable path name) <|> (do
    let (path, name, value) ← assignment (valueWithin maxNesting)
    lineEnd
    return .assign path name value) <|> (do
    lineEnd
    return .empty)

/-- The statements of a document, in order. -/
def statements? (text : List Char) : Option (List Statement) :=
  match (many statement).run? text with
  | some (found, []) => some found
  | _ => none

/-- A document as far as it has been read: its entries, and the table of the latest header. -/
structure Draft where
  entries : Entries := []
  current : List String := []

/-- Carry out a statement. -/
def Draft.apply? (draft : Draft) : Statement → Option Draft
  | .empty => some draft
  | .assign path key value => do
    return { draft with entries := ← draft.entries.assignIn? draft.current path key value }
  | .openTable path key => do
    return { entries := ← draft.entries.openTable? path key, current := path ++ [key] }
  | .openNext path key => do
    return { entries := ← draft.entries.openNext? path key, current := path ++ [key] }

private def withoutMark : List Char → List Char
  | '\uFEFF' :: text => text
  | text => text

/-- The entries of a document; none where it is not one. -/
def read? (text : String) : Option Entries := do
  let statements ← statements? (withoutMark text.toList)
  let draft ← statements.foldlM Draft.apply? {}
  return draft.entries

end SortedSetClient.Toml
