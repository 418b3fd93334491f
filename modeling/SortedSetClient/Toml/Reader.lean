/-! Readers of text: each takes something off the front or fails, and a failed one leaves the text
to the next. -/
namespace SortedSetClient.Toml

/-- What was read and the text after it. -/
abbrev Reader := StateT (List Char) Option

namespace Reader

def run? {α : Type} (reader : Reader α) (text : List Char) : Option (α × List Char) :=
  StateT.run reader text

/-- One character of a class. -/
def char (allowed : Char → Bool) : Reader Char
  | c :: text => if allowed c then some (c, text) else none
  | [] => none

/-- These characters. -/
def exactly (word : String) : Reader Unit := fun text =>
  if word.toList.isPrefixOf text then some ((), text.drop word.length) else none

/-- As many characters of a class as there are. -/
def chars (allowed : Char → Bool) : Reader (List Char) := fun text =>
  some (text.span allowed)

/-- One character of a class or more. -/
def someChars (allowed : Char → Bool) : Reader (List Char) := do
  let found ← chars allowed
  if found.isEmpty then failure else return found

private def manyFrom {α : Type} (reader : Reader α) (read : List α) (text : List Char) :
    List α × List Char :=
  match reader.run? text with
  | none => (read.reverse, text)
  | some (a, rest) =>
    if rest.length < text.length then manyFrom reader (a :: read) rest else (read.reverse, text)
termination_by text.length

/-- As many as there are, as long as each takes some text. -/
def many {α : Type} (reader : Reader α) : Reader (List α) := fun text =>
  some (manyFrom reader [] text)

/-- One or more with something between them. -/
def separated {α β : Type} (between : Reader β) (reader : Reader α) : Reader (List α) := do
  let first ← reader
  let rest ← many (between *> reader)
  return first :: rest

/-- The end of the text. -/
def finished : Reader Unit
  | [] => some ((), [])
  | _ => none

end Reader
end SortedSetClient.Toml
