import SortedSetClient.Operation

/-! Answers as they are printed: a line for each entry, numbered from one, members in quotes. -/
namespace SortedSetClient.Answer

def line (text : String) : String := text ++ "\n"

/-- A member between quotes. Octets that are no text show as replacement characters. -/
def quoted (member : Bytes) : String := "\"" ++ Utf8.decodeLossy member ++ "\""

/-- Numbered lines, each behind an indent. -/
def numbered (indent : String) (entries : List String) : String :=
  String.join (entries.mapIdx fun i entry => line (indent ++ toString (i + 1) ++ ") " ++ entry))

/-- An entry with its score. -/
def scored (entry : Entry) : String := quoted entry.1 ++ " " ++ entry.2.text

/-- The lines of members. -/
def printMembers (members : List Bytes) : String :=
  if members.isEmpty then line "(empty array)" else numbered "" (members.map quoted)

/-- The text that is printed for an answer. -/
def print : Answer → String
  | integer n | place (some n) => line ("(integer) " ++ toString n.toInt)
  | score found | scoreOf (some found) => line found.text
  | place none | scoreOf none => line "(nil)"
  | members list | listing (.members list) => printMembers list
  | listing (.scored entries) =>
    if entries.isEmpty then line "(empty array)" else numbered "" (entries.map scored)
  | page cursor entries =>
    line ("cursor: " ++ toString cursor.toNat) ++ numbered "  " (entries.map scored)

end SortedSetClient.Answer
