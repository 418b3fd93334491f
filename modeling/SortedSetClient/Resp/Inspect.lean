import SortedSetClient.Printable
import SortedSetClient.Resp.Value

/-! Values as shown in messages: every constructor by name, texts quoted, octets as numbers. -/
namespace SortedSetClient.Resp

private def hexDigits (n : Nat) : String :=
  String.ofList (Nat.toDigits 16 n)

/-- A character inside quotes. One that is not printable is given by its number; a single quote is
not escaped. -/
def inspectChar (c : Char) : String :=
  if c = '"' then "\\\""
  else if c = '\\' then "\\\\"
  else if c = '\n' then "\\n"
  else if c = '\r' then "\\r"
  else if c = '\t' then "\\t"
  else if c = '\x00' then "\\0"
  else if isPrintable c then c.toString
  else "\\u\x7b" ++ hexDigits c.toNat ++ "\x7d"

/-- A quoted text. -/
def inspectText (text : String) : String :=
  "\"" ++ String.join (text.toList.map inspectChar) ++ "\""

-- An accent of its own is given by its number, a letter that carries one is shown.
example : inspectText "e\u0301 \u00e9" = "\"e\\u\x7b301\x7d é\"" := by decide +kernel

private def listed (items : List String) : String :=
  "[" ++ String.intercalate ", " items ++ "]"

namespace Value

mutual

/-- A value as shown in messages. -/
def inspect : Value → String
  | simple text => "SimpleString(" ++ inspectText text ++ ")"
  | error text => "Error(" ++ inspectText text ++ ")"
  | integer n => "Integer(" ++ toString n.toInt ++ ")"
  | bulk data => "BulkString(Some(" ++ listed (data.map fun b => toString b.toNat) ++ "))"
  | nilBulk => "BulkString(None)"
  | array items => "Array(Some(" ++ listed (inspectAll items) ++ "))"
  | nilArray => "Array(None)"

/-- Values as shown in messages, each on its own. -/
def inspectAll : List Value → List String
  | [] => []
  | item :: items => inspect item :: inspectAll items

end

end Value
end SortedSetClient.Resp
