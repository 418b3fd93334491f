import SortedSetClient.Decimal

/-! The values of the wire protocol and their written form: a type octet, a header line, and for a
bulk string or an array what the header counts. -/
namespace SortedSetClient.Resp

/-- What one side of the wire says. Bulk strings and arrays have a nil of their own. -/
inductive Value where
  | simple (text : String)
  | error (text : String)
  | integer (n : Int64)
  | bulk (data : Bytes)
  | nilBulk
  | array (items : List Value)
  | nilArray

namespace Value

def isNil : Value → Bool
  | nilBulk | nilArray => true
  | _ => false

/-- One line with its type octet and its end. -/
def line (type : UInt8) (text : Bytes) : Bytes :=
  type :: text ++ [0x0d, 0x0a]

mutual

/-- The written form of a value. -/
def encode : Value → Bytes
  | simple text => line 0x2b (Utf8.encode text)
  | error text => line 0x2d (Utf8.encode text)
  | integer n => line 0x3a (Decimal.ofInt64 n)
  | bulk data => line 0x24 (Decimal.digits data.length) ++ data ++ [0x0d, 0x0a]
  | nilBulk => line 0x24 [0x2d, 0x31]
  | array items => line 0x2a (Decimal.digits items.length) ++ encodeAll items
  | nilArray => line 0x2a [0x2d, 0x31]

/-- The written forms of values, one after another. -/
def encodeAll : List Value → Bytes
  | [] => []
  | item :: items => encode item ++ encodeAll items

end

mutual

/-- The longest chain of arrays inside one another, empty ones not counted. -/
def depth : Value → Nat
  | array (item :: items) => max (depth item) (depthAll items) + 1
  | _ => 0

/-- The greatest depth among values. -/
def depthAll : List Value → Nat
  | [] => 0
  | item :: items => max (depth item) (depthAll items)

end

end Value
end SortedSetClient.Resp
