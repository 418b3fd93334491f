import SortedSetClient.Resp.Line
import SortedSetClient.Resp.Value

/-! Reading one value from the front of a buffer. A buffer that ends inside a value is not wrong
but incomplete, and a fault is reported as soon as it is met. -/
namespace SortedSetClient.Resp.Parser

/-- A fault, nothing yet, or what was read and the octets after it. -/
abbrev Reading (α : Type) := Except Fault (Option (α × Bytes))

/-- Read a line, and make of it what `make` says. -/
def readLine {α : Type} (make : Bytes → Except Fault α) (bytes : Bytes) : Reading α :=
  match splitLine bytes with
  | none => .ok none
  | some (text, rest) => (make text).map fun a => some (a, rest)

/-- Read the octets of a bulk string of known length. -/
def readBulk (length : Int64) (bytes : Bytes) : Reading Value :=
  if length = -1 then .ok (some (.nilBulk, bytes))
  else if length < 0 then .error (.invalidBulkLength length)
  else
    match bytes.drop length.toNatClampNeg with
    | 0x0d :: 0x0a :: rest => .ok (some (.bulk (bytes.take length.toNatClampNeg), rest))
    | _ :: _ :: _ => .error .missingTerminator
    | _ => .ok none

/-- Read that many items, behind those already read. -/
def readItems (read : Bytes → Reading Value) (items : List Value) :
    Nat → Bytes → Reading (List Value)
  | 0, bytes => .ok (some (items.reverse, bytes))
  | n + 1, bytes =>
    match read bytes with
    | .error fault => .error fault
    | .ok none => .ok none
    | .ok (some (item, rest)) => readItems read (item :: items) n rest

/-- Read an array of known length; `inside` reads the items of one that is not empty. -/
def readArray (inside : Nat → Bytes → Reading (List Value)) (length : Int64) (bytes : Bytes) :
    Reading Value :=
  if length = -1 then .ok (some (.nilArray, bytes))
  else if length < 0 then .error (.invalidArrayLength length)
  else if length = 0 then .ok (some (.array [], bytes))
  else (inside length.toNatClampNeg bytes).map fun read =>
    read.map fun (items, rest) => (.array items, rest)

/-- Read a header that holds an integer, and go on with `next`. -/
def readCounted (next : Int64 → Bytes → Reading Value) (bytes : Bytes) : Reading Value :=
  match readLine readInteger bytes with
  | .error fault => .error fault
  | .ok none => .ok none
  | .ok (some (n, rest)) => next n rest

/-- Read one value. -/
def readValue (inside : Nat → Bytes → Reading (List Value)) : Bytes → Reading Value
  | [] => .ok none
  | 0x2b :: bytes => readLine (fun text => .ok (.simple (Utf8.decodeLossy text))) bytes
  | 0x2d :: bytes => readLine (fun text => .ok (.error (Utf8.decodeLossy text))) bytes
  | 0x3a :: bytes => readCounted (fun n rest => .ok (some (.integer n, rest))) bytes
  | 0x24 :: bytes => readCounted readBulk bytes
  | 0x2a :: bytes => readCounted (readArray inside) bytes
  | type :: _ => .error (.unknownType type)

/-- Read one value with at most `levels` arrays inside one another, empty ones not counted. -/
def readWithin : Nat → Bytes → Reading Value
  | 0 => readValue fun _ _ => .error .tooDeep
  | levels + 1 => readValue (readItems (readWithin levels) [])

/-- The value at the front of a buffer and how many octets it takes. -/
def parse (buffer : Bytes) : Except Fault (Option (Value × Nat)) :=
  (readWithin maxDepth buffer).map fun read => read.map fun (value, rest) =>
    (value, buffer.length - rest.length)

end SortedSetClient.Resp.Parser
