import SortedSetClient.Resp.Line

/-! Finding where the reply at the front of a growing buffer ends. The place reached and the arrays
still open are kept between scans, so no header is passed twice, however a reply arrives. -/
namespace SortedSetClient.Resp

/-- One header line, with the data of a bulk string: its octets and the items it announces. -/
structure Element where
  size : Nat
  items : Nat
  size_pos : 0 < size := by omega

namespace Element

/-- A bulk string whose header takes `size` octets and counts `length` octets of data. -/
def ofBulk (size : Nat) (size_pos : 0 < size) (length : Int64) (rest : Bytes) :
    Except Fault (Option Element) :=
  if length < -1 then .error (.invalidBulkLength length)
  else if length = -1 then .ok (some { size, items := 0 })
  else
    match rest.drop length.toNatClampNeg with
    | 0x0d :: 0x0a :: _ => .ok (some { size := size + length.toNatClampNeg + 2, items := 0 })
    | _ :: _ :: _ => .error .missingTerminator
    | _ => .ok none

/-- The header of an array of `length` items. -/
def ofArray (size : Nat) (size_pos : 0 < size) (length : Int64) : Except Fault (Option Element) :=
  if length < -1 then .error (.invalidArrayLength length)
  else .ok (some { size, items := length.toNatClampNeg })

/-- The element that a type octet and a header line begin, with the octets after the line. -/
def ofHeader (type : UInt8) (header rest : Bytes) : Except Fault (Option Element) :=
  let size := header.length + 3
  match type with
  | 0x2b | 0x2d => .ok (some { size, items := 0 })
  | 0x3a => (readInteger header).map fun _ => some { size, items := 0 }
  | 0x24 => (readInteger header).bind fun length => ofBulk size (by omega) length rest
  | 0x2a => (readInteger header).bind fun length => ofArray size (by omega) length
  | type => .error (.unknownType type)

/-- The element at the front; none while its end has not arrived. -/
def read : Bytes → Except Fault (Option Element)
  | [] => .ok none
  | type :: bytes =>
    match splitLine bytes with
    | none => .ok none
    | some (header, rest) => ofHeader type header rest

theorem length_drop_size_lt {bytes : Bytes} {element : Element}
    (h : read bytes = .ok (some element)) : (bytes.drop element.size).length < bytes.length := by
  have := element.size_pos
  match bytes with
  | [] => simp [read] at h
  | _ :: _ => simp only [List.length_drop, List.length_cons]; omega

end Element

/-- How far a scan has come. -/
structure Scanner where
  /-- The octets already passed. -/
  position : Nat := 0
  /-- The items still expected by each open array, innermost first. -/
  missing : List Nat := []
deriving DecidableEq

namespace Scanner

/-- The arrays that stay open once a value is finished. -/
def finishValue : List Nat → List Nat
  | [] => []
  | left :: outer => if left ≤ 1 then finishValue outer else (left - 1) :: outer

/-- Pass elements until the first value ends. The place behind an array that lies too deep is kept,
though the array is not opened. -/
def advance (position : Nat) (missing : List Nat) (bytes : Bytes) :
    Scanner × Except Fault (Option Nat) :=
  match _ : Element.read bytes with
  | .error fault => (⟨position, missing⟩, .error fault)
  | .ok none => (⟨position, missing⟩, .ok none)
  | .ok (some element) =>
    if 0 < element.items then
      if maxDepth ≤ missing.length then (⟨position + element.size, missing⟩, .error .tooDeep)
      else advance (position + element.size) (element.items :: missing) (bytes.drop element.size)
    else
      match finishValue missing with
      | [] => ({}, .ok (some (position + element.size)))
      | open' => advance (position + element.size) open' (bytes.drop element.size)
termination_by bytes.length
decreasing_by all_goals exact Element.length_drop_size_lt ‹_›

/-- The length of the reply at the front of a buffer, once all of it has arrived; the scanner is
then fresh again. The buffer must begin with the octets that earlier scans have passed. -/
def scan (scanner : Scanner) (buffer : Bytes) : Scanner × Except Fault (Option Nat) :=
  advance scanner.position scanner.missing (buffer.drop scanner.position)

end Scanner
end SortedSetClient.Resp
