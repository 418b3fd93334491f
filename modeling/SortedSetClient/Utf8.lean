/-! Octets and the text they carry. A text is written as the octets of its characters, and any
octets at all can be read back: each ill-formed part stands for one replacement character. -/
namespace SortedSetClient

/-- Any octets, as they travel on the wire. -/
abbrev Bytes := List UInt8

namespace Utf8

/-- The octets of a text. -/
def encode (text : String) : Bytes :=
  text.toList.flatMap String.utf8EncodeChar

/-- The text of octets that are ASCII, one character each. -/
def ofAscii (bytes : Bytes) : String :=
  String.ofList (bytes.map fun b => Char.ofNat b.toNat)

/-- How many octets follow a lead octet; none for an octet that begins no character. -/
def tailLength (lead : UInt8) : Option Nat :=
  if lead < 0x80 then some 0
  else if lead < 0xc2 then none
  else if lead < 0xe0 then some 1
  else if lead < 0xf0 then some 2
  else if lead < 0xf5 then some 3
  else none

/-- The bits of the character that its lead octet carries. -/
def leadBits (lead : UInt8) : Nat :=
  if lead < 0x80 then lead.toNat
  else if lead < 0xe0 then lead.toNat - 0xc0
  else if lead < 0xf0 then lead.toNat - 0xe0
  else lead.toNat - 0xf0

/-- Which octets may follow a lead octet. The narrow cases keep out surrogates, numbers past the
last character and characters written longer than they need. -/
def mayFollow (lead next : UInt8) : Bool :=
  if lead = 0xe0 then 0xa0 ≤ next && next ≤ 0xbf
  else if lead = 0xed then 0x80 ≤ next && next ≤ 0x9f
  else if lead = 0xf0 then 0x90 ≤ next && next ≤ 0xbf
  else if lead = 0xf4 then 0x80 ≤ next && next ≤ 0x8f
  else 0x80 ≤ next && next ≤ 0xbf

/-- Read the last `n` octets of a character; none at the first octet that is no continuation,
which is left unread. -/
def readTail (bits : Nat) : Nat → Bytes → Option Char × Bytes
  | 0, rest => (some (Char.ofNat bits), rest)
  | n + 1, next :: rest =>
    if 0x80 ≤ next ∧ next ≤ 0xbf then readTail (bits * 64 + (next.toNat - 0x80)) n rest
    else (none, next :: rest)
  | _ + 1, [] => (none, [])

/-- Read one character after its lead octet, or the longest beginning of one. -/
def readChar (lead : UInt8) (rest : Bytes) : Option Char × Bytes :=
  match tailLength lead, rest with
  | none, rest => (none, rest)
  | some 0, rest => (some (Char.ofNat (leadBits lead)), rest)
  | some (_ + 1), [] => (none, [])
  | some (n + 1), next :: rest =>
    if mayFollow lead next then readTail (leadBits lead * 64 + (next.toNat - 0x80)) n rest
    else (none, next :: rest)

theorem length_readTail_le (bits n : Nat) (bytes : Bytes) :
    (readTail bits n bytes).2.length ≤ bytes.length := by
  fun_induction readTail bits n bytes with
  | case2 _ _ _ _ _ ih => exact Nat.le_succ_of_le ih
  | _ => simp

theorem length_readChar_le (lead : UInt8) (rest : Bytes) :
    (readChar lead rest).2.length ≤ rest.length := by
  fun_cases readChar lead rest with
  | case4 => exact Nat.le_succ_of_le (length_readTail_le _ _ _)
  | _ => simp

/-- The characters and the ill-formed parts of octets, behind those already read. -/
def piecesOnto (read : List (Option Char)) : Bytes → List (Option Char)
  | [] => read.reverse
  | lead :: rest => piecesOnto ((readChar lead rest).1 :: read) (readChar lead rest).2
termination_by bytes => bytes.length
decreasing_by exact Nat.lt_succ_of_le (length_readChar_le _ _)

/-- The characters of octets in order; none stands for an ill-formed part. -/
def pieces (bytes : Bytes) : List (Option Char) :=
  piecesOnto [] bytes

/-- The text of octets, with a replacement character for each ill-formed part. -/
def decodeLossy (bytes : Bytes) : String :=
  String.ofList ((pieces bytes).map (·.getD '\uFFFD'))

/-- The text of octets that are well formed throughout. -/
def decode? (bytes : Bytes) : Option String :=
  ((pieces bytes).mapM id).map String.ofList

end Utf8
end SortedSetClient
