import SortedSetClient.Binary64.Text
import SortedSetClient.Toml.Reader

/-! The parts of a document that lie within one value: blanks and comments, strings, numbers and
points in time. -/
namespace SortedSetClient.Toml
open Reader

/-! ### Blanks and comments -/

def isBlank (c : Char) : Bool := c == ' ' || c == '\t'

/-- Characters that need no escape; controls other than the tab must have one. -/
def isPlain (c : Char) : Bool := c == '\t' || (0x20 ≤ c.val && c.val != 0x7f)

def blanks : Reader Unit := (fun _ => ()) <$> chars isBlank

def newline : Reader Unit := exactly "\n" <|> exactly "\r\n"

def comment : Reader Unit := exactly "#" *> (fun _ => ()) <$> chars isPlain

/-- The end of a line, which the end of the text is too. -/
def lineEnd : Reader Unit := do
  blanks
  let _ ← optional comment
  newline <|> finished

/-- Blanks, comments and line ends. -/
def gaps : Reader Unit :=
  (fun _ => ()) <$> many ((fun _ => ()) <$> char isBlank <|> newline <|> comment)

/-! ### Strings -/

private def hexValue (c : Char) : Nat :=
  if c.isDigit then c.toNat - '0'.toNat else c.toLower.toNat - 'a'.toNat + 10

private def isHex (c : Char) : Bool :=
  c.isDigit || ('a' ≤ c.toLower && c.toLower ≤ 'f')

private def hexNumber (digits : List Char) : Nat :=
  digits.foldl (fun n c => 16 * n + hexValue c) 0

/-- A character by its number in `count` digits. -/
private def numbered (count : Nat) : Reader Char := do
  let digits ← (List.replicate count (char isHex)).mapM id
  let n := hexNumber digits
  if n.isValidChar then return Char.ofNat n else failure

/-- The character after a backslash. -/
private def escaped : Reader Char := do
  match ← char fun _ => true with
  | 'b' => return '\x08'
  | 't' => return '\t'
  | 'n' => return '\n'
  | 'f' => return '\x0c'
  | 'r' => return '\r'
  | '"' => return '"'
  | '\\' => return '\\'
  | 'u' => numbered 4
  | 'U' => numbered 8
  | _ => failure

private def isBasic (c : Char) : Bool := isPlain c && c != '"' && c != '\\'

private def isLiteral (c : Char) : Bool := isPlain c && c != '\''

private def escape : Reader (List Char) :=
  exactly "\\" *> (fun c => [c]) <$> escaped

/-- A string on one line, with escapes. -/
def basicString : Reader String := do
  exactly "\""
  let parts ← many (someChars isBasic <|> escape)
  exactly "\""
  return String.ofList parts.flatten

/-- A string on one line that stands for itself. -/
def literalString : Reader String := do
  exactly "'"
  let content ← chars isLiteral
  exactly "'"
  return String.ofList content

/-- A line end inside a string; all are alike. -/
private def lineFeed : Reader (List Char) := (fun _ => ['\n']) <$> newline

/-- A backslash at the end of a line takes away the blanks and line ends after it. -/
private def continuation : Reader (List Char) := do
  exactly "\\"
  blanks
  newline
  let _ ← many ((fun _ => ()) <$> char isBlank <|> newline)
  return []

/-- One or two quotes with no third. -/
private def innerQuotes (quote : Char) : Reader (List Char) := fun text =>
  let (quotes, rest) := text.span (· == quote)
  if quotes.length == 1 || quotes.length == 2 then some (quotes, rest) else none

/-- Three quotes, and before them up to two that belong to the string. -/
private def closingQuotes (quote : Char) : Reader (List Char) := fun text =>
  let (quotes, rest) := text.span (· == quote)
  if 3 ≤ quotes.length && quotes.length ≤ 5 then some (quotes.drop 3, rest) else none

private def multiline (quote : Char) (content : Reader (List Char)) : Reader String := do
  exactly (String.ofList (List.replicate 3 quote))
  let _ ← optional newline
  let parts ← many (content <|> innerQuotes quote)
  let quotes ← closingQuotes quote
  return String.ofList (parts.flatten ++ quotes)

/-- A string on several lines, with escapes. -/
def multilineBasicString : Reader String :=
  multiline '"' (someChars isBasic <|> continuation <|> escape <|> lineFeed)

/-- A string on several lines that stands for itself. -/
def multilineLiteralString : Reader String :=
  multiline '\'' (someChars isLiteral <|> lineFeed)

def string : Reader String :=
  multilineBasicString <|> basicString <|> multilineLiteralString <|> literalString

/-! ### Numbers -/

private def octets (text : List Char) : Bytes := Utf8.encode (String.ofList text)

private def sign : Reader (List Char) :=
  (fun c => [c]) <$> char (fun c => c == '+' || c == '-') <|> pure []

/-- Digits with an underscore here and there between two of them. -/
private def digitsOf (allowed : Char → Bool) : Reader (List Char) := do
  let groups ← separated (exactly "_") (someChars allowed)
  return groups.flatten

private def wholeDigits : Reader (List Char) := do
  match ← digitsOf Char.isDigit with
  | '0' :: _ :: _ => failure
  | digits => return digits

private def fraction : Reader (List Char) := do
  exactly "."
  return '.' :: (← digitsOf Char.isDigit)

private def exponent : Reader (List Char) := do
  let _ ← char fun c => c == 'e' || c == 'E'
  let sign ← sign
  return 'e' :: sign ++ (← digitsOf Char.isDigit)

/-- A number with a fraction or an exponent. Too large a positive one is refused. -/
private def decimalFloat : Reader Binary64 := do
  let sign ← sign
  let whole ← wholeDigits
  let rest ← exponent <|> (do return (← fraction) ++ (← exponent <|> pure []))
  match Binary64.read? (octets (sign ++ whole ++ rest)) with
  | some x => if x = Binary64.infinity false then failure else return x
  | none => failure

private def namedFloat : Reader Binary64 := do
  let sign ← sign
  (do exactly "inf"; return Binary64.infinity (sign == ['-'])) <|> (do exactly "nan"; return .nan)

def float : Reader Binary64 := decimalFloat <|> namedFloat

private def toWord (i : Int) : Reader Int64 := fun text =>
  (Decimal.toInt64? i).map (·, text)

private def based (mark : String) (base : Nat) (allowed : Char → Bool) : Reader Int64 := do
  exactly mark
  let digits ← digitsOf allowed
  toWord (digits.foldl (fun n c => base * n + hexValue c) 0 : Nat)

private def decimalInteger : Reader Int64 := do
  let sign ← sign
  let digits ← wholeDigits
  match Decimal.int64? (octets (sign ++ digits)) with
  | some n => return n
  | none => failure

def integer : Reader Int64 :=
  based "0x" 16 isHex <|> based "0o" 8 (fun c => '0' ≤ c && c ≤ '7') <|>
    based "0b" 2 (fun c => c == '0' || c == '1') <|> decimalInteger

def boolean : Reader Bool :=
  (do exactly "true"; return true) <|> (do exactly "false"; return false)

/-! ### Points in time -/

/-- A number of exactly `count` digits from `low` to `high`. -/
private def numeral (count low high : Nat) : Reader Nat := do
  let digits ← (List.replicate count (char Char.isDigit)).mapM id
  let n := Decimal.value (octets digits)
  if low ≤ n && n ≤ high then return n else failure

/-- The days of a month. -/
def daysOf (year month : Nat) : Nat :=
  if month = 2 then
    if year % 4 = 0 ∧ (year % 100 ≠ 0 ∨ year % 400 = 0) then 29 else 28
  else if month = 4 ∨ month = 6 ∨ month = 9 ∨ month = 11 then 30
  else 31

private def date : Reader Unit := do
  let year ← numeral 4 0 9999
  exactly "-"
  let month ← numeral 2 1 12
  exactly "-"
  let _ ← numeral 2 1 (daysOf year month)

private def time : Reader Unit := do
  let _ ← numeral 2 0 23
  exactly ":"
  let _ ← numeral 2 0 59
  exactly ":"
  let _ ← numeral 2 0 60
  let _ ← optional (exactly "." *> someChars Char.isDigit)

private def zone : Reader Unit :=
  exactly "Z" <|> exactly "z" <|> do
    let _ ← char fun c => c == '+' || c == '-'
    let _ ← numeral 2 0 23
    exactly ":"
    let _ ← numeral 2 0 59

/-- A date, a time, or both, and with both perhaps a zone. -/
def moment : Reader Unit :=
  (do
    date
    let _ ← optional do
      let _ ← char fun c => c == 'T' || c == 't' || c == ' '
      time
      optional zone) <|> time

end SortedSetClient.Toml
