import SortedSetClient.Decimal

/-! Which events are logged. A filter is a list of directives between commas. A directive names a
level and may ask for events whose source begins in a certain way, for events with a certain field,
or for both. The longest source that fits decides, and of two with one source the one that asks for
a field. -/
namespace SortedSetClient.Log

inductive Level where
  | error
  | warn
  | info
  | debug
  | trace
deriving DecidableEq

/-- How far down the levels an event of this level lies. -/
def Level.rank : Level → Nat
  | error => 1
  | warn => 2
  | info => 3
  | debug => 4
  | trace => 5

def Level.name : Level → String
  | error => "ERROR"
  | warn => "WARN"
  | info => "INFO"
  | debug => "DEBUG"
  | trace => "TRACE"

/-- Something worth noting, which part of the program notes it, and what it is about. -/
structure Event where
  level : Level
  source : String
  message : String
  details : List (String × String) := []
deriving DecidableEq

/-- The fields of an event: its message and its details. -/
def Event.fields (event : Event) : List String :=
  "message" :: event.details.map Prod.fst

/-- An event on one line. -/
def Event.line (event : Event) : String :=
  event.level.name ++ " " ++ event.source ++ ": " ++
    " ".intercalate (event.message :: event.details.map fun (name, value) => name ++ "=" ++ value)

/-- Up to which rank events are let through, of those from a source and with a field or of any. -/
structure Directive where
  source : Option String := none
  field : Option String := none
  rank : Nat := Level.trace.rank
deriving DecidableEq

/-- The events that are let through. -/
structure Filter where
  directives : List Directive
deriving DecidableEq

/-- Read a level by its name in any case or by its number. -/
def rank? (text : String) : Option Nat :=
  match text.toLower with
  | "off" => some 0
  | "error" => some 1
  | "warn" => some 2
  | "info" => some 3
  | "debug" => some 4
  | "trace" => some 5
  | _ =>
    match Decimal.splitSign (Utf8.encode text) with
    | (true, _) => none
    | (false, digits) => (Decimal.natural? digits).filter (· ≤ 5)

def beginsSource (c : Char) : Bool :=
  c.isAlphanum || c == '-' || c == ':' || c == '_' || 0x80 ≤ c.val

/-- A character that stands for white space. -/
def isBlank (c : Char) : Bool :=
  (0x09 ≤ c.val && c.val ≤ 0x0d) || (0x2000 ≤ c.val && c.val ≤ 0x200a) ||
    [0x20, 0x85, 0xa0, 0x1680, 0x2028, 0x2029, 0x202f, 0x205f, 0x3000].contains c.val

namespace Directive

/-- Read the level that a directive ends with. Where it is left out everything is let through. -/
def readLevel? (text : List Char) : Option Nat :=
  if text.isEmpty then some Level.trace.rank else rank? (String.ofList text)

/-- Read a scope and what follows it: the field that it asks for, or none where it asks for more. No
event lies within a span or has a field of a given value here. -/
def readScope? (text : List Char) : Option (Option String × List Char) :=
  match text.span fun c => c != ']' && c != '{' with
  | (_, ']' :: rest) => some (none, rest)
  | (span, '{' :: fields) =>
    match fields.span (· != '}') with
    | ([], _) => none
    | (name, '}' :: ']' :: rest) =>
      some (if span.isEmpty && !name.contains '=' then some (String.ofList name) else none, rest)
    | _ => none
  | _ => none

section Reading
variable (level : List Char → Option Nat)

/-- Read a scope and the level after it, if any. -/
def readScoped? (source : Option String) (scope : List Char) : Option (Option Directive) := do
  let (field, rest) ← readScope? scope
  let rank ← match rest with
    | '=' :: text => level text
    | rest => if rest.all isBlank then some Level.trace.rank else none
  return field.map fun name => { source, field := some name, rank }

/-- Read a directive up to its end. A word that stands alone is a level or else a source. -/
def readWord? (text : List Char) : Option (Option Directive) :=
  match text.span fun c => c != '=' && c != '[' with
  | ([], '[' :: scope) => readScoped? level none scope
  | ([], _) => none
  | (first :: others, rest) =>
    let word := String.ofList (first :: others)
    if !beginsSource first then none
    else
      match rest with
      | '[' :: scope => readScoped? level (some word) scope
      | '=' :: text => (level text).map fun rank => some { source := some word, rank }
      | _ => some (some ((rank? word).elim { source := some word } fun rank => { rank }))

end Reading

/-- Read one directive, as none if it concerns no event. Behind white space a word is no source that
an event has, and what follows it is no level. -/
def read? (text : List Char) : Option (Option Directive) :=
  match text.span isBlank with
  | ([], text) => readWord? readLevel? text
  | (_, text) => (readWord? (fun _ => none) text).map fun _ => none

/-- How long a source a directive asks for; one for all sources asks for less than any. -/
def weight (directive : Directive) : Nat :=
  (directive.source.map (·.length + 1)).getD 0

/-- Whether another directive for the same event, named after this one, decides instead of it. A
longer source decides first, then a field before none, then the later field in dictionary order. -/
def yields (directive other : Directive) : Bool :=
  directive.weight < other.weight ||
    directive.weight == other.weight && directive.field.getD "" ≤ other.field.getD ""

def concerns (directive : Directive) (event : Event) : Bool :=
  (directive.source.all fun source => source.toList.isPrefixOf event.source.toList) &&
    directive.field.all fun field => event.fields.contains field

end Directive

namespace Filter

/-- Split at commas. -/
def splitCommas (text : List Char) : List (List Char) :=
  text.foldr (fun c parts =>
    match c, parts with
    | ',', parts => [] :: parts
    | c, part :: parts => (c :: part) :: parts
    | c, [] => [[c]]) [[]]

/-- The filter that directives make up. With none at all only errors remain. -/
def ofDirectives : List (Option Directive) → Filter
  | [] => { directives := [{ rank := Level.error.rank }] }
  | directives => { directives := directives.filterMap id }

/-- Read a filter. What is no directive is passed over. -/
def read (text : String) : Filter :=
  ofDirectives ((splitCommas text.toList).filterMap Directive.read?)

/-- Read a filter in which nothing but directives stands. -/
def readAll? (text : String) : Option Filter :=
  if text.isEmpty then some (ofDirectives [])
  else ((splitCommas text.toList).mapM Directive.read?).map ofDirectives

private theorem filterMap_of_mapM {α β : Type} {f : α → Option β} {list : List α} {read : List β}
    (h : list.mapM f = some read) : list.filterMap f = read := by
  induction list generalizing read with
  | nil =>
    cases h
    rfl
  | cons a list ih =>
    rw [List.mapM_cons] at h
    obtain ⟨b, hb, h⟩ := Option.bind_eq_some_iff.mp h
    obtain ⟨rest, hrest, h⟩ := Option.bind_eq_some_iff.mp h
    cases h
    rw [List.filterMap_cons_some hb, ih hrest]

/-- Where nothing is passed over, both readings agree. -/
theorem read_of_readAll? {text : String} {filter : Filter} (h : readAll? text = some filter) :
    read text = filter := by
  rw [readAll?] at h
  split at h
  · next hempty =>
    rw [String.isEmpty_iff] at hempty
    subst hempty
    cases h
    rfl
  · obtain ⟨directives, hd, rfl⟩ := Option.map_eq_some_iff.mp h
    rw [read, filterMap_of_mapM hd]

/-- The directive that decides about an event. -/
def deciding? (filter : Filter) (event : Event) : Option Directive :=
  (filter.directives.filter (·.concerns event)).foldl (fun found directive =>
    if found.all (·.yields directive) then some directive else found) none

/-- Whether an event is let through. -/
def admits (filter : Filter) (event : Event) : Bool :=
  (filter.deciding? event).any (event.level.rank ≤ ·.rank)

end Filter
end SortedSetClient.Log
