import SortedSetClient.Toml.Document

/-! The configuration of the program: where the server is, and what is logged where. Entries that
are not asked for are passed over, and those of the wrong type make the whole invalid. -/
namespace SortedSetClient

def LogConfig.defaultLevel : String := "info"

/-- What is logged, and into which file if not for the terminal. -/
structure LogConfig where
  file : Option String := none
  level : String := LogConfig.defaultLevel
deriving DecidableEq

def Config.defaultAddr : String := "127.0.0.1:6379"

structure Config where
  serverAddr : String := Config.defaultAddr
  log : LogConfig := {}
deriving DecidableEq

namespace Config
open Toml (Value Entries)

def asString? : Value → Option String
  | .string text => some text
  | _ => none

/-- The text under a key, if there is one. -/
def string? (entries : Entries) (key : String) : Option (Option String) :=
  match entries.lookup key with
  | none => some none
  | some value => (asString? value).map some

/-- Read what is said of the log: by name in a table, or in order in an array. A point in time
counts as a table with nothing that is asked for. -/
def readLog? : Value → Option LogConfig
  | .table _ entries => do
    let file ← string? entries "file"
    let level ← string? entries "level"
    return { file, level := level.getD LogConfig.defaultLevel }
  | .moment => some {}
  | .array [file] => do
    return { file := some (← asString? file) }
  | .array (file :: level :: _) => do
    return { file := some (← asString? file), level := ← asString? level }
  | _ => none

/-- Read a configuration from the entries of a document. -/
def ofEntries? (entries : Entries) : Option Config := do
  let serverAddr := (← string? entries "server_addr").getD defaultAddr
  match entries.lookup "log" with
  | none => return { serverAddr }
  | some log => return { serverAddr, log := ← readLog? log }

/-- Read a configuration from text. -/
def read? (text : String) : Option Config :=
  (Toml.read? text).bind ofEntries?

end Config
end SortedSetClient
