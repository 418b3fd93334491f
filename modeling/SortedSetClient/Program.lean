import SortedSetClient.CommandLine.Invocation
import SortedSetClient.CommandLine.Output
import SortedSetClient.Config
import SortedSetClient.Log

/-! One run of the program from its arguments to its outcome: read the configuration, open the log,
reach the server, carry out the request and print the answer. The first step that fails ends it. At
most one command goes over a connection, so no reply is left over from an earlier one. -/
namespace SortedSetClient
open Log (Event Filter)

/-- Why a run fails after its arguments have been understood. -/
inductive Failure where
  | readConfig (path : String)
  | parseConfig (path : String)
  | openLog (path : String)
  | connect (address : String)
  | operation (error : Error)

def Failure.message : Failure → String
  | readConfig path => "Failed to read config file '" ++ path ++ "'"
  | parseConfig path => "Failed to parse config file '" ++ path ++ "'"
  | openLog path => "Failed to open log file '" ++ path ++ "'"
  | connect address => "Failed to connect to " ++ address
  | operation error => error.message

/-- How a run ends. -/
inductive Outcome where
  | refused (refusal : CommandLine.Refusal)
  | failed (failure : Failure)
  | printed (text : String)

/-- Asking for help is no mistake; a command line that cannot be understood is one of its own. -/
def Outcome.exitCode : Outcome → Nat
  | refused .helpAsked | refused .versionAsked => 0
  | refused _ => 2
  | failed _ => 1
  | printed _ => 0

/-- What the program asks of the machine that it runs on. If nothing else is said, the environment
is empty, a server goes by the address that it is reached at, and every command can be written. -/
structure Host (m : Type → Type) [Monad m] where
  /-- The octets of a file, if it can be read. -/
  fileContent : String → m (Option Bytes)
  /-- The value of a variable of the environment, if it has one that is text. -/
  environment : String → m (Option String) := fun _ => pure none
  /-- Open a file for the log, or the terminal; whether it worked. -/
  openLog : Option String → m Bool
  /-- Write an event to the log. -/
  write : Event → m Unit
  /-- Reach the server at an address; whether it worked. -/
  connect : String → m Bool
  /-- The address that the server reached at an address goes by. -/
  peer : String → m String := pure
  /-- Carry a command to the server. -/
  execute : Command → m (Except Error Resp.Value)
  /-- Whether the last command failed because it could not be written. -/
  unwritten : m Bool := pure false

namespace Program
open CommandLine (Invocation)

/-- Read the configuration out of the octets of a file. -/
def configOf (path : String) (content : Option Bytes) : Except Failure Config :=
  match content.bind Utf8.decode? with
  | none => .error (.readConfig path)
  | some text =>
    match Config.read? text with
    | none => .error (.parseConfig path)
    | some config => .ok config

def connecting (address : String) : Event :=
  { level := .info, source := "zsetcli", message := "Connecting to " ++ address }

def connected (peer : String) : Event :=
  { level := .info, source := "coredb_zset::connection", message := "Connected to " ++ peer }

def dispatching (command : Command) : Event :=
  { level := .debug, source := "coredb_zset::zset::commands"
    message := "dispatching sorted set command"
    details := [("command", command.text)] }

def sending (peer : String) (command : Command) : Event :=
  { level := .debug, source := "coredb_zset::connection"
    message := "Sending to " ++ peer ++ ": " ++ command.text }

def notWritten (peer reason : String) : Event :=
  { level := .warn, source := "coredb_zset::connection"
    message := "Failed to write command to " ++ peer ++ ": " ++ reason }

def closed (peer : String) : Event :=
  { level := .warn, source := "coredb_zset::connection"
    message := "Connection closed by server: " ++ peer }

def replied (reply : Resp.Value) : Event :=
  { level := .debug, source := "coredb_zset::zset::commands"
    message := "received reply"
    details := [("reply", reply.inspect)] }

variable {m : Type → Type} [Monad m]

/-- Log an event that the filter lets through. -/
def note (host : Host m) (filter : Filter) (event : Event) : m Unit :=
  if filter.admits event then host.write event else pure ()

/-- Carry a command, and log what happens to it. -/
def execute (host : Host m) (filter : Filter) (peer : String) (command : Command) :
    m (Except Error Resp.Value) := do
  note host filter (dispatching command)
  note host filter (sending peer command)
  let result ← host.execute command
  match result with
  | .ok reply => note host filter (replied reply)
  | .error .connectionClosed => note host filter (closed peer)
  | .error (.io reason) => if ← host.unwritten then note host filter (notWritten peer reason)
  | .error _ => pure ()
  return result

/-- Find the configuration that an invocation names. -/
def loadConfig (host : Host m) (invocation : Invocation) : m (Except Failure Config) := do
  match invocation.config with
  | none => return .ok {}
  | some path => return configOf path (← host.fileContent path)

/-- The variable of the environment that may hold a filter. -/
def filterVariable : String := "RUST_LOG"

/-- The filter of the environment if it has one that can be read, or else the configured one. -/
def chooseFilter (host : Host m) (level : String) : m Filter := do
  let given ← host.environment filterVariable
  return (given.bind Filter.readAll?).getD (Filter.read level)

/-- Carry out an invocation under a configuration. -/
def serve (host : Host m) (config : Config) (request : CommandLine.Request) : m Outcome := do
  let filter ← chooseFilter host config.log.level
  if !(← host.openLog config.log.file) then
    return .failed (.openLog (config.log.file.getD ""))
  note host filter (connecting config.serverAddr)
  if !(← host.connect config.serverAddr) then
    return .failed (.connect config.serverAddr)
  let peer ← host.peer config.serverAddr
  note host filter (connected peer)
  match ← request.run (execute host filter peer) with
  | .ok answer => return .printed answer.print
  | .error error => return .failed (.operation error)

/-- Run the program. -/
def run (host : Host m) (args : List Bytes) : m Outcome := do
  match Invocation.read args with
  | .error refusal => return .refused refusal
  | .ok invocation =>
    match ← loadConfig host invocation with
    | .error failure => return .failed failure
    | .ok config =>
      serve host { config with serverAddr := invocation.address.getD config.serverAddr }
        invocation.request

/-- A filter in the environment is used as if it were the configured one. -/
theorem serve_of_environment [LawfulMonad m] {host : Host m} {text : String} {filter : Filter}
    (hv : host.environment filterVariable = pure (some text))
    (hf : Filter.readAll? text = some filter) (config : Config) (request : CommandLine.Request) :
    serve host config request =
      serve { host with environment := fun _ => pure none }
        { config with log := { config.log with level := text } } request := by
  have hgiven : chooseFilter host config.log.level = pure filter := by
    rw [chooseFilter, hv, pure_bind, Option.bind_some, hf, Option.getD_some]
  have hconfigured :
      chooseFilter { host with environment := fun _ => pure none } text = pure filter := by
    rw [chooseFilter, pure_bind, Option.bind_none, Option.getD_none, Filter.read_of_readAll? hf]
  rw [serve, serve, hgiven, hconfigured, pure_bind, pure_bind]
  rfl

end Program
end SortedSetClient
