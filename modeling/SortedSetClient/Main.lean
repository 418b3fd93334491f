import Std.Async.TCP
import Std.Async.DNS
import SortedSetClient.Address
import SortedSetClient.CommandLine.Usage
import SortedSetClient.Connection
import SortedSetClient.Program

/-! The program on a real machine: files, the terminal and a socket. -/
namespace SortedSetClient.Main
open Std.Async
open Resp (Value)

/-- What a run holds on to. -/
structure Resources where
  socket : IO.Ref (Option TCP.Socket.Client)
  connection : IO.Ref Connection
  unwritten : IO.Ref Bool
  log : IO.Ref IO.FS.Stream

/-- The octets of a file, if it can be read. -/
def fileContent (path : String) : IO (Option Bytes) := do
  try
    return some (← IO.FS.readBinFile path).toList
  catch _ => return none

/-- Open a file for the log at its end, or else the terminal. -/
def openLog (resources : Resources) : Option String → IO Bool
  | none => do
    resources.log.set (← IO.getStderr)
    return true
  | some path => do
    try
      resources.log.set (.ofHandle (← IO.FS.Handle.mk path .append))
      return true
    catch _ => return false

/-- Write an event on a line of its own. -/
def write (resources : Resources) (event : Log.Event) : IO Unit := do
  let log ← resources.log.get
  log.putStrLn event.line
  log.flush

/-- Try the addresses of a host one after another. -/
def connectAny (service : UInt16) : List Std.Net.IPAddr → IO (Option TCP.Socket.Client)
  | [] => return none
  | ip :: others => do
    let address : Std.Net.SocketAddress := match ip with
      | .v4 addr => .v4 ⟨addr, service⟩
      | .v6 addr => .v6 ⟨addr, service⟩
    try
      let socket ← TCP.Socket.Client.mk
      (socket.connect address).block
      return some socket
    catch _ => connectAny service others

/-- Reach the server at an address. -/
def connect (resources : Resources) (text : String) : IO Bool := do
  match Address.read text with
  | .error _ => return false
  | .ok { host, service } =>
    try
      let addresses ← (DNS.getAddrInfo host (toString service)).block
      let socket ← connectAny service addresses.toList
      socket.forM (·.noDelay)
      resources.socket.set socket
      return socket.isSome
    catch _ => return false

/-- The address that the other end of the socket has, or else the one that it was reached at. -/
def peer (resources : Resources) (text : String) : IO String := do
  match ← resources.socket.get with
  | none => return text
  | some socket => return toString (← socket.getPeerName)

/-- Receive until a reply is complete or the exchange has failed. -/
partial def awaitReply (socket : TCP.Socket.Client) (connection : Connection) :
    IO (Connection × Except Error Value) := do
  match connection.poll with
  | (connection, some result) => return (connection, result)
  | (connection, none) =>
    try
      match ← (socket.recv? 8192).block with
      | some chunk => awaitReply socket (connection.receive chunk.toList)
      | none => return connection.fail .connectionClosed
    catch error => return connection.fail (.io (toString error))

/-- Read and drop the replies that are owed. -/
partial def drain (socket : TCP.Socket.Client) (connection : Connection) :
    IO (Connection × Except Error Unit) := do
  if connection.owed = 0 then return (connection, .ok ())
  match ← awaitReply socket connection with
  | (connection, .ok _) => drain socket connection
  | (connection, .error error) => return (connection, .error error)

/-- Send a command; why it could not be written, if it could not. -/
def send (socket : TCP.Socket.Client) (command : Command) : IO (Option String) := do
  try
    (socket.send command.encode.toByteArray).block
    return none
  catch error => return some (toString error)

/-- Send a command and read its reply. -/
def exchange (resources : Resources) (socket : TCP.Socket.Client) (connection : Connection)
    (command : Command) : IO (Connection × Except Error Value) := do
  if connection.broken then return (connection, .error .connectionBroken)
  match ← drain socket connection with
  | (connection, .error error) => return (connection, .error error)
  | (connection, .ok ()) =>
    match ← send socket command with
    | none => awaitReply socket connection.expectReply
    | some reason =>
      resources.unwritten.set true
      return connection.fail (.io reason)

def execute (resources : Resources) (command : Command) : IO (Except Error Value) := do
  match ← resources.socket.get with
  | none => return .error .connectionClosed
  | some socket =>
    resources.unwritten.set false
    let (connection, result) ← exchange resources socket (← resources.connection.get) command
    resources.connection.set connection
    return result

def host (resources : Resources) : Host IO where
  fileContent := fileContent
  environment name := IO.getEnv name
  openLog := openLog resources
  write := write resources
  connect := connect resources
  peer := peer resources
  execute := execute resources
  unwritten := resources.unwritten.get

end SortedSetClient.Main

open SortedSetClient in
def main (args : List String) : IO UInt32 := do
  let resources : Main.Resources := {
    socket := ← IO.mkRef none
    connection := ← IO.mkRef {}
    unwritten := ← IO.mkRef false
    log := ← IO.mkRef (← IO.getStderr) }
  let outcome ← Program.run (Main.host resources) (args.map Utf8.encode)
  match outcome with
  | .refused refusal =>
    if outcome.exitCode = 0 then IO.print refusal.text else IO.eprint refusal.text
  | .failed failure => IO.eprintln ("Error: " ++ failure.message)
  | .printed text => IO.print text
  return outcome.exitCode.toUInt32
