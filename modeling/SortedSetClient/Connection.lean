import SortedSetClient.Operation
import SortedSetClient.Resp.Parser
import SortedSetClient.Resp.Scanner

/-! One end of a connection that carries one command at a time. A reply belongs to the oldest
command not yet answered: a caller who stops waiting leaves its reply owed, and the next command is
sent only after every owed reply has been read and dropped. A failed exchange leaves the connection
broken for good. -/
namespace SortedSetClient
open Resp (Value Scanner)

structure Connection where
  /-- The octets received and not yet part of a reply that was read. -/
  pending : Bytes := []
  /-- How far the reply at the front of `pending` has been scanned. -/
  scanner : Scanner := {}
  /-- The replies still to come for commands already sent. -/
  owed : Nat := 0
  /-- Whether an exchange has failed. -/
  broken : Bool := false
deriving DecidableEq

namespace Connection

/-- Keep the octets of one arrival. -/
def receive (connection : Connection) (chunk : Bytes) : Connection :=
  { connection with pending := connection.pending ++ chunk }

/-- The exchange has failed. -/
def fail (connection : Connection) (error : Error) : Connection × Except Error Value :=
  ({ connection with broken := true }, .error error)

/-- The value that a whole frame holds. -/
def readFrame (frame : Bytes) : Except Error Value :=
  match Resp.Parser.parse frame with
  | .error fault => .error (.protocol fault)
  | .ok none => .error (.protocol .incompleteFrame)
  | .ok (some (value, _)) => .ok value

/-- Take the reply at the front of what has been received; nothing while it is incomplete. -/
def poll (connection : Connection) : Connection × Option (Except Error Value) :=
  let (scanner, found) := connection.scanner.scan connection.pending
  let connection := { connection with scanner }
  match found with
  | .error fault => (connection.fail (.protocol fault)).map id some
  | .ok none => (connection, none)
  | .ok (some length) =>
    let frame := connection.pending.take length
    let connection := { connection with pending := connection.pending.drop length }
    match readFrame frame with
    | .error error => (connection.fail error).map id some
    | .ok value => ({ connection with owed := connection.owed - 1 }, some (.ok value))

/-- A command has been sent, and its reply is owed. -/
def expectReply (connection : Connection) : Connection :=
  { connection with owed := connection.owed + 1 }

end Connection

/-- A connection together with the far end of it, as far as the connection can tell. -/
structure Link where
  connection : Connection := {}
  /-- The octets that the server has written and the connection has not received. -/
  arriving : List Bytes := []
  /-- Whether the server has stopped writing. -/
  closed : Bool := false
  /-- How reading fails once the server has stopped; nothing where the stream ends in order. -/
  failure : Option String := none
  /-- The commands that the server has received, the latest first. -/
  received : List Command := []

/-- What a server does on a command, and whether the caller stops waiting for the reply before
the server has done it. -/
structure Exchange where
  /-- What the server writes while every caller still waits. -/
  early : List Bytes := []
  /-- What it writes after that. -/
  chunks : List Bytes := []
  close : Bool := false
  abandon : Bool := false

namespace Link

/-- The commands that the server has received, in order. -/
def sent (link : Link) : List Command := link.received.reverse

/-- What reading finds behind the last octet, once the server has stopped writing. -/
def ending (link : Link) : Option Error :=
  if link.closed then some (link.failure.elim .connectionClosed .io) else none

/-- Read a reply out of what arrives; nothing while the rest of it is still to be written. -/
def awaitReply (connection : Connection) (ending : Option Error) :
    List Bytes → Connection × List Bytes × Option (Except Error Value)
  | [] =>
    match connection.poll with
    | (connection, some result) => (connection, [], some result)
    | (connection, none) =>
      match ending with
      | some error =>
        let (connection, result) := connection.fail error
        (connection, [], some result)
      | none => (connection, [], none)
  | chunk :: arriving =>
    match connection.poll with
    | (connection, some result) => (connection, chunk :: arriving, some result)
    | (connection, none) => awaitReply (connection.receive chunk) ending arriving

/-- Read the reply to the oldest command not yet answered. -/
def takeReply (link : Link) : Link × Option (Except Error Value) :=
  let (connection, arriving, result) := awaitReply link.connection link.ending link.arriving
  ({ link with connection, arriving }, result)

/-- Read and drop that many replies; nothing while one is still to come. -/
def drain : Nat → Link → Link × Option (Except Error Unit)
  | 0, link => (link, some (.ok ()))
  | owed + 1, link =>
    match link.takeReply with
    | (link, some (.ok _)) => drain owed link
    | (link, some (.error error)) => (link, some (.error error))
    | (link, none) => (link, none)

/-- The server writes, unless it has stopped before. -/
def deliver (chunks : List Bytes) (close : Bool) (link : Link) : Link :=
  if link.closed then link
  else { link with
    arriving := link.arriving ++ chunks
    closed := close }

/-- The command reaches the server. -/
def send (command : Command) (link : Link) : Link :=
  { link with
    connection := link.connection.expectReply
    received := command :: link.received }

/-- Carry one command and read its reply; nothing where the caller does not wait for it or where
it does not come. -/
def execute (exchange : Exchange) (command : Command) : StateM Link (Option (Except Error Value)) :=
  fun link =>
    if link.connection.broken then (some (.error .connectionBroken), link)
    else
      match link.drain link.connection.owed with
      | (link, some (.ok ())) =>
        let link := (link.send command).deliver exchange.early false
        if exchange.abandon then
          let (link, result) := link.takeReply
          (result, link.deliver exchange.chunks exchange.close)
        else
          let (link, result) := (link.deliver exchange.chunks exchange.close).takeReply
          (result, link)
      | (link, some (.error error)) => (some (.error error), link)
      | (link, none) => (none, link)

/-- Carry out an operation over the link; nothing where its reply is not waited for. -/
def run (exchange : Exchange) (operation : Operation) :
    StateM Link (Option (Except Error Answer)) :=
  OptionT.run (operation.run fun command => OptionT.mk (execute exchange command))

end Link
end SortedSetClient
