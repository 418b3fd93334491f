import SortedSetClient.Connection
import SortedSetClient.Proofs.ErrorKinds

/-! Calls over one link, one after another: any operations or plain commands, whatever the server
writes and wherever a caller gives up. A call touches the link only by the command that it sends. -/
namespace SortedSetClient
open Resp (Value)

namespace Exchange

/-- What the server does while the caller waits. -/
def answer (exchange : Exchange) (link : Link) : Link :=
  if exchange.abandon then link.deliver exchange.early false
  else (link.deliver exchange.early false).deliver exchange.chunks exchange.close

/-- What the server does after that. -/
def finish (exchange : Exchange) (link : Link) : Link :=
  if exchange.abandon then link.deliver exchange.chunks exchange.close else link

end Exchange

/-- What is asked of a link: an operation, or a command whose reply is taken as it is. -/
inductive Query where
  | operation (operation : Operation)
  | command (command : Command)

namespace Query

/-- The command of a query whose arguments are not refused. -/
def toCommand : Query → Except Error Command
  | operation op => op.check.map fun _ => op.toCommand
  | command c => .ok c

/-- What the reply to the command means. -/
def decode : Query → Value → Except Error (Answer ⊕ Value)
  | operation op, reply => (op.decode reply).map .inl
  | command _, reply => .ok (.inr reply)

theorem raises_toCommand (query : Query) : Raises Error.ofArguments query.toCommand := by
  cases query with
  | operation op => exact (raises_check op).map _
  | command c => exact raises_ok c

theorem raises_decode {query : Query} {command : Command} (h : query.toCommand = .ok command)
    (reply : Value) : Raises Error.ofReply (query.decode reply) := by
  cases query with
  | operation op =>
    rw [toCommand] at h
    cases hc : op.check with
    | error error =>
      rw [hc] at h
      cases h
    | ok => exact (SortedSetClient.raises_decode hc reply).map _
  | command c => exact raises_ok _

end Query

/-- A query, and what happens to its command if it is sent. -/
structure Turn where
  query : Query
  exchange : Exchange

namespace Link

/-- What a call gives: an answer or a plain reply, an error, or nothing where the caller does not
wait for the end of it. -/
abbrev Result := Option (Except Error (Answer ⊕ Value))

/-- No call has been made. The server may have written, or have stopped. -/
structure Fresh (link : Link) : Prop where
  connection : link.connection = {}
  received : link.received = []

/-- Make one call. -/
def ask (turn : Turn) : StateM Link Result := fun link =>
  match turn.query with
  | .operation operation =>
    (Link.run turn.exchange operation link).map (·.map (·.map .inl)) id
  | .command command => (execute turn.exchange command link).map (·.map (·.map .inr)) id

/-- Make calls one after another. -/
def askAll (turns : List Turn) : StateM Link (List Result) := turns.mapM ask

section Waiting
variable {connection after : Connection} (ending : Option Error)

theorem awaitReply_answered {result : Except Error Value}
    (h : connection.poll = (after, some result)) (arriving : List Bytes) :
    awaitReply connection ending arriving = (after, arriving, some result) := by
  cases arriving with
  | nil => rw [awaitReply, h]
  | cons chunk arriving => rw [awaitReply, h]

theorem awaitReply_next (h : connection.poll = (after, none)) (chunk : Bytes)
    (arriving : List Bytes) :
    awaitReply connection ending (chunk :: arriving) =
      awaitReply (after.receive chunk) ending arriving := by
  rw [awaitReply, h]

theorem awaitReply_last (h : connection.poll = (after, none)) :
    awaitReply connection ending [] =
      match ending with
      | some error => ((after.fail error).1, [], some (.error error))
      | none => (after, [], none) := by
  rw [awaitReply, h]
  rfl

/-- What holds of a poll, and goes on to hold when one finds nothing and another chunk is received,
holds of the whole wait. -/
theorem awaitReply_induction {motive : Connection → Connection → Option (Except Error Value) → Prop}
    (answered : ∀ connection after result, connection.poll = (after, some result) →
      motive connection after (some result))
    (failed : ∀ connection after error, connection.poll = (after, none) → ending = some error →
      motive connection (after.fail error).1 (some (.error error)))
    (waiting : ∀ connection after, connection.poll = (after, none) → motive connection after none)
    (next : ∀ connection after chunk last result, connection.poll = (after, none) →
      motive (after.receive chunk) last result → motive connection last result)
    (connection : Connection) (arriving : List Bytes) :
    motive connection (awaitReply connection ending arriving).1
      (awaitReply connection ending arriving).2.2 := by
  induction arriving generalizing connection with
  | nil =>
    match h : connection.poll with
    | (after, some result) =>
      rw [awaitReply_answered ending h]
      exact answered connection after result h
    | (after, none) =>
      rw [awaitReply_last ending h]
      cases ending with
      | some error => exact failed connection after error h rfl
      | none => exact waiting connection after h
  | cons chunk arriving ih =>
    match h : connection.poll with
    | (after, some result) =>
      rw [awaitReply_answered ending h]
      exact answered connection after result h
    | (after, none) =>
      rw [awaitReply_next ending h]
      exact next connection after chunk _ _ h (ih (after.receive chunk))

/-- What holds of taking each reply holds of taking them all. -/
theorem drain_induction {motive : Link → Link → Option (Except Error Unit) → Prop}
    (done : ∀ link, motive link link (some (.ok ())))
    (reply : ∀ link next value last result, link.takeReply = (next, some (.ok value)) →
      motive next last result → motive link last result)
    (failed : ∀ link after error, link.takeReply = (after, some (.error error)) →
      motive link after (some (.error error)))
    (waiting : ∀ link after, link.takeReply = (after, none) → motive link after none)
    (n : Nat) (link : Link) : motive link (link.drain n).1 (link.drain n).2 := by
  induction n generalizing link with
  | zero => exact done link
  | succ n ih =>
    rw [drain]
    match h : link.takeReply with
    | (next, some (.ok value)) => exact reply link next value _ _ h (ih next)
    | (after, some (.error error)) => exact failed link after error h
    | (after, none) => exact waiting link after h

end Waiting

section Connections
variable (link : Link)

@[simp] theorem connection_deliver (chunks : List Bytes) (close : Bool) :
    (link.deliver chunks close).connection = link.connection := by
  rw [deliver]
  split <;> rfl

@[simp] theorem connection_answer (exchange : Exchange) :
    (exchange.answer link).connection = link.connection := by
  rw [Exchange.answer]
  split <;> simp

@[simp] theorem connection_finish (exchange : Exchange) :
    (exchange.finish link).connection = link.connection := by
  rw [Exchange.finish]
  split <;> simp

end Connections

section Commands
variable {link ready : Link}

/-- A broken connection carries nothing. -/
theorem execute_broken (hb : link.connection.broken = true) (exchange : Exchange)
    (command : Command) :
    execute exchange command link = (some (.error .connectionBroken), link) := by
  rw [execute, if_pos hb]

variable (hb : link.connection.broken = false) (exchange : Exchange) (command : Command)
include hb

/-- A command is not sent where the stream fails before it. -/
theorem execute_of_drain_error {error : Error}
    (h : link.drain link.connection.owed = (ready, some (.error error))) :
    execute exchange command link = (some (.error error), ready) := by
  rw [execute, if_neg (by simp [hb]), h]

/-- A command is not sent while an owed reply is still to come. -/
theorem execute_of_drain_open (h : link.drain link.connection.owed = (ready, none)) :
    execute exchange command link = (none, ready) := by
  rw [execute, if_neg (by simp [hb]), h]

/-- A command is sent when nothing is owed any more, and then its own reply is. -/
theorem execute_of_drained (h : link.drain link.connection.owed = (ready, some (.ok ()))) :
    execute exchange command link =
      ((exchange.answer (ready.send command)).takeReply.2,
        exchange.finish (exchange.answer (ready.send command)).takeReply.1) := by
  rw [execute, if_neg (by simp [hb]), h, Exchange.answer, Exchange.finish]
  dsimp only
  split <;> rfl

end Commands

theorem bind_apply {α β : Type} {first : StateM Link α} {next : α → StateM Link β}
    {link after : Link} {a : α} (h : first link = (a, after)) :
    (first >>= next) link = next a after := by
  simp only [bind, StateT.bind, h]

section Operations
variable {operation : Operation} (exchange : Exchange)

/-- An operation whose arguments are refused does not touch the link. -/
theorem run_of_refused {error : Error} (h : operation.check = .error error) (link : Link) :
    Link.run exchange operation link = (some (.error error), link) := by
  unfold Link.run Operation.run
  rw [h]
  rfl

/-- Any other operation carries its command, and decodes the reply. -/
theorem run_of_checked (h : operation.check = .ok ()) (link : Link) :
    Link.run exchange operation link =
      (execute exchange operation.toCommand link).map (·.map (·.bind operation.decode)) id := by
  unfold Link.run Operation.run
  rw [h]
  dsimp only
  rw [OptionT.run_bind, OptionT.run_mk]
  rcases he : execute exchange operation.toCommand link with ⟨result, after⟩
  refine (bind_apply he).trans ?_
  rcases result with _ | _ | _ <;> rfl

end Operations

section Calls
variable {turn : Turn}

/-- A call whose arguments are refused does not touch the link. -/
theorem ask_refused {error : Error} (h : turn.query.toCommand = .error error) (link : Link) :
    ask turn link = (some (.error error), link) := by
  rw [ask]
  cases hq : turn.query with
  | command command =>
    rw [hq] at h
    cases h
  | operation operation =>
    rw [hq, Query.toCommand] at h
    cases hc : operation.check with
    | ok => rw [hc] at h; cases h
    | error =>
      rw [hc] at h
      cases h
      dsimp only
      rw [run_of_refused turn.exchange hc]
      rfl

/-- Any other call carries its command, and decodes the reply. -/
theorem ask_sent {command : Command} (h : turn.query.toCommand = .ok command) (link : Link) :
    ask turn link =
      (execute turn.exchange command link).map (·.map (·.bind turn.query.decode)) id := by
  rw [ask]
  cases hq : turn.query with
  | command command =>
    rw [hq] at h
    cases h
    dsimp only
    rcases execute turn.exchange command link with ⟨_ | _ | _, after⟩ <;> rfl
  | operation operation =>
    rw [hq, Query.toCommand] at h
    cases hc : operation.check with
    | error => rw [hc] at h; cases h
    | ok =>
      rw [hc] at h
      cases h
      dsimp only
      rw [run_of_checked turn.exchange hc]
      rcases execute turn.exchange operation.toCommand link with ⟨_ | _ | _, after⟩ <;> rfl

end Calls

@[simp] theorem askAll_nil (link : Link) : askAll [] link = ([], link) := rfl

@[simp] theorem askAll_cons (turn : Turn) (turns : List Turn) (link : Link) :
    askAll (turn :: turns) link =
      ((ask turn link).1 :: (askAll turns (ask turn link).2).1,
        (askAll turns (ask turn link).2).2) := by
  rw [askAll, List.mapM_cons]
  rfl

end Link
end SortedSetClient
