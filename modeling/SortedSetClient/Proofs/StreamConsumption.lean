import SortedSetClient.Proofs.ChunkedCalls
import SortedSetClient.Proofs.FailedExchanges

/-! What an exchange takes off the stream of octets that the server writes: the replies that are
owed, then its own, and nothing else. The frames taken and what is unread are always the whole. -/
namespace SortedSetClient
open Resp (Value Stream Frames)

namespace Exchange

/-- The octets that the server writes while the caller waits. -/
def heard (exchange : Exchange) : Bytes :=
  exchange.early.flatten ++ if exchange.abandon then [] else exchange.chunks.flatten

/-- The octets that the server writes. -/
def octets (exchange : Exchange) : Bytes := exchange.early.flatten ++ exchange.chunks.flatten

end Exchange

namespace Link

/-- The replies that a drain takes. -/
def dropped : Nat → Link → List Value
  | 0, _ => []
  | owed + 1, link =>
    match link.takeReply with
    | (link, some (.ok value)) => value :: dropped owed link
    | _ => []

/-- These replies have been taken out of the octets that the server has written, and the rest of
them is unread; every command received has had one of them or is owed one. -/
structure Consumed (link : Link) (written : Bytes) (replies : List Value) : Prop where
  whole : ∃ octets, Frames 0 replies octets ∧ octets ++ link.unread = written
  count : replies.length + link.connection.owed = link.received.length
  reachable : link.connection.Reachable

theorem Fresh.consumed {link : Link} (h : link.Fresh) :
    link.Consumed link.arriving.flatten [] := by
  refine ⟨⟨[], .nil, ?_⟩, ?_, ?_⟩
  · rw [unread, h.connection]
    rfl
  · rw [h.connection, h.received]
    rfl
  · rw [h.connection]
    exact .fresh

section Steps
variable {link : Link} {written : Bytes} {replies : List Value} (h : link.Consumed written replies)
include h

theorem Consumed.values_eq : (Stream.ofBuffer written).values =
    replies ++ (Stream.ofBuffer link.unread).values := by
  obtain ⟨octets, hf, rfl⟩ := h.whole
  rw [Stream.ofBuffer_frames hf]

/-- A reply is taken as long as the server has written one more. -/
theorem Consumed.takeReply (hb : link.connection.broken = false)
    (hpos : 0 < link.connection.owed) :
    (∃ value, link.takeReply.2 = some (.ok value) ∧
      link.takeReply.1.Consumed written (replies ++ [value]) ∧
      link.takeReply.1.connection.broken = false) ∨
    (link.takeReply.2.bind Except.toOption = none ∧
      link.takeReply.1.Consumed written replies ∧ (Stream.ofBuffer written).values = replies) := by
  obtain ⟨octets, hf, hw⟩ := h.whole
  have hcount := h.count
  obtain ⟨hreachable, hworks⟩ := works_takeReply h.reachable hb
  rcases takes_takeReply (h.reachable.resumes hb) with
    ⟨value, frame, hframe, hunread, hresult, howed⟩ | ⟨hvalues, hunread, hresult, howed⟩
  · refine .inl ⟨value, hresult, ⟨⟨octets ++ frame, hf.concat hframe, ?_⟩, ?_, hreachable⟩,
      hworks.resolve_left (by simp [hresult])⟩
    · rw [List.append_assoc, ← hunread, hw]
    · rw [howed, received_takeReply, List.length_append, List.length_singleton]
      omega
  · refine .inr ⟨hresult, ⟨⟨octets, hf, by rw [hunread, hw]⟩, ?_, hreachable⟩, ?_⟩
    · rw [howed, received_takeReply]
      exact hcount
    · rw [h.values_eq, hvalues, List.append_nil]

/-- A drain takes the owed replies as long as the server has written them. -/
theorem Consumed.drain (hb : link.connection.broken = false) (n : Nat)
    (hn : n ≤ link.connection.owed) :
    (link.drain n).1.Consumed written (replies ++ link.dropped n) ∧
      (((link.drain n).2 = some (.ok ()) ∧ (link.dropped n).length = n ∧
          (link.drain n).1.connection.broken = false) ∨
        ((link.drain n).2 ≠ some (.ok ()) ∧ (link.dropped n).length < n ∧
          (Stream.ofBuffer written).values = replies ++ link.dropped n)) := by
  induction n generalizing link replies with
  | zero => exact ⟨by simpa [Link.drain, dropped] using h, .inl ⟨rfl, rfl, hb⟩⟩
  | succ n ih =>
    rw [Link.drain, dropped]
    rcases h.takeReply hb (by omega) with
      ⟨value, hresult, hnext, hworks⟩ | ⟨hresult, hnext, hvalues⟩
    · have hpos : link.takeReply = (link.takeReply.1, some (.ok value)) := Prod.ext rfl hresult
      have howed := owed_takeReply (by omega) hpos
      obtain ⟨hafter, hend⟩ := ih hnext hworks (by omega)
      rw [hpos]
      dsimp only
      rw [List.append_assoc] at hafter hend
      refine ⟨hafter, ?_⟩
      rcases hend with ⟨hok, hlength, hworks⟩ | ⟨hok, hlength, hvalues⟩
      · exact .inl ⟨hok, by rw [List.length_cons, hlength], hworks⟩
      · exact .inr ⟨hok, Nat.succ_lt_succ hlength, hvalues⟩
    · rcases ht : link.takeReply with ⟨next, _ | error | value⟩
      · rw [ht] at hnext
        exact ⟨by simpa using hnext, .inr ⟨by simp, by simp, by simpa using hvalues⟩⟩
      · rw [ht] at hnext
        exact ⟨by simpa using hnext, .inr ⟨by simp, by simp, by simpa using hvalues⟩⟩
      · simp [ht, Except.toOption] at hresult

theorem Consumed.send (command : Command) : (link.send command).Consumed written replies :=
  ⟨h.whole, congrArg (· + 1) h.count, h.reachable.expectReply⟩

theorem Consumed.deliver (chunks : List Bytes) (close : Bool) :
    (link.deliver chunks close).Consumed
      (written ++ if link.closed then [] else chunks.flatten) replies := by
  obtain ⟨octets, hf, hw⟩ := h.whole
  refine ⟨⟨octets, hf, ?_⟩, ?_, ?_⟩
  · rw [← hw, Link.deliver]
    split <;> simp [unread]
  · rw [connection_deliver, received_deliver]
    exact h.count
  · rw [connection_deliver]
    exact h.reachable

theorem Consumed.answer (exchange : Exchange) :
    (exchange.answer link).Consumed
      (written ++ if link.closed then [] else exchange.heard) replies := by
  have hearly := h.deliver exchange.early false
  rw [Exchange.answer, Exchange.heard]
  cases exchange.abandon with
  | true => simpa using hearly
  | false =>
    have hboth := hearly.deliver exchange.chunks exchange.close
    cases hc : link.closed with
    | true => simpa [hc, Link.deliver] using hboth
    | false => simpa [hc, closed_deliver] using hboth

end Steps

section Exchanges
variable {link : Link} {written : Bytes} {replies : List Value} (exchange : Exchange)

theorem Consumed.finish {closed : Bool}
    (h : link.Consumed (written ++ if closed then [] else exchange.heard) replies)
    (hc : exchange.abandon = true → link.closed = closed) :
    (exchange.finish link).Consumed
      (written ++ if closed then [] else exchange.octets) replies := by
  rw [Exchange.finish, Exchange.octets]
  cases ha : exchange.abandon with
  | false => simpa [Exchange.heard, ha] using h
  | true =>
    have hlate := h.deliver exchange.chunks exchange.close
    rw [hc ha] at hlate
    cases closed <;> simpa [Exchange.heard, ha] using hlate

variable (h : link.Consumed written replies) (hb : link.connection.broken = false)
include h hb

/-- The owed replies can be dropped exactly if the server has answered every command. -/
theorem Consumed.drained_iff :
    (link.drain link.connection.owed).2 = some (.ok ()) ↔
      link.received.length ≤ (Stream.ofBuffer written).values.length := by
  have hcount := h.count
  obtain ⟨hafter, ⟨hok, hlength, -⟩ | ⟨hok, hlength, hvalues⟩⟩ := h.drain hb _ (Nat.le_refl _)
  · refine iff_of_true hok ?_
    rw [hafter.values_eq]
    simp only [List.length_append]
    omega
  · refine iff_of_false hok ?_
    rw [hvalues, List.length_append]
    omega

variable (command : Command)

/-- A command that is not sent leaves the server as it is. -/
theorem Consumed.execute_unsent (hd : (link.drain link.connection.owed).2 ≠ some (.ok ())) :
    (execute exchange command link).2.Consumed written
        (replies ++ link.dropped link.connection.owed) ∧
      (execute exchange command link).2.received = link.received ∧
      (execute exchange command link).1.bind Except.toOption = none := by
  obtain ⟨hafter, -⟩ := h.drain hb _ (Nat.le_refl _)
  have hreceived := (server_drain link link.connection.owed).1
  match hr : link.drain link.connection.owed with
  | (ready, some (.ok ())) => simp [hr] at hd
  | (ready, some (.error error)) =>
    rw [hr] at hafter hreceived
    rw [execute_of_drain_error hb exchange command hr]
    exact ⟨hafter, hreceived, rfl⟩
  | (ready, none) =>
    rw [hr] at hafter hreceived
    rw [execute_of_drain_open hb exchange command hr]
    exact ⟨hafter, hreceived, rfl⟩

/-- A command that is sent gets the value in its place, as soon as the server has written it. -/
theorem Consumed.execute_sent (hd : (link.drain link.connection.owed).2 = some (.ok ())) :
    (link.dropped link.connection.owed).length = link.connection.owed ∧
      (execute exchange command link).2.received = command :: link.received ∧
      (execute exchange command link).2.Consumed
        (written ++ if link.closed then [] else exchange.octets)
        (replies ++ link.dropped link.connection.owed ++
          ((execute exchange command link).1.bind Except.toOption).toList) ∧
      (execute exchange command link).1.bind Except.toOption =
        (Stream.ofBuffer (written ++ if link.closed then [] else exchange.heard)).values[
          link.received.length]? := by
  obtain ⟨hready, hdropped⟩ := h.drain hb _ (Nat.le_refl _)
  obtain ⟨-, hlength, hworks⟩ := hdropped.resolve_right fun hn => hn.1 hd
  obtain ⟨hreceived, hclosed⟩ := server_drain link link.connection.owed
  rcases hr : link.drain link.connection.owed with ⟨ready, result⟩
  rw [hr] at hd hready hworks hreceived hclosed
  obtain rfl : result = some (.ok ()) := hd
  rw [execute_of_drained hb exchange command hr]
  have hsend : (ready.send command).closed = link.closed := hclosed
  have hwaits := (hready.send command).answer exchange
  rw [hsend] at hwaits
  have hstill (ha : exchange.abandon = true) :
      (exchange.answer (ready.send command)).takeReply.1.closed = link.closed := by
    rw [closed_takeReply, closed_answer ha, hsend]
  have hopen : (exchange.answer (ready.send command)).connection.broken = false := by
    rw [connection_answer]
    exact hworks
  have howed : 0 < (exchange.answer (ready.send command)).connection.owed := by
    rw [connection_answer]
    exact Nat.succ_pos _
  have hplace : link.received.length =
      (replies ++ link.dropped link.connection.owed).length := by
    rw [List.length_append, hlength, h.count]
  refine ⟨hlength, ?_, ?_⟩
  · rw [received_finish, received_takeReply, received_answer]
    exact congrArg (command :: ·) hreceived
  · rcases hwaits.takeReply hopen howed with
      ⟨value, hresult, hnext, -⟩ | ⟨hresult, hnext, hvalues⟩
    · refine ⟨?_, ?_⟩
      · rw [hresult]
        exact hnext.finish exchange hstill
      · rw [hresult, hnext.values_eq, hplace]
        simp [Except.toOption]
    · refine ⟨?_, ?_⟩
      · rw [hresult]
        simpa using hnext.finish exchange hstill
      · rw [hresult, hvalues, hplace, List.getElem?_eq_none (Nat.le_refl _)]

end Exchanges
end Link
end SortedSetClient
