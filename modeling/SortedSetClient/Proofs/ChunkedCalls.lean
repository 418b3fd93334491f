import SortedSetClient.Proofs.UnreadOctets

/-! Calls do not depend on the chunks in which the server's octets arrive: they give the same
results and leave links that differ in nothing but the cuts. -/
namespace SortedSetClient
open Resp (Value)

/-- The server writes the same octets, cut into other chunks. -/
structure Exchange.Alike (one other : Exchange) : Prop where
  early : one.early.flatten = other.early.flatten
  chunks : one.chunks.flatten = other.chunks.flatten
  close : one.close = other.close
  abandon : one.abandon = other.abandon

/-- The same is asked, and the same octets are written. -/
structure Turn.Alike (one other : Turn) : Prop where
  query : one.query = other.query
  exchange : one.exchange.Alike other.exchange

namespace Link

/-- The links differ in nothing but where their octets are cut and how far they are scanned. -/
structure Alike (one other : Link) : Prop where
  gathered : one.gathered = other.gathered
  reachable : one.connection.Reachable
  reachable' : other.connection.Reachable

section Steps
variable {one other : Link} (h : one.Alike other)
include h

theorem Alike.broken : one.connection.broken = other.connection.broken :=
  congrArg (·.connection.broken) h.gathered

theorem Alike.owed : one.connection.owed = other.connection.owed :=
  congrArg (·.connection.owed) h.gathered

theorem Alike.received : one.received = other.received :=
  congrArg (·.received) h.gathered

theorem Alike.send (command : Command) : (one.send command).Alike (other.send command) :=
  ⟨congrArg (Link.send command) h.gathered, h.reachable.expectReply, h.reachable'.expectReply⟩

theorem Alike.deliver {chunks chunks' : List Bytes} (hc : chunks.flatten = chunks'.flatten)
    (close : Bool) : (one.deliver chunks close).Alike (other.deliver chunks' close) := by
  refine ⟨?_, by simpa using h.reachable, by simpa using h.reachable'⟩
  have hd (link : Link) (chunks : List Bytes) : (link.deliver chunks close).gathered =
      (link.gathered.deliver [chunks.flatten] close).gathered := by
    rw [Link.deliver, Link.deliver, closed_gathered]
    split <;> simp [Link.gathered, Connection.gather]
  rw [hd one, hd other, hc, h.gathered]

theorem Alike.takeReply (hb : one.connection.broken = false) :
    one.takeReply.2 = other.takeReply.2 ∧ one.takeReply.1.Alike other.takeReply.1 := by
  have hb' : other.connection.broken = false := h.broken.symm.trans hb
  obtain ⟨hresult, hafter⟩ := takeReply_gathered (h.reachable.resumes hb)
  obtain ⟨hresult', hafter'⟩ := takeReply_gathered (h.reachable'.resumes hb')
  rw [← h.gathered] at hresult' hafter'
  exact ⟨hresult.trans hresult'.symm, hafter.trans hafter'.symm,
    (works_takeReply h.reachable hb).1, (works_takeReply h.reachable' hb').1⟩

theorem Alike.drain (n : Nat) (hb : one.connection.broken = false) :
    (one.drain n).2 = (other.drain n).2 ∧ (one.drain n).1.Alike (other.drain n).1 := by
  induction n generalizing one other with
  | zero => exact ⟨rfl, h⟩
  | succ n ih =>
    obtain ⟨hresult, hafter⟩ := h.takeReply hb
    have hw := works_takeReply h.reachable hb
    rw [Link.drain, Link.drain]
    rcases ho : other.takeReply with ⟨next', result⟩
    rw [ho] at hresult hafter
    rcases hn : one.takeReply with ⟨next, _ | error | value⟩
    · rw [hn] at hresult hafter
      cases hresult
      exact ⟨rfl, hafter⟩
    · rw [hn] at hresult hafter
      cases hresult
      exact ⟨rfl, hafter⟩
    · rw [hn] at hresult hafter hw
      cases hresult
      exact ih hafter (hw.2.resolve_left (by simp))

variable {exchange exchange' : Exchange} (he : exchange.Alike exchange')
include he

theorem Alike.answer : (exchange.answer one).Alike (exchange'.answer other) := by
  obtain ⟨hearly, hchunks, hclose, habandon⟩ := he
  rw [Exchange.answer, Exchange.answer, habandon, hclose]
  split
  · exact h.deliver hearly false
  · exact (h.deliver hearly false).deliver hchunks _

theorem Alike.finish : (exchange.finish one).Alike (exchange'.finish other) := by
  obtain ⟨-, hchunks, hclose, habandon⟩ := he
  rw [Exchange.finish, Exchange.finish, habandon, hclose]
  split
  · exact h.deliver hchunks _
  · exact h

theorem Alike.execute (command : Command) :
    (Link.execute exchange command one).1 = (Link.execute exchange' command other).1 ∧
      (Link.execute exchange command one).2.Alike (Link.execute exchange' command other).2 := by
  cases hb : one.connection.broken with
  | true =>
    rw [execute_broken hb, execute_broken (h.broken.symm.trans hb)]
    exact ⟨rfl, h⟩
  | false =>
    have hb' : other.connection.broken = false := h.broken.symm.trans hb
    have hw := works_drain (n := one.connection.owed) h.reachable hb
    obtain ⟨hresult, hafter⟩ := h.drain one.connection.owed hb
    rcases hd' : other.drain other.connection.owed with ⟨ready', result⟩
    rw [h.owed, hd'] at hresult hafter
    match hd : one.drain one.connection.owed with
    | (ready, some (.error error)) =>
      rw [← h.owed, hd] at hresult hafter
      cases hresult
      rw [execute_of_drain_error hb exchange command hd,
        execute_of_drain_error hb' exchange' command hd']
      exact ⟨rfl, hafter⟩
    | (ready, none) =>
      rw [← h.owed, hd] at hresult hafter
      cases hresult
      rw [execute_of_drain_open hb exchange command hd,
        execute_of_drain_open hb' exchange' command hd']
      exact ⟨rfl, hafter⟩
    | (ready, some (.ok ())) =>
      rw [← h.owed, hd] at hresult hafter
      cases hresult
      rw [hd] at hw
      rw [execute_of_drained hb exchange command hd, execute_of_drained hb' exchange' command hd']
      obtain ⟨hreply, hleft⟩ := ((hafter.send command).answer he).takeReply (by
        rw [connection_answer]
        exact hw.2.resolve_left (by simp))
      exact ⟨hreply, hleft.finish he⟩

end Steps

section Runs
variable {one other : Link}

theorem Fresh.alike {arriving : List Bytes} (h : one.Fresh)
    (ha : one.arriving.flatten = arriving.flatten) : one.Alike { one with arriving } := by
  have hr : one.connection.Reachable := h.connection ▸ .fresh
  refine ⟨?_, hr, hr⟩
  simp [gathered, Connection.gather, ha]

theorem Alike.ask (h : one.Alike other) {turn turn' : Turn} (ht : turn.Alike turn') :
    (Link.ask turn one).1 = (Link.ask turn' other).1 ∧
      (Link.ask turn one).2.Alike (Link.ask turn' other).2 := by
  have hq := ht.query
  cases hc : turn.query.toCommand with
  | error error =>
    rw [ask_refused hc, ask_refused (hq ▸ hc)]
    exact ⟨rfl, h⟩
  | ok command =>
    rw [ask_sent hc, ask_sent (hq ▸ hc), ← hq]
    obtain ⟨hresult, hafter⟩ := h.execute ht.exchange command
    exact ⟨congrArg (·.map (·.bind turn.query.decode)) hresult, hafter⟩

/-- The same calls get the same results, however the octets of each exchange are cut. -/
theorem Alike.askAll (h : one.Alike other) {turns turns' : List Turn}
    (ht : List.Forall₂ Turn.Alike turns turns') :
    (Link.askAll turns one).1 = (Link.askAll turns' other).1 ∧
      (Link.askAll turns one).2.Alike (Link.askAll turns' other).2 := by
  induction ht generalizing one other with
  | nil => exact ⟨rfl, h⟩
  | cons hturn hturns ih =>
    obtain ⟨hresult, hnext⟩ := h.ask hturn
    obtain ⟨hresults, hafter⟩ := ih hnext
    rw [askAll_cons, askAll_cons, hresult, hresults]
    exact ⟨rfl, hafter⟩

end Runs
end Link
end SortedSetClient
