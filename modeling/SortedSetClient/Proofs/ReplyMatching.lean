import SortedSetClient.Proofs.OwedReplies

/-! Runs of operations over one link, each waited for or given up before its reply has arrived. The
link owes at most the reply to the last command, so every reply goes to the call that asked. -/
namespace SortedSetClient
open Resp (Value)

/-- An operation and what happens to its command: the server answers with one value, cut into chunks
anywhere, and a caller who stops waiting does so before the last of them is written. -/
structure Call where
  operation : Operation
  reply : Value
  exchange : Exchange
  representable : reply.Representable
  written : (exchange.early ++ exchange.chunks).flatten = reply.encode
  unfinished : exchange.abandon = true → exchange.early.flatten.length < reply.encode.length

namespace Call

/-- Whether a command is sent for the call: its arguments are not refused. -/
def dispatches (call : Call) : Bool := call.operation.check.isOk

/-- Whether the caller stops waiting after the command was sent. -/
def givenUp (call : Call) : Bool := call.dispatches && call.exchange.abandon

/-- Whether the server stops writing after the reply. -/
def last (call : Call) : Bool := call.dispatches && call.exchange.close

/-- What the operation answers where its command is answered directly. -/
def direct (call : Call) : Except Error Answer :=
  Id.run (call.operation.run fun _ => pure (.ok call.reply))

/-- What the caller gets: nothing after giving up. -/
def result (call : Call) : Option (Except Error Answer) :=
  if call.givenUp then none else some call.direct

/-- The reply that the call leaves owed. -/
def leaves (call : Call) : List Value := if call.exchange.abandon then [call.reply] else []

section Checks
variable {call : Call}

theorem check_of_dispatches (h : call.dispatches = true) : call.operation.check = .ok () := by
  unfold dispatches at h
  cases hc : call.operation.check with
  | error error => rw [hc] at h; cases h
  | ok => rfl

theorem check_of_refused (h : call.dispatches = false) :
    ∃ error, call.operation.check = .error error := by
  unfold dispatches at h
  cases hc : call.operation.check with
  | error error => exact ⟨error, rfl⟩
  | ok => rw [hc] at h; cases h

theorem direct_dispatched (h : call.dispatches = true) :
    call.direct = call.operation.decode call.reply := by
  unfold direct Operation.run
  rw [check_of_dispatches h]
  rfl

theorem direct_refused {error : Error} (h : call.operation.check = .error error) :
    call.direct = .error error := by
  unfold direct Operation.run
  rw [h]
  rfl

end Checks

/-- What a caller who gives up gets does not depend on the reply. -/
theorem result_congr {given other : Call} (ho : given.operation = other.operation)
    (hg : given.exchange.abandon = true) (ha : other.exchange.abandon = true) :
    given.result = other.result := by
  have hd : given.dispatches = other.dispatches := by rw [dispatches, ho, dispatches]
  unfold result givenUp
  rw [← hd, hg, ha]
  cases h : given.dispatches with
  | true => rfl
  | false =>
    obtain ⟨error, he⟩ := check_of_refused h
    rw [direct_refused he, direct_refused (ho ▸ he)]

end Call

/-- The server answers every command that it receives: it stops writing after the last one only. -/
def Served (calls : List Call) : Prop :=
  calls.Pairwise fun call later => call.last = true → later.dispatches = false

namespace Link

/-- Carry out calls one after another. -/
def session (calls : List Call) : StateM Link (List (Option (Except Error Answer))) :=
  calls.mapM fun call => Link.run call.exchange call.operation

section Runs
variable {link : Link} {values : List Value} (call : Call)

/-- A call whose arguments are refused does not touch the link. -/
theorem run_refused (h : call.dispatches = false) (link : Link) :
    Link.run call.exchange call.operation link = (some call.direct, link) := by
  obtain ⟨error, he⟩ := Call.check_of_refused h
  rw [Call.direct_refused he]
  exact run_of_refused call.exchange he link

private theorem run_sent {result : Option Value} {after : Link} (h : call.dispatches = true)
    (he : execute call.exchange call.operation.toCommand link = (result.map .ok, after)) :
    Link.run call.exchange call.operation link = (result.map call.operation.decode, after) := by
  rw [run_of_checked call.exchange (Call.check_of_dispatches h), he]
  cases result <;> rfl

/-- A call whose command is sent gets its own reply, or leaves it owed. -/
theorem run_dispatched (h : link.Owes values) (hopen : link.closed = false)
    (hd : call.dispatches = true) :
    ∃ after : Link, Link.run call.exchange call.operation link = (call.result, after) ∧
      after.Owes call.leaves ∧ after.received = call.operation.toCommand :: link.received ∧
      after.closed = call.exchange.close := by
  unfold Call.result Call.givenUp Call.leaves
  cases ha : call.exchange.abandon with
  | false =>
    obtain ⟨after, he, ho⟩ := h.execute_awaited hopen ha call.representable call.written
      call.operation.toCommand
    refine ⟨after, ?_, ho⟩
    rw [@run_sent link call (some call.reply) after hd he]
    simp [Call.direct_dispatched hd]
  | true =>
    obtain ⟨after, he, ho⟩ := h.execute_abandoned hopen ha call.representable call.written
      (call.unfinished ha) call.operation.toCommand
    refine ⟨after, ?_, ho⟩
    rw [@run_sent link call none after hd he]
    simp [hd]

end Runs

private theorem session_append {calls : List Call} {link between : Link}
    {results : List (Option (Except Error Answer))}
    (h : session calls link = (results, between)) (later : List Call) :
    session (calls ++ later) link =
      (results ++ (session later between).1, (session later between).2) := by
  rw [session, List.mapM_append]
  exact bind_apply h

/-- The replies that are owed behind calls, if these were owed before them. -/
def owedBehind (values : List Value) (calls : List Call) : List Value :=
  ((calls.filter Call.dispatches).getLast?.map Call.leaves).getD values

theorem owedBehind_refused {call : Call} (h : call.dispatches = false) (values : List Value)
    (calls : List Call) : owedBehind values (call :: calls) = owedBehind values calls := by
  rw [owedBehind, List.filter_cons_of_neg (by simp [h]), owedBehind]

theorem owedBehind_dispatched {call : Call} (h : call.dispatches = true) (values : List Value)
    (calls : List Call) :
    owedBehind values (call :: calls) = owedBehind call.leaves calls := by
  rw [owedBehind, List.filter_cons_of_pos h, List.getLast?_cons, owedBehind]
  cases (calls.filter Call.dispatches).getLast? <;> rfl

private theorem session_cons {call : Call} {calls : List Call} {link next after : Link}
    (hr : Link.run call.exchange call.operation link = (call.result, next))
    (hn : session calls next = (calls.map Call.result, after)) :
    session (call :: calls) link = ((call :: calls).map Call.result, after) := by
  rw [session, List.mapM_cons]
  refine (bind_apply hr).trans ?_
  exact bind_apply hn

/-- Calls over a link that owes replies: each gets its own, and the last one may leave one owed. -/
theorem session_owes {calls : List Call} {link : Link} {values : List Value}
    (h : link.Owes values) (hs : Served calls)
    (hopen : link.closed = true → ∀ call ∈ calls, call.dispatches = false) :
    ∃ after : Link, session calls link = (calls.map Call.result, after) ∧
      after.Owes (owedBehind values calls) ∧
      after.received =
        ((calls.filter Call.dispatches).map (·.operation.toCommand)).reverse ++ link.received := by
  induction calls generalizing link values with
  | nil => exact ⟨link, rfl, h, rfl⟩
  | cons call calls ih =>
    obtain ⟨hlast, hs⟩ := List.pairwise_cons.mp hs
    cases hd : call.dispatches with
    | false =>
      have hr : Link.run call.exchange call.operation link = (call.result, link) := by
        rw [run_refused call hd, Call.result, Call.givenUp, hd]
        rfl
      obtain ⟨after, hn, ho, hreceived⟩ :=
        ih h hs fun hc later hmem => hopen hc later (List.mem_cons_of_mem _ hmem)
      refine ⟨after, session_cons hr hn, ?_, ?_⟩
      · rwa [owedBehind_refused hd]
      · rwa [List.filter_cons_of_neg (by simp [hd])]
    | true =>
      -- A server that has stopped writing has no command left to answer.
      have hc : link.closed = false := by
        apply Bool.eq_false_iff.mpr
        intro hc
        simp [hopen hc call (by simp)] at hd
      obtain ⟨next, hr, ho, hreceived, hclosed⟩ := run_dispatched call h hc hd
      have hopen' : next.closed = true → ∀ later ∈ calls, later.dispatches = false := by
        intro hc later hmem
        apply hlast later hmem
        rw [Call.last, hd, ← hclosed, hc]
        rfl
      obtain ⟨after, hn, ho', hreceived'⟩ := ih ho hs hopen'
      refine ⟨after, session_cons hr hn, ?_, ?_⟩
      · rwa [owedBehind_dispatched hd]
      · rw [hreceived', hreceived, List.filter_cons_of_pos hd]
        simp

end Link

/-- Every call that is waited for gets what its own command is answered with, no reply to a given up
call reaches a later one, and each command is sent once and in turn. Between calls the link works
and owes one reply, if the last command was given up, and none otherwise. -/
theorem replies_match_calls :
    (∀ calls later, Served (calls ++ later) → ∃ link : Link,
      Link.session calls {} = (calls.map Call.result, link) ∧
      Link.session (calls ++ later) {} =
        ((calls ++ later).map Call.result, (Link.session later link).2) ∧
      link.sent = (calls.filter Call.dispatches).map (·.operation.toCommand) ∧
      link.connection.owed =
        (if (calls.filter Call.dispatches).getLast?.any (·.exchange.abandon) then 1 else 0) ∧
      link.connection.broken = false) ∧
    (∀ before given other later, given.operation = other.operation →
      given.exchange.abandon = true → other.exchange.abandon = true →
      Served (before ++ given :: later) → Served (before ++ other :: later) →
      (Link.session (before ++ given :: later) {}).1 =
        (Link.session (before ++ other :: later) {}).1) ∧
    (∀ call : Call, call.dispatches = false → ∀ link,
      Link.run call.exchange call.operation link = (some call.direct, link)) ∧
    (∀ n, ∀ link after : Link, n ≤ link.connection.owed →
      link.drain n = (after, some (.ok ())) → after.connection.owed + n = link.connection.owed) ∧
    ∀ link after : Link, ∀ value, 0 < link.connection.owed →
      link.takeReply = (after, some (.ok value)) →
      after.connection.owed + 1 = link.connection.owed := by
  refine ⟨?_, ?_, fun call => Link.run_refused call, fun n link after => Link.owed_drain,
    fun link after value => Link.owed_takeReply⟩
  · intro calls later hs
    have hbefore : Served calls := (List.pairwise_append.mp hs).1
    obtain ⟨link, hrun, howes, hreceived⟩ := Link.session_owes Link.owes_fresh hbefore (by simp)
    obtain ⟨final, hwhole, -⟩ := Link.session_owes Link.owes_fresh hs (by simp)
    have hfinal : (Link.session later link).2 = final :=
      congrArg Prod.snd ((Link.session_append hrun later).symm.trans hwhole)
    refine ⟨link, hrun, by rw [hwhole, hfinal], ?_, ?_, howes.works⟩
    · rw [Link.sent, hreceived]
      simp
    · rw [howes.owed, Link.owedBehind]
      rcases (calls.filter Call.dispatches).getLast? with _ | call
      · rfl
      · simp only [Option.map_some, Option.getD_some, Option.any_some, Call.leaves]
        split <;> rfl
  · intro before given other later ho hg ha hs hs'
    obtain ⟨link, hrun, -⟩ := Link.session_owes Link.owes_fresh hs (by simp)
    obtain ⟨link', hrun', -⟩ := Link.session_owes Link.owes_fresh hs' (by simp)
    rw [hrun, hrun']
    simp [Call.result_congr ho hg ha]

/-- A reply that arrives in parts before and after its caller gives up is dropped; the next command
gets its own reply, and a refused operation between them none. -/
theorem replies_match_behind_given_up :
    let first : Call := ⟨.card [0x61], .integer 111,
      { early := [[0x3a, 0x31]], chunks := [[0x31, 0x31, 0x0d], [0x0a]], abandon := true },
      ⟨trivial, trivial, by decide⟩, by decide +kernel, fun _ => by decide +kernel⟩
    let refused : Call := ⟨.combine .union [0x61] [], .nilBulk,
      { chunks := [Value.nilBulk.encode] }, ⟨trivial, trivial, by decide⟩, rfl, by simp⟩
    let second : Call := ⟨.card [0x62], .integer 222,
      { chunks := [[0x3a, 0x32], [0x32, 0x32, 0x0d, 0x0a]], close := true },
      ⟨trivial, trivial, by decide⟩, by decide +kernel, by simp⟩
    ∃ link : Link,
      Link.session [first, refused] {} =
        ([none, some (.error (.notImplemented "ZUNIONSTORE"))], link) ∧
      Link.session [first, refused, second] {} =
        ([none, some (.error (.notImplemented "ZUNIONSTORE")), some (.ok (.integer 222))],
          (Link.session [second] link).2) ∧
      link.sent = [⟨"ZCARD", [[0x61]]⟩] ∧ link.connection.owed = 1 ∧
      link.connection.broken = false := by
  intro first refused second
  have hs : Served ([first, refused] ++ [second]) := by
    simp [Served, first, refused, Call.last]
  exact replies_match_calls.1 [first, refused] [second] hs

end SortedSetClient
