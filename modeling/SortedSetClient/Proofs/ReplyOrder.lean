import SortedSetClient.Proofs.StreamConsumption

/-! The replies that calls take are the values of all that the server has written, in order and
without a gap, each on account of the command in its place. -/
namespace SortedSetClient
open Resp (Value Stream)

namespace Turn
variable (turn : Turn) (link : Link)

/-- The replies to earlier commands that a call drops. -/
def drops : List Value :=
  match turn.query.toCommand with
  | .ok _ => if link.connection.broken then [] else link.dropped link.connection.owed
  | .error _ => []

/-- The reply that a call gets to its own command. -/
def gets : Option Value :=
  match turn.query.toCommand with
  | .ok command => (Link.execute turn.exchange command link).1.bind Except.toOption
  | .error _ => none

/-- The octets that the server writes on a call: none before a command reaches it, and none after
it has stopped. -/
def writes : Bytes :=
  if link.closed ∨ (Link.ask turn link).2.received.length = link.received.length then []
  else turn.exchange.octets

variable {turn link}

theorem drops_eq {command : Command} (hc : turn.query.toCommand = .ok command)
    (hb : link.connection.broken = false) :
    turn.drops link = link.dropped link.connection.owed := by
  rw [drops, hc]
  simp [hb]

theorem gets_eq {command : Command} (hc : turn.query.toCommand = .ok command) :
    turn.gets link = (Link.execute turn.exchange command link).1.bind Except.toOption := by
  rw [gets, hc]

end Turn

namespace Link

/-- The replies that calls take, in order. -/
def replies : List Turn → Link → List Value
  | [], _ => []
  | turn :: turns, link =>
    turn.drops link ++ (turn.gets link).toList ++ replies turns (ask turn link).2

/-- The octets that the server writes on calls. -/
def written : List Turn → Link → Bytes
  | [], _ => []
  | turn :: turns, link => turn.writes link ++ written turns (ask turn link).2

theorem replies_append (turns later : List Turn) (link : Link) :
    replies (turns ++ later) link =
      replies turns link ++ replies later (askAll turns link).2 := by
  induction turns generalizing link with
  | nil => rfl
  | cons turn turns ih => simp [replies, ih]

theorem length_sent (link : Link) : link.sent.length = link.received.length :=
  List.length_reverse

section Calls
variable {link : Link} {stream : Bytes} {taken : List Value} (h : link.Consumed stream taken)
  (ho : link.connection.owed ≤ 1) (turn : Turn)
include h ho

theorem Consumed.ask :
    (Link.ask turn link).2.Consumed (stream ++ turn.writes link)
        (taken ++ (turn.drops link ++ (turn.gets link).toList)) ∧
      (Link.ask turn link).2.connection.owed ≤ 1 := by
  cases hc : turn.query.toCommand with
  | error error =>
    rw [Turn.writes, Turn.drops, Turn.gets, hc, ask_refused hc]
    simpa using ⟨h, ho⟩
  | ok command =>
    cases hb : link.connection.broken with
    | true =>
      have hdrops : turn.drops link = [] := by
        rw [Turn.drops, hc]
        exact if_pos hb
      rw [Turn.writes, hdrops, Turn.gets_eq hc, ask_broken hb, execute_broken hb]
      simpa [Except.toOption] using ⟨h, ho⟩
    | false =>
      rw [Turn.writes, Turn.drops_eq hc hb, Turn.gets_eq hc, ask_sent hc]
      by_cases hd : (link.drain link.connection.owed).2 = some (.ok ())
      · obtain ⟨hlength, hreceived, hafter, -⟩ := h.execute_sent turn.exchange hb command hd
        have hcount := h.count
        have hcount' := hafter.count
        simp only [List.length_append, hreceived, List.length_cons] at hcount'
        refine ⟨?_, ?_⟩
        · simpa [hreceived] using hafter
        · show (execute turn.exchange command link).2.connection.owed ≤ 1
          omega
      · obtain ⟨hafter, hreceived, hreply⟩ := h.execute_unsent turn.exchange hb command hd
        have hcount := h.count
        have hcount' := hafter.count
        simp only [List.length_append, hreceived] at hcount'
        refine ⟨?_, ?_⟩
        · simpa [hreceived, hreply] using hafter
        · show (execute turn.exchange command link).2.connection.owed ≤ 1
          omega

theorem Consumed.askAll (turns : List Turn) :
    (Link.askAll turns link).2.Consumed (stream ++ written turns link)
        (taken ++ replies turns link) ∧
      (Link.askAll turns link).2.connection.owed ≤ 1 := by
  induction turns generalizing link stream taken with
  | nil => simpa [written, replies] using ⟨h, ho⟩
  | cons turn turns ih =>
    obtain ⟨hnext, howed⟩ := h.ask ho turn
    rw [askAll_cons, written, replies, ← List.append_assoc, ← List.append_assoc]
    exact ih hnext howed

end Calls

section Places
variable {link : Link} {stream : Bytes} {taken : List Value} (h : link.Consumed stream taken)
  {turn : Turn} {command : Command} (hc : turn.query.toCommand = .ok command)
  (hb : link.connection.broken = false)
include h hc hb

/-- A command is not sent before the server has answered every earlier one. -/
theorem Consumed.ask_early (ho : link.connection.owed ≤ 1)
    (hs : (Stream.ofBuffer stream).values.length < link.sent.length) :
    (Link.ask turn link).2.sent = link.sent ∧ turn.drops link = [] ∧ turn.gets link = none := by
  rw [length_sent] at hs
  have hd : (link.drain link.connection.owed).2 ≠ some (.ok ()) := fun hd =>
    Nat.not_le_of_lt hs ((h.drained_iff hb).mp hd)
  obtain ⟨hafter, hreceived, hreply⟩ := h.execute_unsent turn.exchange hb command hd
  obtain ⟨-, ⟨hok, -⟩ | ⟨-, hlength, -⟩⟩ := h.drain hb _ (Nat.le_refl _)
  · exact absurd hok hd
  · rw [Turn.drops_eq hc hb, Turn.gets_eq hc, ask_sent hc]
    refine ⟨congrArg List.reverse hreceived, ?_, hreply⟩
    exact List.eq_nil_of_length_eq_zero (by omega)

/-- A command is sent when the server has answered every earlier one. It gets the value in its
place, if the server has written it by the end of the wait. -/
theorem Consumed.ask_due (hs : link.sent.length ≤ (Stream.ofBuffer stream).values.length) :
    (Link.ask turn link).2.sent = link.sent ++ [command] ∧
      (turn.drops link).length = link.connection.owed ∧
      turn.gets link =
        (Stream.ofBuffer (stream ++ if link.closed then [] else turn.exchange.heard)).values[
          link.sent.length]? ∧
      (Link.ask turn link).2.connection.owed + (turn.gets link).toList.length = 1 := by
  rw [length_sent] at hs ⊢
  have hcount := h.count
  obtain ⟨hlength, hreceived, hafter, hreply⟩ :=
    h.execute_sent turn.exchange hb command ((h.drained_iff hb).mpr hs)
  have hcount' := hafter.count
  simp only [List.length_append, hreceived, List.length_cons] at hcount'
  rw [Turn.drops_eq hc hb, Turn.gets_eq hc, ask_sent hc]
  refine ⟨?_, hlength, hreply, ?_⟩
  · exact (congrArg List.reverse hreceived).trans List.reverse_cons
  · show (execute turn.exchange command link).2.connection.owed + _ = 1
    omega

omit hc hb

/-- What a call takes stands in the places of the commands that it is taken for. -/
theorem Consumed.places {values rest : List Value}
    (hd : (turn.drops link).length = link.connection.owed)
    (hv : values = taken ++ (turn.drops link ++ ((turn.gets link).toList ++ rest))) :
    turn.drops link <+: values.drop (link.sent.length - link.connection.owed) ∧
      ∀ value, turn.gets link = some value → values[link.sent.length]? = some value := by
  have hcount := h.count
  rw [length_sent, hv]
  refine ⟨?_, fun value hg => ?_⟩
  · rw [show link.received.length - link.connection.owed = taken.length by omega, List.drop_left]
    exact List.prefix_append _ _
  · rw [show link.received.length = (taken ++ turn.drops link).length by
      rw [List.length_append]; omega, ← List.append_assoc, hg]
    simp

end Places

/-- The call has not been answered: the caller does not wait for it, or the stream has failed. -/
def Unanswered (result : Result) : Prop :=
  result = none ∨ ∃ error, error.ofStream = true ∧ result = some (.error error)

section Results
variable {link : Link} {turn : Turn} {command : Command}
  (hc : turn.query.toCommand = .ok command)
include hc

theorem ask_of_gets {value : Value} (hg : turn.gets link = some value) :
    (ask turn link).1 = some (turn.query.decode value) := by
  rw [Turn.gets_eq hc] at hg
  rw [ask_sent hc]
  match he : execute turn.exchange command link with
  | (none, after) => simp [he] at hg
  | (some (.error error), after) => simp [he, Except.toOption] at hg
  | (some (.ok found), after) =>
    obtain rfl : found = value := by simpa [he, Except.toOption] using hg
    simp [Except.bind]

theorem unanswered_ask (hb : link.connection.broken = false) (hg : turn.gets link = none) :
    Unanswered (ask turn link).1 := by
  have hx := breaks_execute turn.exchange command hb
  rw [Turn.gets_eq hc] at hg
  rw [ask_sent hc]
  match he : execute turn.exchange command link with
  | (none, after) => exact .inl rfl
  | (some (.error error), after) =>
    rw [he] at hx
    exact .inr ⟨error, hx.1, rfl⟩
  | (some (.ok found), after) => simp [he, Except.toOption] at hg

end Results

section Runs
variable {start : Link} (h : start.Fresh) (turns : List Turn)
include h

theorem Fresh.consumed_askAll :
    (askAll turns start).2.Consumed (start.arriving.flatten ++ written turns start)
        (replies turns start) ∧
      (askAll turns start).2.connection.owed ≤ 1 :=
  h.consumed.askAll (by simp [h.connection]) turns

/-- The replies that a call takes come behind those taken before it, among all the values that the
server ever writes. -/
theorem Fresh.values_of_call (turn : Turn) (later : List Turn) :
    ∃ rest, (Stream.ofBuffer
        (start.arriving.flatten ++ written (turns ++ turn :: later) start)).values =
      replies turns start ++ (turn.drops (askAll turns start).2 ++
        ((turn.gets (askAll turns start).2).toList ++ rest)) := by
  have hvalues := (h.consumed_askAll (turns ++ turn :: later)).1.values_eq
  rw [replies_append, replies] at hvalues
  simp only [List.append_assoc] at hvalues
  exact ⟨_, hvalues⟩

end Runs
end Link

/-- The octets that the server writes are the frames of the replies taken, in order, and what is
still unread; every command has had one reply or is owed one. A command is sent when every earlier
one has been answered. The call drops the owed replies, and its own is the value in the place of its
command, as soon as that is written. Where the octets are cut into chunks makes no difference to
what is sent or to any result. -/
theorem stream_consumed_in_order :
    (∀ turns results, ∀ start link : Link, start.Fresh →
      Link.askAll turns start = (results, link) →
      let written := start.arriving.flatten ++ Link.written turns start
      let replies := Link.replies turns start
      (∃ octets, Stream.ofBuffer octets = { values := replies } ∧
        octets ++ link.connection.pending ++ link.arriving.flatten = written) ∧
      replies <+: (Stream.ofBuffer written).values ∧
      replies.length + link.connection.owed = link.sent.length ∧ link.connection.owed ≤ 1) ∧
    (∀ turns turn later results result command, ∀ start link after : Link, start.Fresh →
      Link.askAll turns start = (results, link) →
      (∀ error, some (.error error) ∈ results → error.ofStream = false) →
      turn.query.toCommand = .ok command → Link.ask turn link = (result, after) →
      let before := start.arriving.flatten ++ Link.written turns start
      let heard := before ++ if link.closed then [] else turn.exchange.heard
      let whole := start.arriving.flatten ++ Link.written (turns ++ turn :: later) start
      let values := (Stream.ofBuffer whole).values
      ((Stream.ofBuffer before).values.length < link.sent.length →
        after.sent = link.sent ∧ turn.drops link = [] ∧ Link.Unanswered result) ∧
      (link.sent.length ≤ (Stream.ofBuffer before).values.length →
        after.sent = link.sent ++ [command] ∧
        (turn.drops link).length = link.connection.owed ∧
        turn.drops link <+: values.drop (link.sent.length - link.connection.owed) ∧
        match (Stream.ofBuffer heard).values[link.sent.length]? with
        | some value =>
          values[link.sent.length]? = some value ∧ result = some (turn.query.decode value) ∧
            after.connection.owed = 0
        | none => Link.Unanswered result ∧ after.connection.owed = 1)) ∧
    ∀ turns turns' arriving, ∀ start : Link, start.Fresh →
      start.arriving.flatten = arriving.flatten → List.Forall₂ Turn.Alike turns turns' →
      let start' := { start with arriving }
      (Link.askAll turns start).1 = (Link.askAll turns' start').1 ∧
      (Link.askAll turns start).2.sent = (Link.askAll turns' start').2.sent := by
  refine ⟨?_, ?_, ?_⟩
  · intro turns results start link hfresh hrun written replies
    obtain ⟨hconsumed, howed⟩ := hfresh.consumed_askAll turns
    rw [hrun] at hconsumed howed
    obtain ⟨octets, hframes, hwhole⟩ := hconsumed.whole
    refine ⟨⟨octets, ?_, ?_⟩, ?_, ?_, howed⟩
    · have hread := Stream.ofBuffer_frames hframes []
      rw [List.append_nil, Stream.ofBuffer_nil] at hread
      simpa using hread
    · rw [List.append_assoc]
      exact hwhole
    · exact hconsumed.values_eq ▸ List.prefix_append _ _
    · rw [Link.length_sent]
      exact hconsumed.count
  · intro turns turn later results result command start link after hfresh hrun hkinds hc hask before
      heard whole values
    obtain ⟨hbefore, howed⟩ := hfresh.consumed_askAll turns
    have hbreaks := Link.askAll_breaks_iff turns (congrArg (·.broken) hfresh.connection)
    obtain ⟨rest, hvalues⟩ := hfresh.values_of_call turns turn later
    rw [hrun] at hbefore howed hbreaks hvalues
    have hb : link.connection.broken = false := by
      refine Bool.eq_false_iff.mpr fun hb => ?_
      obtain ⟨error, ho, hmem⟩ := hbreaks.mp hb
      simp [hkinds error hmem] at ho
    obtain rfl : (Link.ask turn link).1 = result := congrArg Prod.fst hask
    obtain rfl : (Link.ask turn link).2 = after := congrArg Prod.snd hask
    refine ⟨fun hs => ?_, fun hs => ?_⟩
    · obtain ⟨hsent, hdrops, hgets⟩ := hbefore.ask_early hc hb howed hs
      exact ⟨hsent, hdrops, Link.unanswered_ask hc hb hgets⟩
    · obtain ⟨hsent, hlength, hgets, hleft⟩ := hbefore.ask_due hc hb hs
      obtain ⟨hdrops, hplace⟩ := hbefore.places hlength hvalues
      refine ⟨hsent, hlength, hdrops, ?_⟩
      rw [← hgets]
      match hg : turn.gets link with
      | some value =>
        rw [hg] at hleft
        exact ⟨hplace value hg, Link.ask_of_gets hc hg, by simpa using hleft⟩
      | none =>
        rw [hg] at hleft
        exact ⟨Link.unanswered_ask hc hb hg, by simpa using hleft⟩
  · intro turns turns' arriving start hfresh harriving hturns start'
    obtain ⟨hresults, hafter⟩ := (hfresh.alike harriving).askAll hturns
    exact ⟨hresults, congrArg List.reverse hafter.received⟩

/-- The reply to a call given up in the middle of it, the next one, and the front of a third come in
one chunk: the first is dropped, the next is the next call's, the third is left. -/
theorem stream_consumed_behind_given_up :
    let given : Turn := ⟨.command ⟨"ZCARD", [[0x61]]⟩,
      { early := [[0x3a, 0x31]], chunks := [[0x0d], [0x0a, 0x3a, 0x32, 0x0d, 0x0a, 0x2b]],
        abandon := true }⟩
    let cut : Turn := ⟨.command ⟨"ZCARD", [[0x61]]⟩,
      { early := [[0x3a], [0x31]], chunks := [[0x0d, 0x0a, 0x3a, 0x32], [0x0d, 0x0a], [0x2b]],
        abandon := true }⟩
    let next : Turn := ⟨.operation (.card [0x62]), {}⟩
    let last : Turn := ⟨.command ⟨"PING", []⟩, { chunks := [[0x78, 0x0d, 0x0a]], close := true }⟩
    ∃ link after : Link,
      Link.askAll [given] {} = ([none], link) ∧
      Link.ask next link = (some (.ok (.inl (.integer 2))), after) ∧
      after.sent = link.sent ++ [⟨"ZCARD", [[0x62]]⟩] ∧ next.drops link = [.integer 1] ∧
      (Stream.ofBuffer (Link.written [given, next, last] {})).values =
        [.integer 1, .integer 2, .simple "x"] ∧
      Link.replies [given, next] {} = [.integer 1, .integer 2] ∧
      (∃ octets, Stream.ofBuffer octets = { values := [.integer 1, .integer 2] } ∧
        octets ++ after.connection.pending ++ after.arriving.flatten =
          Link.written [given, next] {}) ∧
      (Link.askAll [given, next, last] {}).1 = (Link.askAll [cut, next, last] {}).1 := by
  intro given cut next last
  obtain ⟨hruns, hcalls, hcuts⟩ := stream_consumed_in_order
  let link : Link :=
    ⟨⟨[0x3a, 0x31], {}, 1, false⟩, [[0x0d], [0x0a, 0x3a, 0x32, 0x0d, 0x0a, 0x2b]], false, none,
      [⟨"ZCARD", [[0x61]]⟩]⟩
  let after : Link :=
    ⟨⟨[0x2b], {}, 0, false⟩, [], false, none, [⟨"ZCARD", [[0x62]]⟩, ⟨"ZCARD", [[0x61]]⟩]⟩
  have hgiven : Link.askAll [given] {} = ([none], link) := by cbv
  have hnext : Link.ask next link = (some (.ok (.inl (.integer 2))), after) := by cbv
  have hboth : Link.askAll [given, next] {} = ([none, some (.ok (.inl (.integer 2)))], after) := by
    cbv
  have hbefore : (Stream.ofBuffer (Link.written [given] {})).values =
      [.integer 1, .integer 2] := by cbv
  have hvalues : (Stream.ofBuffer (Link.written [given, next, last] {})).values =
      [.integer 1, .integer 2, .simple "x"] := by cbv
  have hreplies : Link.replies [given, next] {} = [.integer 1, .integer 2] := by cbv
  have hdue : link.sent.length ≤ (Stream.ofBuffer (Link.written [given] {})).values.length := by
    rw [hbefore]
    decide
  obtain ⟨hsent, hlength, hdrops, -⟩ :=
    (hcalls [given] next [last] _ _ ⟨"ZCARD", [[0x62]]⟩ {} link after ⟨rfl, rfl⟩ hgiven (by simp)
      rfl hnext).2 hdue
  have hdropped : next.drops link = [.integer 1] := by
    have htake := List.prefix_iff_eq_take.mp hdrops
    rw [hlength] at htake
    exact htake.trans (congrArg (fun values : List Value => (values.drop 0).take 1) hvalues)
  obtain ⟨hwhole, -⟩ := hruns [given, next] _ {} after ⟨rfl, rfl⟩ hboth
  rw [hreplies] at hwhole
  have halike (turn : Turn) : turn.Alike turn := ⟨rfl, rfl, rfl, rfl, rfl⟩
  have hcut := hcuts [given, next, last] [cut, next, last] [] {} ⟨rfl, rfl⟩ rfl
    (.cons ⟨rfl, rfl, rfl, rfl, rfl⟩ (.cons (halike next) (.cons (halike last) .nil)))
  exact ⟨link, after, hgiven, hnext, hsent, hdropped, hvalues, hreplies, hwhole, hcut.1⟩

end SortedSetClient
