import SortedSetClient.Proofs.OwedReplies

/-! When a connection is broken: from the first exchange that the stream fails, and not before. It
then stays as it is, and every call that would use it is turned away. -/
namespace SortedSetClient
open Resp (Value)

namespace Connection

theorem raises_readFrame (frame : Bytes) : Raises Error.ofStream (readFrame frame) := by
  unfold readFrame
  split
  · exact raises_error rfl
  · exact raises_error rfl
  · exact raises_ok _

/-- An attempt on a connection that works fails by the stream and breaks it, or leaves it
working. -/
def Breaks {α : Type} (after : Connection) (result : Option (Except Error α)) : Prop :=
  match result with
  | some (.error error) => error.ofStream = true ∧ after.broken = true
  | _ => after.broken = false

theorem breaks_poll {connection : Connection} (hb : connection.broken = false) :
    Breaks connection.poll.1 connection.poll.2 := by
  match hs : connection.scanner.scan connection.pending with
  | (scanner, .error _) =>
    rw [poll_error hs]
    exact ⟨rfl, rfl⟩
  | (scanner, .ok none) =>
    rw [poll_open hs]
    exact hb
  | (scanner, .ok (some n)) =>
    cases hf : readFrame (connection.pending.take n) with
    | ok value =>
      rw [poll_found hs hf]
      exact hb
    | error error =>
      rw [poll_unreadable hs hf]
      exact ⟨raises_readFrame _ _ hf, rfl⟩

end Connection

namespace Link
open Connection (Breaks breaks_poll)

section Attempts
variable {link : Link}

theorem ofStream_ending {error : Error} (h : link.ending = some error) :
    error.ofStream = true := by
  unfold ending at h
  split at h
  · cases h
    cases link.failure <;> rfl
  · cases h

theorem breaks_takeReply (hb : link.connection.broken = false) :
    Breaks link.takeReply.1.connection link.takeReply.2 := by
  refine awaitReply_induction link.ending
    (motive := fun connection after result =>
      connection.broken = false → Breaks after result)
    ?answered ?failed ?waiting ?next link.connection link.arriving hb
  case answered =>
    intro connection after result h hb
    simpa only [h] using breaks_poll hb
  case failed =>
    intro connection after error h he hb
    exact ⟨ofStream_ending he, rfl⟩
  case waiting =>
    intro connection after h hb
    simpa only [h] using breaks_poll hb
  case next =>
    intro connection after chunk last result h ih hb
    have hp := breaks_poll hb
    rw [h] at hp
    exact ih hp

theorem breaks_drain (n : Nat) (hb : link.connection.broken = false) :
    Breaks (link.drain n).1.connection (link.drain n).2 := by
  refine drain_induction
    (motive := fun link after result =>
      link.connection.broken = false → Breaks after.connection result)
    ?done ?reply ?failed ?waiting n link hb
  case done => exact fun link hb => hb
  case reply =>
    intro link next value last result h ih hb
    have ht := breaks_takeReply hb
    rw [h] at ht
    exact ih ht
  case failed =>
    intro link after error h hb
    have ht := breaks_takeReply hb
    rw [h] at ht
    exact ht
  case waiting =>
    intro link after h hb
    have ht := breaks_takeReply hb
    rw [h] at ht
    exact ht

/-- A command is sent over a connection that works, or the stream has failed before. -/
theorem breaks_execute (exchange : Exchange) (command : Command)
    (hb : link.connection.broken = false) :
    Breaks (execute exchange command link).2.connection (execute exchange command link).1 := by
  have hd := breaks_drain link.connection.owed hb
  match h : link.drain link.connection.owed with
  | (ready, some (.error error)) =>
    rw [h] at hd
    rw [execute_of_drain_error hb exchange command h]
    exact hd
  | (ready, none) =>
    rw [h] at hd
    rw [execute_of_drain_open hb exchange command h]
    exact hd
  | (ready, some (.ok ())) =>
    rw [h] at hd
    have hs : (exchange.answer (ready.send command)).connection.broken = false := by
      rw [connection_answer]
      exact hd
    rw [execute_of_drained hb exchange command h, connection_finish]
    exact breaks_takeReply hs

end Attempts

end Link

/-- What a call gets on a broken connection. -/
def Turn.turnedAway (turn : Turn) : Link.Result :=
  some (turn.query.toCommand.bind fun _ => .error .connectionBroken)

namespace Link

section Broken
variable {link : Link} (hb : link.connection.broken = true)
include hb

theorem ask_broken (turn : Turn) : ask turn link = (turn.turnedAway, link) := by
  cases hc : turn.query.toCommand with
  | error error =>
    rw [ask_refused hc, Turn.turnedAway, hc]
    rfl
  | ok command =>
    rw [ask_sent hc, execute_broken hb turn.exchange command, Turn.turnedAway, hc]
    rfl

theorem askAll_broken (turns : List Turn) :
    askAll turns link = (turns.map Turn.turnedAway, link) := by
  induction turns with
  | nil => rfl
  | cons turn turns ih => simp [ask_broken hb, ih]

end Broken

section Calls
variable {turn : Turn} {link : Link}

/-- A call that the stream fails is one whose command the stream fails. -/
theorem ask_error_iff {error : Error} (ho : error.ofStream = true) :
    (ask turn link).1 = some (.error error) ↔
      ∃ command, turn.query.toCommand = .ok command ∧
        (execute turn.exchange command link).1 = some (.error error) := by
  cases hc : turn.query.toCommand with
  | error refusal =>
    have hr := Error.ofStream_of_ofArguments (turn.query.raises_toCommand refusal hc)
    have hne : refusal ≠ error := by
      rintro rfl
      simp [ho] at hr
    rw [ask_refused hc]
    simp [hne]
  | ok command =>
    rw [ask_sent hc]
    match he : execute turn.exchange command link with
    | (none, after) => simp [he]
    | (some (.error failure), after) => simp [he, Except.bind]
    | (some (.ok value), after) =>
      have hne : turn.query.decode value ≠ .error error := by
        intro h
        simp [Error.ofStream_of_ofReply (Query.raises_decode hc value error h)] at ho
      simp [he, Except.bind, hne]

/-- A call breaks a connection that works exactly if the stream fails it. -/
theorem ask_breaks_iff (turn : Turn) (hb : link.connection.broken = false) :
    (ask turn link).2.connection.broken = true ↔
      ∃ error, error.ofStream = true ∧ (ask turn link).1 = some (.error error) := by
  constructor
  · intro h
    cases hc : turn.query.toCommand with
    | error refusal =>
      rw [ask_refused hc, hb] at h
      cases h
    | ok command =>
      have hx := breaks_execute turn.exchange command hb
      rw [ask_sent hc] at h
      match he : (execute turn.exchange command link).1 with
      | none =>
        rw [he] at hx
        exact absurd (h.symm.trans hx) (by simp)
      | some (.ok value) =>
        rw [he] at hx
        exact absurd (h.symm.trans hx) (by simp)
      | some (.error error) =>
        rw [he] at hx
        exact ⟨error, hx.1, (ask_error_iff hx.1).mpr ⟨command, hc, he⟩⟩
  · rintro ⟨error, ho, h⟩
    obtain ⟨command, hc, he⟩ := (ask_error_iff ho).mp h
    have hx := breaks_execute turn.exchange command hb
    rw [he] at hx
    rw [ask_sent hc]
    exact hx.2

end Calls

/-- Calls break a connection that works exactly if the stream fails one of them. -/
theorem askAll_breaks_iff (turns : List Turn) {link : Link} (hb : link.connection.broken = false) :
    (askAll turns link).2.connection.broken = true ↔
      ∃ error, error.ofStream = true ∧ some (.error error) ∈ (askAll turns link).1 := by
  induction turns generalizing link with
  | nil => simp [hb]
  | cons turn turns ih =>
    have ha := ask_breaks_iff turn hb
    rw [askAll_cons]
    cases hn : (ask turn link).2.connection.broken with
    | true =>
      obtain ⟨error, ho, he⟩ := ha.mp hn
      rw [askAll_broken hn]
      exact iff_of_true hn ⟨error, ho, by simp [he]⟩
    | false =>
      have hne : ∀ error, error.ofStream = true → (ask turn link).1 ≠ some (.error error) := by
        intro error ho he
        rw [ha.mpr ⟨error, ho, he⟩] at hn
        cases hn
      rw [ih hn]
      refine exists_congr fun error => and_congr_right fun ho => ?_
      rw [List.mem_cons, or_iff_right (hne error ho).symm]

end Link

/-- Once the stream fails a call, the connection is broken and every later command is turned away
with the link as it is; as long as it fails none, the connection works, whatever else the calls end
in. The error of a command over a connection that works is always the stream's, and if it is found
among the owed replies the command is not sent. Refused arguments are refused at any time. -/
theorem failed_exchange_breaks_for_good :
    (∀ turns results, ∀ start link : Link, start.Fresh →
      Link.askAll turns start = (results, link) →
      ((∃ error, error.ofStream = true ∧ some (.error error) ∈ results) →
        link.connection.broken = true ∧
        (∀ exchange command,
          Link.execute exchange command link = (some (.error .connectionBroken), link)) ∧
        ∀ later, Link.askAll later link = (later.map Turn.turnedAway, link)) ∧
      ((∀ error, some (.error error) ∈ results →
          error.ofArguments = true ∨ error.ofReply = true) →
        link.connection.broken = false ∧
        ∀ exchange command,
          (Link.execute exchange command link).1 ≠ some (.error .connectionBroken))) ∧
    (∀ turn link error, error.ofStream = true →
      ((Link.ask turn link).1 = some (.error error) ↔
        ∃ command, turn.query.toCommand = .ok command ∧
          (Link.execute turn.exchange command link).1 = some (.error error))) ∧
    (∀ exchange command error, ∀ link after : Link, link.connection.broken = false →
      Link.execute exchange command link = (some (.error error), after) →
      error.ofStream = true ∧ after.connection.broken = true) ∧
    (∀ error, ∀ link after : Link, link.connection.broken = false →
      link.drain link.connection.owed = (after, some (.error error)) →
      ∀ exchange command, Link.execute exchange command link = (some (.error error), after) ∧
        after.received = link.received) ∧
    ∀ operation error, operation.check = .error error → ∀ exchange link,
      Link.run exchange operation link = (some (.error error), link) := by
  refine ⟨?_, fun turn link error => Link.ask_error_iff, ?_, ?_,
    fun operation error h exchange => Link.run_of_refused exchange h⟩
  · intro turns results start link hfresh h
    have hiff := Link.askAll_breaks_iff turns (congrArg (·.broken) hfresh.connection)
    rw [h] at hiff
    refine ⟨fun hfail => ?_, fun hkinds => ?_⟩
    · have hb := hiff.mpr hfail
      exact ⟨hb, Link.execute_broken hb, Link.askAll_broken hb⟩
    · have hb : link.connection.broken = false := by
        refine Bool.eq_false_iff.mpr fun hb => ?_
        obtain ⟨error, ho, hmem⟩ := hiff.mp hb
        rcases hkinds error hmem with hk | hk
        · simp [Error.ofStream_of_ofArguments hk] at ho
        · simp [Error.ofStream_of_ofReply hk] at ho
      refine ⟨hb, fun exchange command he => ?_⟩
      have hx := Link.breaks_execute exchange command hb
      rw [he] at hx
      cases hx.1
  · intro exchange command error link after hb h
    have hx := Link.breaks_execute exchange command hb
    rw [h] at hx
    exact hx
  · intro error link after hb h exchange command
    have hs := (Link.server_drain link link.connection.owed).1
    rw [h] at hs
    exact ⟨Link.execute_of_drain_error hb exchange command h, hs⟩

/-- A given up call whose reply breaks off: a refused operation changes nothing, the next command is
not sent and breaks the connection, and it stays as it is. -/
theorem failed_exchange_breaks_behind_given_up :
    let given : Turn := ⟨.command ⟨"ZCARD", [[0x61]]⟩,
      { chunks := [[0x3a, 0x31], [0x0d]], close := true, abandon := true }⟩
    let refused : Turn := ⟨.operation (.combine .union [0x61] []), {}⟩
    let next : Turn := ⟨.operation (.card [0x62]), { chunks := [[0x3a, 0x32, 0x0d, 0x0a]] }⟩
    ∃ before after : Link,
      Link.askAll [given, refused] { failure := some "reset" } =
        ([none, some (.error (.notImplemented "ZUNIONSTORE"))], before) ∧
      before.connection.broken = false ∧ before.connection.owed = 1 ∧
      Link.askAll [given, refused, next] { failure := some "reset" } =
        ([none, some (.error (.notImplemented "ZUNIONSTORE")), some (.error (.io "reset"))],
          after) ∧
      Link.execute next.exchange ⟨"ZCARD", [[0x62]]⟩ before = (some (.error (.io "reset")), after) ∧
      (Link.ask next before).1 = some (.error (.io "reset")) ∧ after.connection.broken = true ∧
      after.received = before.received ∧
      Link.run {} (.combine .union [0x61] []) after =
        (some (.error (.notImplemented "ZUNIONSTORE")), after) ∧
      Link.askAll [next, refused] after =
        ([some (.error .connectionBroken), some (.error (.notImplemented "ZUNIONSTORE"))],
          after) := by
  intro given refused next
  obtain ⟨hruns, hcalls, hbreaks, hdrains, hlocal⟩ := failed_exchange_breaks_for_good
  let before : Link :=
    ⟨⟨[], {}, 1, false⟩, [[0x3a, 0x31], [0x0d]], true, some "reset", [⟨"ZCARD", [[0x61]]⟩]⟩
  let after : Link :=
    ⟨⟨[0x3a, 0x31, 0x0d], {}, 1, true⟩, [], true, some "reset", [⟨"ZCARD", [[0x61]]⟩]⟩
  have hbefore : Link.askAll [given, refused] { failure := some "reset" } =
      ([none, some (.error (.notImplemented "ZUNIONSTORE"))], before) := by cbv
  have hafter : Link.askAll [given, refused, next] { failure := some "reset" } =
      ([none, some (.error (.notImplemented "ZUNIONSTORE")), some (.error (.io "reset"))],
        after) := by cbv
  have hdrain : before.drain before.connection.owed = (after, some (.error (.io "reset"))) := by
    cbv
  have hworks : before.connection.broken = false := by
    refine ((hruns _ _ _ _ ⟨rfl, rfl⟩ hbefore).2 fun error hmem => ?_).1
    obtain rfl : error = .notImplemented "ZUNIONSTORE" := by simpa using hmem
    exact .inl rfl
  obtain ⟨hsent, hreceived⟩ := hdrains _ _ _ hworks hdrain next.exchange ⟨"ZCARD", [[0x62]]⟩
  have hfailed : (Link.ask next before).1 = some (.error (.io "reset")) :=
    (hcalls next before _ rfl).mpr ⟨⟨"ZCARD", [[0x62]]⟩, rfl, by rw [hsent]⟩
  have hgood := (hruns _ _ _ _ ⟨rfl, rfl⟩ hafter).1 ⟨.io "reset", rfl, by simp⟩
  exact ⟨before, after, hbefore, hworks, rfl, hafter, hsent, hfailed,
    (hbreaks _ _ _ _ _ hworks hsent).2, hreceived, hlocal _ _ rfl {} after,
    hgood.2.2 [next, refused]⟩

end SortedSetClient
