import SortedSetClient.Proofs.ReplyFrames
import SortedSetClient.Proofs.WireRoundTrip

/-! The replies that are still to come, as values. What has arrived and what is on its way are the
written forms of the owed replies, cut anywhere; each reply taken is the oldest of them. -/
namespace SortedSetClient
open Resp (Value Scanner)

section Scans
variable {value : Value} (hv : value.Representable)
include hv

private theorem scan_encode (rest : Bytes) :
    (({} : Scanner).scan (value.encode ++ rest)).2 = .ok (some value.encode.length) :=
  Resp.scan_eq_some_iff.mpr ⟨value, Resp.parse_encode hv rest⟩

/-- What has arrived of a reply and of what comes after it leaves the scan open, or holds the
reply. -/
private theorem scan_part {seen more rest : Bytes} (h : seen ++ more = value.encode ++ rest) :
    (({} : Scanner).scan seen).2 = .ok none ∨
      ({} : Scanner).scan seen = ({}, .ok (some value.encode.length)) ∧
        ∃ left, seen = value.encode ++ left := by
  by_cases ho : (({} : Scanner).scan seen).2 = .ok none
  · exact .inl ho
  -- An answer is final, so it is the one that the whole reply has.
  · have hs := scan_encode hv rest
    rw [← h, Scanner.scan_append ho] at hs
    obtain ⟨hf, -, hle⟩ := Scanner.scan_found (Prod.ext rfl hs)
    have hp : value.encode <+: seen :=
      List.prefix_of_prefix_length_le (List.prefix_append _ rest) ⟨more, h⟩ hle
    obtain ⟨left, hl⟩ := hp
    exact .inr ⟨Prod.ext hf hs, left, hl.symm⟩

private theorem scan_unfinished {seen more rest : Bytes} (hne : rest ≠ [])
    (h : seen ++ more ++ rest = value.encode) : (({} : Scanner).scan seen).2 = .ok none := by
  have he : seen ++ (more ++ rest) = value.encode ++ [] := by simpa using h
  rcases scan_part hv he with hopen | ⟨-, left, rfl⟩
  · exact hopen
  · have hl := congrArg List.length h
    have hpos := List.length_pos_iff.mpr hne
    simp only [List.length_append] at hl
    omega

end Scans

namespace Connection
variable {connection : Connection} (hr : connection.scanner.Resumes connection.pending)
include hr

/-- The reply at the front of what has arrived is taken, and the next scan starts behind it. -/
theorem poll_value {value : Value} (hv : value.Representable) {left : Bytes}
    (h : connection.pending = value.encode ++ left) :
    connection.poll =
      ({ connection with pending := left, scanner := {}, owed := connection.owed - 1 },
        some (.ok value)) := by
  have hs : connection.scanner.scan connection.pending = ({}, .ok (some value.encode.length)) := by
    have he := scan_encode hv left
    rw [← h, ← hr.scan_eq (List.prefix_refl _)] at he
    exact Prod.ext (Scanner.scan_found (Prod.ext rfl he)).1 he
  have hf : readFrame (connection.pending.take value.encode.length) = .ok value := by
    rw [h, List.take_left]
    have hp := Resp.parse_encode hv []
    rw [List.append_nil] at hp
    exact readFrame_of_parse hp
  rw [poll_found hs hf, h, List.drop_left]

/-- A scan that stays open only moves the scanner. -/
theorem poll_wait (h : (({} : Scanner).scan connection.pending).2 = .ok none) :
    ∃ scanner : Scanner, connection.poll = ({ connection with scanner }, none) ∧
      scanner.Resumes connection.pending := by
  have hs : connection.scanner.scan connection.pending =
      ((({} : Scanner).scan connection.pending).1, .ok none) := by
    rw [hr.scan_eq (List.prefix_refl _)]
    exact Prod.ext rfl h
  exact ⟨_, poll_open hs, hr.scan_open (List.prefix_refl _) hs⟩

end Connection

namespace Link
open Connection (poll_value poll_wait)

section Await
variable {connection : Connection} {value : Value} (hv : value.Representable)
include hv

/-- Waiting takes the oldest reply out of what arrives, and no more. -/
theorem awaitReply_value {arriving : List Bytes} {rest : Bytes} (ending : Option Error)
    (hr : connection.scanner.Resumes connection.pending)
    (h : connection.pending ++ arriving.flatten = value.encode ++ rest) :
    ∃ pending left, awaitReply connection ending arriving =
      ({ connection with pending, scanner := {}, owed := connection.owed - 1 }, left,
        some (.ok value)) ∧ pending ++ left.flatten = rest := by
  induction arriving generalizing connection with
  | nil =>
    have hp : connection.pending = value.encode ++ rest := by simpa using h
    refine ⟨rest, [], ?_, by simp⟩
    rw [awaitReply, poll_value hr hv hp]
  | cons chunk arriving ih =>
    rcases scan_part hv h with hopen | ⟨-, left, hl⟩
    · obtain ⟨scanner, hpoll, hr'⟩ := poll_wait hr hopen
      have hr'' : Scanner.Resumes scanner (connection.pending ++ chunk) :=
        hr'.mono (List.prefix_append _ chunk)
      rw [awaitReply, hpoll]
      exact @ih (Connection.receive { connection with scanner } chunk) hr''
        (by simpa [Connection.receive] using h)
    · refine ⟨left, chunk :: arriving, ?_, ?_⟩
      · rw [awaitReply, poll_value hr hv hl]
      · rw [hl, List.append_assoc] at h
        exact List.append_cancel_left h

/-- Waiting for a reply of which a part is still to be written takes in what arrives. -/
theorem awaitReply_part {arriving : List Bytes} {rest : Bytes}
    (hr : connection.scanner.Resumes connection.pending) (hne : rest ≠ [])
    (h : connection.pending ++ arriving.flatten ++ rest = value.encode) :
    ∃ scanner, awaitReply connection none arriving =
      ({ connection with pending := connection.pending ++ arriving.flatten, scanner }, [], none) ∧
      scanner.Resumes (connection.pending ++ arriving.flatten) := by
  induction arriving generalizing connection with
  | nil =>
    obtain ⟨scanner, hpoll, hr'⟩ := poll_wait hr (scan_unfinished hv hne h)
    refine ⟨scanner, ?_, by simpa using hr'⟩
    rw [awaitReply, hpoll]
    simp
  | cons chunk arriving ih =>
    obtain ⟨scanner, hpoll, hr'⟩ := poll_wait hr (scan_unfinished hv hne h)
    have hr'' : Scanner.Resumes scanner (connection.pending ++ chunk) :=
      hr'.mono (List.prefix_append _ chunk)
    have ht := @ih (Connection.receive { connection with scanner } chunk) hr''
      (by simpa [Connection.receive] using h)
    rw [awaitReply, hpoll]
    simpa [Connection.receive] using ht

end Await
section Counts

/-- The count of owed replies behind an attempt to take one. -/
private def Counted (before after : Connection) (result : Option (Except Error Value)) : Prop :=
  match result with
  | some (.ok _) => after.owed = before.owed - 1
  | _ => after.owed = before.owed

private theorem counted_poll (connection : Connection) :
    Counted connection connection.poll.1 connection.poll.2 := by
  match hs : connection.scanner.scan connection.pending with
  | (scanner, .error _) =>
    rw [Connection.poll_error hs]
    rfl
  | (scanner, .ok none) =>
    rw [Connection.poll_open hs]
    rfl
  | (scanner, .ok (some n)) =>
    cases hf : Connection.readFrame (connection.pending.take n) with
    | ok value =>
      rw [Connection.poll_found hs hf]
      rfl
    | error error =>
      rw [Connection.poll_unreadable hs hf]
      rfl

private theorem counted_takeReply (link : Link) :
    Counted link.connection link.takeReply.1.connection link.takeReply.2 := by
  refine awaitReply_induction link.ending (motive := Counted) ?answered ?failed ?waiting ?next
    link.connection link.arriving
  case answered =>
    intro connection after result h
    simpa only [h] using counted_poll connection
  case failed =>
    intro connection after error h _
    have hp := counted_poll connection
    rw [h] at hp
    exact hp
  case waiting =>
    intro connection after h
    simpa only [h] using counted_poll connection
  case next =>
    intro connection after chunk last result h ih
    have hp := counted_poll connection
    rw [h] at hp
    have he : (after.receive chunk).owed = connection.owed := hp
    unfold Counted at ih ⊢
    rwa [he] at ih

/-- A reply that is taken is counted off. -/
theorem owed_takeReply {link after : Link} {value : Value} (hpos : 0 < link.connection.owed)
    (h : link.takeReply = (after, some (.ok value))) :
    after.connection.owed + 1 = link.connection.owed := by
  have hc := counted_takeReply link
  rw [h] at hc
  have he : after.connection.owed = link.connection.owed - 1 := hc
  omega

theorem owed_drain {n : Nat} {link after : Link} (hn : n ≤ link.connection.owed)
    (h : link.drain n = (after, some (.ok ()))) :
    after.connection.owed + n = link.connection.owed := by
  induction n generalizing link with
  | zero =>
    cases h
    rfl
  | succ n ih =>
    rw [drain] at h
    rcases ht : link.takeReply with ⟨next, _ | error | value⟩
    · rw [ht] at h
      cases h
    · rw [ht] at h
      cases h
    · rw [ht] at h
      have hnext := owed_takeReply (by omega) ht
      have hafter := ih (by omega) h
      omega

end Counts

section Server
variable (link : Link)

@[simp] theorem received_takeReply : link.takeReply.1.received = link.received := rfl

@[simp] theorem closed_takeReply : link.takeReply.1.closed = link.closed := rfl

/-- Draining takes nothing from the server but replies. -/
theorem server_drain (n : Nat) :
    (link.drain n).1.received = link.received ∧ (link.drain n).1.closed = link.closed := by
  refine drain_induction
    (motive := fun link after _ => after.received = link.received ∧ after.closed = link.closed)
    ?done ?reply ?failed ?waiting n link
  case done => exact fun link => ⟨rfl, rfl⟩
  case reply =>
    intro link next value last result h ih
    obtain rfl : link.takeReply.1 = next := by rw [h]
    exact ih
  case failed =>
    intro link after error h
    obtain rfl : link.takeReply.1 = after := by rw [h]
    exact ⟨rfl, rfl⟩
  case waiting =>
    intro link after h
    obtain rfl : link.takeReply.1 = after := by rw [h]
    exact ⟨rfl, rfl⟩

variable {link}

theorem ending_open (h : link.closed = false) : link.ending = none := by
  rw [ending, h]
  rfl

theorem deliver_open (h : link.closed = false) (chunks : List Bytes) (close : Bool) :
    link.deliver chunks close =
      { link with arriving := link.arriving ++ chunks, closed := close } := by
  rw [deliver, if_neg (by simp [h])]

theorem received_deliver (chunks : List Bytes) (close : Bool) :
    (link.deliver chunks close).received = link.received := by
  rw [deliver]
  split <;> rfl

/-- A caller that gives up has not seen the server stop. -/
theorem closed_answer {exchange : Exchange} (ha : exchange.abandon = true) :
    (exchange.answer link).closed = link.closed := by
  rw [Exchange.answer, if_pos ha, deliver]
  split
  · rfl
  · next hopen => exact (Bool.eq_false_iff.mpr hopen).symm

theorem received_answer (exchange : Exchange) :
    (exchange.answer link).received = link.received := by
  rw [Exchange.answer]
  split <;> simp [received_deliver]

theorem received_finish (exchange : Exchange) :
    (exchange.finish link).received = link.received := by
  rw [Exchange.finish]
  split <;> simp [received_deliver]

theorem closed_deliver (h : link.closed = false) (chunks : List Bytes) (close : Bool) :
    (link.deliver chunks close).closed = close := by
  rw [deliver_open h]

end Server

/-- The link works and holds these octets, in what has arrived and what is on its way, for that many
replies; the scanner has seen what has arrived. -/
structure Holds (link : Link) (octets : Bytes) (owed : Nat) : Prop where
  octets : link.connection.pending ++ link.arriving.flatten = octets
  resumes : link.connection.scanner.Resumes link.connection.pending
  owed : link.connection.owed = owed
  works : link.connection.broken = false

/-- What the link holds are the written forms of the owed replies, oldest first. -/
structure Owes (link : Link) (values : List Value) : Prop
    extends Holds link (Value.encodeAll values) values.length where
  representable : ∀ value ∈ values, value.Representable

theorem owes_fresh : ({} : Link).Owes [] :=
  ⟨⟨rfl, Scanner.resumes_fresh [], rfl, rfl⟩, by simp⟩

section Holding
variable {link : Link} {octets : Bytes} {owed : Nat} (h : link.Holds octets owed)
include h

theorem Holds.send (command : Command) : (link.send command).Holds octets (owed + 1) :=
  ⟨h.octets, h.resumes, congrArg (· + 1) h.owed, h.works⟩

theorem Holds.deliver (hopen : link.closed = false) (chunks : List Bytes) (close : Bool) :
    (link.deliver chunks close).Holds (octets ++ chunks.flatten) owed := by
  rw [deliver_open hopen]
  refine ⟨?_, h.resumes, h.owed, h.works⟩
  rw [← h.octets, List.flatten_append, List.append_assoc]

/-- Nothing is taken while a part of the reply is still to be written. -/
theorem Holds.takeReply_part {value : Value} {rest : Bytes} (hopen : link.closed = false)
    (hv : value.Representable) (hne : rest ≠ []) (he : octets ++ rest = value.encode) :
    ∃ after : Link, link.takeReply = (after, none) ∧ after.Holds octets owed := by
  rw [← h.octets] at he
  obtain ⟨scanner, ha, hr⟩ := awaitReply_part hv h.resumes hne he
  have ht : link.takeReply.2 = none := by rw [takeReply, ending_open hopen, ha]
  refine ⟨link.takeReply.1, Prod.ext rfl ht, ?_⟩
  rw [takeReply, ending_open hopen, ha]
  exact ⟨by simpa using h.octets, hr, h.owed, h.works⟩

end Holding

section Owing
variable {link : Link} {value : Value} {values : List Value}

/-- The reply that is taken is the oldest. -/
theorem Owes.takeReply (h : link.Owes (value :: values)) :
    ∃ after : Link, link.takeReply = (after, some (.ok value)) ∧ after.Owes values := by
  have hv := h.representable value (by simp)
  obtain ⟨pending, left, ha, hrest⟩ := awaitReply_value hv link.ending h.resumes h.octets
  have ht : link.takeReply.2 = some (.ok value) := by rw [Link.takeReply, ha]
  refine ⟨link.takeReply.1, Prod.ext rfl ht, ?_,
    fun value hmem => h.representable value (List.mem_cons_of_mem _ hmem)⟩
  rw [Link.takeReply, ha]
  exact ⟨hrest, Scanner.resumes_fresh pending, by simp [h.owed], h.works⟩

/-- Draining takes every reply that is owed. -/
theorem Owes.drain (h : link.Owes values) :
    ∃ after : Link, link.drain link.connection.owed = (after, some (.ok ())) ∧ after.Owes [] := by
  rw [h.owed]
  induction values generalizing link with
  | nil => exact ⟨link, rfl, h⟩
  | cons value values ih =>
    obtain ⟨next, ht, hn⟩ := h.takeReply
    obtain ⟨after, hd, ha⟩ := ih hn
    refine ⟨after, ?_, ha⟩
    rw [List.length_cons, Link.drain, ht]
    exact hd

end Owing

section Execute
variable {link : Link} {exchange : Exchange} {value : Value} {values : List Value}

/-- A command is sent when nothing is owed any more. -/
private theorem Owes.send (h : link.Owes values) (hopen : link.closed = false)
    (exchange : Exchange) (command : Command) :
    ∃ ready : Link, ready.Holds [] 1 ∧ ready.received = command :: link.received ∧
      ready.closed = false ∧
      execute exchange command link =
        ((exchange.answer ready).takeReply.2,
          exchange.finish (exchange.answer ready).takeReply.1) := by
  obtain ⟨drained, hd, hn⟩ := h.drain
  obtain ⟨hreceived, hclosed⟩ := hd ▸ server_drain link link.connection.owed
  refine ⟨drained.send command, hn.toHolds.send command, congrArg (command :: ·) hreceived,
    hclosed.trans hopen, execute_of_drained h.works exchange command hd⟩

/-- A call that is waited for drops the owed replies and gets its own. -/
theorem Owes.execute_awaited (h : link.Owes values) (hopen : link.closed = false)
    (ha : exchange.abandon = false) (hv : value.Representable)
    (hw : (exchange.early ++ exchange.chunks).flatten = value.encode) (command : Command) :
    ∃ after : Link, execute exchange command link = (some (.ok value), after) ∧ after.Owes [] ∧
      after.received = command :: link.received ∧ after.closed = exchange.close := by
  obtain ⟨ready, hr, hreceived, hclosed, he⟩ := h.send hopen exchange command
  let first := ready.deliver exchange.early false
  have hfirst : first.closed = false := closed_deliver hclosed exchange.early false
  have hs := (hr.deliver hclosed exchange.early false).deliver hfirst exchange.chunks exchange.close
  have ho : (first.deliver exchange.chunks exchange.close).Owes [value] := by
    refine ⟨?_, by simpa⟩
    rw [List.nil_append, ← List.flatten_append, hw] at hs
    simpa [Value.encodeAll] using hs
  obtain ⟨after, ht, hafter⟩ := ho.takeReply
  have hsame : after = (first.deliver exchange.chunks exchange.close).takeReply.1 := by rw [ht]
  refine ⟨after, ?_, hafter, ?_, ?_⟩
  · have hanswer : exchange.answer ready = first.deliver exchange.chunks exchange.close :=
      if_neg (by simp [ha])
    rw [he, hanswer, ht, Exchange.finish, if_neg (by simp [ha])]
  · rw [hsame, received_takeReply, received_deliver, received_deliver, hreceived]
  · rw [hsame, closed_takeReply, closed_deliver hfirst]

/-- A call that is given up drops the owed replies and leaves its own owed. -/
theorem Owes.execute_abandoned (h : link.Owes values) (hopen : link.closed = false)
    (ha : exchange.abandon = true) (hv : value.Representable)
    (hw : (exchange.early ++ exchange.chunks).flatten = value.encode)
    (hu : exchange.early.flatten.length < value.encode.length) (command : Command) :
    ∃ after : Link, execute exchange command link = (none, after) ∧ after.Owes [value] ∧
      after.received = command :: link.received ∧ after.closed = exchange.close := by
  obtain ⟨ready, hr, hreceived, hclosed, he⟩ := h.send hopen exchange command
  let first := ready.deliver exchange.early false
  have hfirst : first.closed = false := closed_deliver hclosed exchange.early false
  have hpart : exchange.early.flatten ++ exchange.chunks.flatten = value.encode := by
    rw [← List.flatten_append, hw]
  have hne : exchange.chunks.flatten ≠ [] := by
    intro hnil
    rw [hnil, List.append_nil] at hpart
    rw [hpart] at hu
    exact Nat.lt_irrefl _ hu
  obtain ⟨given, ht, hg⟩ :=
    (hr.deliver hclosed exchange.early false).takeReply_part hfirst hv hne hpart
  have hsame : given = first.takeReply.1 := by rw [ht]
  have hopen' : given.closed = false := by rw [hsame, closed_takeReply, hfirst]
  have hs := hg.deliver hopen' exchange.chunks exchange.close
  refine ⟨given.deliver exchange.chunks exchange.close, ?_, ⟨?_, by simpa⟩, ?_, ?_⟩
  · have hanswer : exchange.answer ready = first := if_pos ha
    rw [he, hanswer, ht, Exchange.finish, if_pos ha]
  · rw [List.nil_append, hpart] at hs
    simpa [Value.encodeAll] using hs
  · rw [received_deliver, hsame, received_takeReply, received_deliver, hreceived]
  · rw [closed_deliver hopen']

end Execute

end Link
end SortedSetClient
