import SortedSetClient.Proofs.CallRuns
import SortedSetClient.Proofs.ScannerAgreement

/-! The reply that the scanner finds is the value that the parser reads. So a connection never cuts
off octets that are no value, whatever it receives. -/
namespace SortedSetClient.Resp
open Resp.Parser

/-- The parser refuses the octet at a place as an unknown type: with the octets before it, it is
still reading. -/
structure UnknownTypeAt (buffer : Bytes) (place : Nat) (type : UInt8) : Prop where
  octet : buffer[place]? = some type
  before : parse (buffer.take place) = .ok none
  refused : parse (buffer.take (place + 1)) = .error (.unknownType type)

namespace UnknownTypeAt
variable {buffer : Bytes} {place other : Nat} {type type' : UInt8}

theorem parse_eq (h : UnknownTypeAt buffer place type) :
    parse buffer = .error (.unknownType type) := by
  rw [← List.take_append_drop (place + 1) buffer]
  exact parse_append_error h.refused _

theorem le (h : UnknownTypeAt buffer place type) (h' : UnknownTypeAt buffer other type') :
    other ≤ place := by
  refine Nat.le_of_not_lt fun hlt => ?_
  have hp : buffer.take (place + 1) <+: buffer.take other :=
    List.take_prefix_take_left hlt
  obtain ⟨more, hm⟩ := hp
  have hb := h'.before
  rw [← hm, parse_append_error h.refused] at hb
  cases hb

end UnknownTypeAt

/-- What a fresh scanner answers on a buffer, by what the parser says of it. -/
theorem scan_cases (buffer : Bytes) :
    (∃ value octets rest, buffer = octets ++ rest ∧
      (∀ more, parse (octets ++ more) = .ok (some (value, octets.length))) ∧
      (({} : Scanner).scan buffer).2 = .ok (some octets.length)) ∨
    (parse buffer = .ok none ∧ (({} : Scanner).scan buffer).2 = .ok none) ∨
    (∃ fault, (∀ type, fault ≠ .unknownType type) ∧ parse buffer = .error fault ∧
      (({} : Scanner).scan buffer).2 = .error fault) ∨
    ∃ place type, UnknownTypeAt buffer place type ∧
      (({} : Scanner).scan buffer).2 =
        if Unbroken (buffer.drop (place + 1)) then .ok none else .error (.unknownType type) := by
  have h := follows_readWithin (rfl : ([] : List Nat).length + maxDepth = maxDepth) 0 buffer
  generalize he : Scanner.advance 0 [] buffer = answer at h
  have hs : ({} : Scanner).scan buffer = answer := he
  rw [hs]
  cases h with
  | @done octets rest value hr =>
    refine .inl ⟨value, octets, rest, rfl, fun more => ?_, ?_⟩
    · rw [parse, hr]
      simp [Except.map]
    · rw [Scanner.settle_last _ rfl, Nat.zero_add]
  | pending hr => exact .inr (.inl ⟨parse_eq_none_iff.mpr hr, rfl⟩)
  | fault hf hr => exact .inr (.inr (.inl ⟨_, hf, parse_eq_error_iff.mpr hr, rfl⟩))
  | @unknown before after type scanner hb ht =>
    refine .inr (.inr (.inr ⟨before.length, type, ⟨by simp, ?_, ?_⟩, ?_⟩))
    · rw [List.take_left]
      exact parse_eq_none_iff.mpr hb
    · rw [List.take_length_add_append]
      exact parse_eq_error_iff.mpr (ht [])
    · simp

section Agreement
variable {buffer : Bytes}

theorem scan_eq_some_iff {n : Nat} :
    (({} : Scanner).scan buffer).2 = .ok (some n) ↔
      ∃ value, parse buffer = .ok (some (value, n)) := by
  rcases scan_cases buffer with ⟨value, octets, rest, rfl, hp, hs⟩ | ⟨hp, hs⟩ | ⟨fault, -, hp, hs⟩ |
    ⟨place, type, hu, hs⟩
  · rw [hs, hp]
    simp
  · rw [hs, hp]
    simp
  · rw [hs, hp]
    simp
  · rw [hs, hu.parse_eq]
    split <;> simp

theorem parse_take {value : Value} {n : Nat} (h : parse buffer = .ok (some (value, n))) :
    parse (buffer.take n) = .ok (some (value, n)) := by
  obtain ⟨octets, rest, rfl, rfl, hf⟩ := parse_eq_some_iff.mp h
  rw [List.take_left]
  exact parse_eq_some_iff.mpr ⟨octets, [], by simp, rfl, hf⟩

theorem parse_eq_error_of_scan {fault : Fault}
    (h : (({} : Scanner).scan buffer).2 = .error fault) : parse buffer = .error fault := by
  rcases scan_cases buffer with ⟨value, octets, rest, rfl, hp, hs⟩ | ⟨hp, hs⟩ | ⟨fault, -, hp, hs⟩ |
    ⟨place, type, hu, hs⟩
  · rw [hs] at h
    cases h
  · rw [hs] at h
    cases h
  · rw [hs] at h
    cases h
    exact hp
  · rw [hs] at h
    split at h
    · cases h
    · cases h
      exact hu.parse_eq

/-- A type octet whose line has not ended is unknown to the parser alone. -/
theorem scan_of_unknownTypeAt {place : Nat} {type : UInt8} (h : UnknownTypeAt buffer place type)
    (hu : Unbroken (buffer.drop (place + 1))) : (({} : Scanner).scan buffer).2 = .ok none := by
  have hb := h.parse_eq
  rcases scan_cases buffer with ⟨value, octets, rest, rfl, hp, hs⟩ | ⟨hp, hs⟩ |
    ⟨fault, hf, hp, hs⟩ | ⟨other, type', h', hs⟩
  · rw [hp] at hb
    cases hb
  · exact hs
  · rw [hp] at hb
    cases hb
    exact absurd rfl (hf type)
  · obtain rfl : place = other := Nat.le_antisymm (h'.le h) (h.le h')
    rw [hs, if_pos hu]

/-- The parser's answer without the value. -/
def extent (buffer : Bytes) : Except Fault (Option Nat) :=
  (parse buffer).map (·.map Prod.snd)

theorem scan_ne_extent_iff :
    (({} : Scanner).scan buffer).2 ≠ extent buffer ↔
      ∃ place type, UnknownTypeAt buffer place type ∧ Unbroken (buffer.drop (place + 1)) := by
  constructor
  · intro hne
    rcases scan_cases buffer with ⟨value, octets, rest, rfl, hp, hs⟩ | ⟨hp, hs⟩ |
      ⟨fault, -, hp, hs⟩ | ⟨place, type, hu, hs⟩
    · exact absurd (by rw [hs, extent, hp]; rfl) hne
    · exact absurd (by rw [hs, extent, hp]; rfl) hne
    · exact absurd (by rw [hs, extent, hp]; rfl) hne
    · refine ⟨place, type, hu, Decidable.byContradiction fun hb => hne ?_⟩
      rw [hs, if_neg hb, extent, hu.parse_eq]
      rfl
  · rintro ⟨place, type, h, hu⟩
    rw [scan_of_unknownTypeAt h hu, extent, h.parse_eq]
    simp [Except.map]

end Agreement
end SortedSetClient.Resp

namespace SortedSetClient
open Resp (Value Fault Scanner Unbroken)

namespace Connection

theorem readFrame_of_parse {frame : Bytes} {value : Value} {n : Nat}
    (h : Resp.Parser.parse frame = .ok (some (value, n))) : readFrame frame = .ok value := by
  rw [readFrame, h]

section Poll
variable {connection : Connection} {scanner : Scanner}

theorem poll_error {fault : Fault}
    (h : connection.scanner.scan connection.pending = (scanner, .error fault)) :
    connection.poll =
      ({ connection with scanner, broken := true }, some (.error (.protocol fault))) := by
  rw [poll, h]
  rfl

theorem poll_open (h : connection.scanner.scan connection.pending = (scanner, .ok none)) :
    connection.poll = ({ connection with scanner }, none) := by
  rw [poll, h]

theorem poll_found {n : Nat} {value : Value}
    (h : connection.scanner.scan connection.pending = (scanner, .ok (some n)))
    (hv : readFrame (connection.pending.take n) = .ok value) :
    connection.poll =
      ({ connection with
          pending := connection.pending.drop n, scanner, owed := connection.owed - 1 },
        some (.ok value)) := by
  rw [poll, h]
  dsimp only
  rw [hv]

theorem poll_unreadable {n : Nat} {error : Error}
    (h : connection.scanner.scan connection.pending = (scanner, .ok (some n)))
    (hv : readFrame (connection.pending.take n) = .error error) :
    connection.poll =
      ({ connection with pending := connection.pending.drop n, scanner, broken := true },
        some (.error error)) := by
  rw [poll, h]
  dsimp only
  rw [hv]
  rfl

/-- The reply that a scan finds is read as a value. -/
theorem poll_reply {n : Nat} (hr : connection.scanner.Resumes connection.pending)
    (h : connection.scanner.scan connection.pending = (scanner, .ok (some n))) :
    ∃ value, readFrame (connection.pending.take n) = .ok value ∧
      connection.poll =
        ({ connection with
            pending := connection.pending.drop n, scanner := {}, owed := connection.owed - 1 },
          some (.ok value)) := by
  have hs : (({} : Scanner).scan connection.pending).2 = .ok (some n) := by
    rw [← hr.scan_eq (List.prefix_refl _), h]
  obtain ⟨value, hp⟩ := Resp.scan_eq_some_iff.mp hs
  have hv := readFrame_of_parse (Resp.parse_take hp)
  refine ⟨value, hv, ?_⟩
  rw [poll_found h hv, (Scanner.scan_found h).1]

end Poll

/-- The states of a connection, whatever it receives and whenever it is polled. A connection whose
exchange has failed is not polled again. -/
inductive Reachable : Connection → Prop where
  | fresh : Reachable {}
  | receive {connection : Connection} (chunk : Bytes) :
      Reachable connection → Reachable (connection.receive chunk)
  | expectReply {connection : Connection} :
      Reachable connection → Reachable connection.expectReply
  | poll {connection : Connection} :
      Reachable connection → connection.broken = false → Reachable connection.poll.1
  | fail {connection : Connection} (error : Error) :
      Reachable connection → Reachable (connection.fail error).1

theorem Reachable.resumes {connection : Connection} (h : connection.Reachable)
    (hb : connection.broken = false) : connection.scanner.Resumes connection.pending := by
  induction h with
  | fresh => exact Scanner.resumes_fresh []
  | receive chunk h ih => exact (ih hb).mono (List.prefix_append _ chunk)
  | expectReply h ih => exact ih hb
  | fail error h ih => cases hb
  | @poll connection h hopen ih =>
    have hr := ih hopen
    match hs : connection.scanner.scan connection.pending with
    | (scanner, .error fault) => rw [poll_error hs] at hb; cases hb
    | (scanner, .ok none) =>
      rw [poll_open hs]
      exact hr.scan_open (List.prefix_refl _) hs
    | (scanner, .ok (some n)) =>
      obtain ⟨value, -, hp⟩ := poll_reply hr hs
      rw [hp]
      exact Scanner.resumes_fresh _

/-- Polling a connection that works gives an error or leaves one that works. -/
theorem Reachable.poll_works {connection : Connection} (h : connection.Reachable)
    (hb : connection.broken = false) :
    (∃ error, connection.poll.2 = some (.error error)) ∨ connection.poll.1.broken = false := by
  match hs : connection.scanner.scan connection.pending with
  | (scanner, .error fault) =>
    rw [poll_error hs]
    exact .inl ⟨_, rfl⟩
  | (scanner, .ok none) =>
    rw [poll_open hs]
    exact .inr hb
  | (scanner, .ok (some n)) =>
    obtain ⟨value, -, hp⟩ := poll_reply (h.resumes hb) hs
    rw [hp]
    exact .inr hb

end Connection

namespace Link
open Connection (Reachable)

/-- The connection is in a state that it can be in, and it has not failed without an error to
tell of it. -/
def Works {α : Type} (connection : Connection) (result : Option (Except Error α)) : Prop :=
  connection.Reachable ∧ ((∃ error, result = some (.error error)) ∨ connection.broken = false)

theorem works_takeReply {link : Link} (h : link.connection.Reachable)
    (hb : link.connection.broken = false) :
    Works link.takeReply.1.connection link.takeReply.2 := by
  refine awaitReply_induction link.ending
    (motive := fun connection after result =>
      connection.Reachable → connection.broken = false → Works after result)
    ?answered ?failed ?waiting ?next link.connection link.arriving h hb
  case answered =>
    intro connection after result hp h hb
    have hr := h.poll hb
    have hw := h.poll_works hb
    rw [hp] at hr hw
    exact ⟨hr, hw⟩
  case failed =>
    intro connection after error hp _ h hb
    have hr := h.poll hb
    rw [hp] at hr
    exact ⟨hr.fail error, .inl ⟨error, rfl⟩⟩
  case waiting =>
    intro connection after hp h hb
    have hr := h.poll hb
    have hw := h.poll_works hb
    rw [hp] at hr hw
    exact ⟨hr, hw⟩
  case next =>
    intro connection after chunk last result hp ih h hb
    have hr := h.poll hb
    have hw := h.poll_works hb
    rw [hp] at hr hw
    exact ih (hr.receive chunk) (hw.resolve_left (by simp))

theorem works_drain {n : Nat} {link : Link} (h : link.connection.Reachable)
    (hb : link.connection.broken = false) :
    Works (drain n link).1.connection (drain n link).2 := by
  refine drain_induction
    (motive := fun link after result =>
      link.connection.Reachable → link.connection.broken = false → Works after.connection result)
    ?done ?reply ?failed ?waiting n link h hb
  case done =>
    intro link h hb
    exact ⟨h, .inr hb⟩
  case reply =>
    intro link next value last result ht ih h hb
    have hw := works_takeReply h hb
    rw [ht] at hw
    exact ih hw.1 (hw.2.resolve_left (by simp))
  case failed =>
    intro link after error ht h hb
    have hw := works_takeReply h hb
    rw [ht] at hw
    exact ⟨hw.1, .inl ⟨error, rfl⟩⟩
  case waiting =>
    intro link after ht h hb
    have hw := works_takeReply h hb
    rw [ht] at hw
    exact ⟨hw.1, .inr (hw.2.resolve_left (by simp))⟩

/-- Whatever exchanges a link carries, its connection stays in the states described above. -/
theorem reachable_execute (exchange : Exchange) (command : Command) {link : Link}
    (h : link.connection.Reachable) :
    (execute exchange command link).2.connection.Reachable := by
  cases hb : link.connection.broken with
  | true =>
    rw [execute_broken hb]
    exact h
  | false =>
    have hw := works_drain (n := link.connection.owed) h hb
    match hd : link.drain link.connection.owed with
    | (ready, some (.error error)) =>
      rw [hd] at hw
      rw [execute_of_drain_error hb exchange command hd]
      exact hw.1
    | (ready, none) =>
      rw [hd] at hw
      rw [execute_of_drain_open hb exchange command hd]
      exact hw.1
    | (ready, some (.ok ())) =>
      rw [hd] at hw
      rw [execute_of_drained hb exchange command hd, connection_finish]
      refine (works_takeReply ?_ ?_).1
      · rw [connection_answer]
        exact hw.1.expectReply
      · rw [connection_answer]
        exact hw.2.resolve_left (by simp)

end Link

/-- The scanner finds a reply where the parser reads a value, of as many octets, and its faults are
the parser's. They differ only where a type octet is unknown and no line end comes after it: there
the scanner waits. So no connection ever cuts off octets that are no value. -/
theorem scan_agrees_with_parse :
    (∀ buffer,
      (∀ n, (({} : Scanner).scan buffer).2 = .ok (some n) ↔
        ∃ value, Resp.Parser.parse buffer = .ok (some (value, n))) ∧
      (∀ value n, Resp.Parser.parse buffer = .ok (some (value, n)) →
        Resp.Parser.parse (buffer.take n) = .ok (some (value, n))) ∧
      (∀ fault, (({} : Scanner).scan buffer).2 = .error fault →
        Resp.Parser.parse buffer = .error fault) ∧
      ((({} : Scanner).scan buffer).2 ≠ Resp.extent buffer ↔
        ∃ place type, Resp.UnknownTypeAt buffer place type ∧ Unbroken (buffer.drop (place + 1))) ∧
      ∀ place type, Resp.UnknownTypeAt buffer place type → Unbroken (buffer.drop (place + 1)) →
        (({} : Scanner).scan buffer).2 = .ok none) ∧
    (∀ exchange command, ∀ link : Link, link.connection.Reachable →
      (Link.execute exchange command link).2.connection.Reachable) ∧
    ∀ connection : Connection, connection.Reachable → connection.broken = false →
      ∀ n, (connection.scanner.scan connection.pending).2 = .ok (some n) →
        ∃ value, Connection.readFrame (connection.pending.take n) = .ok value ∧
          connection.poll.2 = some (.ok value) := by
  refine ⟨?_, fun exchange command link h => Link.reachable_execute exchange command h, ?_⟩
  · intro buffer
    exact ⟨fun n => Resp.scan_eq_some_iff, fun value n => Resp.parse_take,
      fun fault => Resp.parse_eq_error_of_scan, Resp.scan_ne_extent_iff,
      fun place type => Resp.scan_of_unknownTypeAt⟩
  · intro connection h hb n hs
    obtain ⟨value, hv, hp⟩ := Connection.poll_reply (h.resumes hb) (Prod.ext rfl hs)
    exact ⟨value, hv, by rw [hp]⟩

/-- A reply that has arrived whole, and an array whose item has an unknown type: the parser refuses
it at once, the scanner when the line ends. -/
theorem scan_agrees_inside_array :
    let reply : Bytes := [0x3a, 0x37, 0x0d, 0x0a]
    let bogus : Bytes := [0x2a, 0x31, 0x0d, 0x0a, 0x21, 0x0d]
    (({} : Scanner).scan reply).2 = .ok (some 4) ∧
    (({} : Connection).receive reply).poll.2 = some (.ok (.integer 7)) ∧
    Resp.UnknownTypeAt bogus 4 0x21 ∧
    (({} : Scanner).scan bogus).2 = .ok none ∧ (({} : Scanner).scan bogus).2 ≠ Resp.extent bogus ∧
    Resp.Parser.parse (bogus ++ [0x0a]) = .error (.unknownType 0x21) := by
  intro reply bogus
  have hs : (({} : Scanner).scan reply).2 = .ok (some 4) :=
    ((scan_agrees_with_parse.1 reply).1 4).mpr ⟨.integer 7, rfl⟩
  have hu : Resp.UnknownTypeAt bogus 4 0x21 := ⟨rfl, rfl, rfl⟩
  have hd := (scan_agrees_with_parse.1 bogus).2.2.2
  have hline : ({} : Scanner).scan (bogus ++ [0x0a]) = (⟨4, [1]⟩, .error (.unknownType 0x21)) :=
    (Scanner.advance_enter 0
      (rfl : Resp.Element.read (bogus ++ [0x0a]) = .ok (some ⟨4, 1, by decide⟩)) (by decide)
      (by decide)).trans (Scanner.advance_error 4 [1] rfl)
  obtain ⟨value, hv, hp⟩ := scan_agrees_with_parse.2.2 (({} : Connection).receive reply)
    (.receive reply .fresh) rfl 4 hs
  obtain rfl : .integer 7 = value := by
    cases hv
    rfl
  exact ⟨hs, hp, hu, hd.2 4 0x21 hu (by decide), hd.1.mpr ⟨4, 0x21, hu, by decide⟩,
    (scan_agrees_with_parse.1 _).2.2.1 _ (congrArg Prod.snd hline)⟩

end SortedSetClient
