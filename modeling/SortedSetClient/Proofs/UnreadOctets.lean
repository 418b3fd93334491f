import SortedSetClient.Proofs.ReplyFrames
import SortedSetClient.Proofs.StreamReading

/-! What a link has still to read, as one stretch of octets. A reply that is taken is the first
value of it, and where the stretch is cut makes no difference. -/
namespace SortedSetClient
open Resp (Value Scanner Stream Frame)

/-- An attempt to take an owed reply out of these octets takes the first value of them. Where they
begin with none, everything is left, and owed. -/
def Takes (octets left : Bytes) (owed remaining : Nat) (result : Option (Except Error Value)) :
    Prop :=
  (∃ value taken, Frame 0 value taken ∧ octets = taken ++ left ∧ result = some (.ok value) ∧
    remaining = owed - 1) ∨
  ((Stream.ofBuffer octets).values = [] ∧ left = octets ∧ result.bind Except.toOption = none ∧
    remaining = owed)

namespace Connection

/-- The connection with these chunks received too, and nothing scanned. -/
def gather (connection : Connection) (arriving : List Bytes) : Connection :=
  { connection with pending := connection.pending ++ arriving.flatten, scanner := {} }

section Gathering
variable {connection : Connection} (hr : connection.scanner.Resumes connection.pending)
include hr

/-- Polling does not depend on what has been scanned before. -/
theorem poll_gather_nil : (connection.gather []).poll = connection.poll := by
  rw [poll, poll, hr.scan_eq (List.prefix_refl _)]
  simp [gather]

/-- What comes behind a reply, or behind a fault, stays where it is. -/
theorem poll_gather (hp : connection.poll.2 ≠ none) (arriving : List Bytes) :
    (connection.gather arriving).poll =
      (connection.poll.1.receive arriving.flatten, connection.poll.2) := by
  have hmore (h : (connection.scanner.scan connection.pending).2 ≠ .ok none) :
      (connection.gather arriving).scanner.scan (connection.gather arriving).pending =
        connection.scanner.scan connection.pending := by
    rw [hr.scan_eq (List.prefix_refl _)] at h ⊢
    exact Scanner.scan_append h arriving.flatten
  match hs : connection.scanner.scan connection.pending with
  | (scanner, .ok none) =>
    rw [poll_open hs] at hp
    exact absurd rfl hp
  | (scanner, .error fault) =>
    rw [hs] at hmore
    rw [poll_error hs, poll_error (hmore (by simp))]
    rfl
  | (scanner, .ok (some n)) =>
    rw [hs] at hmore
    have hle := (Scanner.scan_found hs).2.2
    obtain ⟨value, hv, hpoll⟩ := poll_reply hr hs
    have hv' : readFrame ((connection.gather arriving).pending.take n) = .ok value := by
      rw [gather, List.take_append_of_le_length hle, hv]
    rw [hpoll, poll_found (hmore (by simp)) hv', gather, List.drop_append_of_le_length hle,
      (Scanner.scan_found hs).1]
    rfl

/-- A poll that finds nothing only moves the scanner. -/
theorem poll_unanswered {after : Connection} (hp : connection.poll = (after, none)) :
    ∃ scanner : Scanner, after = { connection with scanner } ∧
      scanner.Resumes connection.pending := by
  match hs : connection.scanner.scan connection.pending with
  | (scanner, .error fault) =>
    rw [poll_error hs] at hp
    cases hp
  | (scanner, .ok none) =>
    rw [poll_open hs] at hp
    cases hp
    exact ⟨scanner, rfl, hr.scan_open (List.prefix_refl _) hs⟩
  | (scanner, .ok (some n)) =>
    obtain ⟨value, -, hpoll⟩ := poll_reply hr hs
    rw [hpoll] at hp
    cases hp

theorem takes_poll :
    Takes connection.pending connection.poll.1.pending connection.owed connection.poll.1.owed
      connection.poll.2 := by
  have hfresh := hr.scan_eq (List.prefix_refl _)
  have hnone (h : ∀ n, (connection.scanner.scan connection.pending).2 ≠ .ok (some n)) :
      (Stream.ofBuffer connection.pending).values = [] := by
    rw [hfresh] at h
    exact Stream.values_ofBuffer_eq_nil fun value n hp =>
      h n (Resp.scan_eq_some_iff.mpr ⟨value, hp⟩)
  match hs : connection.scanner.scan connection.pending with
  | (scanner, .error fault) =>
    rw [hs] at hnone
    rw [poll_error hs]
    exact .inr ⟨hnone (by simp), rfl, rfl, rfl⟩
  | (scanner, .ok none) =>
    rw [hs] at hnone
    rw [poll_open hs]
    exact .inr ⟨hnone (by simp), rfl, rfl, rfl⟩
  | (scanner, .ok (some n)) =>
    have hfound : (({} : Scanner).scan connection.pending).2 = .ok (some n) := by rw [← hfresh, hs]
    obtain ⟨value, hparse⟩ := Resp.scan_eq_some_iff.mp hfound
    obtain ⟨found, hv, hpoll⟩ := poll_reply hr hs
    obtain rfl : found = value := by
      rw [readFrame_of_parse (Resp.parse_take hparse)] at hv
      cases hv
      rfl
    obtain ⟨octets, rest, hp, rfl, hf⟩ := Resp.parse_eq_some_iff.mp hparse
    rw [hpoll]
    exact .inl ⟨found, octets, hf, by simp [hp], rfl, rfl⟩

end Gathering
end Connection

namespace Link
open Connection (poll_gather_nil poll_gather poll_unanswered)

/-- The octets not yet read, received or not. -/
def unread (link : Link) : Bytes := link.connection.pending ++ link.arriving.flatten

/-- The link with everything received that is on its way, and nothing scanned. -/
def gathered (link : Link) : Link :=
  { link with connection := link.connection.gather link.arriving, arriving := [] }

@[simp] theorem unread_gathered (link : Link) : link.gathered.unread = link.unread := by
  simp [unread, gathered, Connection.gather]

@[simp] theorem owed_gathered (link : Link) :
    link.gathered.connection.owed = link.connection.owed := rfl

@[simp] theorem closed_gathered (link : Link) : link.gathered.closed = link.closed := rfl

/-- What waiting for a reply comes to, apart from the cuts. -/
private def outcome (attempt : Connection × List Bytes × Option (Except Error Value)) :
    Connection × Option (Except Error Value) :=
  (attempt.1.gather attempt.2.1, attempt.2.2)

private theorem outcome_awaitReply {connection : Connection}
    (hr : connection.scanner.Resumes connection.pending) (ending : Option Error)
    (arriving : List Bytes) :
    outcome (awaitReply connection ending arriving) =
      outcome (awaitReply (connection.gather arriving) ending []) := by
  induction arriving generalizing connection with
  | nil =>
    rw [awaitReply, awaitReply, poll_gather_nil hr]
  | cons chunk arriving ih =>
    rcases hp : connection.poll with ⟨after, _ | result⟩
    · obtain ⟨scanner, rfl, hr'⟩ := poll_unanswered hr hp
      have hgather : connection.gather (chunk :: arriving) =
          (Connection.receive { connection with scanner } chunk).gather arriving := by
        simp [Connection.gather, Connection.receive]
      rw [awaitReply_next ending hp, hgather]
      refine ih ?_
      exact hr'.mono (List.prefix_append _ chunk)
    · have hpoll := poll_gather hr (by simp [hp]) (chunk :: arriving)
      rw [hp] at hpoll
      rw [awaitReply_answered ending hp, awaitReply_answered ending hpoll]
      simp [outcome, Connection.gather, Connection.receive]

/-- Where nothing more arrives, the first poll decides. -/
private theorem takes_received {connection : Connection}
    (hr : connection.scanner.Resumes connection.pending) (ending : Option Error) :
    Takes connection.pending (awaitReply connection ending []).1.pending connection.owed
      (awaitReply connection ending []).1.owed (awaitReply connection ending []).2.2 ∧
      (awaitReply connection ending []).2.1 = [] := by
  have ht := Connection.takes_poll hr
  match hp : connection.poll with
  | (after, some result) =>
    rw [hp] at ht
    rw [awaitReply_answered ending hp]
    exact ⟨ht, rfl⟩
  | (after, none) =>
    rw [hp] at ht
    rw [awaitReply_last ending hp]
    cases ending with
    | none => exact ⟨ht, rfl⟩
    | some error =>
      rcases ht with ⟨value, taken, -, -, hv, -⟩ | ⟨hvalues, hleft, -, howed⟩
      · cases hv
      · exact ⟨.inr ⟨hvalues, hleft, rfl, howed⟩, rfl⟩

section Taking
variable {link : Link} (hr : link.connection.scanner.Resumes link.connection.pending)
include hr

/-- A reply is taken as if everything on its way had been received before. -/
theorem takeReply_gathered :
    link.takeReply.2 = link.gathered.takeReply.2 ∧
      link.takeReply.1.gathered = link.gathered.takeReply.1.gathered := by
  have h := outcome_awaitReply hr link.ending link.arriving
  exact ⟨(Prod.ext_iff.mp h).2,
    congrArg (fun connection => { link with connection, arriving := [] }) (Prod.ext_iff.mp h).1⟩

/-- The reply that is taken is the first value not yet read. -/
theorem takes_takeReply :
    Takes link.unread link.takeReply.1.unread link.connection.owed link.takeReply.1.connection.owed
      link.takeReply.2 := by
  obtain ⟨hresult, hafter⟩ := takeReply_gathered hr
  obtain ⟨ht, hleft⟩ := @takes_received (link.connection.gather link.arriving)
    (Scanner.resumes_fresh _) link.ending
  have hunread : link.gathered.takeReply.1.unread = (awaitReply
      (link.connection.gather link.arriving) link.ending []).1.pending :=
    (congrArg (_ ++ List.flatten ·) hleft).trans (List.append_nil _)
  rw [← unread_gathered link.takeReply.1, ← owed_gathered link.takeReply.1, hafter, hresult,
    unread_gathered, owed_gathered, hunread]
  exact ht

end Taking
end Link
end SortedSetClient
