import SortedSetClient.Proofs.Dispatch
import SortedSetClient.Proofs.ListReplies

/-! The pages of a scan. A page is a cursor in digits and a list of entries, and they are judged in
that order. The cursor of a page goes back in the call that continues the scan, in the very text in
which it came. -/
namespace SortedSetClient
open Resp (Value)
open Decimal (Digits Written)

namespace Reply

/-- The items that a list has: those of an array, and none in a nil array. -/
inductive Lists : Value → List Value → Prop where
  | array (items : List Value) : Lists (.array items) items
  | nilArray : Lists .nilArray []

/-- The list is read as these entries. -/
def ReadsEntries (list : Value) (read : List Entry) : Prop :=
  ∃ items, Lists list items ∧ List.Forall₂ IsEntry (pairsOf items) read

/-- The value carries the cursor in digits, whose number fits 64 bits. -/
def ReadsCursor (value : Value) (next : UInt64) : Prop :=
  ∃ digits, Carries value digits ∧ Digits digits ∧ Decimal.value digits < 2 ^ 64 ∧
    UInt64.ofNat (Decimal.value digits) = next

section Pages
variable {first second reply : Value} {next : UInt64} {read : List Entry}

theorem entries_eq_ok_iff : entries reply = .ok read ↔ ReadsEntries reply read := by
  constructor
  · intro h
    cases reply with
    | array items => exact ⟨items, .array items, entries_array_eq_ok_iff.mp h⟩
    | nilArray => exact ⟨[], .nilArray, entries_array_eq_ok_iff.mp h⟩
    | _ => cases h
  · rintro ⟨items, hitems, h⟩
    cases hitems with
    | array => exact entries_array_eq_ok_iff.mpr h
    | nilArray => exact entries_array_eq_ok_iff.mpr h

theorem cursor_eq_ok_iff_reads : cursor first = .ok next ↔ ReadsCursor first next := by
  rw [cursor_eq_ok_iff]
  simp only [textual?_eq_some_iff, Decimal.uint64?_eq_some_iff, ReadsCursor]

theorem cursor_eq_error (h : ¬∃ next, ReadsCursor first next) :
    cursor first = .error (.unexpectedReply (.mismatch .numericCursor first)) := by
  rw [cursor]
  split
  · next n hn => exact absurd ⟨n, cursor_eq_ok_iff_reads.mp (by rw [cursor, hn])⟩ h
  · rfl

private theorem page_pair (first second : Value) :
    page (.array [first, second]) = (do return (← cursor first, ← entries second)) := rfl

theorem page_of_cursor (h : ReadsCursor first next) (second : Value) :
    page (.array [first, second]) = (entries second).map fun read => (next, read) := by
  rw [page_pair, cursor_eq_ok_iff_reads.mpr h]
  cases entries second <;> rfl

theorem page_of_no_cursor (h : ¬∃ next, ReadsCursor first next) (second : Value) :
    page (.array [first, second]) =
      .error (.unexpectedReply (.mismatch .numericCursor first)) := by
  rw [page_pair, cursor_eq_error h]
  rfl

theorem page_eq_ok_iff :
    page reply = .ok (next, read) ↔
      ∃ first second, reply = .array [first, second] ∧ ReadsCursor first next ∧
        ReadsEntries second read := by
  constructor
  · intro h
    cases reply with
    | array items =>
      rcases items with _ | ⟨first, _ | ⟨second, _ | ⟨third, rest⟩⟩⟩
      · cases h
      · cases h
      · by_cases hc : ∃ next, ReadsCursor first next
        · obtain ⟨next', hc⟩ := hc
          rw [page_of_cursor hc] at h
          obtain ⟨read', hread, ⟨⟩⟩ := map_eq_ok_iff.mp h
          exact ⟨first, second, rfl, hc, entries_eq_ok_iff.mp hread⟩
        · rw [page_of_no_cursor hc] at h
          cases h
      · cases h
    | _ => cases h
  · rintro ⟨first, second, rfl, hc, he⟩
    rw [page_of_cursor hc, entries_eq_ok_iff.mpr he]
    rfl

end Pages

/-- A cursor is read from the text in which its number is written. -/
theorem readsCursor_of_written {value : Value} {text : Bytes} {next : UInt64}
    (h : Written text next.toNat) (hv : Carries value text) : ReadsCursor value next := by
  refine ⟨text, hv, h.allDigits, ?_, ?_⟩
  · rw [h.denotes]
    exact next.toNat_lt
  · rw [h.denotes, UInt64.ofNat_toNat]

end Reply

namespace Operation

/-- The first word behind the key is the cursor, as its number is written. -/
theorem toCommand_scan {text : Bytes} {next : UInt64} (h : Written text next.toNat) (key : Bytes)
    (pattern : Option Bytes) (count : Option Int64) :
    ∃ more, (scan key next pattern count).toCommand = ⟨"ZSCAN", key :: text :: more⟩ := by
  rw [Decimal.written_iff] at h
  subst h
  exact ⟨_, rfl⟩

end Operation

open Reply

/-- A reply is a page just where it has two items, a cursor in digits that fits 64 bits and a list
that is read as entries; the cursor is judged before the list. A cursor is written in one way, and
the next call of the scan sends it as it was written. -/
theorem scan_continues_from_page :
    (∀ reply next read, page reply = .ok (next, read) ↔
      ∃ first second, reply = .array [first, second] ∧ ReadsCursor first next ∧
        ReadsEntries second read) ∧
    (∀ first second, (¬∃ next, ReadsCursor first next) →
      page (.array [first, second]) =
        .error (.unexpectedReply (.mismatch .numericCursor first))) ∧
    (∀ first second next, ReadsCursor first next →
      page (.array [first, second]) = (entries second).map fun read => (next, read)) ∧
    ∀ next : UInt64, ∃ text, (∀ other, Written other next.toNat ↔ other = text) ∧
      (∀ first second read, Carries first text → ReadsEntries second read →
        page (.array [first, second]) = .ok (next, read)) ∧
      ∀ {m : Type → Type} [Monad m] [LawfulMonad m] (execute : Command → m (Except Error Value))
        (sent : List Command) (key : Bytes) (pattern : Option Bytes) (count : Option Int64),
        ∃ more,
          let scan := Operation.scan key next pattern count
          let command : Command := ⟨"ZSCAN", key :: text :: more⟩
          (scan.run (recording execute)).run sent =
            (fun reply => (reply.bind scan.decode, sent ++ [command])) <$> execute command := by
  refine ⟨fun _ _ _ => page_eq_ok_iff, fun _ second h => page_of_no_cursor h second,
    fun _ second _ h => page_of_cursor h second, fun next => ?_⟩
  have hwritten : Written (Decimal.digits next.toNat) next.toNat := Decimal.written_iff.mpr rfl
  refine ⟨_, fun _ => Decimal.written_iff, fun first second read hfirst hsecond => ?_, ?_⟩
  · exact page_eq_ok_iff.mpr ⟨first, second, rfl, readsCursor_of_written hwritten hfirst, hsecond⟩
  · intro m _ _ execute sent key pattern count
    obtain ⟨more, hcommand⟩ := Operation.toCommand_scan hwritten key pattern count
    refine ⟨more, ?_⟩
    rw [← hcommand]
    exact run_recording_checked execute sent rfl

/-- Zeros may lead a cursor, and a list may be a nil array. A cursor past 64 bits is judged before a
list that is none. The greatest cursor is sent as it came. -/
theorem scan_continues_from_greatest_cursor :
    let text := Utf8.encode "18446744073709551615"
    let past : Value := .bulk (Utf8.encode "18446744073709551616")
    let scan : Operation := .scan [0x6b] 18446744073709551615 (some [0x2a]) none
    let recorder : Recorder := { replies := [.error .connectionClosed] }
    page (.array [.simple "007", .nilArray]) = .ok (7, []) ∧
    page (.array [past, .integer 5]) =
      .error (.unexpectedReply (.mismatch .numericCursor past)) ∧
    page (.array [.bulk text, .array [.bulk [0x61], .simple "1", .nilBulk]]) =
      .ok (18446744073709551615, [([0x61], .integer 1)]) ∧
    ∃ more, ((scan.run (recording Recorder.execute)).run []).run recorder =
      ((.error .connectionClosed, [⟨"ZSCAN", [0x6b] :: text :: more⟩]),
        { replies := [], received := [⟨"ZSCAN", [0x6b] :: text :: more⟩] }) := by
  intro text past scan recorder
  obtain ⟨hpage, hnone, -, hwritten⟩ := scan_continues_from_page
  obtain ⟨other, hother, hback, hsent⟩ := hwritten 18446744073709551615
  have htext : text = other := by
    refine (hother text).mp ⟨⟨by decide, by decide +kernel⟩, by decide +kernel, ?_⟩
    decide +kernel
  subst htext
  refine ⟨?_, ?_, ?_, ?_⟩
  · exact (hpage _ _ _).mpr ⟨_, _, rfl, ⟨_, .simple _, ⟨by decide, by decide +kernel⟩,
      by decide +kernel, by decide +kernel⟩, [], .nilArray, .nil⟩
  · refine hnone past _ ?_
    rintro ⟨next, digits, hcarries, -, hfits, -⟩
    unfold past at hcarries
    cases hcarries
    exact absurd hfits (by decide +kernel)
  · exact hback _ _ _ (.bulk _)
      ⟨_, .array _, .cons ⟨.bulk _, _, .simple _, by decide +kernel⟩ .nil⟩
  · obtain ⟨more, hrun⟩ := hsent Recorder.execute [] [0x6b] (some [0x2a]) none
    refine ⟨more, ?_⟩
    rw [hrun]
    rfl

end SortedSetClient
