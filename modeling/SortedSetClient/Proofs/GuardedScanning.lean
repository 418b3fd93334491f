import SortedSetClient.Proofs.FrameGrammar
import SortedSetClient.Proofs.GuardedReading
import SortedSetClient.Proofs.RejectedStreams

/-! The scanner at places of a buffer, in guarded steps. What it keeps between scans is sound after
every scan, so its steps never trap: not in a buffer that ends before the place kept, not in one
that has nothing to do with those before it, and not behind a fault. -/
namespace SortedSetClient.Resp

/-- Open arrays: no more than may be, and each of them expects an item. -/
structure Scanner.Steady (missing : List Nat) : Prop where
  depth : missing.length ≤ maxDepth
  counts : ∀ left ∈ missing, 1 ≤ left

instance (missing : List Nat) : Decidable (Scanner.Steady missing) :=
  decidable_of_iff (missing.length ≤ maxDepth ∧ ∀ left ∈ missing, 1 ≤ left)
    ⟨fun h => ⟨h.1, h.2⟩, fun h => ⟨h.1, h.2⟩⟩

namespace Guarded
open Scanner (Steady finishValue)

/-- The place behind a bulk string whose header ends at a place. -/
def passBulk (buffer : Bytes) (length : Int64) (next : Nat) : Guarded (Nat × Nat) :=
  if 0 ≤ length then do
    let behind ← behindData buffer (lengthWord length) next
    .ok (behind, 0)
  else if length = -1 then .ok (next, 0)
  else .error (.fault (.invalidBulkLength length))

/-- The items of an array whose header ends at a place. -/
def passArray (length : Int64) (next : Nat) : Guarded (Nat × Nat) :=
  if 0 < length then .ok (next, lengthWord length)
  else if length < -1 then .error (.fault (.invalidArrayLength length))
  else .ok (next, 0)

/-- The place behind a header line and what it counts, and the items it announces. -/
def passHeader (buffer : Bytes) (type : UInt8) (header : Bytes) (next : Nat) :
    Guarded (Nat × Nat) :=
  match type with
  | 0x2b | 0x2d => .ok (next, 0)
  | 0x3a => do
    let _ ← lineInteger header
    .ok (next, 0)
  | 0x24 => do
    let length ← lineInteger header
    passBulk buffer length next
  | 0x2a => do
    let length ← lineInteger header
    passArray length next
  | type => .error (.fault (.unknownType type))

/-- The place behind the element at a place, and the items it announces. -/
def passElement (buffer : Bytes) (start : Nat) : Guarded (Nat × Nat) :=
  if buffer.length ≤ start then .error .incomplete
  else do
    let first ← add start 1
    let stop ← findLineEnd buffer first
    let header ← slice buffer first stop
    let next ← add stop 2
    let type ← octet buffer start
    passHeader buffer type header next

/-- The arrays that stay open once a value is finished. -/
def closeValue : List Nat → Guarded (List Nat)
  | [] => .ok []
  | left :: outer => do
    let left ← countDown left
    if 0 < left then .ok (left :: outer) else closeValue outer

/-- Pass elements until the first value ends. -/
def advance (buffer : Bytes) (position : Nat) (missing : List Nat) : Scanner × Guarded Nat :=
  if ¬ Steady missing then (⟨position, missing⟩, .error (.trap .miscounted))
  else
    match passElement buffer position with
    | .error stop => (⟨position, missing⟩, .error stop)
    | .ok (next, items) =>
      if _ : next ≤ position ∨ buffer.length < next then
        (⟨next, missing⟩, .error (.trap .outOfRange))
      else if 0 < items then
        if maxDepth ≤ missing.length then (⟨next, missing⟩, .error (.fault .tooDeep))
        else advance buffer next (items :: missing)
      else
        match closeValue missing with
        | .error stop => (⟨next, missing⟩, .error stop)
        | .ok [] => ({}, .ok next)
        | .ok outer => advance buffer next outer
termination_by buffer.length - position

/-- The length of the reply at the front of a buffer, once all of it has arrived. -/
def scan (scanner : Scanner) (buffer : Bytes) : Scanner × Guarded Nat :=
  advance buffer scanner.position scanner.missing

/-- What successive scans leave and answer. -/
def scans (scanner : Scanner) : List Bytes → List (Scanner × Guarded Nat)
  | [] => []
  | buffer :: buffers => scan scanner buffer :: scans (scan scanner buffer).1 buffers

/-- What passing an element at a place comes to, by the element that is read of the octets there. -/
def placed (start : Nat) (read : Except Fault (Option Element)) : Guarded (Nat × Nat) :=
  (answer read).map fun element => (start + element.size, element.items)

section Elements
variable {buffer front : Bytes}

section Headers
variable {size start : Nat} {hs : 0 < size} (hn : front.length = start + size)
include hn

theorem passBulk_eq {rest : Bytes} (hw : (front ++ rest).length < 2 ^ 62) (n : Int64) :
    passBulk (front ++ rest) n front.length = placed start (Element.ofBulk size hs n rest) := by
  rcases length_cases n with rfl | hneg | ⟨k, hk, rfl⟩
  · rw [hn]
    rfl
  · rw [Element.ofBulk_refused hneg, passBulk, if_neg (by simpa using (refused_length hneg).2),
      if_neg (refused_length hneg).1]
    rfl
  · rw [passBulk, if_pos (by simpa using count_not_neg hk), lengthWord_ofNat hk]
    rcases data_cases k rest with hd | ⟨data, a, b, rest, rfl, rfl⟩
    · rw [Element.ofBulk_short hk hd, behindData_short hk hd hw]
      rfl
    · have hsize : front.length + data.length + 2 = start + (size + data.length + 2) := by omega
      rw [Element.ofBulk_data hk, behindData_data a b hw]
      by_cases he : a = 0x0d ∧ b = 0x0a
      · rw [if_pos he, if_pos he, ok_bind, hsize]
        rfl
      · rw [if_neg he, if_neg he]
        rfl

theorem passArray_eq (n : Int64) :
    passArray n front.length = placed start (Element.ofArray size hs n) := by
  rcases length_cases n with rfl | hneg | ⟨k, hk, rfl⟩
  · rw [hn]
    rfl
  · have hpos : ¬ 0 < n := fun h => Int64.lt_irrefl (Int64.lt_trans h (refused_length hneg).2)
    rw [Element.ofArray_refused hneg, passArray, if_neg hpos, if_pos hneg]
    rfl
  · rw [Element.ofArray_count hk, passArray, hn]
    by_cases h0 : 0 < k
    · rw [if_pos ((count_pos_iff hk).mpr h0), lengthWord_ofNat hk]
      rfl
    · obtain rfl : k = 0 := by omega
      rfl

end Headers

theorem passHeader_eq {start : Nat} {line rest : Bytes}
    (hn : front.length = start + (line.length + 3)) (hw : (front ++ rest).length < 2 ^ 62)
    (type : UInt8) : passHeader (front ++ rest) type line front.length =
      placed start (Element.ofHeader type line rest) := by
  fun_cases Element.ofHeader type line rest with
  | case1 | case2 =>
    rw [passHeader, hn]
    rfl
  | case3 =>
    rw [passHeader, lineInteger, hn]
    rcases readInteger line with fault | n <;> rfl
  | case4 =>
    rw [passHeader, lineInteger]
    rcases readInteger line with fault | n
    · rfl
    · exact passBulk_eq hn hw n
  | case5 =>
    rw [passHeader, lineInteger]
    rcases readInteger line with fault | n
    · rfl
    · exact passArray_eq hn n
  | case6 =>
    have hunknown : passHeader (front ++ rest) type line front.length =
        .error (.fault (.unknownType type)) := by
      simp [passHeader, *]
    rw [hunknown]
    rfl

section Lines
variable {type : UInt8} {bytes : Bytes} (hw : buffer.length < 2 ^ 62)
include hw

theorem passElement_type (hb : buffer = front ++ type :: bytes) :
    passElement buffer front.length = (do
      let stop ← findLineEnd buffer (front ++ [type]).length
      let header ← slice buffer (front ++ [type]).length stop
      let next ← add stop 2
      passHeader buffer type header next) := by
  have hoctet : octet buffer front.length = .ok type := hb ▸ octet_front front type bytes
  have hlength : front.length + 1 = (front ++ [type]).length := by simp
  have hlt : ¬ buffer.length ≤ front.length := by
    rw [hb, List.length_append, List.length_cons]
    omega
  rw [passElement, if_neg hlt, add_of_lt (by omega), ok_bind, hlength]
  simp only [hoctet, ok_bind]

theorem passElement_unbroken (hu : Unbroken bytes) (hb : buffer = front ++ type :: bytes) :
    passElement buffer front.length = .error .incomplete := by
  have hline : findLineEnd buffer (front ++ [type]).length = .error .incomplete :=
    behind_type hb ▸ findLineEnd_unbroken hu (behind_type hb ▸ hw)
  rw [passElement_type hw hb, hline, error_bind]

theorem passElement_line {line rest : Bytes} (hl : Unbroken line)
    (hb : buffer = front ++ type :: (line ++ 0x0d :: 0x0a :: rest)) :
    passElement buffer front.length =
      passHeader buffer type line (front ++ [type] ++ (line ++ [0x0d, 0x0a])).length := by
  have hb' := behind_type hb
  have hline : findLineEnd buffer (front ++ [type]).length =
      .ok ((front ++ [type]).length + line.length) := hb' ▸ findLineEnd_line hl (hb' ▸ hw)
  have hslice : slice buffer (front ++ [type]).length ((front ++ [type]).length + line.length) =
      .ok line := hb' ▸ slice_front (front ++ [type]) line _
  have hle := congrArg List.length (behind_ended hb')
  rw [List.length_append, length_ended] at hle
  rw [passElement_type hw hb, hline, ok_bind, hslice, ok_bind, add_of_lt (by omega), ok_bind,
    length_ended]

end Lines

/-- From every place on, the element there is passed as it is read of the octets themselves. -/
theorem passElement_eq (hw : buffer.length < 2 ^ 62) (start : Nat) :
    passElement buffer start = placed start (Element.read (buffer.drop start)) := by
  by_cases hs : start < buffer.length
  · obtain ⟨front, type, bytes, hb, rfl⟩ : ∃ front type bytes, buffer = front ++ type :: bytes ∧
        start = front.length := by
      refine ⟨buffer.take start, buffer[start], buffer.drop (start + 1), ?_, ?_⟩
      · rw [← List.drop_eq_getElem_cons hs, List.take_append_drop]
      · rw [List.length_take_of_le (Nat.le_of_lt hs)]
    have hdrop : buffer.drop front.length = type :: bytes := by rw [hb, List.drop_left]
    rw [hdrop]
    rcases unbroken_or_line bytes with hu | ⟨line, rest, hl, rfl⟩
    · rw [Element.read_unbroken hu, passElement_unbroken hw hu hb]
      rfl
    · have hsplit := behind_ended (behind_type hb)
      have hnext : (front ++ [type] ++ (line ++ [0x0d, 0x0a])).length =
          front.length + (line.length + 3) := by
        rw [length_ended, List.length_append, List.length_singleton]
        omega
      rw [Element.read_line hl, passElement_line hw hl hb]
      exact hsplit ▸ passHeader_eq hnext (hsplit ▸ hw) type
  · have hdrop : buffer.drop start = [] := List.drop_of_length_le (by omega)
    rw [hdrop, passElement, if_pos (by omega)]
    rfl

end Elements

section Scans
variable {buffer : Bytes} {position : Nat} {missing : List Nat}

theorem countDown_of_pos {n : Nat} (h : 0 < n) : countDown n = .ok (n - 1) :=
  provided_of h _ _

theorem closeValue_eq (h : ∀ left ∈ missing, 1 ≤ left) :
    closeValue missing = .ok (finishValue missing) := by
  induction missing with
  | nil => rfl
  | cons left outer ih =>
    obtain ⟨hleft, houter⟩ := List.forall_mem_cons.mp h
    rw [closeValue, finishValue, countDown_of_pos hleft, ok_bind]
    by_cases hlast : left ≤ 1
    · rw [if_pos hlast, if_neg (by omega), ih houter]
    · rw [if_neg hlast, if_pos (by omega)]

/-- An array that expects nothing would be counted below zero. -/
example : closeValue [1, 0] = .error (.trap .underflow) := rfl

theorem steady_finish (h : Steady missing) : Steady (finishValue missing) := by
  induction missing with
  | nil => exact h
  | cons left outer ih =>
    obtain ⟨hleft, houter⟩ := List.forall_mem_cons.mp h.counts
    have hdepth := h.depth
    rw [List.length_cons] at hdepth
    rw [finishValue]
    split
    · exact ih ⟨by omega, houter⟩
    · exact ⟨hdepth, List.forall_mem_cons.mpr ⟨by omega, houter⟩⟩

theorem steady_enter {items : Nat} (h : Steady missing) (hi : 0 < items)
    (hd : missing.length < maxDepth) : Steady (items :: missing) :=
  ⟨hd, List.forall_mem_cons.mpr ⟨hi, h.counts⟩⟩

/-- What a scan keeps is sound again after it, however it ends. -/
theorem advance_steady (bytes : Bytes) (h : Steady missing) :
    Steady (Scanner.advance position missing bytes).1.missing := by
  fun_induction Scanner.advance position missing bytes with
  | case1 | case2 | case3 => exact h
  | case4 position missing bytes element hread hpos hd ih =>
    exact ih (steady_enter h hpos (by omega))
  | case5 => exact ⟨by simp, by simp⟩
  | case6 position missing bytes element hread hpos hopen ih => exact ih (steady_finish h)

section Steps
variable {next items : Nat} (h : Steady missing)
include h

theorem advance_stop {stop : Stop} (hp : passElement buffer position = .error stop) :
    advance buffer position missing = (⟨position, missing⟩, .error stop) := by
  rw [advance, if_neg (not_not_intro h), hp]

variable (hp : passElement buffer position = .ok (next, items)) (hlt : position < next)
  (hle : next ≤ buffer.length)
include hp hlt hle

theorem advance_too_deep (hi : 0 < items) (hd : maxDepth ≤ missing.length) :
    advance buffer position missing = (⟨next, missing⟩, .error (.fault .tooDeep)) := by
  rw [advance, if_neg (not_not_intro h), hp]
  dsimp only
  rw [dif_neg (by omega), if_pos hi, if_pos hd]

theorem advance_enter (hi : 0 < items) (hd : missing.length < maxDepth) :
    advance buffer position missing = advance buffer next (items :: missing) := by
  rw [advance, if_neg (not_not_intro h), hp]
  dsimp only
  rw [dif_neg (by omega), if_pos hi, if_neg (by omega)]

theorem advance_last (hi : items = 0) (hf : finishValue missing = []) :
    advance buffer position missing = ({}, .ok next) := by
  rw [advance, if_neg (not_not_intro h), hp]
  dsimp only
  rw [dif_neg (by omega), if_neg (by omega), closeValue_eq h.counts, hf]

theorem advance_open (hi : items = 0) (hf : finishValue missing ≠ []) :
    advance buffer position missing = advance buffer next (finishValue missing) := by
  rw [advance, if_neg (not_not_intro h), hp]
  dsimp only
  rw [dif_neg (by omega), if_neg (by omega), closeValue_eq h.counts]
  rcases hopen : finishValue missing with _ | ⟨left, outer⟩
  · exact absurd hopen hf
  · rfl

end Steps

/-- The element that is read is passed, and it ends within the buffer. -/
theorem passElement_of_read (hw : buffer.length < 2 ^ 62) {element : Element}
    (hr : Element.read (buffer.drop position) = .ok (some element)) :
    passElement buffer position = .ok (position + element.size, element.items) ∧
      position < position + element.size ∧ position + element.size ≤ buffer.length := by
  have hpos := element.size_pos
  have hle := Element.size_le_of_read hr
  rw [List.length_drop] at hle
  refine ⟨?_, by omega, by omega⟩
  rw [passElement_eq hw, hr]
  rfl

/-- No step of a scan traps on a buffer that a machine can hold, wherever the scan goes on, and it
answers as the scan of the octets does. -/
theorem advance_eq_answer (hw : buffer.length < 2 ^ 62) (h : Steady missing) :
    advance buffer position missing =
      ((Scanner.advance position missing (buffer.drop position)).1,
        answer (Scanner.advance position missing (buffer.drop position)).2) := by
  obtain ⟨bytes, hbytes⟩ : ∃ bytes, buffer.drop position = bytes := ⟨_, rfl⟩
  rw [hbytes]
  fun_induction Scanner.advance position missing bytes with
  | case1 position missing bytes fault hread =>
    refine advance_stop h ?_
    rw [passElement_eq hw, hbytes, hread]
    rfl
  | case2 position missing bytes hread =>
    refine advance_stop h ?_
    rw [passElement_eq hw, hbytes, hread]
    rfl
  | case3 position missing bytes element hread hpos hd =>
    obtain ⟨hp, hlt, hle⟩ := passElement_of_read hw (hbytes ▸ hread)
    exact advance_too_deep h hp hlt hle hpos hd
  | case4 position missing bytes element hread hpos hd ih =>
    obtain ⟨hp, hlt, hle⟩ := passElement_of_read hw (hbytes ▸ hread)
    rw [advance_enter h hp hlt hle hpos (by omega)]
    exact ih (steady_enter h hpos (by omega)) (by rw [← hbytes, List.drop_drop])
  | case5 position missing bytes element hread hpos hlast =>
    obtain ⟨hp, hlt, hle⟩ := passElement_of_read hw (hbytes ▸ hread)
    exact advance_last h hp hlt hle (by omega) hlast
  | case6 position missing bytes element hread hpos hopen ih =>
    obtain ⟨hp, hlt, hle⟩ := passElement_of_read hw (hbytes ▸ hread)
    rw [advance_open h hp hlt hle (by omega) hopen]
    exact ih (steady_finish h) (by rw [← hbytes, List.drop_drop])

end Scans

/-- What a scan leaves, and what it answers in guarded steps. -/
def answered (scanned : Scanner × Except Fault (Option Nat)) : Scanner × Guarded Nat :=
  (scanned.1, answer scanned.2)

/-- One scan: no trap, the answer of the scanner, and what it keeps is sound again. -/
theorem scan_eq_answered {scanner : Scanner} {buffer : Bytes} (hw : buffer.length < 2 ^ 62)
    (h : Steady scanner.missing) :
    scan scanner buffer = answered (scanner.scan buffer) ∧
      Steady (scanner.scan buffer).1.missing :=
  ⟨advance_eq_answer hw h, advance_steady _ h⟩

/-- Any run of scans: the same after each of them. -/
theorem scans_eq_answered {scanner : Scanner} {buffers : List Bytes}
    (hw : ∀ buffer ∈ buffers, buffer.length < 2 ^ 62) (h : Steady scanner.missing) :
    scans scanner buffers = (scanner.scans buffers).map answered ∧
      ∀ scanned ∈ scanner.scans buffers, Steady scanned.1.missing := by
  induction buffers generalizing scanner with
  | nil => exact ⟨rfl, by simp [Scanner.scans]⟩
  | cons buffer buffers ih =>
    obtain ⟨hbuffer, hbuffers⟩ := List.forall_mem_cons.mp hw
    obtain ⟨hscan, hsteady⟩ := scan_eq_answered hbuffer h
    obtain ⟨hscans, hlater⟩ := ih hbuffers hsteady
    rw [scans, Scanner.scans, List.map_cons, hscan, ← hscans]
    exact ⟨rfl, List.forall_mem_cons.mpr ⟨hsteady, hlater⟩⟩

/-- In words of 64 bits, parsing and framing never index out of range and never leave the words. On
every buffer of fewer than `2 ^ 62` octets the guarded parser does not trap and answers as the
parser does, with a place in the buffer. Over every run of scans of such buffers from a fresh
scanner, growing, shrinking or unrelated, and behind every fault, the guarded scanner does not trap
and answers and leaves what the scanner does: never more arrays than may be open, and each of them
still expects an item. -/
theorem guarded_steps_never_trap :
    (∀ buffer : Bytes, buffer.length < 2 ^ 62 → parse buffer = answer (Parser.parse buffer) ∧
      (∀ trap, parse buffer ≠ .error (.trap trap)) ∧
      ∀ value n, Parser.parse buffer = .ok (some (value, n)) → n ≤ buffer.length) ∧
    ∀ buffers : List Bytes, (∀ buffer ∈ buffers, buffer.length < 2 ^ 62) →
      scans {} buffers = (({} : Scanner).scans buffers).map answered ∧
      (∀ scanned ∈ scans {} buffers, ∀ trap, scanned.2 ≠ .error (.trap trap)) ∧
      ∀ scanned ∈ ({} : Scanner).scans buffers, scanned.1.missing.length ≤ maxDepth ∧
        ∀ left ∈ scanned.1.missing, 1 ≤ left := by
  refine ⟨fun buffer hw => ?_, fun buffers hw => ?_⟩
  · have hparse := parse_eq_answer hw
    refine ⟨hparse, fun trap => hparse ▸ answer_ne_trap _ trap, fun value n h => ?_⟩
    obtain ⟨octets, rest, rfl, rfl, -⟩ := parse_eq_some_iff.mp h
    simp
  · have hfresh : Steady ({} : Scanner).missing := by decide
    obtain ⟨hscans, hsteady⟩ := scans_eq_answered hw hfresh
    refine ⟨hscans, fun scanned hs trap => ?_, fun scanned hs => ?_⟩
    · rw [hscans] at hs
      obtain ⟨found, -, rfl⟩ := List.mem_map.mp hs
      exact answer_ne_trap found.2 trap
    · exact ⟨(hsteady scanned hs).depth, (hsteady scanned hs).counts⟩

/-- The greatest length that can be declared, in a buffer and in a scan. Then a buffer that ends
where the scan goes on, one that has nothing to do with it, one that completes it, and an array that
lies too deep. -/
theorem guarded_steps_never_trap_unrelated :
    let header : Bytes := Value.line 0x24 (Decimal.digits 9223372036854775807)
    let pair : Bytes := [0x2a, 0x32, 0x0d, 0x0a]
    let one : Bytes := [0x3a, 0x31, 0x0d, 0x0a]
    let buffers : List Bytes :=
      [pair ++ header, one, one ++ [0x3f, 0x0d, 0x0a], pair ++ one ++ one, Scanner.nested 65 one,
        []]
    let left : List (Scanner × Guarded Nat) :=
      [(⟨4, [2]⟩, .error .incomplete), (⟨4, [2]⟩, .error .incomplete),
        (⟨4, [2]⟩, .error (.fault (.unknownType 0x3f))), ({}, .ok 12),
        (⟨260, List.replicate 64 1⟩, .error (.fault .tooDeep)),
        (⟨260, List.replicate 64 1⟩, .error .incomplete)]
    (parse header = .error .incomplete ∧ ∀ trap, parse header ≠ .error (.trap trap)) ∧
      (Parser.parse one = .ok (some (.integer 1, 4)) ∧ 4 ≤ one.length) ∧
      scans {} buffers = left ∧ ∀ scanned ∈ scans {} buffers, ∀ trap,
        scanned.2 ≠ .error (.trap trap) := by
  intro header pair one buffers left
  have hheader : header.length < 2 ^ 62 := by decide +kernel
  have hone : Parser.parse one = .ok (some (.integer 1, 4)) := by cbv
  have hbuffers : ∀ buffer ∈ buffers, buffer.length < 2 ^ 62 := by decide +kernel
  have hparse := guarded_steps_never_trap.1 header hheader
  have hfound := (guarded_steps_never_trap.1 one (by decide)).2.2 (.integer 1) 4 hone
  have hscans := guarded_steps_never_trap.2 buffers hbuffers
  have hnone : Parser.parse header = .ok none := by cbv
  have hanswers : (({} : Scanner).scans buffers).map answered = left := by decide +kernel
  exact ⟨⟨by rw [hparse.1, hnone, answer], hparse.2.1⟩, ⟨hone, hfound⟩, hscans.1.trans hanswers,
    hscans.2.1⟩

end Guarded
end SortedSetClient.Resp
