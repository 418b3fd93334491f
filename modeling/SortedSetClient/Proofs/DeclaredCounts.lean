import SortedSetClient.Proofs.FrameGrammar
import SortedSetClient.Proofs.ScannerResumption

/-! What a declared count can cost. A header may announce more items than will ever arrive, but
every value that the parser begins, and every round of the scanner, finds at least three octets
fewer unread than the one before. The octets at hand bound the rounds, and those of a value bound
its parts and its data, whatever the headers say. -/
namespace SortedSetClient.Resp

/-- The octets unread at the rounds of a run, in order: within bounds, and each time at least three
fewer. -/
structure Sinking (low high : Nat) (rounds : List Nat) : Prop where
  bounds : ∀ unread ∈ rounds, low ≤ unread ∧ unread ≤ high
  apart : rounds.Pairwise fun earlier later => later + 3 ≤ earlier

namespace Sinking
variable {low high low' high' : Nat} {rounds next : List Nat}

theorem nil : Sinking low high [] := ⟨by simp, .nil⟩

theorem append (h : Sinking low high rounds) (hn : Sinking low' high' next) (hl : low' ≤ low)
    (hh : high' ≤ high) (hb : high' + 3 ≤ low) : Sinking low' high (rounds ++ next) := by
  constructor
  · intro unread hm
    rcases List.mem_append.mp hm with hm | hm
    · exact ⟨hl.trans (h.bounds _ hm).1, (h.bounds _ hm).2⟩
    · exact ⟨(hn.bounds _ hm).1, (hn.bounds _ hm).2.trans hh⟩
  · refine List.pairwise_append.mpr ⟨h.apart, hn.apart, fun earlier he later hl => ?_⟩
    have := (h.bounds _ he).1
    have := (hn.bounds _ hl).2
    omega

theorem single {unread : Nat} (h : low ≤ unread) : Sinking low unread [unread] :=
  ⟨by simpa using h, by simp⟩

/-- A first round goes before others that lie three octets further on. -/
theorem cons {unread : Nat} (h : Sinking low high rounds) (hl : low ≤ unread)
    (hh : high + 3 ≤ unread) : Sinking low unread (unread :: rounds) :=
  (single (Nat.le_refl unread)).append h hl (by omega) hh

/-- The octets unread at first pay for all rounds but the last, which may take none. -/
theorem length_le (h : Sinking 0 high rounds) : 3 * rounds.length ≤ high + 3 := by
  induction rounds generalizing high with
  | nil => simp
  | cons unread rounds ih =>
    obtain ⟨hlater, hapart⟩ := List.pairwise_cons.mp h.apart
    have hu := h.bounds unread (by simp)
    cases rounds with
    | nil =>
      simp only [List.length_cons, List.length_nil]
      omega
    | cons later rounds =>
      have := hlater later (by simp)
      have hrest : Sinking 0 (unread - 3) (later :: rounds) :=
        ⟨fun round hm => by have := hlater round hm; omega, hapart⟩
      have := ih hrest
      rw [List.length_cons]
      omega

end Sinking

namespace Value

mutual

/-- The values that a value is made of, itself among them. -/
def nodes : Value → Nat
  | array items => nodesAll items + 1
  | _ => 1

/-- The values that values are made of. -/
def nodesAll : List Value → Nat
  | [] => 0
  | item :: items => nodes item + nodesAll items

end

mutual

/-- The octets of all bulk data in a value. -/
def dataOctets : Value → Nat
  | bulk data => data.length
  | array items => dataOctetsAll items
  | _ => 0

/-- The octets of all bulk data in values. -/
def dataOctetsAll : List Value → Nat
  | [] => 0
  | item :: items => dataOctets item + dataOctetsAll items

end

theorem nodes_pos (value : Value) : 0 < value.nodes := by
  cases value <;> simp [nodes]

theorem nodesAll_eq_sum (items : List Value) : nodesAll items = (items.map nodes).sum := by
  induction items with
  | nil => rfl
  | cons item items ih => rw [nodesAll, ih, List.map_cons, List.sum_cons]

theorem nodesAll_reverse (items : List Value) : nodesAll items.reverse = nodesAll items := by
  rw [nodesAll_eq_sum, nodesAll_eq_sum, List.map_reverse, List.sum_reverse]

end Value

mutual

/-- A frame has three octets for each value in it, the data apart. -/
theorem Frame.size_le {depth : Nat} {value : Value} {octets : Bytes} :
    Frame depth value octets → 3 * value.nodes + value.dataOctets ≤ octets.length
  | .simple _ | .error _ | .integer _ | .nilBulk _ | .nilArray _ => by
    simp [Value.nodes, Value.dataOctets]
  | .bulk _ _ => by
    simp only [Value.nodes, Value.dataOctets, List.length_append, Value.length_line]
    omega
  | .array _ _ _ hs => by
    have := hs.size_le
    simp only [Value.nodes, Value.dataOctets, List.length_append, Value.length_line]
    omega

/-- The same for frames one after another. -/
theorem Frames.size_le {depth : Nat} {items : List Value} {octets : Bytes} :
    Frames depth items octets →
      3 * Value.nodesAll items + Value.dataOctetsAll items ≤ octets.length
  | .nil => by simp [Value.nodesAll, Value.dataOctetsAll]
  | .cons h hs => by
    have := h.size_le
    have := hs.size_le
    simp only [Value.nodesAll, Value.dataOctetsAll, List.length_append]
    omega

end

namespace Parser

/-- A reading, and the octets still unread where each of its values began, in order. -/
structure Metered (α : Type) where
  reading : Reading α
  begun : List Nat

namespace Metered
variable {α β : Type}

/-- A reading that begins no value. -/
def still (reading : Reading α) : Metered α := ⟨reading, []⟩

/-- A value begins where that many octets are unread. -/
def note (unread : Nat) (metered : Metered α) : Metered α :=
  { metered with begun := unread :: metered.begun }

/-- Go on behind what was read. -/
def andThen (first : Metered α) (next : α → Bytes → Metered β) : Metered β :=
  match first.reading with
  | .error fault => ⟨.error fault, first.begun⟩
  | .ok none => ⟨.ok none, first.begun⟩
  | .ok (some (a, rest)) => ⟨(next a rest).reading, first.begun ++ (next a rest).begun⟩

/-- `Parser.readItems`, metered. -/
def readItems (read : Bytes → Metered Value) (items : List Value) :
    Nat → Bytes → Metered (List Value)
  | 0, bytes => still (.ok (some (items.reverse, bytes)))
  | n + 1, bytes => (read bytes).andThen fun item rest => readItems read (item :: items) n rest

/-- `Parser.readArray`, metered. -/
def readArray (inside : Nat → Bytes → Metered (List Value)) (length : Int64) (bytes : Bytes) :
    Metered Value :=
  if length = -1 then still (.ok (some (.nilArray, bytes)))
  else if length < 0 then still (.error (.invalidArrayLength length))
  else if length = 0 then still (.ok (some (.array [], bytes)))
  else (inside length.toNatClampNeg bytes).andThen fun items rest =>
    still (.ok (some (.array items, rest)))

/-- What a type octet leads to. Only an array begins further values. -/
def readContent (inside : Nat → Bytes → Metered (List Value)) : Bytes → Metered Value
  | 0x2a :: header => (still (readLine readInteger header)).andThen (readArray inside)
  | bytes => still (Parser.readWithin 0 bytes)

/-- `Parser.readValue`, metered. -/
def readValue (inside : Nat → Bytes → Metered (List Value)) (bytes : Bytes) : Metered Value :=
  (readContent inside bytes).note bytes.length

/-- `Parser.readWithin`, metered. -/
def readWithin : Nat → Bytes → Metered Value
  | 0 => readValue fun _ _ => still (.error .tooDeep)
  | levels + 1 => readValue (readItems (readWithin levels) [])

/-- `Parser.parse`, metered. -/
def parse (buffer : Bytes) : Except Fault (Option (Value × Nat)) × List Nat :=
  let value := readWithin maxDepth buffer
  (value.reading.map fun read => read.map fun (value, rest) => (value, buffer.length - rest.length),
    value.begun)

section Readings

theorem readItems_reading (read : Bytes → Metered Value) (items : List Value) (n : Nat)
    (bytes : Bytes) : (readItems read items n bytes).reading =
      Parser.readItems (fun bytes => (read bytes).reading) items n bytes := by
  induction n generalizing items bytes with
  | zero => rfl
  | succ n ih =>
    rw [readItems, Parser.readItems, andThen]
    rcases (read bytes).reading with fault | _ | ⟨item, rest⟩
    · rfl
    · rfl
    · exact ih (item :: items) rest

theorem readArray_reading (inside : Nat → Bytes → Metered (List Value)) (length : Int64)
    (bytes : Bytes) : (readArray inside length bytes).reading =
      Parser.readArray (fun n bytes => (inside n bytes).reading) length bytes := by
  rw [readArray, Parser.readArray]
  split
  · rfl
  · split
    · rfl
    · split
      · rfl
      · rw [andThen]
        rcases (inside length.toNatClampNeg bytes).reading with fault | _ | ⟨items, rest⟩ <;> rfl

/-- Only an array asks for what is inside. -/
theorem readValue_leaf (inside other : Nat → Bytes → Reading (List Value)) {bytes : Bytes}
    (h : ∀ header, bytes ≠ 0x2a :: header) :
    Parser.readValue inside bytes = Parser.readValue other bytes := by
  fun_cases Parser.readValue inside bytes with
  | case1 | case2 | case3 | case4 | case5 => rfl
  | case6 header => exact absurd rfl (h header)
  | case7 => simp [Parser.readValue, *]

theorem readValue_reading (inside : Nat → Bytes → Metered (List Value)) (bytes : Bytes) :
    (readValue inside bytes).reading =
      Parser.readValue (fun n bytes => (inside n bytes).reading) bytes := by
  rw [readValue, note]
  fun_cases readContent inside bytes with
  | case1 header =>
    rw [Parser.readValue, readCounted, andThen, still]
    dsimp only
    rcases readLine readInteger header with fault | _ | ⟨n, rest⟩
    · rfl
    · rfl
    · exact readArray_reading inside n rest
  | case2 bytes hleaf => exact readValue_leaf _ _ hleaf

/-- Metering changes nothing of what is read. -/
theorem readWithin_reading (levels : Nat) (bytes : Bytes) :
    (readWithin levels bytes).reading = Parser.readWithin levels bytes := by
  induction levels generalizing bytes with
  | zero => exact readValue_reading _ bytes
  | succ levels ih =>
    rw [readWithin, Parser.readWithin, readValue_reading]
    simp only [readItems_reading, ih]

end Readings

/-- From that many octets on, every value begins at least three octets behind the one before it,
and what is read ends three octets behind the last. -/
structure Sinks (start : Nat) (metered : Metered α) : Prop where
  begun : Sinking 0 start metered.begun
  left : ∀ a rest, metered.reading = .ok (some (a, rest)) →
    rest.length ≤ start ∧ Sinking (rest.length + 3) start metered.begun

section Sinks
variable {start : Nat}

theorem Sinks.still {reading : Reading α}
    (h : ∀ a rest, reading = .ok (some (a, rest)) → rest.length ≤ start) :
    (still reading).Sinks start :=
  ⟨.nil, fun a rest hr => ⟨h a rest hr, .nil⟩⟩

theorem Sinks.here (a : α) (bytes : Bytes) :
    (Metered.still (.ok (some (a, bytes)))).Sinks bytes.length := by
  refine .still fun _ _ h => ?_
  cases h
  exact Nat.le_refl _

theorem Sinks.refused (fault : Fault) : (Metered.still (.error fault : Reading α)).Sinks start :=
  .still fun _ _ h => by cases h

theorem Sinks.andThen {first : Metered α} {next : α → Bytes → Metered β} (h : first.Sinks start)
    (hn : ∀ a rest, first.reading = .ok (some (a, rest)) → (next a rest).Sinks rest.length) :
    (first.andThen next).Sinks start := by
  rw [Metered.andThen]
  split
  · exact ⟨h.begun, fun _ _ hr => by cases hr⟩
  · exact ⟨h.begun, fun _ _ hr => by cases hr⟩
  · next a rest hr =>
    obtain ⟨hle, hfirst⟩ := h.left a rest hr
    have hnext := hn a rest hr
    refine ⟨hfirst.append hnext.begun (by omega) hle (by omega), fun b left hb => ?_⟩
    obtain ⟨hle', hlast⟩ := hnext.left b left hb
    exact ⟨hle'.trans hle, hfirst.append hlast (by omega) hle (by omega)⟩

/-- A value takes three octets before it begins others, and three at least. -/
theorem Sinks.note {metered : Metered α} {unread : Nat} (h : metered.Sinks start)
    (hs : start + 3 ≤ unread) : (metered.note unread).Sinks unread := by
  refine ⟨h.begun.cons (by omega) hs, fun a rest hr => ?_⟩
  obtain ⟨hle, hb⟩ := h.left a rest hr
  exact ⟨by omega, hb.cons (by omega) hs⟩

theorem Sinks.note_still {reading : Reading α} {unread : Nat}
    (h : ∀ a rest, reading = .ok (some (a, rest)) → rest.length + 3 ≤ unread) :
    ((Metered.still reading).note unread).Sinks unread := by
  refine ⟨.single (Nat.zero_le _), fun a rest hr => ?_⟩
  have hle := h a rest hr
  exact ⟨by omega, .single hle⟩

end Sinks

section Rounds

private theorem length_of_readLine {make : Bytes → Except Fault α} {bytes rest : Bytes} {a : α}
    (h : readLine make bytes = .ok (some (a, rest))) : rest.length + 2 ≤ bytes.length := by
  rcases unbroken_or_line bytes with hu | ⟨line, tail, hl, rfl⟩
  · rw [readLine_unbroken hu] at h
    cases h
  · rw [readLine_line hl] at h
    cases hm : make line with
    | error => rw [hm] at h; cases h
    | ok b =>
      rw [hm] at h
      cases h
      simp only [List.length_append, List.length_cons]
      omega

theorem readItems_sinks {read : Bytes → Metered Value}
    (hr : ∀ bytes, (read bytes).Sinks bytes.length) (items : List Value) (n : Nat)
    (bytes : Bytes) : (readItems read items n bytes).Sinks bytes.length := by
  induction n generalizing items bytes with
  | zero => exact .here _ bytes
  | succ n ih => exact (hr bytes).andThen fun item rest _ => ih (item :: items) rest

section Values
variable {inside : Nat → Bytes → Metered (List Value)}
  (hi : ∀ n bytes, (inside n bytes).Sinks bytes.length)
include hi

theorem readArray_sinks (length : Int64) (bytes : Bytes) :
    (readArray inside length bytes).Sinks bytes.length := by
  rw [readArray]
  split
  · exact .here _ bytes
  · split
    · exact .refused _
    · split
      · exact .here _ bytes
      · exact (hi _ bytes).andThen fun items rest _ => .here (Value.array items) rest

theorem readValue_sinks (bytes : Bytes) : (readValue inside bytes).Sinks bytes.length := by
  rw [readValue]
  fun_cases readContent inside bytes with
  | case1 header =>
    rw [andThen, still]
    dsimp only
    rcases hl : readLine readInteger header with fault | _ | ⟨n, rest⟩
    · exact .note_still fun _ _ h => by cases h
    · exact .note_still fun _ _ h => by cases h
    · have := length_of_readLine hl
      exact (readArray_sinks hi n rest).note (by rw [List.length_cons]; omega)
  | case2 bytes =>
    refine .note_still fun value rest h => ?_
    obtain ⟨octets, rfl, hf⟩ := frame_of_readWithin (Nat.add_zero maxDepth) h
    have := hf.size_le
    have := value.nodes_pos
    rw [List.length_append]
    omega

end Values

theorem readWithin_sinks (levels : Nat) (bytes : Bytes) :
    (readWithin levels bytes).Sinks bytes.length := by
  induction levels generalizing bytes with
  | zero => exact readValue_sinks (fun _ _ => .refused .tooDeep) bytes
  | succ levels ih => exact readValue_sinks (readItems_sinks ih []) bytes

theorem parse_sinks (buffer : Bytes) : Sinking 0 buffer.length (parse buffer).2 :=
  (readWithin_sinks maxDepth buffer).begun

end Rounds

section Nodes

theorem readItems_begun {read : Bytes → Metered Value}
    (hr : ∀ bytes item rest, (read bytes).reading = .ok (some (item, rest)) →
      (read bytes).begun.length = item.nodes)
    {items list : List Value} {n : Nat} {bytes rest : Bytes}
    (h : (readItems read items n bytes).reading = .ok (some (list, rest))) :
    (readItems read items n bytes).begun.length + Value.nodesAll items = Value.nodesAll list := by
  induction n generalizing items bytes with
  | zero =>
    cases h
    rw [Value.nodesAll_reverse]
    exact Nat.zero_add _
  | succ n ih =>
    rw [readItems, andThen] at h ⊢
    rcases hitem : (read bytes).reading with fault | _ | ⟨item, tail⟩
    · rw [hitem] at h
      cases h
    · rw [hitem] at h
      cases h
    · rw [hitem] at h
      have hbegun := hr bytes item tail hitem
      have hlater := ih h
      rw [Value.nodesAll] at hlater
      dsimp only
      rw [List.length_append]
      omega

/-- Only an array has further values in it. -/
theorem nodes_leaf {bytes rest : Bytes} {value : Value} (hleaf : ∀ header, bytes ≠ 0x2a :: header)
    (h : Parser.readWithin 0 bytes = .ok (some (value, rest))) : value.nodes = 1 := by
  obtain ⟨octets, rfl, hf⟩ := frame_of_readWithin (Nat.add_zero maxDepth) h
  cases hf with
  | simple | error | integer | bulk | nilBulk | nilArray => rfl
  | array => exact absurd ((List.append_assoc ..).trans (line_append ..)) (hleaf _)

section Values
variable {inside : Nat → Bytes → Metered (List Value)}
  (hi : ∀ n bytes items rest, (inside n bytes).reading = .ok (some (items, rest)) →
    (inside n bytes).begun.length = Value.nodesAll items)
include hi

theorem readArray_begun {length : Int64} {bytes rest : Bytes} {value : Value}
    (h : (readArray inside length bytes).reading = .ok (some (value, rest))) :
    (readArray inside length bytes).begun.length + 1 = value.nodes := by
  revert h
  rw [readArray]
  split
  · rintro ⟨⟩
    rfl
  · split
    · rintro ⟨⟩
    · split
      · rintro ⟨⟩
        rfl
      · rw [andThen]
        rcases hitems : (inside length.toNatClampNeg bytes).reading with fault | _ | ⟨items, tail⟩
        · rintro ⟨⟩
        · rintro ⟨⟩
        · rintro ⟨⟩
          dsimp only
          rw [still, List.append_nil, hi _ _ _ _ hitems, Value.nodes]

theorem readValue_begun {bytes rest : Bytes} {value : Value}
    (h : (readValue inside bytes).reading = .ok (some (value, rest))) :
    (readValue inside bytes).begun.length = value.nodes := by
  revert h
  rw [readValue, note, List.length_cons]
  fun_cases readContent inside bytes with
  | case1 header =>
    rw [andThen, still]
    dsimp only
    rcases readLine readInteger header with fault | _ | ⟨n, tail⟩
    · rintro ⟨⟩
    · rintro ⟨⟩
    · exact readArray_begun hi
  | case2 bytes hleaf => exact fun h => (nodes_leaf hleaf h).symm

end Values

/-- Where a value is read, each of its parts was begun once, and nothing else was. -/
theorem readWithin_begun {levels : Nat} {bytes rest : Bytes} {value : Value}
    (h : (readWithin levels bytes).reading = .ok (some (value, rest))) :
    (readWithin levels bytes).begun.length = value.nodes := by
  induction levels generalizing bytes rest value with
  | zero => exact readValue_begun (fun _ _ _ _ hitems => by cases hitems) h
  | succ levels ih =>
    refine readValue_begun (fun n bytes items rest hitems => ?_) h
    exact readItems_begun (fun _ _ _ => ih) hitems

end Nodes

theorem parse_reading (buffer : Bytes) : (parse buffer).1 = Parser.parse buffer := by
  rw [parse, Parser.parse, readWithin_reading]

theorem parse_begun {buffer : Bytes} {value : Value} {n : Nat}
    (h : Parser.parse buffer = .ok (some (value, n))) : (parse buffer).2.length = value.nodes := by
  rw [← parse_reading, parse] at h
  rcases hr : (readWithin maxDepth buffer).reading with fault | _ | ⟨found, rest⟩
  · rw [hr] at h
    cases h
  · rw [hr] at h
    cases h
  · rw [hr] at h
    cases h
    exact readWithin_begun hr

end Metered
end Parser

namespace Element

theorem three_le_size {bytes : Bytes} {element : Element}
    (h : read bytes = .ok (some element)) : 3 ≤ element.size := by
  obtain ⟨type, line, rest, hl, rfl⟩ := line_of_read (by rw [h]; simp)
  rw [read_line hl] at h
  have := ofHeader_size h
  omega

end Element

namespace Scanner

/-- A round of a scan comes before the others. -/
def noteRound (unread : Nat) (rounds : (Scanner × Except Fault (Option Nat)) × List Nat) :
    (Scanner × Except Fault (Option Nat)) × List Nat :=
  (rounds.1, unread :: rounds.2)

/-- `Scanner.advance` with the octets still unread at each of its rounds, in order. -/
def meteredAdvance (position : Nat) (missing : List Nat) (bytes : Bytes) :
    (Scanner × Except Fault (Option Nat)) × List Nat :=
  match _ : Element.read bytes with
  | .error fault => ((⟨position, missing⟩, .error fault), [bytes.length])
  | .ok none => ((⟨position, missing⟩, .ok none), [bytes.length])
  | .ok (some element) =>
    if 0 < element.items then
      if maxDepth ≤ missing.length then
        ((⟨position + element.size, missing⟩, .error .tooDeep), [bytes.length])
      else
        noteRound bytes.length <| meteredAdvance (position + element.size)
          (element.items :: missing) (bytes.drop element.size)
    else
      match finishValue missing with
      | [] => (({}, .ok (some (position + element.size))), [bytes.length])
      | open' =>
        noteRound bytes.length <| meteredAdvance (position + element.size) open'
          (bytes.drop element.size)
termination_by bytes.length
decreasing_by all_goals exact Element.length_drop_size_lt ‹_›

/-- `Scanner.scan` with the octets still unread at each of its rounds. -/
def meteredScan (scanner : Scanner) (buffer : Bytes) :
    (Scanner × Except Fault (Option Nat)) × List Nat :=
  meteredAdvance scanner.position scanner.missing (buffer.drop scanner.position)

/-- Metering changes nothing of a scan. -/
theorem meteredAdvance_fst (position : Nat) (missing : List Nat) (bytes : Bytes) :
    (meteredAdvance position missing bytes).1 = advance position missing bytes := by
  fun_induction meteredAdvance position missing bytes with
  | case1 position missing bytes fault hread => rw [advance_error _ _ hread]
  | case2 position missing bytes hread => rw [advance_none _ _ hread]
  | case3 position missing bytes element hread hpos hd =>
    rw [advance_too_deep _ hread hpos hd]
  | case4 position missing bytes element hread hpos hd ih =>
    rw [noteRound, advance_enter _ hread hpos (by omega), ih]
  | case5 position missing bytes element hread hpos hlast =>
    rw [advance_finish _ _ hread (by omega), settle_last _ hlast]
  | case6 position missing bytes element hread hpos hopen ih =>
    rw [noteRound, advance_finish _ _ hread (by omega), settle_open _ hopen, ih]

/-- Every round of a scan passes three octets at least, but for the last. -/
theorem meteredAdvance_sinks (position : Nat) (missing : List Nat) (bytes : Bytes) :
    Sinking 0 bytes.length (meteredAdvance position missing bytes).2 := by
  fun_induction meteredAdvance position missing bytes with
  | case1 | case2 | case3 | case5 => exact .single (Nat.zero_le _)
  | case4 position missing bytes element hread _ _ ih
  | case6 position missing bytes element hread _ _ ih =>
    have := Element.three_le_size hread
    have := Element.size_le_of_read hread
    refine ih.cons (Nat.zero_le _) ?_
    rw [List.length_drop]
    omega

theorem meteredScan_sinks (scanner : Scanner) (buffer : Bytes) :
    Sinking 0 (buffer.length - scanner.position) (scanner.meteredScan buffer).2 := by
  rw [← List.length_drop]
  exact meteredAdvance_sinks _ _ _

end Scanner

/-- No count that a peer declares makes the parser or the scanner run past the octets at hand. From
one value begun to the next, and from one round of a scan to the next, at least three octets fewer
are unread, so a run over `n` octets has at most a third of `n + 3` of them, from whatever place
and open counts a scan begins. A value that is read has been begun once for each value in it, and it
has three octets for each of them besides all its data. -/
theorem rounds_bounded_by_octets :
    (∀ buffer, (Parser.Metered.parse buffer).1 = Parser.parse buffer ∧
      Sinking 0 buffer.length (Parser.Metered.parse buffer).2 ∧
      3 * (Parser.Metered.parse buffer).2.length ≤ buffer.length + 3) ∧
    (∀ (scanner : Scanner) buffer, (scanner.meteredScan buffer).1 = scanner.scan buffer ∧
      Sinking 0 (buffer.length - scanner.position) (scanner.meteredScan buffer).2 ∧
      3 * (scanner.meteredScan buffer).2.length ≤ buffer.length - scanner.position + 3) ∧
    ∀ buffer value n, Parser.parse buffer = .ok (some (value, n)) →
      n ≤ buffer.length ∧ (Parser.Metered.parse buffer).2.length = value.nodes ∧
        3 * value.nodes + value.dataOctets ≤ n := by
  refine ⟨fun buffer => ?_, fun scanner buffer => ?_, fun buffer value n h => ?_⟩
  · have hs := Parser.Metered.parse_sinks buffer
    exact ⟨Parser.Metered.parse_reading buffer, hs, hs.length_le⟩
  · have hs := scanner.meteredScan_sinks buffer
    exact ⟨Scanner.meteredAdvance_fst _ _ _, hs, hs.length_le⟩
  · have hbegun := Parser.Metered.parse_begun h
    obtain ⟨octets, rest, rfl, rfl, hf⟩ := parse_eq_some_iff.mp h
    exact ⟨by simp, hbegun, hf.size_le⟩

/-- Two headers that each declare as many items as can be declared, and a value with data. -/
theorem rounds_bounded_by_octets_two_counts :
    let header := Value.line 0x2a (Decimal.digits 9223372036854775807)
    let endless : Bytes := header ++ header ++ [0x3a, 0x31, 0x0d, 0x0a]
    let buffer : Bytes :=
      [0x2a, 0x32, 0x0d, 0x0a, 0x24, 0x32, 0x0d, 0x0a, 0x61, 0x62, 0x0d, 0x0a, 0x2a, 0x30, 0x0d,
        0x0a, 0x2b]
    let value : Value := .array [.bulk [0x61, 0x62], .array []]
    Parser.Metered.parse endless = (.ok none, [48, 26, 4, 0]) ∧
      ({} : Scanner).meteredScan endless =
        ((⟨48, [9223372036854775806, 9223372036854775807]⟩, .ok none), [48, 26, 4, 0]) ∧
      Parser.parse buffer = .ok (some (value, 16)) ∧ 16 ≤ buffer.length ∧
      (Parser.Metered.parse buffer).2.length = value.nodes ∧
      3 * value.nodes + value.dataOctets ≤ 16 := by
  intro header endless buffer value
  have h : Parser.parse buffer = .ok (some (value, 16)) := by cbv
  exact ⟨by cbv, by decide +kernel, h, rounds_bounded_by_octets.2.2 buffer value 16 h⟩

end SortedSetClient.Resp
