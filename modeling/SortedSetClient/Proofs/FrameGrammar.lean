import SortedSetClient.Proofs.HeaderReading

/-! The written forms of values as a grammar, free of how they are read. The parser reads a value
from the front of a buffer exactly where the buffer begins with a frame of it. -/
namespace SortedSetClient.Resp
open Decimal (Spells)

mutual

/-- The octets spell the value inside `depth` arrays. -/
inductive Frame : Nat → Value → Bytes → Prop where
  | simple {depth : Nat} {line : Bytes} : Unbroken line →
      Frame depth (.simple (Utf8.decodeLossy line)) (Value.line 0x2b line)
  | error {depth : Nat} {line : Bytes} : Unbroken line →
      Frame depth (.error (Utf8.decodeLossy line)) (Value.line 0x2d line)
  | integer {depth : Nat} {text : Bytes} {n : Int64} : Spells text n.toInt →
      Frame depth (.integer n) (Value.line 0x3a text)
  | bulk {depth : Nat} {text data : Bytes} : Spells text data.length → data.length < 2 ^ 63 →
      Frame depth (.bulk data) (Value.line 0x24 text ++ data ++ [0x0d, 0x0a])
  | nilBulk {depth : Nat} {text : Bytes} : Spells text (-1) →
      Frame depth .nilBulk (Value.line 0x24 text)
  | array {depth : Nat} {text octets : Bytes} {items : List Value} :
      Spells text items.length → items.length < 2 ^ 63 → (items ≠ [] → depth < maxDepth) →
      Frames (depth + 1) items octets → Frame depth (.array items) (Value.line 0x2a text ++ octets)
  | nilArray {depth : Nat} {text : Bytes} : Spells text (-1) →
      Frame depth .nilArray (Value.line 0x2a text)

/-- The octets spell the values one after another. -/
inductive Frames : Nat → List Value → Bytes → Prop where
  | nil {depth : Nat} : Frames depth [] []
  | cons {depth : Nat} {item : Value} {items : List Value} {octets others : Bytes} :
      Frame depth item octets → Frames depth items others →
      Frames depth (item :: items) (octets ++ others)

end

section Complete
open Resp.Parser

private theorem unbroken_spells {text : Bytes} {i : Int} (h : Spells text i) : Unbroken text := by
  simpa using unbroken_append_of_not_mem h.not_mem unbroken_nil

private theorem readInteger_count {text : Bytes} {k : Nat} (h : Spells text k) (hk : k < 2 ^ 63) :
    readInteger text = .ok (Int64.ofNat k) :=
  readInteger_eq_ok_iff.mpr ((Int64.toInt_ofNat_of_lt hk).symm ▸ h)

private theorem readInteger_nil {text : Bytes} (h : Spells text (-1)) :
    readInteger text = .ok (-1) :=
  readInteger_eq_ok_iff.mpr h

mutual

/-- A frame is read as its value, whatever comes after it. -/
theorem Frame.read {depth levels : Nat} {value : Value} {octets : Bytes}
    (hl : depth + levels = maxDepth) (rest : Bytes) :
    Frame depth value octets → readWithin levels (octets ++ rest) = .ok (some (value, rest))
  | .simple h => by
    rw [readWithin_eq, line_append, readValue, readLine_line h]
    rfl
  | .error h => by
    rw [readWithin_eq, line_append, readValue, readLine_line h]
    rfl
  | .integer h => by
    rw [readWithin_eq, line_append, readValue, readCounted_line (unbroken_spells h),
      readInteger_eq_ok_iff.mpr h]
    rfl
  | .bulk h hk => by
    rw [readWithin_eq, List.append_assoc, List.append_assoc, line_append, readValue,
      readCounted_line (unbroken_spells h), readInteger_count h hk]
    exact (readBulk_data hk _ _ rest).trans (if_pos ⟨rfl, rfl⟩)
  | .nilBulk h => by
    rw [readWithin_eq, line_append, readValue, readCounted_line (unbroken_spells h),
      readInteger_nil h]
    rfl
  | .nilArray h => by
    rw [readWithin_eq, line_append, readValue, readCounted_line (unbroken_spells h),
      readInteger_nil h]
    rfl
  | @Frame.array _ _ _ items h hk hd hs => by
    rw [readWithin_eq, List.append_assoc, line_append, readValue,
      readCounted_line (unbroken_spells h), readInteger_count h hk]
    cases items with
    | nil =>
      cases hs
      rfl
    | cons item items =>
      have := hd (by simp)
      obtain ⟨inner, rfl⟩ : ∃ inner, levels = inner + 1 := ⟨levels - 1, by omega⟩
      refine (readArray_count hk (by simp) _).trans ?_
      rw [readInside, hs.read (by omega) [] rest]
      rfl

/-- Frames one after another are read as their values, behind those already read. -/
theorem Frames.read {depth levels : Nat} {items : List Value} {octets : Bytes}
    (hl : depth + levels = maxDepth) (before : List Value) (rest : Bytes) :
    Frames depth items octets → readItems (readWithin levels) before items.length (octets ++ rest) =
      .ok (some (before.reverse ++ items, rest))
  | .nil => by simp [readItems]
  | @Frames.cons _ item _ _ _ h hs => by
    rw [List.append_assoc, List.length_cons, readItems, h.read hl]
    refine (hs.read hl (item :: before) rest).trans ?_
    simp

end

end Complete

section Sound
open Resp.Parser
variable {depth : Nat} {bytes rest : Bytes} {value : Value}

private theorem line_of_readLine {α : Type} {make : Bytes → Except Fault α} {a : α}
    (h : readLine make bytes = .ok (some (a, rest))) :
    ∃ line, Unbroken line ∧ bytes = line ++ 0x0d :: 0x0a :: rest ∧ make line = .ok a := by
  rcases unbroken_or_line bytes with hu | ⟨line, tail, hl, rfl⟩
  · rw [readLine_unbroken hu] at h
    cases h
  · rw [readLine_line hl] at h
    cases hm : make line with
    | error => rw [hm] at h; cases h
    | ok b =>
      rw [hm] at h
      cases h
      exact ⟨line, hl, rfl, hm⟩

private theorem line_of_readCounted {next : Int64 → Bytes → Reading Value}
    (h : readCounted next bytes = .ok (some (value, rest))) :
    ∃ text n tail, Spells text (Int64.toInt n) ∧ bytes = text ++ 0x0d :: 0x0a :: tail ∧
      next n tail = .ok (some (value, rest)) := by
  rcases unbroken_or_line bytes with hu | ⟨text, tail, hl, rfl⟩
  · rw [readCounted_unbroken hu] at h
    cases h
  · rw [readCounted_line hl] at h
    cases hn : readInteger text with
    | error => rw [hn] at h; cases h
    | ok n =>
      rw [hn] at h
      exact ⟨text, n, tail, readInteger_eq_ok_iff.mp hn, rfl, h⟩

private theorem frame_of_readBulk {n : Int64} {text tail : Bytes} (ht : Spells text n.toInt)
    (h : readBulk n tail = .ok (some (value, rest))) :
    ∃ octets, 0x24 :: (text ++ 0x0d :: 0x0a :: tail) = octets ++ rest ∧
      Frame depth value octets := by
  rcases length_cases n with rfl | hn | ⟨k, hk, rfl⟩
  · cases h
    exact ⟨_, (line_append _ _ _).symm, .nilBulk ht⟩
  · rw [readBulk_refused hn] at h
    cases h
  · rcases data_cases k tail with hs | ⟨data, a, b, tail, rfl, rfl⟩
    · rw [readBulk_short hk hs] at h
      cases h
    · rw [readBulk_data hk] at h
      split at h
      · next he =>
        obtain ⟨rfl, rfl⟩ := he
        cases h
        rw [Int64.toInt_ofNat_of_lt hk] at ht
        exact ⟨_, by simp [Value.line], .bulk ht hk⟩
      · cases h

private theorem frame_of_readArray {inside : Nat → Bytes → Reading (List Value)}
    (hi : ∀ n bytes items rest, inside n bytes = .ok (some (items, rest)) →
      ∃ octets, bytes = octets ++ rest ∧ items.length = n ∧ depth < maxDepth ∧
        Frames (depth + 1) items octets)
    {n : Int64} {text tail : Bytes} (ht : Spells text n.toInt)
    (h : readArray inside n tail = .ok (some (value, rest))) :
    ∃ octets, 0x2a :: (text ++ 0x0d :: 0x0a :: tail) = octets ++ rest ∧
      Frame depth value octets := by
  rcases length_cases n with rfl | hn | ⟨k, hk, rfl⟩
  · cases h
    exact ⟨_, (line_append _ _ _).symm, .nilArray ht⟩
  · rw [readArray_refused hn] at h
    cases h
  · rw [Int64.toInt_ofNat_of_lt hk] at ht
    by_cases h0 : 0 < k
    · rw [readArray_count hk h0] at h
      match hin : inside k tail with
      | .error _ => rw [hin] at h; cases h
      | .ok none => rw [hin] at h; cases h
      | .ok (some (items, left)) =>
        rw [hin] at h
        cases h
        obtain ⟨octets, rfl, rfl, hd, hs⟩ := hi _ _ _ _ hin
        exact ⟨_, by simp [Value.line], .array ht hk (fun _ => hd) hs⟩
    · obtain rfl : k = 0 := by omega
      cases h
      have hf : Frame depth (.array []) (Value.line 0x2a text ++ []) :=
        .array ht (by simp) (by simp) .nil
      exact ⟨_, by simp [Value.line], hf⟩

private theorem frame_of_readValue {inside : Nat → Bytes → Reading (List Value)}
    (hi : ∀ n bytes items rest, inside n bytes = .ok (some (items, rest)) →
      ∃ octets, bytes = octets ++ rest ∧ items.length = n ∧ depth < maxDepth ∧
        Frames (depth + 1) items octets)
    (h : readValue inside bytes = .ok (some (value, rest))) :
    ∃ octets, bytes = octets ++ rest ∧ Frame depth value octets := by
  unfold readValue at h
  split at h
  · cases h
  · obtain ⟨line, hl, rfl, ha⟩ := line_of_readLine h
    cases ha
    exact ⟨_, (line_append _ _ _).symm, .simple hl⟩
  · obtain ⟨line, hl, rfl, ha⟩ := line_of_readLine h
    cases ha
    exact ⟨_, (line_append _ _ _).symm, .error hl⟩
  · obtain ⟨text, n, tail, ht, rfl, hn⟩ := line_of_readCounted h
    cases hn
    exact ⟨_, (line_append _ _ _).symm, .integer ht⟩
  · obtain ⟨text, n, tail, ht, rfl, hn⟩ := line_of_readCounted h
    exact frame_of_readBulk ht hn
  · obtain ⟨text, n, tail, ht, rfl, hn⟩ := line_of_readCounted h
    exact frame_of_readArray hi ht hn
  · cases h

private theorem frames_of_readItems {read : Bytes → Reading Value}
    (hr : ∀ bytes value rest, read bytes = .ok (some (value, rest)) →
      ∃ octets, bytes = octets ++ rest ∧ Frame depth value octets)
    {before items : List Value} {n : Nat}
    (h : readItems read before n bytes = .ok (some (items, rest))) :
    ∃ list octets, items = before.reverse ++ list ∧ list.length = n ∧ bytes = octets ++ rest ∧
      Frames depth list octets := by
  fun_induction readItems read before n bytes with
  | case1 before bytes =>
    cases h
    exact ⟨[], [], by simp, rfl, rfl, .nil⟩
  | case2 => cases h
  | case3 => cases h
  | case4 before n bytes item tail hread ih =>
    obtain ⟨octets, rfl, hf⟩ := hr _ _ _ hread
    obtain ⟨list, others, rfl, rfl, rfl, hs⟩ := ih h
    exact ⟨item :: list, octets ++ others, by simp, rfl, by simp, .cons hf hs⟩

/-- What is read as a value is a frame of it. -/
theorem frame_of_readWithin {levels : Nat} (hl : depth + levels = maxDepth)
    (h : readWithin levels bytes = .ok (some (value, rest))) :
    ∃ octets, bytes = octets ++ rest ∧ Frame depth value octets := by
  induction levels generalizing depth bytes rest value with
  | zero => exact frame_of_readValue (fun _ _ _ _ h => by cases h) h
  | succ levels ih =>
    refine frame_of_readValue (fun n bytes items rest h => ?_) h
    obtain ⟨list, octets, rfl, rfl, rfl, hs⟩ :=
      frames_of_readItems (fun _ _ _ => @ih (depth + 1) _ _ _ (by omega)) h
    exact ⟨octets, rfl, rfl, by omega, hs⟩

end Sound

/-- The parser finds a value exactly where a frame of it begins, and counts its octets. -/
theorem parse_eq_some_iff {buffer : Bytes} {value : Value} {n : Nat} :
    Parser.parse buffer = .ok (some (value, n)) ↔
      ∃ octets rest, buffer = octets ++ rest ∧ octets.length = n ∧ Frame 0 value octets := by
  constructor
  · intro h
    rw [Parser.parse] at h
    match hr : Parser.readWithin maxDepth buffer with
    | .error _ => rw [hr] at h; cases h
    | .ok none => rw [hr] at h; cases h
    | .ok (some (found, rest)) =>
      rw [hr] at h
      cases h
      obtain ⟨octets, rfl, hf⟩ := frame_of_readWithin (Nat.zero_add _) hr
      exact ⟨octets, rest, rfl, by simp, hf⟩
  · rintro ⟨octets, rest, rfl, rfl, hf⟩
    rw [Parser.parse, hf.read (Nat.zero_add _)]
    simp [Except.map]

/-- A frame that begins another frame is all of it, and they spell the same value. -/
theorem Frame.eq_of_prefix {depth : Nat} {value other : Value} {octets longer : Bytes}
    (hd : depth ≤ maxDepth) (h : Frame depth value octets) (h' : Frame depth other longer)
    (hp : octets <+: longer) : value = other ∧ octets = longer := by
  obtain ⟨rest, rfl⟩ := hp
  have hl : depth + (maxDepth - depth) = maxDepth := Nat.add_sub_cancel' hd
  have hlonger := h'.read hl []
  rw [List.append_nil, h.read hl rest] at hlonger
  cases hlonger
  exact ⟨rfl, (List.append_nil octets).symm⟩

/-- The parser accepts exactly the grammar: it finds a value in the octets at the front of a buffer
that are a frame of it. The frames of one place are told apart by their front alone, so there is at
most one such value. -/
theorem parse_accepts_frames :
    (∀ buffer value n, Parser.parse buffer = .ok (some (value, n)) ↔
      n ≤ buffer.length ∧ Frame 0 value (buffer.take n)) ∧
    ∀ depth value other octets longer, depth ≤ maxDepth → Frame depth value octets →
      Frame depth other longer → octets <+: longer → value = other ∧ octets = longer := by
  refine ⟨fun buffer value n => ?_, fun depth value other octets longer => Frame.eq_of_prefix⟩
  rw [parse_eq_some_iff]
  constructor
  · rintro ⟨octets, rest, rfl, rfl, hf⟩
    exact ⟨by simp, by rwa [List.take_left]⟩
  · rintro ⟨hn, hf⟩
    exact ⟨buffer.take n, buffer.drop n, (List.take_append_drop n buffer).symm,
      List.length_take_of_le hn, hf⟩

/-- Lengths with a sign and leading zeros, data that hold a line end, and a line of half of one. -/
theorem parse_accepts_signed_lengths :
    let buffer : Bytes :=
      [0x2a, 0x2b, 0x33, 0x0d, 0x0a, 0x24, 0x30, 0x33, 0x0d, 0x0a, 0x0d, 0x0a, 0x3a, 0x0d, 0x0a,
        0x2b, 0x0d, 0x0d, 0x0a, 0x2a, 0x2d, 0x30, 0x0d, 0x0a, 0x3a]
    let value : Value := .array [.bulk [0x0d, 0x0a, 0x3a], .simple "\r", .array []]
    Parser.parse buffer = .ok (some (value, 24)) ∧ Frame 0 value (buffer.take 24) ∧
      ∀ other longer, Frame 0 other longer → buffer.take 24 <+: longer →
        value = other ∧ buffer.take 24 = longer := by
  intro buffer value
  have hp : Parser.parse buffer = .ok (some (value, 24)) := by cbv
  have hf : Frame 0 value (buffer.take 24) := ((parse_accepts_frames.1 buffer value 24).mp hp).2
  exact ⟨hp, hf, fun other longer =>
    parse_accepts_frames.2 0 value other _ longer (Nat.zero_le _) hf⟩

end SortedSetClient.Resp
