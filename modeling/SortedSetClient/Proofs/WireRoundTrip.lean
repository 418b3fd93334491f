import SortedSetClient.Proofs.FrameGrammar
import SortedSetClient.Proofs.LossyText
import SortedSetClient.Utf8.Lemmas

/-! Which values survive their written form: those whose lines hold no line end and whose arrays are
not too deep. The grammar has exactly these, so whatever is read can be written again. -/
namespace SortedSetClient.Resp

namespace Value

mutual

/-- A property of a value and of all values inside it. -/
def Everywhere (p : Value → Prop) : Value → Prop
  | array items => p (array items) ∧ EverywhereAll p items
  | value => p value

/-- A property of values and of all values inside them. -/
def EverywhereAll (p : Value → Prop) : List Value → Prop
  | [] => True
  | item :: items => Everywhere p item ∧ EverywhereAll p items

end

/-- The text written on one line holds no line end. -/
def OneLine : Value → Prop
  | simple text | error text => Unbroken (Utf8.encode text)
  | _ => True

/-- What the header counts fits 63 bits. -/
def Counted : Value → Prop
  | bulk data => data.length < 2 ^ 63
  | array items => items.length < 2 ^ 63
  | _ => True

/-- A value that can be told from its written form. -/
structure Representable (value : Value) : Prop where
  oneLine : value.Everywhere OneLine
  counted : value.Everywhere Counted
  depth_le : value.depth ≤ maxDepth

end Value

open Value

mutual

/-- The written form of a value is a frame of it. -/
theorem frame_encode {level : Nat} : (value : Value) → value.Everywhere OneLine →
    value.Everywhere Counted → level + value.depth ≤ maxDepth → Frame level value value.encode
  | .simple text, hl, _, _ => by
    have h := @Frame.simple level _ hl
    rwa [Utf8.decodeLossy_encode] at h
  | .error text, hl, _, _ => by
    have h := @Frame.error level _ hl
    rwa [Utf8.decodeLossy_encode] at h
  | .integer n, _, _, _ => .integer (Decimal.spells_ofInt n.toInt)
  | .bulk data, _, hc, _ => .bulk (Decimal.spells_digits data.length) hc
  | .nilBulk, _, _, _ => .nilBulk (.minus ⟨by decide, by decide +kernel⟩)
  | .nilArray, _, _, _ => .nilArray (.minus ⟨by decide, by decide +kernel⟩)
  | .array [], _, hc, _ => .array (Decimal.spells_digits 0) hc.1 (by simp) .nil
  | .array (item :: items), hl, hc, hd => by
    rw [depth, ← depthAll] at hd
    exact .array (Decimal.spells_digits _) hc.1 (fun _ => by omega)
      (frames_encodeAll (item :: items) hl.2 hc.2 (by omega))

/-- The written forms of values are frames of them. -/
theorem frames_encodeAll {level : Nat} : (items : List Value) → EverywhereAll OneLine items →
    EverywhereAll Counted items → level + depthAll items ≤ maxDepth →
    Frames level items (encodeAll items)
  | [], _, _, _ => .nil
  | item :: items, hl, hc, hd => by
    rw [depthAll] at hd
    exact .cons (frame_encode item hl.1 hc.1 (by omega))
      (frames_encodeAll items hl.2 hc.2 (by omega))

end

mutual

/-- The grammar has frames of representable values only. -/
theorem Frame.bounds {level : Nat} {value : Value} {octets : Bytes} (hd : level ≤ maxDepth) :
    Frame level value octets →
    value.Everywhere OneLine ∧ value.Everywhere Counted ∧ level + value.depth ≤ maxDepth
  | .simple h => ⟨Utf8.unbroken_decodeLossy h, trivial, hd⟩
  | .error h => ⟨Utf8.unbroken_decodeLossy h, trivial, hd⟩
  | .integer _ => ⟨trivial, trivial, hd⟩
  | .bulk _ hk => ⟨trivial, hk, hd⟩
  | .nilBulk _ => ⟨trivial, trivial, hd⟩
  | .nilArray _ => ⟨trivial, trivial, hd⟩
  | @Frame.array _ _ _ [] _ hk _ _ => ⟨⟨trivial, trivial⟩, ⟨hk, trivial⟩, hd⟩
  | @Frame.array _ _ _ (item :: items) _ hk hl hs => by
    obtain ⟨ho, hc, hi⟩ := hs.bounds (hl (by simp))
    refine ⟨⟨trivial, ho⟩, ⟨hk, hc⟩, ?_⟩
    rw [depth, ← depthAll]
    omega

theorem Frames.bounds {level : Nat} {items : List Value} {octets : Bytes} (hd : level ≤ maxDepth) :
    Frames level items octets →
    EverywhereAll OneLine items ∧ EverywhereAll Counted items ∧ level + depthAll items ≤ maxDepth
  | .nil => ⟨trivial, trivial, hd⟩
  | .cons h hs => by
    obtain ⟨ho, hc, hi⟩ := h.bounds hd
    obtain ⟨hos, hcs, his⟩ := hs.bounds hd
    refine ⟨⟨ho, hos⟩, ⟨hc, hcs⟩, ?_⟩
    rw [depthAll]
    omega

end

/-- A representable value is read back from its written form, whatever comes after it. -/
theorem parse_encode {value : Value} (h : value.Representable) (rest : Bytes) :
    Parser.parse (value.encode ++ rest) = .ok (some (value, value.encode.length)) :=
  parse_eq_some_iff.mpr ⟨_, rest, rfl, rfl,
    frame_encode value h.oneLine h.counted (by simpa using h.depth_le)⟩

theorem representable_of_parse {buffer : Bytes} {value : Value} {n : Nat}
    (h : Parser.parse buffer = .ok (some (value, n))) : value.Representable := by
  obtain ⟨octets, rest, -, -, hf⟩ := parse_eq_some_iff.mp h
  obtain ⟨ho, hc, hd⟩ := hf.bounds (Nat.zero_le _)
  exact ⟨ho, hc, by simpa using hd⟩

/-- Reading undoes writing exactly on the representable values, and it gives no others: what is
read from any buffer can be written again and read back. -/
theorem parse_encode_iff :
    (∀ value : Value, value.Everywhere Counted →
      ((∀ rest, Parser.parse (value.encode ++ rest) = .ok (some (value, value.encode.length))) ↔
        value.Everywhere OneLine ∧ value.depth ≤ maxDepth)) ∧
    ∀ buffer value n, Parser.parse buffer = .ok (some (value, n)) →
      value.Everywhere OneLine ∧ value.depth ≤ maxDepth ∧ value.Everywhere Counted ∧
        ∀ rest, Parser.parse (value.encode ++ rest) = .ok (some (value, value.encode.length)) := by
  refine ⟨fun value hc => ⟨fun h => ?_, fun h rest => ?_⟩, fun buffer value n h => ?_⟩
  · have hr := representable_of_parse (h [])
    exact ⟨hr.oneLine, hr.depth_le⟩
  · exact parse_encode ⟨h.1, hc, h.2⟩ rest
  · have hr := representable_of_parse h
    exact ⟨hr.oneLine, hr.depth_le, hr.counted, parse_encode hr⟩

/-- Data may hold a line end, a line may end in half of one, and what was read from a length
written otherwise is written and read again. -/
theorem parse_encode_half_lineEnd :
    let sent : Value := .array [.bulk [0x0d, 0x0a], .simple "a\r", .array []]
    let got : Value := .array [.bulk [0x78]]
    let wire : Bytes :=
      [0x2a, 0x2b, 0x31, 0x0d, 0x0a, 0x24, 0x30, 0x31, 0x0d, 0x0a, 0x78, 0x0d, 0x0a]
    sent.Everywhere Counted ∧
    (∀ rest, Parser.parse (sent.encode ++ rest) = .ok (some (sent, sent.encode.length))) ∧
    Parser.parse wire = .ok (some (got, 13)) ∧
    ∀ rest, Parser.parse (got.encode ++ rest) = .ok (some (got, got.encode.length)) := by
  intro sent got wire
  have hc : sent.Everywhere Counted := by simp [sent, Everywhere, EverywhereAll, Counted]
  have ho : sent.Everywhere OneLine := by
    simp only [sent, Everywhere, EverywhereAll, OneLine, and_true, true_and]
    decide
  exact ⟨hc, (parse_encode_iff.1 sent hc).mpr ⟨ho, by decide⟩, rfl,
    (parse_encode_iff.2 wire got 13 rfl).2.2.2⟩

end SortedSetClient.Resp
