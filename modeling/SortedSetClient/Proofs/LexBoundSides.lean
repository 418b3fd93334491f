import SortedSetClient.Proofs.LexBoundTexts

/-! What is sent for lexicographical bounds on the two sides of a range. Each side has one sign that
leaves it open; any other value stands behind a mark, so nothing that is sent is both. Read as text
it gives the bound back, and two bounds are sent alike only where they mean the same. -/
namespace SortedSetClient.LexBound

/-- A side of a range. -/
inductive Side where
  | lower
  | upper

/-- The value that leaves a side open. -/
def Side.sign : Side → Bytes
  | lower => openBelow
  | upper => openAbove

/-- The bound as it is sent for a side. -/
def encodeAt : Side → LexBound → Bytes
  | .lower => encodeMin
  | .upper => encodeMax

section Sides
variable {side : Side} {bound : LexBound}

theorem encodeAt_sign (h : bound.value = side.sign) : bound.encodeAt side = side.sign := by
  cases side with
  | lower => exact (if_pos h).trans h
  | upper => exact (if_pos h).trans h

theorem encodeAt_marked (h : bound.value ≠ side.sign) : bound.encodeAt side = bound.marked := by
  cases side with
  | lower => exact if_neg h
  | upper => exact if_neg h

theorem marked_ne_sign (bound : LexBound) (side : Side) : bound.marked ≠ side.sign := by
  obtain ⟨value, inclusive⟩ := bound
  intro h
  cases side <;> cases inclusive <;> cases h

theorem marked_injective : Function.Injective marked := by
  rintro ⟨value, inclusive⟩ ⟨value', inclusive'⟩ h
  obtain ⟨hmark, rfl⟩ := List.cons.inj h
  cases inclusive <;> cases inclusive' <;> first | rfl | cases hmark

theorem ofText?_sign (side : Side) : ofText? side.sign = some ⟨side.sign, true⟩ := by
  cases side <;> rfl

/-- Only the flag of a sign is not sent. -/
theorem encodeAt_eq_iff {other : LexBound} :
    bound.encodeAt side = other.encodeAt side ↔
      bound.value = other.value ∧
        (bound.value = side.sign ∨ bound.inclusive = other.inclusive) := by
  by_cases hb : bound.value = side.sign
  · rw [encodeAt_sign hb, hb]
    by_cases ho : other.value = side.sign
    · rw [encodeAt_sign ho, ho]
      exact iff_of_true rfl ⟨rfl, .inl rfl⟩
    · rw [encodeAt_marked ho]
      exact iff_of_false (marked_ne_sign other side).symm fun h => ho h.1.symm
  · rw [encodeAt_marked hb]
    by_cases ho : other.value = side.sign
    · rw [encodeAt_sign ho, ho]
      exact iff_of_false (marked_ne_sign bound side) fun h => hb h.1
    · rw [encodeAt_marked ho, marked_injective.eq_iff, LexBound.mk.injEq]
      exact and_congr_right fun _ => (or_iff_right hb).symm

end Sides

/-- What is sent for a text is itself the text of a bound: of the same one, or of the open end. -/
theorem read_encodeAt (side : Side) (value : String) (inclusive : Bool) :
    let bound : LexBound := ⟨Utf8.encode value, inclusive⟩
    ∃ text, Utf8.encode text = bound.encodeAt side ∧
      LexBound.read text =
        .ok (if bound.value = side.sign then ⟨side.sign, true⟩ else bound) := by
  intro bound
  by_cases hb : bound.value = side.sign
  · refine ⟨value, hb.trans (encodeAt_sign hb).symm, ?_⟩
    have hread : ofText? (Utf8.encode value) = some ⟨side.sign, true⟩ :=
      (congrArg ofText? hb).trans (ofText?_sign side)
    rw [if_pos hb, LexBound.read, hread]
  · refine ⟨CommandLine.markedText inclusive value, ?_, ?_⟩
    · exact (CommandLine.encode_markedText inclusive value).trans (encodeAt_marked hb).symm
    · rw [if_neg hb]
      exact CommandLine.read_markedText inclusive value

/-- On either side what is sent for a bound can be read again, as a bound for which the same is
sent: the bound itself, unless its value is the sign of that side. And what is sent for any octets
tells their bounds apart, but for the flag of that sign. -/
theorem lex_bound_forms_stable (side : Side) :
    (∀ (value : String) (inclusive : Bool),
      let bound : LexBound := ⟨Utf8.encode value, inclusive⟩
      ∃ text again, Utf8.decode? (bound.encodeAt side) = some text ∧
        LexBound.read text = .ok again ∧ again.encodeAt side = bound.encodeAt side ∧
        again = if bound.value = side.sign then ⟨side.sign, true⟩ else bound) ∧
    ∀ bound other : LexBound,
      bound.encodeAt side = other.encodeAt side ↔
        bound.value = other.value ∧
          (bound.value = side.sign ∨ bound.inclusive = other.inclusive) := by
  refine ⟨fun value inclusive => ?_, fun _ _ => encodeAt_eq_iff⟩
  obtain ⟨text, hsent, hread⟩ := read_encodeAt side value inclusive
  refine ⟨text, _, by rw [← hsent, Utf8.decode?_encode], hread, ?_, rfl⟩
  rw [encodeAt_eq_iff]
  split
  · next hb => exact ⟨hb.symm, .inl rfl⟩
  · exact ⟨rfl, .inr rfl⟩

/-- The sign of the other side and a value that begins with a mark are marked like any other. -/
example : encodeAt .lower ⟨[0x2b], true⟩ = [0x5b, 0x2b] ∧
    encodeAt .upper ⟨[0x28, 0x2b], false⟩ = [0x28, 0x28, 0x2b] := by decide

end SortedSetClient.LexBound
