import SortedSetClient.Proofs.NumberTexts
import SortedSetClient.Proofs.ScoreOrder

/-! Scores are read back from their own texts. The text of a number may be that of an integer, and
is then read as one. The text of a large number ends in zeros where its digits are not needed, so
the integer may differ from the number; it is rounded to it all the same. -/
namespace SortedSetClient.Score
open Binary64 Decimal

theorem ofText?_integer (n : Int64) : ofText? (integer n).encode = some (integer n) := by
  have hread : int64? (integer n).encode = some n := int64?_eq_some_iff.mpr (spells_ofInt n.toInt)
  rw [ofText?, hread]

/-- A number whose text is that of an integer is read as the integer. -/
theorem ofText?_spelled {x : Binary64} {n : Int64} (h : Spells x.write n.toInt) :
    ofText? (float x).encode = some (integer n) := by
  have hread : int64? (float x).encode = some n := int64?_eq_some_iff.mpr h
  rw [ofText?, hread]

/-- Any other number is read as itself. -/
theorem ofText?_unspelled {x : Binary64} (hx : x ≠ nan)
    (h : ¬∃ n : Int64, Spells x.write n.toInt) : ofText? (float x).encode = some (float x) := by
  have hread : int64? (float x).encode = none := by
    rw [Option.eq_none_iff_forall_ne_some]
    exact fun n hn => h ⟨n, int64?_eq_some_iff.mp hn⟩
  rw [ofText?, hread, encode]
  exact congrArg (Option.map float) (read?_write hx)

/-- The integer that the text of a number denotes is rounded to the number. -/
theorem place?_spelled {x : Binary64} {n : Int64} (hx : x ≠ nan) (h : Spells x.write n.toInt) :
    (integer n).place? = (float x).place? := by
  obtain ⟨y, hread, hplace⟩ := read?_of_spells h
  rw [read?_write hx, Option.some.injEq] at hread
  rw [place?_integer, place?_float, hread, hplace]

theorem ne_nan {x : Binary64} (h : (float x).isNaN = false) : x ≠ nan := by
  rintro rfl
  cases h

/-- What a score is read back as: itself, or an integer for the number it is rounded to. -/
inductive ReadBack : Score → Score → Prop where
  | itself (score : Score) : ReadBack score score
  | rounded {x : Binary64} {n : Int64} : (integer n).place? = (float x).place? →
      ReadBack (float x) (integer n)

theorem ReadBack.isNaN_eq {score read : Score} (h : ReadBack score read)
    (hs : score.isNaN = false) : read.isNaN = false := by
  cases h with
  | itself => exact hs
  | rounded => rfl

theorem ReadBack.isInfinite_eq {score read : Score} (h : ReadBack score read)
    (hs : score.isInfinite = false) : read.isInfinite = false := by
  cases h with
  | itself => exact hs
  | rounded => rfl

theorem ReadBack.place?_eq {score read : Score} (h : ReadBack score read) :
    read.place? = score.place? := by
  cases h with
  | itself => rfl
  | rounded h => exact h

/-- Scores with one reading are the same. -/
theorem ReadBack.same {a b read : Score} (ha : ReadBack a read) (hb : ReadBack b read)
    (h : a.isNaN = false) : a.same b = true := by
  obtain ⟨p, hp⟩ := exists_place h
  have hq : b.place? = some p := by rw [← hb.place?_eq, ha.place?_eq, hp]
  refine (same_iff hp hq).mpr ⟨rfl, ?_⟩
  rintro ⟨-, m, n, rfl, rfl, hne⟩
  cases ha
  cases hb
  exact hne rfl

theorem ofText?_encode {score : Score} (h : score.isNaN = false) :
    ∃ read, ofText? score.encode = some read ∧ ReadBack score read := by
  cases score with
  | integer n => exact ⟨_, ofText?_integer n, .itself _⟩
  | float x =>
    by_cases hspelled : ∃ n : Int64, Spells x.write n.toInt
    · obtain ⟨n, hn⟩ := hspelled
      exact ⟨_, ofText?_spelled hn, .rounded (place?_spelled (ne_nan h) hn)⟩
    · exact ⟨_, ofText?_unspelled (ne_nan h) hspelled, .itself _⟩

/-- Every score but NaN is read back from its own text, as the same in the order. An integer is
read as itself. A number is read as an integer when its text is the text of one in range, and
otherwise as itself. -/
theorem score_survives_text (score : Score) (h : score.isNaN = false) :
    ∃ read, ofText? score.encode = some read ∧ read.same score = true ∧
      (∀ n, score = integer n → read = integer n) ∧
      (∀ x, score = float x → ∀ n : Int64, Spells x.write n.toInt → read = integer n) ∧
      (∀ x, score = float x → (¬∃ n : Int64, Spells x.write n.toInt) → read = float x) := by
  obtain ⟨read, hread, hback⟩ := ofText?_encode h
  refine ⟨read, hread, ReadBack.same (.itself read) hback (hback.isNaN_eq h), ?_, ?_, ?_⟩
  · rintro n rfl
    exact Option.some.inj (hread.symm.trans (ofText?_integer n))
  · rintro x rfl n hn
    exact Option.some.inj (hread.symm.trans (ofText?_spelled hn))
  · rintro x rfl hnone
    exact Option.some.inj (hread.symm.trans (ofText?_unspelled (ne_nan h) hnone))

/-- Negative zero is read as the integer zero, and the first number past the integers as
itself. -/
theorem score_survives_text_past_integers :
    ofText? (float (.ofBits 0x8000000000000000)).encode = some (integer 0) ∧
      ofText? (float (.ofBits 0x43e0000000000000)).encode =
        some (float (.ofBits 0x43e0000000000000)) := by
  constructor
  · obtain ⟨read, hread, -, -, hspelled, -⟩ :=
      score_survives_text (float (.ofBits 0x8000000000000000)) (by decide +kernel)
    have hzero : int64? (Binary64.ofBits 0x8000000000000000).write = some 0 := by decide +kernel
    rw [hread, hspelled _ rfl 0 (int64?_eq_some_iff.mp hzero)]
  · obtain ⟨read, hread, -, -, -, hunspelled⟩ :=
      score_survives_text (float (.ofBits 0x43e0000000000000)) (by decide +kernel)
    have hnone : int64? (Binary64.ofBits 0x43e0000000000000).write = none := by decide +kernel
    rw [hread, hunspelled _ rfl]
    rintro ⟨n, hn⟩
    rw [int64?_eq_some_iff.mpr hn] at hnone
    cases hnone

end SortedSetClient.Score
