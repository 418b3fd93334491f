import SortedSetClient.Proofs.CheckedDigits
import SortedSetClient.Proofs.NearestNumbers
import SortedSetClient.Proofs.NumberTexts

/-! Texts of integers as scores. One that fits a word is read as an integer, and as a number it
would be the nearest one to that integer, so trying integers first changes no value but the sign of
a zero. One that does not fit is read as the number nearest to it. -/
namespace SortedSetClient.Score
open Binary64
open Decimal (Spells int64? integer? int64?_eq_some_iff integer?_eq_some_iff toInt64?_eq_none_iff)

/-! ### Numbers at one place -/

private theorem ofInt_zero : ofInt 0 = number false 0 := by
  rw [ofInt, Int.natAbs_zero, nearest_zero]
  rfl

/-- Only zero is rounded to zero. -/
private theorem intPlace_eq_zero_iff {i : Int} : intPlace i = 0 ↔ i = 0 := by
  have hone {j : Int} (hj : j.natAbs = 1) : intPlace j ≠ 0 := fun h => by
    have hle : j.natAbs ≤ 2 ^ 53 := by omega
    have hj0 : j = 0 :=
      intPlace_injOn hle (by decide : (0 : Int).natAbs ≤ 2 ^ 53) (h.trans intPlace_zero.symm)
    omega
  refine ⟨fun h => ?_, fun h => h ▸ intPlace_zero⟩
  rcases lt_trichotomy i 0 with hneg | rfl | hpos
  · have hlow := intPlace_mono (show i ≤ -1 by omega)
    have hhigh := intPlace_mono (show -1 ≤ 0 by decide)
    have := hone (j := -1) rfl
    rw [intPlace_zero] at hhigh
    omega
  · rfl
  · have hlow := intPlace_mono (show 0 ≤ 1 by decide)
    have hhigh := intPlace_mono (show 1 ≤ i by omega)
    have := hone (j := 1) rfl
    rw [intPlace_zero] at hlow
    omega

/-- Numbers at one place are the same, or they are the two zeros. -/
private theorem eq_of_place? {x y : Binary64} {p : Int} (hx : x.place? = some p)
    (hy : y.place? = some p) (hp : p ≠ 0) : x = y := by
  cases x with
  | nan => cases hx
  | number a r =>
    cases y with
    | nan => cases hy
    | number b s =>
      rw [Binary64.place?, Option.some.injEq] at hx hy
      have hsign : a = b ∧ r.val = s.val := by
        cases a <;> cases b <;> simp only [if_true, if_false, Bool.false_eq_true] at hx hy <;>
          simp <;> omega
      obtain ⟨rfl, hrank⟩ := hsign
      rw [Fin.ext hrank]

/-- The text of an integer is read as the number nearest to it, but a zero keeps its minus. -/
theorem read?_integer_text {text : Bytes} {i : Int} (h : Spells text i) :
    ∃ x, read? text = some x ∧ x.place? = some (intPlace i) ∧
      (x ≠ ofInt i → i = 0 ∧ x = number true 0) := by
  obtain ⟨x, hread, hplace⟩ := read?_of_spells h
  refine ⟨x, hread, hplace, fun hne => ?_⟩
  have hi : i = 0 := by
    by_contra hi
    exact hne (eq_of_place? hplace (place?_ofInt i) (mt intPlace_eq_zero_iff.mp hi))
  subst hi
  rw [ofInt_zero] at hne
  cases x with
  | nan => cases hplace
  | number negative rank =>
    rw [Binary64.place?, intPlace_zero, Option.some.injEq] at hplace
    obtain rfl : rank = 0 := Fin.val_eq_zero_iff.mp (by split at hplace <;> omega)
    cases negative with
    | false => exact absurd rfl hne
    | true => exact ⟨rfl, rfl⟩

/-! ### Integers and numbers as scores -/

theorem compare?_eq_of_place? {x y : Binary64} {p : Int} (hx : x.place? = some p)
    (hy : y.place? = some p) : x.compare? y = some .eq := by
  rw [Binary64.compare?, hx, hy]
  exact congrArg some (Int.compare_eq_eq.mpr rfl)

/-- A text that is read as an integer could be read as a number as well, of the same value as the
integer when that is rounded, and with the same bits but for a negative zero. An integer too great
for a word is still a score, the number nearest to it; it becomes infinite only from the middle
between the greatest number and the power of two above it. -/
theorem integer_texts_keep_value :
    (∀ text n, int64? text = some n → ofText? text = some (integer n) ∧
      ∃ x, read? text = some x ∧ x.compare? (integer n).toBinary64 = some .eq ∧
        Nearest n.toInt x ∧ Nearest n.toInt (integer n).toBinary64 ∧
        (x ≠ (integer n).toBinary64 → n = 0 ∧ x = number true 0)) ∧
    ∀ text i, Spells text i → i < -2 ^ 63 ∨ 2 ^ 63 ≤ i →
      ofText? text = some (float (ofInt i)) ∧ Nearest i (ofInt i) ∧
        ((ofInt i).isInfinite = true ↔ 2 ^ 1024 - 2 ^ 970 ≤ i.natAbs) := by
  refine ⟨fun text n hn => ?_, fun text i hi hbeyond => ?_⟩
  · obtain ⟨x, hread, hplace, hbits⟩ := read?_integer_text (int64?_eq_some_iff.mp hn)
    have hinteger : (integer n).toBinary64.place? = some (intPlace n.toInt) := place?_ofInt n.toInt
    refine ⟨by rw [ofText?, hn], x, hread, compare?_eq_of_place? hplace hinteger,
      nearest_of_place? hplace, nearest_of_place? hinteger, fun hne => ?_⟩
    obtain ⟨hzero, hx⟩ := hbits hne
    exact ⟨Int64.toInt_inj.mp hzero, hx⟩
  · obtain ⟨x, hread, hplace, hbits⟩ := read?_integer_text hi
    have hx : x = ofInt i := by
      by_contra hne
      have := (hbits hne).1
      omega
    have hnone : int64? text = none := by
      rw [int64?, integer?_eq_some_iff.mpr hi]
      exact toInt64?_eq_none_iff.mpr hbeyond
    refine ⟨?_, nearest_of_place? (place?_ofInt i), isInfinite_ofInt_iff i⟩
    rw [ofText?, hnone, hread, hx]
    rfl

/-- A zero with a minus, an odd integer of 54 digits, and the first integers past both edges. -/
theorem integer_texts_keep_value_past_edges :
    (∃ x, read? (Utf8.encode "-00") = some x ∧ x.compare? (integer 0).toBinary64 = some .eq) ∧
    (∃ x, read? (Utf8.encode "+009007199254740993") = some x ∧
      x.compare? (integer 9007199254740993).toBinary64 = some .eq ∧ Nearest 9007199254740993 x) ∧
    ofText? (Utf8.encode "9223372036854775808") = some (float (ofInt 9223372036854775808)) ∧
    ofText? (Utf8.encode "-9223372036854775809") = some (float (ofInt (-9223372036854775809))) ∧
    Nearest (-9223372036854775809) (ofInt (-9223372036854775809)) := by
  have hzero : int64? (Utf8.encode "-00") = some 0 := by decide +kernel
  have hodd : int64? (Utf8.encode "+009007199254740993") = some 9007199254740993 := by
    decide +kernel
  have hupper : integer? (Utf8.encode "9223372036854775808") = some 9223372036854775808 := by
    decide +kernel
  have hlower : integer? (Utf8.encode "-9223372036854775809") = some (-9223372036854775809) := by
    decide +kernel
  obtain ⟨-, x, hx, hxe, -⟩ := integer_texts_keep_value.1 _ _ hzero
  obtain ⟨-, y, hy, hye, hyn, -⟩ := integer_texts_keep_value.1 _ _ hodd
  have habove := integer_texts_keep_value.2 _ _ (integer?_eq_some_iff.mp hupper)
    (.inr (by decide))
  have hbelow := integer_texts_keep_value.2 _ _ (integer?_eq_some_iff.mp hlower)
    (.inl (by decide))
  exact ⟨⟨x, hx, hxe⟩, ⟨y, hy, hye, hyn⟩, habove.1, hbelow.1, hbelow.2.1⟩

end SortedSetClient.Score
