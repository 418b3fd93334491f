import SortedSetClient.Bound
import SortedSetClient.Proofs.Numerals

/-! The texts of numbers are short: no integer of 64 bits takes more than twenty octets, and no
score, with every digit in its place, more than four thousand. -/
namespace SortedSetClient

namespace Decimal

/-- A number below a power of ten has no more digits than its exponent says. -/
theorem length_digits_le {n k : Nat} (h : n < 10 ^ k) (hk : 0 < k) : (digits n).length ≤ k := by
  fun_induction digits n generalizing k with
  | case1 n hn => exact hk
  | case2 n hn ih =>
    obtain ⟨j, rfl⟩ : ∃ j, k = j + 1 := ⟨k - 1, by omega⟩
    rw [Nat.pow_succ] at h
    have hj : 0 < j := by
      rcases Nat.eq_zero_or_pos j with rfl | hj
      · simp at h
        omega
      · exact hj
    have hl := ih (k := j) (Nat.div_lt_of_lt_mul (by omega)) hj
    simp only [List.length_append, List.length_singleton]
    omega

theorem length_ofInt64_le (n : Int64) : (ofInt64 n).length ≤ 20 := by
  have hmin : -2 ^ 63 ≤ n.toInt := n.minValue_le_toInt
  have hmax : n.toInt < 2 ^ 63 := n.toInt_lt
  have hd : (digits n.toInt.natAbs).length ≤ 19 :=
    length_digits_le (Nat.lt_of_le_of_lt (m := 2 ^ 63) (by omega) (by decide)) (by decide)
  rw [ofInt64, ofInt]
  split
  · exact Nat.succ_le_succ hd
  · exact Nat.le_succ_of_le hd

theorem length_ofUInt64_le (n : UInt64) : (ofUInt64 n).length ≤ 20 :=
  length_digits_le (Nat.lt_trans n.toNat_lt (by decide)) (by decide)

end Decimal

namespace Binary64

theorem units_lt (rank : Rank) {k : Nat} (hk : 2099 ≤ k) : units rank.val < 2 ^ k := by
  have hrank : rank.val ≤ 2047 * 2 ^ 52 := Nat.le_of_lt_succ rank.isLt
  unfold units
  change (if rank.val < 2 ^ 52 then rank.val
    else (2 ^ 52 + rank.val % 2 ^ 52) * 2 ^ (rank.val / 2 ^ 52 - 1)) < _
  split
  · next h => exact Nat.lt_of_lt_of_le h (Nat.pow_le_pow_right (by decide) (by omega))
  · have hexp : 53 + (rank.val / 2 ^ 52 - 1) ≤ k := by omega
    have hcoefficient : 2 ^ 52 + rank.val % 2 ^ 52 < 2 ^ 53 := by omega
    calc (2 ^ 52 + rank.val % 2 ^ 52) * 2 ^ (rank.val / 2 ^ 52 - 1)
        < 2 ^ 53 * 2 ^ (rank.val / 2 ^ 52 - 1) :=
          Nat.mul_lt_mul_of_pos_right hcoefficient (Nat.two_pow_pos _)
      _ = 2 ^ (53 + (rank.val / 2 ^ 52 - 1)) := (Nat.pow_add ..).symm
      _ ≤ 2 ^ k := Nat.pow_le_pow_right (by decide) hexp

theorem coarsest_bounds (rank : Rank) : -322 ≤ coarsest rank.val ∧ coarsest rank.val ≤ 310 := by
  have hlog {k : Nat} (hk : 2099 ≤ k) : (units rank.val).log2 < k := by
    rcases Nat.eq_zero_or_pos (units rank.val) with hz | hpos
    · rw [hz, Nat.log2_zero]
      omega
    · exact (Nat.log2_lt (by omega)).mpr (units_lt rank hk)
  have := hlog (Nat.le_refl _)
  unfold coarsest
  omega

/-- What a magnitude takes in decimal steps that are not too fine. -/
private theorem steps_lt (rank : Rank) {k j : Nat} (hk : 2099 + j ≤ k) :
    units rank.val * 10 ^ j < 10 ^ k := by
  obtain ⟨i, rfl⟩ : ∃ i, k = i + j := ⟨k - j, by omega⟩
  have hunits : units rank.val < 10 ^ i :=
    Nat.lt_of_lt_of_le (units_lt rank (by omega)) (Nat.pow_le_pow_left (by decide) i)
  rw [Nat.pow_add]
  exact Nat.mul_lt_mul_of_pos_right hunits (Nat.pow_pos (by decide))

private theorem gridPoint_lt {rank : Rank} {exponent : Int} {coefficient k : Nat}
    (hk : 3000 ≤ k) (he : -345 ≤ exponent) (h : gridPoint? rank exponent = some coefficient) :
    coefficient < 10 ^ k := by
  have hsteps : (onGrid rank.val exponent).1 < 10 ^ (k - 1) := by
    unfold onGrid
    split
    · exact Nat.mul_one (units rank.val) ▸ steps_lt rank (j := 0) (by omega)
    · exact steps_lt rank (by omega)
  have hten : 10 ^ k = 10 ^ (k - 1) * 10 := by
    rw [← Nat.pow_succ]
    congr
    omega
  have hle : coefficient ≤ (onGrid rank.val exponent).1 / (onGrid rank.val exponent).2 + 1 := by
    unfold gridPoint? at h
    generalize onGrid rank.val exponent = grid at h
    have hmem := List.mem_of_find?_eq_some h
    split at hmem
    · rcases List.mem_pair.mp hmem with rfl | rfl <;> omega
    · rcases List.mem_pair.mp hmem with rfl | rfl <;> omega
  have := Nat.div_le_self (onGrid rank.val exponent).1 (onGrid rank.val exponent).2
  omega

/-- The decimal step that is chosen is neither very fine nor very coarse, and there are not too many
of them. -/
theorem shortest_bounds (rank : Rank) {k : Nat} (hk : 3200 ≤ k) :
    (shortest rank).1 < 10 ^ k ∧ -1074 ≤ (shortest rank).2 ∧ (shortest rank).2 ≤ 310 := by
  obtain ⟨hmin, hmax⟩ := coarsest_bounds rank
  unfold shortest
  dsimp only
  rcases hf : List.findSome? _ _ with _ | ⟨coefficient, exponent⟩
  · have hexact {j : Nat} (hj : 2099 + j ≤ k) : units rank.val * Nat.pow 5 j < 10 ^ k :=
      Nat.lt_of_le_of_lt (Nat.mul_le_mul_left _ (Nat.pow_le_pow_left (by decide) j))
        (steps_lt rank hj)
    -- The exponent gets a name, so that nothing computes the power.
    obtain ⟨j, hj, he⟩ :
        ∃ j, j = 1074 ∧ exact rank.val = (units rank.val * Nat.pow 5 j, -1074) := ⟨_, rfl, rfl⟩
    rw [Option.getD_none, he]
    exact ⟨hexact (by omega), Int.le_refl (-1074), (by decide : (-1074 : Int) ≤ 310)⟩
  · rw [Option.getD_some]
    obtain ⟨step, hmem, hstep⟩ := List.exists_of_findSome?_eq_some hf
    obtain ⟨finer, hfiner, rfl⟩ := List.mem_map.mp hmem
    obtain ⟨found, hfound, he⟩ := Option.map_eq_some_iff.mp hstep
    cases he
    have := List.mem_range.mp hfiner
    exact ⟨gridPoint_lt (by omega) (by omega) hfound, by omega, by omega⟩

theorem length_writePositional_le {coefficient k : Nat} {exponent : Int}
    (h : coefficient < 10 ^ k) (hk : 1075 ≤ k) (hmin : -1074 ≤ exponent) (hmax : exponent ≤ 310) :
    (writePositional coefficient exponent).length ≤ k + 310 := by
  have hd := Decimal.length_digits_le h (by omega)
  unfold writePositional
  dsimp only
  split
  · simp only [List.length_append, List.length_replicate]
    omega
  · simp only [List.length_append, List.length_cons, List.length_take, List.length_drop,
      List.length_replicate]
    omega

theorem length_write_le (x : Binary64) : x.write.length ≤ 4000 := by
  have hm (rank : Rank) : (writeMagnitude rank).length ≤ 3999 := by
    unfold writeMagnitude
    split
    · decide
    · split
      · decide
      · obtain ⟨hc, hmin, hmax⟩ := shortest_bounds rank (Nat.le_refl 3200)
        exact Nat.le_trans (length_writePositional_le hc (by omega) hmin hmax) (by omega)
  cases x with
  | nan => decide
  | number negative rank =>
    cases negative with
    | false => exact Nat.le_succ_of_le (hm rank)
    | true => exact Nat.succ_le_succ (hm rank)

end Binary64

/-- The text of a score takes few octets. -/
theorem Score.length_encode_le (score : Score) : score.encode.length ≤ 4000 := by
  cases score with
  | integer n => exact Nat.le_trans (Decimal.length_ofInt64_le n) (by decide)
  | float x => exact x.length_write_le

theorem ScoreBound.length_encode_le (bound : ScoreBound) : bound.encode.length ≤ 4001 := by
  have hs := bound.score.length_encode_le
  unfold encode
  split
  · split <;> decide
  · split
    · omega
    · exact Nat.succ_le_succ hs

end SortedSetClient
