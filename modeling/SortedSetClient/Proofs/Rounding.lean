import Mathlib
import SortedSetClient.Binary64

/-! Where rounding turns from one magnitude to the next: halfway between them, and there to the
even rank. So a magnitude rounds to itself, and rounding keeps order. -/
namespace SortedSetClient.Binary64

/-! ### Magnitudes in blocks of one step -/

/-- Within a block of ranks the step stays the same, up to and including the first rank of the next
block. -/
theorem units_block {t m : Nat} (hm : m ≤ 2 ^ 53) (ht : t = 0 ∨ 2 ^ 52 ≤ m) :
    units (t * 2 ^ 52 + m) = m * 2 ^ t := by
  unfold units
  change (if t * 2 ^ 52 + m < 2 ^ 52 then t * 2 ^ 52 + m
    else (2 ^ 52 + (t * 2 ^ 52 + m) % 2 ^ 52) * 2 ^ ((t * 2 ^ 52 + m) / 2 ^ 52 - 1)) = _
  split
  · obtain rfl : t = 0 := by omega
    simp
  · rcases Nat.lt_or_eq_of_le hm with hlt | rfl
    · have hd : (t * 2 ^ 52 + m) / 2 ^ 52 = t + 1 := by omega
      have hr : 2 ^ 52 + (t * 2 ^ 52 + m) % 2 ^ 52 = m := by omega
      rw [hd, hr, Nat.add_sub_cancel]
    · have hd : (t * 2 ^ 52 + 2 ^ 53) / 2 ^ 52 = t + 2 := by omega
      have hr : (t * 2 ^ 52 + 2 ^ 53) % 2 ^ 52 = 0 := by omega
      rw [hd, hr, show t + 2 - 1 = t + 1 from rfl, Nat.pow_succ 2 t]
      omega

/-- Every rank stands in a block. -/
private theorem exists_block (rank : Nat) :
    ∃ t m, rank = t * 2 ^ 52 + m ∧ m < 2 ^ 53 ∧ (t = 0 ∨ 2 ^ 52 ≤ m) :=
  ⟨rank / 2 ^ 52 - 1, rank - (rank / 2 ^ 52 - 1) * 2 ^ 52, by omega, by omega, by omega⟩

theorem units_zero : units 0 = 0 := rfl

theorem units_lt_succ (rank : Nat) : units rank < units (rank + 1) := by
  obtain ⟨t, m, rfl, hm, ht⟩ := exists_block rank
  rw [units_block hm.le ht, Nat.add_assoc, units_block hm (by omega)]
  exact Nat.mul_lt_mul_of_pos_right (Nat.lt_succ_self m) (Nat.two_pow_pos t)

theorem units_strictMono : StrictMono units := strictMono_nat_of_lt_succ units_lt_succ

/-! ### Rounding quotients -/

/-- A quotient lies at or below the middle between a magnitude and the next; in the middle only if
the rank is even. -/
def Below (n d rank : Nat) : Prop :=
  2 * n < (units rank + units (rank + 1)) * d ∨
    2 * n = (units rank + units (rank + 1)) * d ∧ rank % 2 = 0

theorem roundQuotient_le_iff {n d k : Nat} (hd : 0 < d) :
    roundQuotient n d ≤ k ↔ 2 * n < (2 * k + 1) * d ∨ 2 * n = (2 * k + 1) * d ∧ k % 2 = 0 := by
  have hn : d * (n / d) + n % d = n := Nat.div_add_mod n d
  have hr : n % d < d := Nat.mod_lt n hd
  have hk : (2 * k + 1) * d = 2 * (d * k) + d := by ring
  unfold roundQuotient
  rw [hk]
  rcases lt_trichotomy (n / d) k with hlt | rfl | hgt
  · have hle : d * (n / d) + d ≤ d * k := Nat.mul_le_mul_left d hlt
    exact iff_of_true (by split <;> omega) (.inl (by omega))
  · split <;> omega
  · have hle : d * k + d ≤ d * (n / d) := Nat.mul_le_mul_left d hgt
    exact iff_of_false (by split <;> omega) (by omega)

private theorem le_roundQuotient {n d k : Nat} (hd : 0 < d) (h : k * d ≤ n) :
    k ≤ roundQuotient n d := by
  have hk := (Nat.le_div_iff_mul_le hd).mpr h
  unfold roundQuotient
  split <;> omega

private theorem roundQuotient_le {n d k : Nat} (hd : 0 < d) (h : n < k * d) :
    roundQuotient n d ≤ k := by
  have hk := (Nat.div_lt_iff_lt_mul hd).mpr h
  unfold roundQuotient
  split <;> omega

/-- The rank before it is cut off at infinity. -/
private theorem val_nearest (n d : Nat) : (nearest n d).val =
    min (((n / d).log2 - 52) * 2 ^ 52 + roundQuotient n (d * 2 ^ ((n / d).log2 - 52)))
      infinityRank :=
  rfl

/-- The whole part of a quotient has at most 53 digits before the ones that are rounded away, and no
fewer where any are. -/
private theorem quotient_bounds (n : Nat) {d : Nat} (hd : 0 < d) :
    n < 2 ^ 53 * (d * 2 ^ ((n / d).log2 - 52)) ∧
      ((n / d).log2 - 52 = 0 ∨ 2 ^ 52 * (d * 2 ^ ((n / d).log2 - 52)) ≤ n) := by
  have hpow (k : Nat) : 2 ^ k * (d * 2 ^ ((n / d).log2 - 52)) =
      2 ^ (k + ((n / d).log2 - 52)) * d := by
    rw [Nat.pow_add]
    ring
  rw [hpow, hpow]
  constructor
  · have hq : n / d < 2 ^ (53 + ((n / d).log2 - 52)) :=
      Nat.lt_of_lt_of_le Nat.lt_log2_self (Nat.pow_le_pow_right (by decide) (by omega))
    exact (Nat.div_lt_iff_lt_mul hd).mp hq
  · by_cases hs : (n / d).log2 - 52 = 0
    · exact .inl hs
    · have hq : n / d ≠ 0 := fun h => hs (by simp [h])
      have hle : 2 ^ (52 + ((n / d).log2 - 52)) ≤ n / d :=
        Nat.le_trans (Nat.pow_le_pow_right (by decide) (by omega)) (Nat.log2_self_le hq)
      exact .inr ((Nat.le_div_iff_mul_le hd).mp hle)

/-- The rank nearest to a quotient is at most a finite one just where the quotient is not beyond the
middle above it. -/
theorem nearest_le_iff {n d rank : Nat} (hd : 0 < d) (hrank : rank < infinityRank) :
    (nearest n d).val ≤ rank ↔ Below n d rank := by
  obtain ⟨t, m, rfl, hm, ht⟩ := exists_block rank
  obtain ⟨hlt, hge⟩ := quotient_bounds n hd
  have hsum : (units (t * 2 ^ 52 + m) + units (t * 2 ^ 52 + m + 1)) * d =
      (2 * m + 1) * (d * 2 ^ t) := by
    rw [units_block hm.le ht, Nat.add_assoc, units_block (m := m + 1) hm (by omega)]
    ring
  rw [val_nearest, Below, hsum, min_le_iff, or_iff_left (by omega)]
  generalize (n / d).log2 - 52 = s at *
  have hstep {i j : Nat} (h : i < j) : 2 * (d * 2 ^ i) ≤ d * 2 ^ j := by
    have hle := Nat.mul_le_mul_left d (Nat.pow_le_pow_right (by decide : 0 < 2) h)
    rw [Nat.pow_succ, ← Nat.mul_assoc] at hle
    omega
  have hpos : 0 < d * 2 ^ s := Nat.mul_pos hd (Nat.two_pow_pos s)
  -- The rank and the quotient are in the same block, or the quotient is in one below or above.
  rcases lt_trichotomy s t with hst | rfl | hst
  · have hm' : 2 ^ 52 * (d * 2 ^ t) ≤ m * (d * 2 ^ t) := Nat.mul_le_mul_right _ (by omega)
    have hstep := hstep hst
    have hround := roundQuotient_le hpos hlt
    exact iff_of_true (by omega) (.inl (by rw [Nat.add_mul, Nat.mul_assoc]; omega))
  · rw [Nat.add_le_add_iff_left, roundQuotient_le_iff hpos]
    omega
  · have hm' : m * (d * 2 ^ t) + d * 2 ^ t ≤ 2 ^ 53 * (d * 2 ^ t) :=
      Nat.succ_mul m _ ▸ Nat.mul_le_mul_right _ hm
    have hstep := hstep hst
    have hge := hge.resolve_left (by omega)
    have hround := le_roundQuotient hpos hge
    exact iff_of_false (by omega) (by rw [Nat.add_mul, Nat.mul_assoc]; omega)

/-! ### What rounding keeps -/

/-- A magnitude rounds to itself. -/
theorem nearest_units {d : Nat} (hd : 0 < d) (rank : Rank) (h : rank.val < infinityRank) :
    nearest (units rank.val * d) d = rank := by
  have hbelow {r s : Nat} (hrs : r < s) : units r * d < units s * d :=
    Nat.mul_lt_mul_of_pos_right (units_strictMono hrs) hd
  refine Fin.ext (Nat.le_antisymm ?_ ?_)
  · have := hbelow (Nat.lt_add_one rank.val)
    exact (nearest_le_iff hd h).mpr (.inl (by rw [Nat.add_mul]; omega))
  · refine Nat.le_of_not_lt fun hlt => ?_
    obtain ⟨r, hr⟩ : ∃ r, rank.val = r + 1 := ⟨rank.val - 1, by omega⟩
    have hle : Below (units rank.val * d) d r := (nearest_le_iff hd (by omega)).mp (by omega)
    have := hbelow (Nat.lt_add_one r)
    rw [Below, Nat.add_mul, hr] at hle
    omega

/-- A smaller quotient is not beyond a middle that a greater one is not beyond. -/
theorem Below.of_le {n d n' d' rank : Nat} (hd : 0 < d) (hd' : 0 < d') (h : n * d' ≤ n' * d)
    (hb : Below n' d' rank) : Below n d rank := by
  unfold Below at hb ⊢
  generalize units rank + units (rank + 1) = sum at *
  have hscale : 2 * n * d' ≤ 2 * n' * d := by
    rw [Nat.mul_assoc, Nat.mul_assoc]
    exact Nat.mul_le_mul_left 2 h
  rcases hb with hlt | ⟨heq, heven⟩
  · refine .inl (Nat.lt_of_mul_lt_mul_right (a := d') ?_)
    calc 2 * n * d' ≤ 2 * n' * d := hscale
      _ < sum * d' * d := Nat.mul_lt_mul_of_pos_right hlt hd
      _ = sum * d * d' := Nat.mul_right_comm ..
  · rw [heq, Nat.mul_right_comm sum] at hscale
    rcases Nat.lt_or_eq_of_le (Nat.le_of_mul_le_mul_right hscale hd') with hlt | he
    · exact .inl hlt
    · exact .inr ⟨he, heven⟩

/-- Rounding keeps the order of quotients. -/
theorem nearest_mono {n d n' d' : Nat} (hd : 0 < d) (hd' : 0 < d') (h : n * d' ≤ n' * d) :
    nearest n d ≤ nearest n' d' := by
  rcases Nat.lt_or_ge (nearest n' d').val infinityRank with hlt | hge
  · exact (nearest_le_iff hd hlt).mpr (((nearest_le_iff hd' hlt).mp (Nat.le_refl _)).of_le hd hd' h)
  · exact Nat.le_trans (Nat.le_of_lt_succ (nearest n d).isLt) hge

/-! ### Integers -/

-- The exponent gets a name, so that nothing computes the power.
theorem unitsPerOne_eq : ∃ j, j = 1074 ∧ unitsPerOne = Nat.pow 2 j := by
  refine ⟨1074, rfl, ?_⟩
  unfold unitsPerOne
  rfl

theorem unitsPerOne_pos : 0 < unitsPerOne := by
  obtain ⟨j, -, hone⟩ := unitsPerOne_eq
  exact hone ▸ Nat.two_pow_pos j

/-- Where the nearest number to an integer stands. -/
def intPlace (i : Int) : Int :=
  if i < 0 then -((nearest (i.natAbs * unitsPerOne) 1).val : Int)
  else (nearest (i.natAbs * unitsPerOne) 1).val

theorem place?_ofInt (i : Int) : (ofInt i).place? = some (intPlace i) := by
  simp only [ofInt, place?, intPlace, decide_eq_true_eq]

/-- Greater integers are not rounded to smaller numbers. -/
theorem intPlace_mono : Monotone intPlace := by
  intro i j h
  have hn {m n : Nat} (hmn : m ≤ n) :
      (nearest (m * unitsPerOne) 1).val ≤ (nearest (n * unitsPerOne) 1).val :=
    nearest_mono Nat.one_pos Nat.one_pos
      (Nat.mul_le_mul_right 1 (Nat.mul_le_mul_right unitsPerOne hmn))
  unfold intPlace
  split
  · split
    · have := hn (m := j.natAbs) (n := i.natAbs) (by omega)
      omega
    · omega
  · have := hn (m := i.natAbs) (n := j.natAbs) (by omega)
    rw [if_neg (by omega)]
    omega

/-- Whole numbers of at most 53 binary digits are magnitudes. -/
private theorem exists_units {k : Nat} (hk : k ≤ 2 ^ 53) :
    ∃ rank : Rank, rank.val < infinityRank ∧ units rank.val = k * unitsPerOne := by
  rcases Nat.eq_zero_or_pos k with rfl | hpos
  · exact ⟨0, by decide, by rw [Nat.zero_mul]; exact units_zero⟩
  obtain ⟨j, hj, hone⟩ := unitsPerOne_eq
  have hlog : k.log2 ≤ 53 := by
    have := (Nat.le_log2 hpos.ne').mp (Nat.le_refl _)
    by_contra h
    have := Nat.pow_le_pow_right (by decide : 0 < 2) (Nat.lt_of_not_le h)
    omega
  have hlow : 2 ^ 52 ≤ k * 2 ^ (52 - k.log2) := by
    calc 2 ^ 52 ≤ 2 ^ (k.log2 + (52 - k.log2)) := Nat.pow_le_pow_right (by decide) (by omega)
      _ = 2 ^ k.log2 * 2 ^ (52 - k.log2) := Nat.pow_add ..
      _ ≤ k * 2 ^ (52 - k.log2) := Nat.mul_le_mul_right _ (Nat.log2_self_le hpos.ne')
  have hhigh : k * 2 ^ (52 - k.log2) ≤ 2 ^ 53 := by
    rcases Nat.lt_or_ge 52 k.log2 with hl | hl
    · rwa [show 52 - k.log2 = 0 by omega, Nat.pow_zero, Nat.mul_one]
    · calc k * 2 ^ (52 - k.log2) ≤ 2 ^ (k.log2 + 1) * 2 ^ (52 - k.log2) :=
            Nat.mul_le_mul_right _ Nat.lt_log2_self.le
        _ = 2 ^ (k.log2 + 1 + (52 - k.log2)) := (Nat.pow_add ..).symm
        _ ≤ 2 ^ 53 := Nat.pow_le_pow_right (by decide) (by omega)
  have hlt : (j - (52 - k.log2)) * 2 ^ 52 + k * 2 ^ (52 - k.log2) < infinityRank := by
    change _ < 2047 * 2 ^ 52
    omega
  refine ⟨⟨_, Nat.lt_succ_of_lt hlt⟩, hlt, ?_⟩
  rw [units_block hhigh (.inr hlow), hone, Nat.pow_eq, Nat.mul_assoc, ← Nat.pow_add,
    show 52 - k.log2 + (j - (52 - k.log2)) = j by omega]

/-- Integers of at most 53 binary digits are kept apart. -/
theorem intPlace_injOn : Set.InjOn intPlace {i | i.natAbs ≤ 2 ^ 53} := by
  intro i hi j hj h
  obtain ⟨r, hr, hri⟩ := exists_units hi
  obtain ⟨s, hs, hsj⟩ := exists_units hj
  have hnearest {k : Nat} {rank : Rank} (hrank : rank.val < infinityRank)
      (hk : units rank.val = k * unitsPerOne) : nearest (k * unitsPerOne) 1 = rank := by
    have := nearest_units Nat.one_pos rank hrank
    rwa [Nat.mul_one, hk] at this
  have hzero {k : Nat} {rank : Rank} (hk : units rank.val = k * unitsPerOne)
      (h0 : rank.val = 0) : k = 0 := by
    rw [h0, units_zero] at hk
    exact (Nat.mul_eq_zero.mp hk.symm).resolve_right unitsPerOne_pos.ne'
  have hsame (hrs : r.val = s.val) : i.natAbs = j.natAbs :=
    Nat.eq_of_mul_eq_mul_right unitsPerOne_pos (by rw [← hri, ← hsj, hrs])
  unfold intPlace at h
  rw [hnearest hr hri, hnearest hs hsj] at h
  have hi0 := hzero hri
  have hj0 := hzero hsj
  split at h <;> split at h
  · have := hsame (by omega)
    omega
  · have := hi0 (by omega)
    omega
  · have := hj0 (by omega)
    omega
  · have := hsame (by omega)
    omega

end SortedSetClient.Binary64
