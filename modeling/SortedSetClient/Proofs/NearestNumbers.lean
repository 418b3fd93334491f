import SortedSetClient.Proofs.ExactValues

/-! Rounding finds the nearest number. No other one is nearer, and of two equally near ones the even
one is taken; infinity counts as the power of two above the greatest magnitude, so integers become
infinite from halfway to it. -/
namespace SortedSetClient.Binary64

/-! ### Magnitudes -/

/-- How far a magnitude is from a quotient, in units times the denominator. -/
def distance (n d rank : Nat) : Nat := ((units rank * d : Nat) - n : Int).natAbs

section Magnitudes
variable {n d : Nat} (hd : 0 < d)
include hd

private theorem units_mul_lt {r s : Nat} (h : r < s) : units r * d < units s * d :=
  Nat.mul_lt_mul_of_pos_right (units_strictMono h) hd

/-- Magnitudes above the nearest one are farther, or as far while it is even. -/
private theorem distance_above {s : Nat} (hs : s ≤ infinityRank) (h : (nearest n d).val < s) :
    distance n d (nearest n d).val < distance n d s ∨
      distance n d (nearest n d).val = distance n d s ∧ (nearest n d).val % 2 = 0 := by
  have hbelow := (nearest_le_iff (n := n) hd (h.trans_le hs)).mp (Nat.le_refl _)
  generalize (nearest n d).val = r at *
  have hstep := units_mul_lt hd (Nat.lt_add_one r)
  have hnext : units (r + 1) * d ≤ units s * d :=
    Nat.mul_le_mul_right d (units_strictMono.monotone h)
  rw [Below, Nat.add_mul] at hbelow
  unfold distance
  omega

/-- Magnitudes below the nearest one are farther, or as far while it is even. -/
private theorem distance_below {s : Nat} (h : s < (nearest n d).val) :
    distance n d (nearest n d).val < distance n d s ∨
      distance n d (nearest n d).val = distance n d s ∧ (nearest n d).val % 2 = 0 := by
  have hrank : (nearest n d).val - 1 < infinityRank := by have := (nearest n d).isLt; omega
  have hbelow : ¬Below n d ((nearest n d).val - 1) := fun hb => by
    have := (nearest_le_iff hd hrank).mpr hb
    omega
  generalize (nearest n d).val = r at *
  have hstep := units_mul_lt hd (show r - 1 < r by omega)
  have hprevious : units s * d ≤ units (r - 1) * d :=
    Nat.mul_le_mul_right d (units_strictMono.monotone (by omega))
  rw [Below, Nat.sub_add_cancel (by omega), Nat.add_mul] at hbelow
  unfold distance
  omega

theorem distance_nearest {s : Nat} (hs : s ≤ infinityRank) (hne : s ≠ (nearest n d).val) :
    distance n d (nearest n d).val < distance n d s ∨
      distance n d (nearest n d).val = distance n d s ∧ (nearest n d).val % 2 = 0 :=
  (Nat.lt_or_gt_of_ne hne).elim (distance_below hd) (distance_above hd hs)

end Magnitudes

/-! ### Integers -/

/-- How far the number at a place is from an integer, in units. -/
def gap (i place : Int) : Nat := (signedUnits place - i * unitsPerOne).natAbs

/-- The number nearest to an integer: every other one is farther from it, or as far while this one
is even. Infinity counts as the power of two above the greatest magnitude. -/
def Nearest (i : Int) (x : Binary64) : Prop :=
  ∃ p, x.place? = some p ∧
    ∀ y q, place? y = some q → q ≠ p → gap i p < gap i q ∨ gap i p = gap i q ∧ p % 2 = 0

theorem gap_neg (i place : Int) : gap (-i) (-place) = gap i place := by
  rw [gap, signedUnits_neg, Int.neg_mul, ← Int.natAbs_neg]
  refine congrArg Int.natAbs ?_
  ring

theorem intPlace_natCast (n : Nat) : intPlace n = (nearest (n * unitsPerOne) 1).val := by
  rw [intPlace, if_neg (by omega), Int.natAbs_natCast]

theorem nearest_zero : nearest (0 * unitsPerOne) 1 = 0 := by
  rw [Nat.zero_mul]
  exact nearest_units Nat.one_pos 0 (by decide : (0 : Nat) < infinityRank)

theorem intPlace_zero : intPlace 0 = 0 :=
  (intPlace_natCast 0).trans (congrArg (fun rank : Rank => (rank.val : Int)) nearest_zero)

theorem intPlace_neg (i : Int) : intPlace (-i) = -intPlace i := by
  rcases lt_trichotomy i 0 with hneg | rfl | hpos
  · rw [intPlace, intPlace, if_neg (by omega), if_pos hneg, Int.natAbs_neg, Int.neg_neg]
  · rw [Int.neg_zero, intPlace_zero, Int.neg_zero]
  · rw [intPlace, intPlace, if_pos (by omega), if_neg (by omega), Int.natAbs_neg]

private theorem gap_natCast (n rank : Nat) : gap n rank = distance (n * unitsPerOne) 1 rank := by
  rw [gap, distance, signedUnits_natCast, Nat.mul_one, Nat.cast_mul]

/-- Rounding takes a natural number to its nearest place. -/
private theorem gap_intPlace_natCast (n : Nat) {q : Int} (hq : q.natAbs ≤ infinityRank)
    (hne : q ≠ intPlace n) :
    gap n (intPlace n) < gap n q ∨ gap n (intPlace n) = gap n q ∧ intPlace n % 2 = 0 := by
  have hmagnitude {s : Nat} (hs : s ≤ infinityRank) (hs' : s ≠ (nearest (n * unitsPerOne) 1).val) :=
    distance_nearest (n := n * unitsPerOne) Nat.one_pos hs hs'
  rw [intPlace_natCast] at hne ⊢
  rw [gap_natCast]
  rcases lt_or_ge q 0 with hneg | hpos
  · -- Below zero every place is farther than zero.
    have hzero : distance (n * unitsPerOne) 1 0 < gap n q := by
      have hunits := signedUnits_neg_iff.mpr hneg
      have hcast : (n : Int) * unitsPerOne = (n * unitsPerOne : Nat) := by push_cast; rfl
      rw [distance, units_zero, gap, hcast]
      omega
    rcases Nat.eq_zero_or_pos (nearest (n * unitsPerOne) 1).val with hr | hr
    · rw [hr]
      exact .inl hzero
    · have := hmagnitude (Nat.zero_le _) hr.ne
      omega
  · obtain ⟨s, rfl⟩ := Int.eq_ofNat_of_zero_le hpos
    rw [gap_natCast]
    have := hmagnitude (s := s) hq (by omega)
    omega

theorem gap_intPlace (i : Int) {q : Int} (hq : q.natAbs ≤ infinityRank) (hne : q ≠ intPlace i) :
    gap i (intPlace i) < gap i q ∨ gap i (intPlace i) = gap i q ∧ intPlace i % 2 = 0 := by
  rcases Int.eq_nat_or_neg i with ⟨n, rfl | rfl⟩
  · exact gap_intPlace_natCast n hq hne
  · rw [intPlace_neg] at hne ⊢
    have hq' : q = -(-q) := (Int.neg_neg q).symm
    have := gap_intPlace_natCast n (q := -q) (by omega) (by omega)
    rw [hq', gap_neg, gap_neg]
    omega

theorem nearest_of_place? {i : Int} {x : Binary64} (h : x.place? = some (intPlace i)) :
    Nearest i x :=
  ⟨intPlace i, h, fun _ _ hq hne => gap_intPlace i (natAbs_place_le hq) hne⟩

/-! ### Infinity -/

-- Exponents get names here, so that nothing computes the powers.
section Exponents
variable {t j k : Nat}

/-- Twice the middle between the greatest magnitude and the power of two above it. -/
private theorem units_top (ht : t = 2045) :
    units (infinityRank - 1) + units infinityRank = (2 ^ 54 - 1) * 2 ^ t := by
  have hlast : infinityRank - 1 = t * 2 ^ 52 + (2 ^ 53 - 1) := by subst ht; decide
  have hend : infinityRank = (t + 1) * 2 ^ 52 + 2 ^ 52 := by subst ht; decide
  rw [hlast, units_block (by decide) (.inr (by decide)), hend,
    units_block (by decide) (.inr (le_refl _)), pow_succ 2 t]
  clear ht hlast hend
  generalize 2 ^ t = step
  omega

private theorem lt_middle_iff (m : Nat) :
    2 * (m * 2 ^ j) < (2 ^ 54 - 1) * 2 ^ (1 + (k + j)) ↔ m < (2 ^ 54 - 1) * 2 ^ k := by
  have htop : (2 ^ 54 - 1) * 2 ^ (1 + (k + j)) = 2 * ((2 ^ 54 - 1) * 2 ^ k * 2 ^ j) := by
    rw [Nat.pow_add 2 1, Nat.pow_add 2 k]
    ring
  rw [htop, Nat.mul_lt_mul_left (by decide), Nat.mul_lt_mul_right (Nat.two_pow_pos j)]

private theorem middle_eq (hk : k = 970) : 2 ^ 1024 - 2 ^ 970 = (2 ^ 54 - 1) * 2 ^ k := by
  have hsum : 1024 = 54 + k := by omega
  calc 2 ^ 1024 - 2 ^ 970 = 2 ^ (54 + k) - 2 ^ k := by rw [← hsum, hk]
    _ = (2 ^ 54 - 1) * 2 ^ k := by rw [pow_add, Nat.sub_one_mul]

end Exponents

/-- Integers become infinite from the middle between the greatest magnitude and the power of two
above it. -/
theorem isInfinite_ofInt_iff (i : Int) :
    (ofInt i).isInfinite = true ↔ 2 ^ 1024 - 2 ^ 970 ≤ i.natAbs := by
  obtain ⟨j, hj, hone⟩ := unitsPerOne_eq
  obtain ⟨k, hk⟩ : ∃ k, k = 970 := ⟨_, rfl⟩
  have hodd : ¬(infinityRank - 1) % 2 = 0 := by decide
  have hfinite : (nearest (i.natAbs * unitsPerOne) 1).val ≤ infinityRank - 1 ↔
      i.natAbs < (2 ^ 54 - 1) * 2 ^ k := by
    rw [nearest_le_iff Nat.one_pos (by decide), Below, Nat.sub_add_cancel (by decide),
      units_top (t := 1 + (k + j)) (by omega), Nat.mul_one, or_iff_left fun h => hodd h.2, hone]
    exact lt_middle_iff _
  have hle := Nat.le_of_lt_succ (nearest (i.natAbs * unitsPerOne) 1).isLt
  have hpos : 0 < infinityRank := by decide
  rw [middle_eq hk, ← Nat.not_lt, ← hfinite, ofInt, isInfinite, beq_iff_eq]
  clear hfinite
  omega

end SortedSetClient.Binary64
