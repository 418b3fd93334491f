import SortedSetClient.Proofs.ScoreOrder

/-! The exact value of a score, and what rounding keeps of the order of exact values. No two of them
change places, though two may be rounded to one number; and a floating-point number is not rounded
at all. -/
namespace SortedSetClient

/-- A rational number, or an infinity below or above all of them. -/
abbrev Extended := WithBot (WithTop ℚ)

theorem Extended.coe_le_coe_iff {q r : ℚ} :
    ((q : WithTop ℚ) : Extended) ≤ (r : WithTop ℚ) ↔ q ≤ r :=
  WithBot.coe_le_coe.trans WithTop.coe_le_coe

theorem Extended.coe_lt_coe_iff {q r : ℚ} :
    ((q : WithTop ℚ) : Extended) < (r : WithTop ℚ) ↔ q < r :=
  WithBot.coe_lt_coe.trans WithTop.coe_lt_coe

namespace Binary64

/-- The exact value of a number: an infinity, or as many units as its magnitude says, with its
sign. -/
def value? : Binary64 → Option Extended
  | nan => none
  | number negative rank =>
    if rank.val = infinityRank then some (if negative then ⊥ else ⊤)
    else
      let signed : Int := if negative then -(units rank.val : Int) else units rank.val
      some ((signed / unitsPerOne : ℚ) : WithTop ℚ)

/-! ### Values by place -/

/-- The units of the number at a place, with its sign. -/
def signedUnits (place : Int) : Int :=
  if place < 0 then -(units place.natAbs : Int) else units place.natAbs

theorem signedUnits_natCast (rank : Nat) : signedUnits rank = units rank := by
  rw [signedUnits, if_neg (by omega), Int.natAbs_natCast]

theorem signedUnits_neg (place : Int) : signedUnits (-place) = -signedUnits place := by
  unfold signedUnits
  rw [Int.natAbs_neg]
  rcases lt_trichotomy place 0 with hneg | rfl | hpos
  · rw [if_neg (by omega), if_pos hneg, Int.neg_neg]
  · rfl
  · rw [if_pos (by omega), if_neg (by omega)]

theorem signedUnits_mono : Monotone signedUnits := by
  intro p q h
  have hunits {m n : Nat} (hmn : m ≤ n) : units m ≤ units n := units_strictMono.monotone hmn
  unfold signedUnits
  split
  · split
    · have := hunits (m := q.natAbs) (n := p.natAbs) (by omega)
      omega
    · omega
  · have := hunits (m := p.natAbs) (n := q.natAbs) (by omega)
    rw [if_neg (by omega)]
    omega

/-- The value of the number at a place. -/
def valueAt (place : Int) : Extended :=
  if place ≤ -(infinityRank : Int) then ⊥
  else if (infinityRank : Int) ≤ place then ⊤
  else ((signedUnits place / unitsPerOne : ℚ) : WithTop ℚ)

theorem valueAt_finite {place : Int} (h : place.natAbs < infinityRank) :
    valueAt place = ((signedUnits place / unitsPerOne : ℚ) : WithTop ℚ) := by
  rw [valueAt, if_neg (by omega), if_neg (by omega)]

theorem valueAt_infinity : valueAt infinityRank = ⊤ := by
  have hpos : 0 < infinityRank := by decide
  rw [valueAt, if_neg (by omega), if_pos (le_refl _)]

theorem valueAt_negInfinity : valueAt (-infinityRank) = ⊥ := by
  rw [valueAt, if_pos (le_refl _)]

theorem valueAt_mono : Monotone valueAt := by
  intro p q h
  by_cases hp : p ≤ -(infinityRank : Int)
  · rw [valueAt, if_pos hp]
    exact bot_le
  by_cases hq : (infinityRank : Int) ≤ q
  · rw [valueAt.eq_1 q, if_neg (by omega), if_pos hq]
    exact le_top
  · rw [valueAt_finite (by omega), valueAt_finite (by omega)]
    refine Extended.coe_le_coe_iff.mpr ?_
    exact div_le_div_of_nonneg_right (Int.cast_le.mpr (signedUnits_mono h)) (Nat.cast_nonneg _)

theorem value?_eq (x : Binary64) : x.value? = x.place?.map valueAt := by
  cases x with
  | nan => rfl
  | number negative rank =>
    rw [value?, place?, Option.map_some]
    by_cases hr : rank.val = infinityRank
    · rw [if_pos hr, hr]
      cases negative with
      | false => exact congrArg some valueAt_infinity.symm
      | true => exact congrArg some valueAt_negInfinity.symm
    · have hrank : rank.val ≤ infinityRank := Nat.le_of_lt_succ rank.isLt
      rw [if_neg hr, valueAt_finite (by split <;> omega)]
      cases negative with
      | false => rw [← signedUnits_natCast]; rfl
      | true => rw [← signedUnits_natCast, ← signedUnits_neg]; rfl

/-! ### Places by value -/

/-- The place of the number nearest to a rational number. -/
def ratPlace (q : ℚ) : Int :=
  if q < 0 then -((nearest (q.num.natAbs * unitsPerOne) q.den).val : Int)
  else (nearest (q.num.natAbs * unitsPerOne) q.den).val

/-- The place of the number nearest to a value. -/
def nearestPlace : Extended → Int
  | ⊥ => -(infinityRank : Int)
  | (⊤ : WithTop ℚ) => infinityRank
  | (q : ℚ) => ratPlace q

theorem ratPlace_intCast (i : Int) : ratPlace i = intPlace i := by
  rw [ratPlace, intPlace, Rat.num_intCast, Rat.den_intCast]
  simp only [Int.cast_lt_zero]

theorem natAbs_ratPlace_le (q : ℚ) : (ratPlace q).natAbs ≤ infinityRank := by
  have hrank := Nat.le_of_lt_succ (nearest (q.num.natAbs * unitsPerOne) q.den).isLt
  unfold ratPlace
  split <;> omega

/-- Greater rational numbers are not rounded to smaller numbers. -/
theorem ratPlace_mono : Monotone ratPlace := by
  intro q r h
  have hcross : q.num * r.den ≤ r.num * q.den := (Rat.le_iff q r).mp h
  have hnearest {a b : ℚ} (hab : (a.num.natAbs * b.den : Int) ≤ b.num.natAbs * a.den) :
      (nearest (a.num.natAbs * unitsPerOne) a.den).val ≤
        (nearest (b.num.natAbs * unitsPerOne) b.den).val := by
    refine nearest_mono a.den_pos b.den_pos ?_
    rw [Nat.mul_right_comm, Nat.mul_right_comm b.num.natAbs]
    exact Nat.mul_le_mul_right _ (by exact_mod_cast hab)
  have hneg {a : ℚ} (ha : a < 0) : (a.num.natAbs : Int) = -a.num := by
    have := Rat.num_neg.mpr ha
    omega
  have hnonneg {a : ℚ} (ha : ¬a < 0) : (a.num.natAbs : Int) = a.num := by
    have := Rat.num_nonneg.mpr (not_lt.mp ha)
    omega
  unfold ratPlace
  by_cases hq : q < 0
  · rw [if_pos hq]
    by_cases hr : r < 0
    · -- Below zero the greater number has the smaller magnitude.
      have := hnearest (a := r) (b := q) (by rw [hneg hq, hneg hr]; linarith)
      rw [if_pos hr]
      omega
    · rw [if_neg hr]
      omega
  · have hr : ¬r < 0 := fun hr => hq (h.trans_lt hr)
    have := hnearest (a := q) (b := r) (by rw [hnonneg hq, hnonneg hr]; exact hcross)
    rw [if_neg hq, if_neg hr]
    omega

theorem natAbs_nearestPlace_le (x : Extended) : (nearestPlace x).natAbs ≤ infinityRank := by
  induction x using WithBot.recBotCoe with
  | bot => exact (Int.natAbs_neg _).le
  | coe x =>
    induction x using WithTop.recTopCoe with
    | top => exact le_refl infinityRank
    | coe q => exact natAbs_ratPlace_le q

theorem nearestPlace_mono : Monotone nearestPlace := by
  intro x y h
  have hx := natAbs_nearestPlace_le x
  have hy := natAbs_nearestPlace_le y
  induction x using WithBot.recBotCoe with
  | bot =>
    change -(infinityRank : Int) ≤ _
    omega
  | coe x =>
    induction y using WithBot.recBotCoe with
    | bot => exact absurd h (WithBot.not_coe_le_bot x)
    | coe y =>
      rw [WithBot.coe_le_coe] at h
      induction y using WithTop.recTopCoe with
      | top =>
        change _ ≤ (infinityRank : Int)
        omega
      | coe r =>
        induction x using WithTop.recTopCoe with
        | top => exact absurd h (WithTop.not_top_le_coe r)
        | coe q => exact ratPlace_mono (WithTop.coe_le_coe.mp h)

theorem signedUnits_neg_iff {place : Int} : signedUnits place < 0 ↔ place < 0 := by
  have hzero : signedUnits 0 = 0 := rfl
  constructor
  · intro h
    by_contra hp
    have := signedUnits_mono (not_lt.mp hp)
    omega
  · intro hp
    have : units 0 < units place.natAbs := units_strictMono (by omega)
    rw [units_zero] at this
    rw [signedUnits, if_pos hp]
    omega

theorem natAbs_signedUnits (place : Int) : (signedUnits place).natAbs = units place.natAbs := by
  unfold signedUnits
  split <;> omega

private theorem natAbs_num_mul (i : Int) {d : Nat} (hd : 0 < d) :
    (i / d : ℚ).num.natAbs * d = i.natAbs * (i / d : ℚ).den := by
  generalize hq : (i / d : ℚ) = q
  have hd' : (d : ℚ) ≠ 0 := Nat.cast_ne_zero.mpr hd.ne'
  have hcross : q.num * d = i * q.den := by
    rw [← Rat.num_div_den q, div_eq_div_iff hd' (Nat.cast_ne_zero.mpr q.den_nz)] at hq
    exact_mod_cast hq.symm
  have hnatAbs := congrArg Int.natAbs hcross
  rwa [Int.natAbs_mul, Int.natAbs_mul, Int.natAbs_natCast, Int.natAbs_natCast] at hnatAbs

/-- The number at a place is not rounded. -/
theorem ratPlace_units {place : Int} (h : place.natAbs < infinityRank) :
    ratPlace (signedUnits place / unitsPerOne) = place := by
  have hone : (0 : ℚ) < unitsPerOne := Nat.cast_pos.mpr unitsPerOne_pos
  have hsign : (signedUnits place / unitsPerOne : ℚ) < 0 ↔ place < 0 := by
    rw [div_lt_iff₀ hone, zero_mul, Int.cast_lt_zero, signedUnits_neg_iff]
  have hnearest := nearest_units (signedUnits place / unitsPerOne : ℚ).den_pos
    ⟨place.natAbs, Nat.lt_succ_of_lt h⟩ h
  rw [← natAbs_signedUnits, ← natAbs_num_mul _ unitsPerOne_pos] at hnearest
  rw [ratPlace, hnearest]
  change (if _ then -(place.natAbs : Int) else (place.natAbs : Int)) = place
  by_cases hp : place < 0
  · rw [if_pos (hsign.mpr hp)]
    omega
  · rw [if_neg (mt hsign.mp hp)]
    omega

/-- No number is rounded. -/
theorem nearestPlace_valueAt {place : Int} (h : place.natAbs ≤ infinityRank) :
    nearestPlace (valueAt place) = place := by
  rcases Nat.lt_or_eq_of_le h with hlt | heq
  · rw [valueAt_finite hlt]
    exact ratPlace_units hlt
  · rcases Int.natAbs_eq place with hp | hp
    · rw [hp, heq, valueAt_infinity]
      rfl
    · rw [hp, heq, valueAt_negInfinity]
      rfl

theorem natAbs_place_le {x : Binary64} {place : Int} (h : x.place? = some place) :
    place.natAbs ≤ infinityRank := by
  cases x with
  | nan => cases h
  | number negative rank =>
    have hrank : rank.val ≤ infinityRank := Nat.le_of_lt_succ rank.isLt
    rw [place?, Option.some.injEq] at h
    split at h <;> omega

end Binary64

namespace Score
open Binary64

/-- The exact value of a score that is a number. -/
def value? : Score → Option Extended
  | integer n => some ((n.toInt : ℚ) : WithTop ℚ)
  | float x => x.value?

/-- Both scores are integers, or both are floating-point numbers. -/
inductive SameKind : Score → Score → Prop where
  | integers (m n : Int64) : SameKind (integer m) (integer n)
  | floats (x y : Binary64) : SameKind (float x) (float y)

section Values
variable {a b : Score} {x y : Extended} (ha : a.value? = some x) (hb : b.value? = some y)
include ha

theorem place?_of_value? : a.place? = some (nearestPlace x) := by
  cases a with
  | integer n =>
    cases ha
    rw [place?_integer]
    exact congrArg some (ratPlace_intCast n.toInt).symm
  | float z =>
    rw [value?, value?_eq, Option.map_eq_some_iff] at ha
    obtain ⟨place, hplace, rfl⟩ := ha
    rw [place?_float, hplace, nearestPlace_valueAt (natAbs_place_le hplace)]

include hb

/-- A score that is found greater has the greater value. -/
theorem value_lt_of_gt (h : a.gt b = true) : y < x := by
  have hlt : b.lt a = true := by
    rw [lt, beq_iff_eq, compare?_swap, beq_iff_eq.mp h]
    rfl
  rcases (lt_iff (place?_of_value? hb) (place?_of_value? ha)).mp hlt with hp | ⟨-, m, n, rfl, rfl, hmn⟩
  · exact nearestPlace_mono.reflect_lt hp
  · cases ha
    cases hb
    exact Extended.coe_lt_coe_iff.mpr (Int.cast_lt.mpr hmn)

/-- Of two scores of one kind the one with the greater value is found greater. -/
theorem gt_of_value_lt (hkind : a.SameKind b) (h : y < x) : a.gt b = true := by
  cases hkind with
  | integers m n =>
    cases ha
    cases hb
    have hmn : n.toInt < m.toInt := Int.cast_lt.mp (Extended.coe_lt_coe_iff.mp h)
    rw [gt, beq_iff_eq]
    exact congrArg some (Int.compare_eq_gt.mpr hmn)
  | floats u v =>
    rw [value?, value?_eq, Option.map_eq_some_iff] at ha hb
    obtain ⟨p, hp, rfl⟩ := ha
    obtain ⟨q, hq, rfl⟩ := hb
    have hpq : q < p := valueAt_mono.reflect_lt h
    rw [gt, beq_iff_eq]
    change u.compare? v = some .gt
    rw [Binary64.compare?, hp, hq]
    exact congrArg some (Int.compare_eq_gt.mpr hpq)

end Values
end Score
end SortedSetClient
