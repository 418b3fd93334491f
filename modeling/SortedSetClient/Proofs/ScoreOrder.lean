import SortedSetClient.Proofs.Rounding
import SortedSetClient.Score

/-! The order of scores. It is the order of places, and integers that share a place are told
apart by themselves. A floating-point number at that place is the same as each of them. -/
namespace SortedSetClient.Score
open Binary64

/-- Where the number stands that a score is rounded to. -/
def place? (score : Score) : Option Int := score.toBinary64.place?

@[simp] theorem place?_integer (n : Int64) : (integer n).place? = some (intPlace n.toInt) :=
  place?_ofInt n.toInt

@[simp] theorem place?_float (x : Binary64) : (float x).place? = x.place? := rfl

theorem exists_place {score : Score} (h : score.isNaN = false) : ∃ p, score.place? = some p := by
  rcases hx : score.toBinary64 with _ | ⟨negative, rank⟩
  · rw [isNaN, hx] at h
    cases h
  · exact ⟨_, by rw [place?, hx]; rfl⟩

/-- Two integers, the first less than the second. -/
def Ascends (a b : Score) : Prop :=
  ∃ m n : Int64, a = integer m ∧ b = integer n ∧ m.toInt < n.toInt

/-- Two different integers that are rounded to one number. -/
def Conflated (a b : Score) : Prop :=
  a.place? = b.place? ∧ ∃ m n : Int64, a = integer m ∧ b = integer n ∧ m ≠ n

theorem Ascends.conflated {a b : Score} (h : Ascends a b) (hp : a.place? = b.place?) :
    Conflated a b := by
  obtain ⟨m, n, rfl, rfl, hlt⟩ := h
  exact ⟨hp, m, n, rfl, rfl, by rintro rfl; exact lt_irrefl _ hlt⟩

theorem Ascends.trans {a b c : Score} (h : Ascends a b) (h' : Ascends b c) : Ascends a c := by
  obtain ⟨m, n, rfl, rfl, hmn⟩ := h
  obtain ⟨_, k, hn, rfl, hnk⟩ := h'
  cases hn
  exact ⟨m, k, rfl, rfl, hmn.trans hnk⟩

section Places
variable {a b c : Score} {p q r : Int} (ha : a.place? = some p) (hb : b.place? = some q)
include ha hb

/-- Two integers are compared as integers, any other two scores by place. -/
private theorem compare?_cases :
    (∃ m n, a = integer m ∧ b = integer n ∧ p = intPlace m.toInt ∧ q = intPlace n.toInt ∧
      a.compare? b = some (compare m.toInt n.toInt)) ∨
    ¬Ascends a b ∧ ¬Conflated a b ∧ a.compare? b = some (compare p q) := by
  have hplaces : a.toBinary64.compare? b.toBinary64 = some (compare p q) := by
    rw [place?] at ha hb
    rw [Binary64.compare?, ha, hb]
    rfl
  cases a with
  | float x =>
    refine .inr ⟨?_, ?_, by rw [← hplaces]; cases b <;> rfl⟩
    · rintro ⟨_, _, h, _⟩; cases h
    · rintro ⟨_, _, _, h, _⟩; cases h
  | integer m =>
    cases b with
    | float y =>
      refine .inr ⟨?_, ?_, hplaces⟩
      · rintro ⟨_, _, _, h, _⟩; cases h
      · rintro ⟨_, _, _, _, h, _⟩; cases h
    | integer n =>
      rw [place?_integer, Option.some.injEq] at ha hb
      exact .inl ⟨m, n, rfl, rfl, ha.symm, hb.symm, rfl⟩

theorem exists_compare? : ∃ order, a.compare? b = some order := by
  rcases compare?_cases ha hb with ⟨_, _, -, -, -, -, hcmp⟩ | ⟨-, -, hcmp⟩ <;> exact ⟨_, hcmp⟩

theorem lt_iff : a.lt b = true ↔ p < q ∨ p = q ∧ Ascends a b := by
  rw [lt, beq_iff_eq]
  rcases compare?_cases ha hb with ⟨m, n, rfl, rfl, rfl, rfl, hcmp⟩ | ⟨hab, -, hcmp⟩
  · rw [hcmp, Option.some.injEq, Int.compare_eq_lt]
    constructor
    · intro hlt
      have hmn : Ascends (integer m) (integer n) := ⟨m, n, rfl, rfl, hlt⟩
      exact (intPlace_mono hlt.le).lt_or_eq.imp_right fun he => ⟨he, hmn⟩
    · rintro (hlt | ⟨-, _, _, hm, hn, hlt⟩)
      · exact intPlace_mono.reflect_lt hlt
      · cases hm; cases hn; exact hlt
  · rw [hcmp, Option.some.injEq, Int.compare_eq_lt]
    exact ⟨.inl, fun h => h.elim id fun h => absurd h.2 hab⟩

theorem same_iff : a.same b = true ↔ p = q ∧ ¬Conflated a b := by
  rw [same, beq_iff_eq]
  rcases compare?_cases ha hb with ⟨m, n, rfl, rfl, rfl, rfl, hcmp⟩ | ⟨-, hab, hcmp⟩
  · rw [hcmp, Option.some.injEq, Int.compare_eq_eq, Int64.toInt_inj]
    constructor
    · rintro rfl
      refine ⟨rfl, ?_⟩
      rintro ⟨-, _, _, hm, hn, hne⟩
      cases hm; cases hn; exact hne rfl
    · rintro ⟨he, hmn⟩
      by_contra hne
      exact hmn ⟨by rw [ha, hb, he], m, n, rfl, rfl, hne⟩
  · rw [hcmp, Option.some.injEq, Int.compare_eq_eq]
    exact ⟨fun he => ⟨he, hab⟩, fun h => h.1⟩

omit hb in
theorem same_self : a.same a = true := by
  refine (same_iff ha ha).mpr ⟨rfl, ?_⟩
  rintro ⟨-, m, n, rfl, hn, hne⟩
  cases hn
  exact hne rfl

variable (hc : c.place? = some r)
include hc

theorem lt_trans (hab : a.lt b = true) (hbc : b.lt c = true) : a.lt c = true := by
  rw [lt_iff ha hb] at hab
  rw [lt_iff hb hc] at hbc
  rw [lt_iff ha hc]
  rcases hab with hlt | ⟨rfl, hab⟩
  · exact .inl (hlt.trans_le (hbc.elim le_of_lt fun h => h.1.le))
  · rcases hbc with hlt | ⟨rfl, hbc⟩
    · exact .inl hlt
    · exact .inr ⟨rfl, hab.trans hbc⟩

/-- Sameness is carried, but not from one integer to another. -/
theorem same_trans_iff (hab : a.same b = true) (hbc : b.same c = true) :
    a.same c = true ↔ ¬Conflated a c := by
  have hpq := ((same_iff ha hb).mp hab).1
  have hqr := ((same_iff hb hc).mp hbc).1
  rw [same_iff ha hc, and_iff_right (hpq.trans hqr)]

/-- What is the same as something greater is greater, but for the number that both integers are
rounded to. -/
theorem lt_of_lt_of_same_iff (hab : a.lt b = true) (hbc : b.same c = true) :
    a.lt c = true ↔ ¬(Conflated a b ∧ ∃ x, c = .float x) := by
  obtain ⟨rfl, hne⟩ := (same_iff hb hc).mp hbc
  rcases (lt_iff ha hb).mp hab with hlt | ⟨rfl, m, n, rfl, rfl, hmn⟩
  · refine iff_of_true ((lt_iff ha hc).mpr (.inl hlt)) fun h => hlt.ne ?_
    rw [← Option.some.injEq, ← ha, ← hb]
    exact h.1.1
  · -- All three are at one place, where only integers are told apart.
    have hascends : Ascends (integer m) (integer n) := ⟨m, n, rfl, rfl, hmn⟩
    rw [lt_iff ha hc]
    cases c with
    | float x =>
      refine iff_of_false ?_ fun h => h ⟨hascends.conflated (ha.trans hb.symm), x, rfl⟩
      rintro (hlt | ⟨-, _, _, _, h, _⟩)
      · exact lt_irrefl _ hlt
      · cases h
    | integer k =>
      obtain rfl : n = k := by
        by_contra hk
        exact hne ⟨hb.trans hc.symm, n, k, rfl, rfl, hk⟩
      exact iff_of_true (.inr ⟨rfl, hascends⟩) (by rintro ⟨-, _, h⟩; cases h)

end Places

theorem compare?_swap (a b : Score) : b.compare? a = (a.compare? b).map Ordering.swap := by
  have hfloat (x y : Binary64) : y.compare? x = (x.compare? y).map Ordering.swap := by
    rw [Binary64.compare?, Binary64.compare?]
    cases x.place? with
    | none => cases y.place? <;> rfl
    | some p =>
      cases y.place? with
      | none => rfl
      | some q => exact congrArg some (Int.compare_swap p q).symm
  cases a with
  | float x => cases b <;> exact hfloat ..
  | integer m =>
    cases b with
    | float y => exact hfloat ..
    | integer n => exact congrArg some (Int.compare_swap ..).symm

/-- Integers of at most 53 binary digits are not rounded. -/
theorem Conflated.exists_beyond {a b : Score} (h : Conflated a b) :
    ∃ n, (a = integer n ∨ b = integer n) ∧ 2 ^ 53 < n.toInt.natAbs := by
  obtain ⟨he, m, n, rfl, rfl, hne⟩ := h
  rw [place?_integer, place?_integer, Option.some.injEq] at he
  by_contra! hnone
  exact hne (Int64.toInt_inj.mp (intPlace_injOn (hnone m (.inl rfl)) (hnone n (.inr rfl)) he))

/-- The laws of an order, and the scores for which two of them fail: sameness is not carried
between different integers that are rounded to one number, and that number is not greater than
the lesser of them. -/
theorem score_order_laws (a b c : Score) (ha : a.isNaN = false) (hb : b.isNaN = false)
    (hc : c.isNaN = false) :
    (∃ order, a.compare? b = some order ∧ b.compare? a = some order.swap) ∧
    a.same a = true ∧
    (a.lt b = true → b.lt c = true → a.lt c = true) ∧
    (a.same b = true → b.same c = true → (a.same c = true ↔ ¬Conflated a c)) ∧
    (a.lt b = true → b.same c = true →
      (a.lt c = true ↔ ¬(Conflated a b ∧ ∃ x, c = .float x))) ∧
    (Conflated a c → ∃ n, (a = .integer n ∨ c = .integer n) ∧ 2 ^ 53 < n.toInt.natAbs) := by
  obtain ⟨p, hp⟩ := exists_place ha
  obtain ⟨q, hq⟩ := exists_place hb
  obtain ⟨r, hr⟩ := exists_place hc
  obtain ⟨order, horder⟩ := exists_compare? hp hq
  exact ⟨⟨order, horder, by rw [compare?_swap, horder]; rfl⟩, same_self hp, lt_trans hp hq hr,
    same_trans_iff hp hq hr, lt_of_lt_of_same_iff hp hq hr, Conflated.exists_beyond⟩

/-- The first integer past 53 binary digits, the one before it and the number both are
rounded to. -/
theorem score_order_laws_past_53_digits :
    let even := Score.integer 9007199254740992
    let number := Score.float (.ofBits 0x4340000000000000)
    let odd := Score.integer 9007199254740993
    even.same number = true ∧ number.same odd = true ∧
      (even.same odd = true ↔ ¬Conflated even odd) ∧
      (even.lt number = true ↔ ¬(Conflated even odd ∧ ∃ x, number = .float x)) := by
  intro even number odd
  have hfirst : even.same number = true := by decide +kernel
  have hsecond : number.same odd = true := by decide +kernel
  have hback : odd.same number = true := by decide +kernel
  have hlt : even.lt odd = true := by decide +kernel
  have hlaws := score_order_laws even number odd rfl (by decide +kernel) (by decide +kernel)
  have hlaws' := score_order_laws even odd number rfl (by decide +kernel) (by decide +kernel)
  exact ⟨hfirst, hsecond, hlaws.2.2.2.1 hfirst hsecond, hlaws'.2.2.2.2.1 hlt hback⟩

/-- Neither law holds of these three scores. -/
theorem score_order_not_transitive :
    let even := Score.integer 9007199254740992
    let number := Score.float (.ofBits 0x4340000000000000)
    let odd := Score.integer 9007199254740993
    (even.isNaN = false ∧ number.isNaN = false ∧ odd.isNaN = false) ∧
      (even.same number = true ∧ number.same odd = true ∧ even.same odd = false) ∧
      even.lt odd = true ∧ odd.same number = true ∧ even.lt number = false := by
  decide +kernel

end SortedSetClient.Score
