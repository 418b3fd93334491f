import SortedSetClient.Binary64.Text
import SortedSetClient.Proofs.NumberLengths
import SortedSetClient.Proofs.Rounding

/-! Every number is read back from its own text, bit for bit. A text that spells an integer is read
as the number nearest to that integer, up to the sign of a zero. -/
namespace SortedSetClient.Binary64
open Decimal (Digits Spells isDigit value)

/-! ### Decimals that are read -/

/-- A decimal of no great exponent is rounded once. -/
theorem nearestDecimal_whole (coefficient : Nat) {k : Nat} (hk : k ≤ 310) :
    nearestDecimal coefficient k = nearest (coefficient * 10 ^ k * unitsPerOne) 1 := by
  unfold nearestDecimal
  split
  · next h =>
    have hzero := nearest_units Nat.one_pos 0 (by decide : (0 : Nat) < infinityRank)
    rw [h, Nat.zero_mul, Nat.zero_mul, ← hzero]
    rfl
  · rw [if_neg (by omega), if_neg (by omega), if_pos (by omega), Int.toNat_natCast]
    rfl

/-- The whole power of ten may be part of the coefficient. -/
theorem nearestDecimal_scale (coefficient : Nat) {k : Nat} (hk : k ≤ 310) :
    nearestDecimal (coefficient * 10 ^ k) 0 = nearestDecimal coefficient k := by
  have h := nearestDecimal_whole (coefficient * 10 ^ k) (k := 0) (by omega)
  rw [pow_zero, Nat.mul_one, ← nearestDecimal_whole coefficient hk] at h
  exact h

/-- A magnitude with all its places is read back. -/
theorem nearestDecimal_exact {rank : Rank} (h : rank.val < infinityRank) :
    nearestDecimal (exact rank.val).1 (exact rank.val).2 = rank := by
  -- The exponent gets a name, so that nothing computes the powers.
  obtain ⟨j, hj, hone⟩ := unitsPerOne_eq
  obtain ⟨i, hi, he⟩ :
      ∃ i, i = 1074 ∧ exact rank.val = (units rank.val * Nat.pow 5 i, -1074) := ⟨_, rfl, rfl⟩
  obtain rfl : i = j := hi.trans hj.symm
  rw [he, show (-1074 : Int) = -(i : Int) by omega]
  dsimp only
  unfold nearestDecimal
  split
  · next hzero =>
    have hunits : units rank.val = 0 := by simpa using hzero
    exact Fin.ext (units_strictMono.injective (hunits.trans units_zero.symm)).symm
  · next hpos =>
    have hlog : i ≤ (units rank.val * Nat.pow 5 i).log2 := by
      refine (Nat.le_log2 hpos).mpr ?_
      calc 2 ^ i ≤ 5 ^ i := Nat.pow_le_pow_left (by decide) i
        _ ≤ units rank.val * 5 ^ i := Nat.le_mul_of_pos_left _ (by
          refine Nat.pos_of_ne_zero fun hunits => hpos ?_
          rw [hunits, Nat.zero_mul])
    rw [if_neg (by omega), if_neg (by omega), if_neg (by omega), Int.neg_neg, Int.toNat_natCast,
      hone]
    have hten : units rank.val * Nat.pow 5 i * Nat.pow 2 i = units rank.val * 10 ^ i := by
      rw [Nat.mul_assoc]
      exact congrArg _ (Nat.mul_pow 5 2 i).symm
    rw [hten]
    exact nearest_units (Nat.pow_pos (by decide)) rank h

private theorem nearestDecimal_gridPoint {rank : Rank} {exponent : Int} {coefficient : Nat}
    (h : gridPoint? rank exponent = some coefficient) :
    nearestDecimal coefficient exponent = rank := by
  unfold gridPoint? at h
  generalize onGrid rank.val exponent = grid at h
  exact eq_of_beq (List.find?_some h :)

/-- The decimal that is chosen for a magnitude is read back. -/
theorem nearestDecimal_shortest {rank : Rank} (h : rank.val < infinityRank) :
    nearestDecimal (shortest rank).1 (shortest rank).2 = rank := by
  unfold shortest
  dsimp only
  rcases hf : List.findSome? _ _ with _ | ⟨coefficient, exponent⟩
  · exact nearestDecimal_exact h
  · obtain ⟨step, -, hstep⟩ := List.exists_of_findSome?_eq_some hf
    obtain ⟨found, hfound, he⟩ := Option.map_eq_some_iff.mp hstep
    cases he
    exact nearestDecimal_gridPoint hfound

/-! ### Digits that are read -/

private theorem span_digits {text rest : Bytes} (ht : ∀ d ∈ text, isDigit d = true)
    (hr : ∀ d ∈ rest.head?, isDigit d = false) : (text ++ rest).span isDigit = (text, rest) := by
  rw [List.span_eq_takeWhile_dropWhile, List.takeWhile_append_of_pos ht,
    List.dropWhile_append_of_pos ht]
  cases rest with
  | nil => simp
  | cons d rest =>
    have hd : isDigit d = false := hr d rfl
    simp [hd]

private theorem span_only_digits {text : Bytes} (h : ∀ d ∈ text, isDigit d = true) :
    text.span isDigit = (text, []) := by
  have hspan : (text ++ []).span isDigit = (text, []) := span_digits h (by simp)
  rwa [List.append_nil] at hspan

theorem readDigits?_digits {text : Bytes} (h : Digits text) :
    readDigits? text = some (nearestDecimal (value text) 0) := by
  simp only [readDigits?, span_only_digits h.2, splitFraction, readExponent?, Option.map_some]
  rw [if_neg (by simp [h.1]), List.append_nil]
  rfl

theorem readDigits?_point {whole fraction : Bytes} (hw : Digits whole)
    (hf : ∀ d ∈ fraction, isDigit d = true) :
    readDigits? (whole ++ 0x2e :: fraction) =
      some (nearestDecimal (value (whole ++ fraction)) (-(fraction.length : Int))) := by
  have hspan : (whole ++ 0x2e :: fraction).span isDigit = (whole, 0x2e :: fraction) :=
    span_digits hw.2 (by simp [isDigit])
  simp only [readDigits?, hspan, splitFraction, span_only_digits hf, readExponent?,
    Option.map_some]
  rw [if_neg (by simp [hw.1]), Int.zero_sub]

/-- The text begins with a digit and is read as this magnitude. -/
def ReadsAs (text : Bytes) (rank : Rank) : Prop :=
  (∃ d rest, text = d :: rest ∧ isDigit d = true) ∧ readDigits? text = some rank

private theorem exists_digit {text : Bytes} (h : Digits text) (more : Bytes) :
    ∃ d rest, text ++ more = d :: rest ∧ isDigit d = true := by
  obtain ⟨d, rest, rfl⟩ := List.exists_cons_of_ne_nil h.1
  exact ⟨d, rest ++ more, rfl, h.2 d List.mem_cons_self⟩

theorem readsAs_digits {text : Bytes} (h : Digits text) :
    ReadsAs text (nearestDecimal (value text) 0) :=
  ⟨List.append_nil text ▸ exists_digit h [], readDigits?_digits h⟩

theorem readsAs_point {whole fraction : Bytes} (hw : Digits whole)
    (hf : ∀ d ∈ fraction, isDigit d = true) :
    ReadsAs (whole ++ 0x2e :: fraction)
      (nearestDecimal (value (whole ++ fraction)) (-(fraction.length : Int))) :=
  ⟨exists_digit hw _, readDigits?_point hw hf⟩

private theorem isDigit_of_zeros {k : Nat} : ∀ d ∈ List.replicate k 0x30, isDigit d = true := by
  intro d hm
  rw [List.eq_of_mem_replicate hm]
  decide

/-- A point in digits that are more than its places. -/
private theorem readsAs_pointed {text : Bytes} {places : Nat} (h : ∀ d ∈ text, isDigit d = true)
    (hlt : places < text.length) :
    ReadsAs (text.take (text.length - places) ++ 0x2e :: text.drop (text.length - places))
      (nearestDecimal (value text) (-(places : Int))) := by
  have hwhole : Digits (text.take (text.length - places)) := by
    refine ⟨fun he => ?_, fun d hm => h d (List.mem_of_mem_take hm)⟩
    have := congrArg List.length he
    simp only [List.length_take, List.length_nil] at this
    omega
  have hfraction : ∀ d ∈ text.drop (text.length - places), isDigit d = true :=
    fun d hm => h d (List.mem_of_mem_drop hm)
  have hread := readsAs_point hwhole hfraction
  rwa [List.take_append_drop, List.length_drop, Nat.sub_sub_self hlt.le] at hread

/-- A decimal with every digit in its place. -/
theorem readsAs_positional {coefficient : Nat} {exponent : Int} (h : exponent ≤ 310) :
    ReadsAs (writePositional coefficient exponent) (nearestDecimal coefficient exponent) := by
  have hd := Decimal.digits_digits coefficient
  unfold writePositional
  dsimp only
  split
  · next hpos =>
    obtain ⟨k, rfl⟩ := Int.eq_ofNat_of_zero_le hpos
    have hzeros : Digits (Decimal.digits coefficient ++ List.replicate k 0x30) := by
      refine ⟨by simp [hd.1], fun d hm => ?_⟩
      exact (List.mem_append.mp hm).elim (hd.2 d) (isDigit_of_zeros d)
    have hread := readsAs_digits hzeros
    rwa [Decimal.value_append, Decimal.value_zeros, Decimal.value_digits, List.length_replicate,
      Nat.add_zero, nearestDecimal_scale _ (by omega)] at hread
  · next hneg =>
    obtain ⟨places, rfl⟩ : ∃ places : Nat, exponent = -(places : Int) :=
      ⟨(-exponent).toNat, by omega⟩
    rw [Int.neg_neg, Int.toNat_natCast]
    have hpadded {k : Nat} : ∀ d ∈ List.replicate k 0x30 ++ Decimal.digits coefficient,
        isDigit d = true :=
      fun d hm => (List.mem_append.mp hm).elim (isDigit_of_zeros d) (hd.2 d)
    have hlength : places < (List.replicate (places + 1 - (Decimal.digits coefficient).length)
        0x30 ++ Decimal.digits coefficient).length := by
      rw [List.length_append, List.length_replicate]
      omega
    have hread := readsAs_pointed hpadded hlength
    rwa [Decimal.value_append, Decimal.value_zeros, Nat.zero_mul, Nat.zero_add,
      Decimal.value_digits] at hread

/-- A magnitude is read back from its own text. -/
theorem readsAs_magnitude {rank : Rank} (h : rank.val < infinityRank) :
    ReadsAs (writeMagnitude rank) rank := by
  unfold writeMagnitude
  split
  · next hzero =>
    obtain rfl : rank = 0 := Fin.ext hzero
    exact readsAs_digits ⟨by simp, by simp [isDigit]⟩
  · rw [if_neg (by omega)]
    have hread : ReadsAs (writePositional (shortest rank).1 (shortest rank).2) _ :=
      readsAs_positional (shortest_bounds rank (Nat.le_refl 3200)).2.2
    rwa [nearestDecimal_shortest h] at hread

/-! ### Numbers that are read -/

private theorem lower_digit {d : UInt8} (h : isDigit d = true) : lower d = d := by
  have hd := (Decimal.isDigit_iff d).mp h
  unfold lower
  rw [if_neg]
  simp only [Bool.and_eq_true, decide_eq_true_eq, UInt8.le_iff_toNat_le, UInt8.reduceToNat]
  omega

/-- A magnitude that begins with a digit is not a name. -/
private theorem read?_digit {text rest : Bytes} {negative : Bool} {d : UInt8}
    (hs : Decimal.splitSign text = (negative, d :: rest)) (hd : isDigit d = true) :
    read? text = (readDigits? (d :: rest)).map (number negative) := by
  have hname {letter : UInt8} {letters : Bytes} (hl : isDigit letter = false) :
      (d :: rest).map lower ≠ letter :: letters := by
    rw [List.map_cons, lower_digit hd]
    intro h
    rw [(List.cons.inj h).1, hl] at hd
    cases hd
  have hinf : (d :: rest).map lower ≠ Utf8.encode "inf" := hname rfl
  have hinfinity : (d :: rest).map lower ≠ Utf8.encode "infinity" := hname rfl
  have hnan : (d :: rest).map lower ≠ Utf8.encode "nan" := hname rfl
  simp only [read?, hs, hinf, hinfinity, hnan, decide_false, Bool.or_self, if_false]
  rfl

theorem ReadsAs.read? {text : Bytes} {rank : Rank} (h : ReadsAs text rank) :
    Binary64.read? text = some (number false rank) := by
  obtain ⟨⟨d, rest, rfl, hd⟩, hread⟩ := h
  rw [read?_digit (Decimal.splitSign_digit hd rest) hd, hread]
  rfl

theorem ReadsAs.read?_minus {text : Bytes} {rank : Rank} (h : ReadsAs text rank) :
    Binary64.read? (0x2d :: text) = some (number true rank) := by
  obtain ⟨⟨d, rest, rfl, hd⟩, hread⟩ := h
  rw [read?_digit (d := d) rfl hd, hread]
  rfl

theorem ReadsAs.read?_plus {text : Bytes} {rank : Rank} (h : ReadsAs text rank) :
    Binary64.read? (0x2b :: text) = some (number false rank) := by
  obtain ⟨⟨d, rest, rfl, hd⟩, hread⟩ := h
  rw [read?_digit (d := d) rfl hd, hread]
  rfl

/-- Every number is read back from its own text. -/
theorem read?_write {x : Binary64} (h : x ≠ nan) : read? x.write = some x := by
  cases x with
  | nan => exact absurd rfl h
  | number negative rank =>
    rcases Nat.lt_or_ge rank.val infinityRank with hlt | hge
    · have hread := readsAs_magnitude hlt
      cases negative with
      | false => exact hread.read?
      | true => exact hread.read?_minus
    · obtain rfl : rank = Fin.last _ := Fin.ext (by have := rank.isLt; simp; omega)
      cases negative <;> rfl

/-- The text of an integer is read as the number nearest to it, or as the other zero. -/
theorem read?_of_spells {text : Bytes} {i : Int} (h : Spells text i) :
    ∃ x, read? text = some x ∧ x.place? = some (intPlace i) := by
  have hnearest (n : Nat) : nearestDecimal n 0 = nearest (n * unitsPerOne) 1 := by
    have := nearestDecimal_whole n (k := 0) (by omega)
    rwa [pow_zero, Nat.mul_one] at this
  have hplus (n : Nat) : intPlace n = (nearestDecimal n 0).val := by
    rw [hnearest, intPlace, if_neg (by omega), Int.natAbs_natCast]
  have hminus (n : Nat) : intPlace (-n) = -((nearestDecimal n 0).val : Int) := by
    rcases Nat.eq_zero_or_pos n with rfl | hpos
    · exact hplus 0
    · rw [hnearest, intPlace, if_pos (by omega), Int.natAbs_neg, Int.natAbs_natCast]
  cases h with
  | plain hd => exact ⟨_, (readsAs_digits hd).read?, congrArg some (hplus _).symm⟩
  | plus hd => exact ⟨_, (readsAs_digits hd).read?_plus, congrArg some (hplus _).symm⟩
  | minus hd => exact ⟨_, (readsAs_digits hd).read?_minus, congrArg some (hminus _).symm⟩

/-! ### What texts are made of -/

/-- A minus, a point or a digit. -/
def InNumber (b : UInt8) : Prop := b = 0x2d ∨ b = 0x2e ∨ isDigit b = true

theorem inNumber_digits {n : Nat} : ∀ b ∈ Decimal.digits n, InNumber b :=
  fun b hm => .inr (.inr ((Decimal.digits_digits n).2 b hm))

theorem inNumber_ofInt (i : Int) : ∀ b ∈ Decimal.ofInt i, InNumber b := by
  intro b hm
  unfold Decimal.ofInt at hm
  split at hm
  · rcases List.mem_cons.mp hm with rfl | hm
    · exact .inl rfl
    · exact inNumber_digits b hm
  · exact inNumber_digits b hm

private theorem inNumber_positional (coefficient : Nat) (exponent : Int) :
    ∀ b ∈ writePositional coefficient exponent, InNumber b := by
  have hpadded {k : Nat} : ∀ b ∈ List.replicate k 0x30 ++ Decimal.digits coefficient, InNumber b :=
    fun b hm => (List.mem_append.mp hm).elim (fun h => .inr (.inr (isDigit_of_zeros b h)))
      (inNumber_digits b)
  intro b hm
  unfold writePositional at hm
  dsimp only at hm
  split at hm
  · rcases List.mem_append.mp hm with hm | hm
    · exact inNumber_digits b hm
    · exact .inr (.inr (isDigit_of_zeros b hm))
  · rcases List.mem_append.mp hm with hm | hm
    · exact hpadded b (List.mem_of_mem_take hm)
    · rcases List.mem_cons.mp hm with rfl | hm
      · exact .inr (.inl rfl)
      · exact hpadded b (List.mem_of_mem_drop hm)

/-- A finite number is written without an exponent. -/
theorem inNumber_write {x : Binary64} (hn : x ≠ nan) (hf : x.isInfinite = false) :
    ∀ b ∈ x.write, InNumber b := by
  cases x with
  | nan => exact absurd rfl hn
  | number negative rank =>
    have hrank : rank.val ≠ infinityRank := by simpa [isInfinite] using hf
    have hmagnitude : ∀ b ∈ writeMagnitude rank, InNumber b := by
      intro b hm
      rw [writeMagnitude, if_neg hrank] at hm
      split at hm
      · exact .inr (.inr (by rw [List.mem_singleton.mp hm]; rfl))
      · exact inNumber_positional _ _ b hm
    cases negative with
    | false => exact hmagnitude
    | true =>
      intro b hm
      rcases List.mem_cons.mp hm with rfl | hm
      · exact .inl rfl
      · exact hmagnitude b hm

end SortedSetClient.Binary64
