import Mathlib
import SortedSetClient.Decimal

/-! Which texts are whole numbers, and that a number is read back from the text written for it, the
only one without zeros before other digits. -/
namespace SortedSetClient.Decimal

/-- One or more digits and nothing else. -/
def Digits (text : Bytes) : Prop := text ≠ [] ∧ ∀ d ∈ text, isDigit d = true

/-- At most one sign, then one or more digits that denote the number. -/
inductive Spells : Bytes → Int → Prop where
  | plain {text : Bytes} : Digits text → Spells text (value text)
  | plus {text : Bytes} : Digits text → Spells (0x2b :: text) (value text)
  | minus {text : Bytes} : Digits text → Spells (0x2d :: text) (-(value text))

/-- The text of a number as it is written: its digits, without a zero before others. -/
structure Written (text : Bytes) (n : Nat) : Prop where
  allDigits : Digits text
  denotes : value text = n
  unpadded : text.head? = some 0x30 → text = [0x30]

theorem isDigit_iff (d : UInt8) : isDigit d = true ↔ 0x30 ≤ d.toNat ∧ d.toNat ≤ 0x39 := by
  simp [isDigit, UInt8.le_iff_toNat_le]

theorem natural?_eq_some_iff {text : Bytes} {n : Nat} :
    natural? text = some n ↔ Digits text ∧ value text = n := by
  have hg : (!text.isEmpty && text.all isDigit) = true ↔ Digits text := by simp [Digits]
  rw [natural?]
  split
  · next h => simp [hg.mp h]
  · next h => simp [mt hg.mpr h]

/-- A digit is no sign. -/
theorem splitSign_digit {d : UInt8} (h : isDigit d = true) (rest : Bytes) :
    splitSign (d :: rest) = (false, d :: rest) := by
  have hd := (isDigit_iff d).mp h
  rw [splitSign.eq_3]
  · rintro _ he
    cases he
    simp at hd
  · rintro _ he
    cases he
    simp at hd

private theorem splitSign_digits {text : Bytes} (h : Digits text) :
    splitSign text = (false, text) := by
  cases text with
  | nil => rfl
  | cons d text => exact splitSign_digit (h.2 d List.mem_cons_self) text

private theorem integer?_eq (text : Bytes) :
    integer? text = (natural? (splitSign text).2).map fun n : Nat =>
      if (splitSign text).1 then -(n : Int) else n := by
  cases h : natural? (splitSign text).2 <;> simp [integer?, h]

theorem integer?_eq_some_iff {text : Bytes} {i : Int} :
    integer? text = some i ↔ Spells text i := by
  rw [integer?_eq, Option.map_eq_some_iff]
  constructor
  · rintro ⟨n, hn, rfl⟩
    obtain ⟨hd, rfl⟩ := natural?_eq_some_iff.mp hn
    revert hd
    fun_cases splitSign text with
    | case1 rest => exact .minus
    | case2 rest => exact .plus
    | case3 text => exact .plain
  · rintro (hd | hd | hd)
    · exact ⟨_, natural?_eq_some_iff.mpr ⟨(splitSign_digits hd).symm ▸ hd, rfl⟩,
        by rw [splitSign_digits hd]; rfl⟩
    · exact ⟨_, natural?_eq_some_iff.mpr ⟨hd, rfl⟩, rfl⟩
    · exact ⟨_, natural?_eq_some_iff.mpr ⟨hd, rfl⟩, rfl⟩

theorem int64?_eq_some_iff {text : Bytes} {n : Int64} :
    int64? text = some n ↔ Spells text n.toInt := by
  rw [int64?, Option.bind_eq_some_iff]
  constructor
  · rintro ⟨i, hi, hn⟩
    obtain ⟨⟨hmin, hmax⟩, rfl⟩ :
        (Int64.minValue.toInt ≤ i ∧ i ≤ Int64.maxValue.toInt) ∧ Int64.ofInt i = n := by
      simpa only [toInt64?, Option.ite_none_right_eq_some, Option.some.injEq] using hn
    rw [Int64.toInt_ofInt_of_le hmin (Int.lt_of_le_of_lt hmax (by decide))]
    exact integer?_eq_some_iff.mp hi
  · intro h
    refine ⟨n.toInt, integer?_eq_some_iff.mpr h, ?_⟩
    rw [toInt64?, if_pos ⟨n.minValue_le_toInt, n.toInt_le⟩, Int64.ofInt_toInt]

theorem uint64?_eq_some_iff {text : Bytes} {n : UInt64} :
    uint64? text = some n ↔
      Digits text ∧ value text < 2 ^ 64 ∧ UInt64.ofNat (value text) = n := by
  have hsize (k : Nat) : toUInt64? k = some n ↔ k < 2 ^ 64 ∧ UInt64.ofNat k = n := by
    rw [toUInt64?, Option.ite_none_right_eq_some, Option.some.injEq]
    rfl
  rw [uint64?, Option.bind_eq_some_iff]
  constructor
  · rintro ⟨k, hk, hn⟩
    obtain ⟨hd, rfl⟩ := natural?_eq_some_iff.mp hk
    exact ⟨hd, (hsize _).mp hn⟩
  · rintro ⟨hd, hn⟩
    exact ⟨value text, natural?_eq_some_iff.mpr ⟨hd, rfl⟩, (hsize _).mpr hn⟩

private theorem foldl_digits (text : Bytes) (n : Nat) :
    text.foldl (fun n d => 10 * n + (d.toNat - 0x30)) n = n * 10 ^ text.length + value text := by
  induction text generalizing n with
  | nil => simp [value]
  | cons d text ih =>
    rw [value, List.foldl_cons, List.foldl_cons, ih, ih (10 * 0 + _), List.length_cons,
      Nat.pow_succ]
    ring

/-- Digits behind others move these up by as many places. -/
theorem value_append (text more : Bytes) :
    value (text ++ more) = value text * 10 ^ more.length + value more := by
  rw [value, List.foldl_append, foldl_digits]
  rfl

theorem value_zeros (k : Nat) : value (List.replicate k 0x30) = 0 := by
  induction k with
  | zero => rfl
  | succ k ih => exact ih

private theorem digit_toNat {n : Nat} (h : n < 10) : (UInt8.ofNat (0x30 + n)).toNat = 0x30 + n :=
  UInt8.toNat_ofNat_of_lt' (by rw [UInt8.size]; omega)

private theorem isDigit_digit {n : Nat} (h : n < 10) : isDigit (UInt8.ofNat (0x30 + n)) = true := by
  rw [isDigit_iff, digit_toNat h]
  omega

theorem digits_digits (n : Nat) : Digits (digits n) := by
  fun_induction digits n with
  | case1 n h => exact ⟨by simp, by simpa using isDigit_digit h⟩
  | case2 n h ih =>
    refine ⟨by simp, fun d hd => ?_⟩
    rcases List.mem_append.mp hd with hd | hd
    · exact ih.2 d hd
    · rw [List.mem_singleton.mp hd]
      exact isDigit_digit (Nat.mod_lt _ (by omega))

theorem value_digits (n : Nat) : value (digits n) = n := by
  fun_induction digits n with
  | case1 n h =>
    change 10 * 0 + ((UInt8.ofNat (0x30 + n)).toNat - 0x30) = n
    rw [digit_toNat h]
    omega
  | case2 n h ih =>
    rw [value_append, ih]
    change n / 10 * 10 ^ 1 + (10 * 0 + ((UInt8.ofNat (0x30 + n % 10)).toNat - 0x30)) = n
    rw [digit_toNat (Nat.mod_lt _ (by omega))]
    omega

private theorem value_singleton (d : UInt8) : value [d] = d.toNat - 0x30 := Nat.zero_add _

private theorem ofNat_value {d : UInt8} (h : isDigit d = true) :
    UInt8.ofNat (0x30 + value [d]) = d := by
  rw [value_singleton, Nat.add_sub_cancel' ((isDigit_iff d).mp h).1, UInt8.ofNat_toNat]

private theorem value_digit_lt {d : UInt8} (h : isDigit d = true) : value [d] < 10 := by
  have := (isDigit_iff d).mp h
  rw [value_singleton]
  omega

/-- Digits that do not begin with a zero denote a positive number. -/
private theorem value_pos {d : UInt8} {text : Bytes} (hd : isDigit d = true) (h : d ≠ 0x30) :
    0 < value (d :: text) := by
  have hrange := (isDigit_iff d).mp hd
  have hne : d.toNat ≠ 0x30 := fun he => h (UInt8.toNat_inj.mp he)
  have hpos : 0 < value [d] := by
    rw [value_singleton]
    omega
  calc 0 < value [d] * 10 ^ text.length := Nat.mul_pos hpos (Nat.pow_pos (by decide))
    _ ≤ value [d] * 10 ^ text.length + value text := Nat.le_add_right _ _
    _ = value (d :: text) := (value_append [d] text).symm

/-- A number is written in one way. -/
theorem digits_value {text : Bytes} (h : Digits text)
    (hhead : text.head? = some 0x30 → text = [0x30]) : digits (value text) = text := by
  induction text using List.reverseRecOn with
  | nil => exact absurd rfl h.1
  | append_singleton front d ih =>
    have hd : isDigit d = true := h.2 d (by simp)
    have hlt := value_digit_lt hd
    have hvalue : value (front ++ [d]) = 10 * value front + value [d] := by
      rw [value_append, List.length_singleton, pow_one, Nat.mul_comm]
    rw [hvalue]
    rcases front with _ | ⟨c, front⟩
    · rw [show value [] = 0 from rfl, Nat.mul_zero, Nat.zero_add, digits, if_pos hlt, ofNat_value hd]
      rfl
    · have hc : c ≠ 0x30 := by
        rintro rfl
        have := congrArg List.length (hhead rfl)
        simp at this
      have hfront : Digits (c :: front) :=
        ⟨List.cons_ne_nil c front, fun b hb => h.2 b (List.mem_append_left _ hb)⟩
      have hpos : 0 < value (c :: front) := value_pos (hfront.2 c List.mem_cons_self) hc
      rw [digits, if_neg (by omega), Nat.mul_add_div (by decide), Nat.div_eq_of_lt hlt, Nat.add_zero,
        Nat.mul_add_mod, Nat.mod_eq_of_lt hlt, ofNat_value hd,
        ih hfront fun he => absurd (Option.some.inj he) hc]

theorem written_iff {text : Bytes} {n : Nat} : Written text n ↔ text = digits n := by
  constructor
  · rintro ⟨hdigits, rfl, hhead⟩
    exact (digits_value hdigits hhead).symm
  · rintro rfl
    refine ⟨digits_digits n, value_digits n, ?_⟩
    fun_induction digits n with
    | case1 n h =>
      intro he
      rw [List.head?_cons, Option.some.injEq] at he
      rw [he]
    | case2 n h ih =>
      intro he
      rw [List.head?_append_of_ne_nil _ (digits_digits _).1] at he
      have hzero := congrArg value (ih he)
      rw [value_digits] at hzero
      change n / 10 = 0 at hzero
      omega

theorem spells_digits (n : Nat) : Spells (digits n) n := by
  have h := Spells.plain (digits_digits n)
  rwa [value_digits] at h

/-- A written number denotes itself. -/
theorem spells_ofInt (i : Int) : Spells (ofInt i) i := by
  unfold ofInt
  split
  · have h := Spells.minus (digits_digits i.natAbs)
    rwa [value_digits, show -(i.natAbs : Int) = i by omega] at h
  · have h := Spells.plain (digits_digits i.natAbs)
    rwa [value_digits, show (i.natAbs : Int) = i by omega] at h

/-- A carriage return is neither sign nor digit. -/
theorem Spells.not_mem {text : Bytes} {i : Int} (h : Spells text i) : 0x0d ∉ text := by
  have clear {text : Bytes} (hd : Digits text) : 0x0d ∉ text := fun hm => by
    have := hd.2 _ hm
    simp [isDigit] at this
  rcases h with hd | hd | hd
  · exact clear hd
  · simpa using clear hd
  · simpa using clear hd

end SortedSetClient.Decimal
