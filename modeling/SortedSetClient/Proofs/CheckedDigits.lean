import SortedSetClient.Proofs.Numerals

/-! Digits taken into a word one by one, with every product and every sum checked. No further digit
brings a number back into the word, so what comes out is the number of all the digits if it fits.
So a signed integer of 64 bits is read from every text that denotes it and from no other. -/
namespace SortedSetClient.Decimal

/-! ### Taking digits with checks -/

/-- A word with one more digit behind it, away from zero; none where the product or the sum is no
word. -/
def appendDigit? (negative : Bool) (n : Int64) (d : UInt8) : Option Int64 := do
  let tens ← toInt64? (n.toInt * 10)
  let digit : Int := (d.toNat - 0x30 : Nat)
  toInt64? (if negative then tens.toInt - digit else tens.toInt + digit)

/-- Take the longest run of digits at the front of a text behind what was taken before. -/
def accumulate? (negative : Bool) (taken : Option Int64) : Bytes → Option Int64
  | d :: text =>
    if isDigit d then accumulate? negative (taken.bind fun n => appendDigit? negative n d) text
    else taken
  | [] => taken

/-- The word at the front of a text, whatever comes after it: at most one sign and the longest run
of digits, of which at least one octet must be there. -/
def wordAtFront? (text : Bytes) : Option Int64 :=
  let (negative, rest) := splitSign text
  if rest.length = text.length && (rest.takeWhile isDigit).isEmpty then none
  else accumulate? negative (some 0) rest

/-- The word that a whole text is: the text behind the sign must be digits throughout. -/
def checkedWord? (text : Bytes) : Option Int64 :=
  let (_, magnitude) := splitSign text
  if magnitude.isEmpty || !magnitude.all isDigit then none else wordAtFront? text

/-! ### What comes out -/

theorem toInt64?_eq_some_iff {i : Int} {n : Int64} : toInt64? i = some n ↔ n.toInt = i := by
  rw [toInt64?, Option.ite_none_right_eq_some, Option.some.injEq]
  constructor
  · rintro ⟨⟨hmin, hmax⟩, rfl⟩
    exact Int64.toInt_ofInt_of_le hmin (Int.lt_of_le_of_lt hmax (by decide))
  · rintro rfl
    exact ⟨⟨n.minValue_le_toInt, n.toInt_le⟩, Int64.ofInt_toInt n⟩

theorem toInt64?_eq_none_iff {i : Int} : toInt64? i = none ↔ i < -2 ^ 63 ∨ 2 ^ 63 ≤ i := by
  have hmin : Int64.minValue.toInt = -2 ^ 63 := by decide
  have hmax : Int64.maxValue.toInt = 2 ^ 63 - 1 := by decide
  rw [toInt64?, ite_eq_right_iff, hmin, hmax]
  simp only [reduceCtorEq, imp_false]
  omega

/-- A number with its sign. -/
def signed (negative : Bool) (n : Nat) : Int := if negative then -n else n

/-- A greater number is no word where a smaller one of the same sign is none. -/
theorem toInt64?_signed_none {negative : Bool} {m n : Nat} (h : toInt64? (signed negative m) = none)
    (hle : m ≤ n) : toInt64? (signed negative n) = none := by
  rw [toInt64?_eq_none_iff] at h ⊢
  cases negative <;> simp only [signed, if_true, if_false, Bool.false_eq_true] at h ⊢ <;> omega

/-- One digit more is the number with that digit behind it, if it fits. -/
theorem append_digit (negative : Bool) (m : Nat) (d : UInt8) :
    ((toInt64? (signed negative m)).bind fun n => appendDigit? negative n d) =
      toInt64? (signed negative (m * 10 + value [d])) := by
  have hdigit : value [d] = d.toNat - 0x30 := Nat.zero_add _
  have htens : signed negative m * 10 = signed negative (m * 10) := by
    cases negative <;> simp [signed]
  rcases hword : toInt64? (signed negative m) with _ | n
  · exact (toInt64?_signed_none hword (by omega)).symm
  · have hn := toInt64?_eq_some_iff.mp hword
    rw [Option.bind_some, appendDigit?, hn, htens]
    rcases hproduct : toInt64? (signed negative (m * 10)) with _ | tens
    · exact (toInt64?_signed_none hproduct (by omega)).symm
    · rw [hdigit]
      refine congrArg toInt64? ?_
      rw [toInt64?_eq_some_iff.mp hproduct]
      cases negative <;> simp only [signed, if_true, if_false, Bool.false_eq_true] <;> omega

/-- Digits more are the number with these digits behind it, if it fits. -/
theorem accumulate?_eq {text : Bytes} (h : ∀ d ∈ text, isDigit d = true) (negative : Bool)
    (m : Nat) : accumulate? negative (toInt64? (signed negative m)) text =
      toInt64? (signed negative (m * 10 ^ text.length + value text)) := by
  induction text generalizing m with
  | nil => simp [accumulate?, value]
  | cons d text ih =>
    have hvalue : value (d :: text) = value [d] * 10 ^ text.length + value text :=
      value_append [d] text
    obtain ⟨hd, htext⟩ := List.forall_mem_cons.mp h
    rw [accumulate?, if_pos hd, append_digit, ih htext, hvalue, List.length_cons]
    refine congrArg (fun n => toInt64? (signed negative n)) ?_
    ring

theorem checkedWord?_eq (text : Bytes) : checkedWord? text = int64? text := by
  rcases hs : splitSign text with ⟨negative, magnitude⟩
  simp only [checkedWord?, wordAtFront?, int64?, integer?, hs]
  by_cases hd : Digits magnitude
  · have hnatural : natural? magnitude = some (value magnitude) :=
      natural?_eq_some_iff.mpr ⟨hd, rfl⟩
    have hzero : some 0 = toInt64? (signed negative 0) := by cases negative <;> rfl
    have hrun : (magnitude.takeWhile isDigit).isEmpty = false := by
      rw [List.takeWhile_eq_self_iff.mpr hd.2]
      simpa using hd.1
    have hall : magnitude.all isDigit = true := List.all_eq_true.mpr hd.2
    have hne : magnitude.isEmpty = false := by simpa using hd.1
    simp only [hrun, hall, hne, hnatural, Bool.not_true, Bool.or_self, Bool.and_false, hzero,
      accumulate?_eq hd.2, Nat.zero_mul, Nat.zero_add]
    rfl
  · have hnatural : natural? magnitude = none := by
      rw [Option.eq_none_iff_forall_ne_some]
      exact fun n hn => hd (natural?_eq_some_iff.mp hn).1
    have hguard : (magnitude.isEmpty || !magnitude.all isDigit) = true := by
      by_contra hno
      refine hd ?_
      simpa [Digits] using hno
    simp only [hguard, hnatural, if_true]
    rfl

/-- The number of digits by their places, the units last. -/
theorem value_eq_ofDigits (text : Bytes) :
    value text = Nat.ofDigits 10 (text.reverse.map fun d => d.toNat - 0x30) := by
  induction text using List.reverseRecOn with
  | nil => rfl
  | append_singleton front d ih =>
    have hdigit : value [d] = d.toNat - 0x30 := Nat.zero_add _
    rw [value_append, ih, hdigit, List.reverse_append, List.reverse_singleton,
      List.singleton_append, List.map_cons, Nat.ofDigits_cons, List.length_singleton]
    ring

/-- A signed integer of 64 bits is read, by checked arithmetic digit for digit, exactly from the
texts that are at most one sign and one or more digits with nothing around them, and that denote it
by the places of these digits. No text of a number beyond the word is read as another one, and each
integer is read back from its own text. -/
theorem signed_words_read_exactly :
    (∀ text, checkedWord? text = int64? text) ∧
    (∀ (text : Bytes) (i : Int), (∃ n, int64? text = some n ∧ n.toInt = i) ↔
      Spells text i ∧ -2 ^ 63 ≤ i ∧ i ≤ 2 ^ 63 - 1) ∧
    (∀ digits, value digits = Nat.ofDigits 10 (digits.reverse.map fun d => d.toNat - 0x30)) ∧
    ∀ n, int64? (ofInt64 n) = some n := by
  refine ⟨checkedWord?_eq, fun text i => ?_, value_eq_ofDigits,
    fun n => int64?_eq_some_iff.mpr (spells_ofInt n.toInt)⟩
  constructor
  · rintro ⟨n, hn, rfl⟩
    exact ⟨int64?_eq_some_iff.mp hn, n.le_toInt, Int.le_sub_one_of_lt n.toInt_lt⟩
  · rintro ⟨hs, hmin, hmax⟩
    have hi : (Int64.ofInt i).toInt = i := Int64.toInt_ofInt_of_le hmin (by omega)
    exact ⟨Int64.ofInt i, int64?_eq_some_iff.mpr (hi.symm ▸ hs), hi⟩

/-- Leading zeros up to one edge of the word, the first number past the other, and two signs. -/
example : int64? (Utf8.encode "-009223372036854775808") = some Int64.minValue ∧
    int64? (Utf8.encode "9223372036854775808") = none ∧ int64? (Utf8.encode "+-1") = none := by
  decide +kernel

end SortedSetClient.Decimal
