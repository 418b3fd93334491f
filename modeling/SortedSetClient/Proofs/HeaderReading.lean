import SortedSetClient.Proofs.LineEnds
import SortedSetClient.Proofs.Numerals
import SortedSetClient.Resp.Parser

/-! What the readers make of a header line, by the three things its number can be: nil, a length
that is refused, or a count. Without a line end nothing is read yet. -/
namespace SortedSetClient.Resp
open Decimal (Spells)

theorem line_append (type : UInt8) (text rest : Bytes) :
    Value.line type text ++ rest = type :: (text ++ 0x0d :: 0x0a :: rest) := by
  simp [Value.line]

@[simp] theorem Value.length_line (type : UInt8) (text : Bytes) :
    (Value.line type text).length = text.length + 3 := by
  simp [Value.line]

theorem readInteger_eq_ok_iff {text : Bytes} {n : Int64} :
    readInteger text = .ok n ↔ Spells text n.toInt := by
  rw [← Decimal.int64?_eq_some_iff, readInteger]
  cases Decimal.int64? text <;> simp

/-- A length is nil, refused, or a count. -/
theorem length_cases (n : Int64) : n = -1 ∨ n < -1 ∨ ∃ k, k < 2 ^ 63 ∧ n = Int64.ofNat k := by
  rw [← Int64.toInt_inj, Int64.lt_iff_toInt_lt, show (-1 : Int64).toInt = -1 from rfl]
  by_cases h : 0 ≤ n.toInt
  · have hk : n.toInt.toNat < 2 ^ 63 := by have := n.toInt_lt; omega
    refine .inr (.inr ⟨n.toInt.toNat, hk, ?_⟩)
    rw [← Int64.toInt_inj, Int64.toInt_ofNat_of_lt hk, Int.toNat_of_nonneg h]
  · omega

section Counts
variable {k : Nat} (hk : k < 2 ^ 63)
include hk

theorem count_ne_nil : Int64.ofNat k ≠ -1 := by
  rw [ne_eq, ← Int64.toInt_inj, Int64.toInt_ofNat_of_lt hk, show (-1 : Int64).toInt = -1 from rfl]
  omega

theorem count_not_neg : ¬ Int64.ofNat k < 0 := by
  rw [Int64.lt_iff_toInt_lt, Int64.toInt_ofNat_of_lt hk, Int64.toInt_zero]
  omega

theorem count_not_refused : ¬ Int64.ofNat k < -1 := by
  rw [Int64.lt_iff_toInt_lt, Int64.toInt_ofNat_of_lt hk, show (-1 : Int64).toInt = -1 from rfl]
  omega

theorem count_eq_zero : Int64.ofNat k = 0 ↔ k = 0 := by
  rw [← Int64.toInt_inj, Int64.toInt_ofNat_of_lt hk, Int64.toInt_zero]
  omega

theorem count_pos_iff : 0 < Int64.ofNat k ↔ 0 < k := by
  rw [Int64.lt_iff_toInt_lt, Int64.toInt_ofNat_of_lt hk, Int64.toInt_zero]
  omega

end Counts

theorem refused_length {n : Int64} (h : n < -1) : n ≠ -1 ∧ n < 0 := by
  rw [Int64.lt_iff_toInt_lt, show (-1 : Int64).toInt = -1 from rfl] at h
  rw [ne_eq, ← Int64.toInt_inj, Int64.lt_iff_toInt_lt, show (-1 : Int64).toInt = -1 from rfl,
    Int64.toInt_zero]
  omega

/-- Counted data have arrived with the two octets after them, or not. -/
theorem data_cases (k : Nat) (bytes : Bytes) :
    bytes.length < k + 2 ∨
      ∃ data a b rest, data.length = k ∧ bytes = data ++ a :: b :: rest := by
  by_cases h : bytes.length < k + 2
  · exact .inl h
  · match hd : bytes.drop k with
    | [] => have := congrArg List.length hd; simp at this; omega
    | [a] => have := congrArg List.length hd; simp at this; omega
    | a :: b :: rest =>
      refine .inr ⟨bytes.take k, a, b, rest, by rw [List.length_take]; omega, ?_⟩
      rw [← hd, List.take_append_drop]

namespace Parser

section Lines
variable {α : Type} {make : Bytes → Except Fault α} {next : Int64 → Bytes → Reading Value}

theorem readLine_line {line : Bytes} (h : Unbroken line) (rest : Bytes) :
    readLine make (line ++ 0x0d :: 0x0a :: rest) = (make line).map fun a => some (a, rest) := by
  rw [readLine, splitLine_line h]

theorem readLine_unbroken {bytes : Bytes} (h : Unbroken bytes) :
    readLine make bytes = .ok none := by
  rw [readLine, splitLine_eq_none_iff.mpr h]

theorem readCounted_line {line : Bytes} (h : Unbroken line) (rest : Bytes) :
    readCounted next (line ++ 0x0d :: 0x0a :: rest) =
      (readInteger line).bind fun n => next n rest := by
  rw [readCounted, readLine_line h]
  cases readInteger line <;> rfl

theorem readCounted_unbroken {bytes : Bytes} (h : Unbroken bytes) :
    readCounted next bytes = .ok none := by
  rw [readCounted, readLine_unbroken h]

end Lines

theorem readBulk_refused {n : Int64} (h : n < -1) (bytes : Bytes) :
    readBulk n bytes = .error (.invalidBulkLength n) := by
  rw [readBulk, if_neg (refused_length h).1, if_pos (refused_length h).2]

theorem readBulk_data {data : Bytes} (hk : data.length < 2 ^ 63) (a b : UInt8) (rest : Bytes) :
    readBulk (Int64.ofNat data.length) (data ++ a :: b :: rest) =
      if a = 0x0d ∧ b = 0x0a then .ok (some (.bulk data, rest)) else .error .missingTerminator := by
  rw [readBulk, if_neg (count_ne_nil hk), if_neg (count_not_neg hk),
    Int64.toNatClampNeg_ofNat_of_lt hk, List.drop_left, List.take_left]
  split <;> simp_all

theorem readBulk_short {k : Nat} (hk : k < 2 ^ 63) {bytes : Bytes} (h : bytes.length < k + 2) :
    readBulk (Int64.ofNat k) bytes = .ok none := by
  have hd : (bytes.drop k).length < 2 := by rw [List.length_drop]; omega
  rw [readBulk, if_neg (count_ne_nil hk), if_neg (count_not_neg hk),
    Int64.toNatClampNeg_ofNat_of_lt hk]
  split
  · next he =>
    rw [he, List.length_cons, List.length_cons] at hd
    omega
  · next he =>
    rw [he, List.length_cons, List.length_cons] at hd
    omega
  · rfl

section Arrays
variable {inside : Nat → Bytes → Reading (List Value)}

theorem readArray_refused {n : Int64} (h : n < -1) (bytes : Bytes) :
    readArray inside n bytes = .error (.invalidArrayLength n) := by
  rw [readArray, if_neg (refused_length h).1, if_pos (refused_length h).2]

theorem readArray_count {k : Nat} (hk : k < 2 ^ 63) (h0 : 0 < k) (bytes : Bytes) :
    readArray inside (Int64.ofNat k) bytes =
      (inside k bytes).map fun read => read.map fun (items, rest) => (.array items, rest) := by
  rw [readArray, if_neg (count_ne_nil hk), if_neg (count_not_neg hk),
    if_neg (mt (count_eq_zero hk).mp (by omega)), Int64.toNatClampNeg_ofNat_of_lt hk]

end Arrays

/-- How the items of an array are read where that many arrays may still be opened. -/
def readInside : Nat → Nat → Bytes → Reading (List Value)
  | 0 => fun _ _ => .error .tooDeep
  | levels + 1 => readItems (readWithin levels) []

theorem readWithin_eq (levels : Nat) : readWithin levels = readValue (readInside levels) := by
  cases levels <;> rfl

end Parser
end SortedSetClient.Resp
