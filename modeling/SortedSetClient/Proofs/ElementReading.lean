import SortedSetClient.Proofs.HeaderReading
import SortedSetClient.Resp.Scanner

/-! What the scanner makes of one header line, in the cases of the readers. An element takes no more
octets than there are, and what arrives later changes neither it nor a fault. -/
namespace SortedSetClient.Resp.Element

section Lengths
variable {size : Nat} {hs : 0 < size}

theorem ofBulk_refused {n : Int64} (h : n < -1) (rest : Bytes) :
    ofBulk size hs n rest = .error (.invalidBulkLength n) :=
  if_pos h

theorem ofBulk_data {data : Bytes} (hk : data.length < 2 ^ 63) (a b : UInt8) (rest : Bytes) :
    ofBulk size hs (Int64.ofNat data.length) (data ++ a :: b :: rest) =
      if a = 0x0d ∧ b = 0x0a then .ok (some { size := size + data.length + 2, items := 0 })
      else .error .missingTerminator := by
  rw [ofBulk, if_neg (count_not_refused hk), if_neg (count_ne_nil hk)]
  simp only [Int64.toNatClampNeg_ofNat_of_lt hk, List.drop_left]
  split <;> simp_all

theorem ofBulk_short {k : Nat} (hk : k < 2 ^ 63) {rest : Bytes} (h : rest.length < k + 2) :
    ofBulk size hs (Int64.ofNat k) rest = .ok none := by
  have hd : (rest.drop k).length < 2 := by rw [List.length_drop]; omega
  rw [ofBulk, if_neg (count_not_refused hk), if_neg (count_ne_nil hk)]
  simp only [Int64.toNatClampNeg_ofNat_of_lt hk]
  split
  · next he =>
    rw [he, List.length_cons, List.length_cons] at hd
    omega
  · next he =>
    rw [he, List.length_cons, List.length_cons] at hd
    omega
  · rfl

theorem ofArray_refused {n : Int64} (h : n < -1) :
    ofArray size hs n = .error (.invalidArrayLength n) :=
  if_pos h

theorem ofArray_count {k : Nat} (hk : k < 2 ^ 63) :
    ofArray size hs (Int64.ofNat k) = .ok (some { size, items := k }) := by
  rw [ofArray, if_neg (count_not_refused hk)]
  simp only [Int64.toNatClampNeg_ofNat_of_lt hk]

end Lengths

theorem read_unbroken {bytes : Bytes} (h : Unbroken bytes) (type : UInt8) :
    read (type :: bytes) = .ok none := by
  rw [read, splitLine_eq_none_iff.mpr h]

theorem read_line {line : Bytes} (h : Unbroken line) (type : UInt8) (rest : Bytes) :
    read (type :: (line ++ 0x0d :: 0x0a :: rest)) = ofHeader type line rest := by
  rw [read, splitLine_line h]

/-- Nothing is read while a line end is still to come. -/
theorem line_of_read {bytes : Bytes} (h : read bytes ≠ .ok none) :
    ∃ type line rest, Unbroken line ∧ bytes = type :: (line ++ 0x0d :: 0x0a :: rest) := by
  cases bytes with
  | nil => exact absurd rfl h
  | cons type bytes =>
    rcases unbroken_or_line bytes with hu | ⟨line, rest, hl, rfl⟩
    · exact absurd (read_unbroken hu type) h
    · exact ⟨type, line, rest, hl, rfl⟩

private theorem ofBulk_count {size : Nat} {hs : 0 < size} {k : Nat} (hk : k < 2 ^ 63)
    {rest : Bytes} {element : Element}
    (h : ofBulk size hs (Int64.ofNat k) rest = .ok (some element)) :
    element.size = size + k + 2 ∧ k + 2 ≤ rest.length := by
  rcases data_cases k rest with hd | ⟨data, a, b, rest, rfl, rfl⟩
  · rw [ofBulk_short hk hd] at h
    cases h
  · rw [ofBulk_data hk] at h
    split at h
    · cases h
      exact ⟨rfl, by simp⟩
    · cases h

private theorem ofBulk_size {size : Nat} {hs : 0 < size} {n : Int64} {rest : Bytes}
    {element : Element} (h : ofBulk size hs n rest = .ok (some element)) :
    size ≤ element.size ∧ element.size ≤ size + rest.length := by
  rcases length_cases n with rfl | hn | ⟨k, hk, rfl⟩
  · cases h
    exact ⟨Nat.le_refl _, Nat.le_add_right _ _⟩
  · rw [ofBulk_refused hn] at h
    cases h
  · obtain ⟨hs, hr⟩ := ofBulk_count hk h
    omega

private theorem ofArray_size {size : Nat} {hs : 0 < size} {n : Int64} {element : Element}
    (h : ofArray size hs n = .ok (some element)) : element.size = size := by
  unfold ofArray at h
  split at h <;> cases h
  rfl

theorem ofHeader_size {type : UInt8} {line rest : Bytes} {element : Element}
    (h : ofHeader type line rest = .ok (some element)) :
    line.length + 3 ≤ element.size ∧ element.size ≤ line.length + 3 + rest.length := by
  unfold ofHeader at h
  dsimp only at h
  split at h
  · cases h
    exact ⟨Nat.le_refl _, Nat.le_add_right _ _⟩
  · cases h
    exact ⟨Nat.le_refl _, Nat.le_add_right _ _⟩
  · cases hn : readInteger line <;> rw [hn] at h <;> cases h
    exact ⟨Nat.le_refl _, Nat.le_add_right _ _⟩
  · cases hn : readInteger line with
    | error => rw [hn] at h; cases h
    | ok n =>
      rw [hn] at h
      exact ofBulk_size h
  · cases hn : readInteger line with
    | error => rw [hn] at h; cases h
    | ok n =>
      rw [hn] at h
      rw [ofArray_size h]
      exact ⟨Nat.le_refl _, Nat.le_add_right _ _⟩
  · cases h

theorem size_le_of_read {bytes : Bytes} {element : Element}
    (h : read bytes = .ok (some element)) : element.size ≤ bytes.length := by
  obtain ⟨type, line, rest, hl, rfl⟩ := line_of_read (by rw [h]; simp)
  rw [read_line hl] at h
  have := ofHeader_size h
  simp only [List.length_cons, List.length_append]
  omega

section More
variable (more : Bytes)

private theorem ofBulk_append {size : Nat} {hs : 0 < size} {n : Int64} {rest : Bytes}
    (h : ofBulk size hs n rest ≠ .ok none) :
    ofBulk size hs n (rest ++ more) = ofBulk size hs n rest := by
  rcases length_cases n with rfl | hn | ⟨k, hk, rfl⟩
  · rfl
  · rw [ofBulk_refused hn, ofBulk_refused hn]
  · rcases data_cases k rest with hd | ⟨data, a, b, rest, rfl, rfl⟩
    · exact absurd (ofBulk_short hk hd) h
    · rw [List.append_assoc, List.cons_append, List.cons_append, ofBulk_data hk, ofBulk_data hk]

private theorem ofHeader_append {type : UInt8} {line rest : Bytes}
    (h : ofHeader type line rest ≠ .ok none) :
    ofHeader type line (rest ++ more) = ofHeader type line rest := by
  unfold ofHeader at h ⊢
  dsimp only at h ⊢
  split
  · rfl
  · rfl
  · rfl
  · cases hn : readInteger line with
    | error => rfl
    | ok n =>
      rw [hn] at h
      exact ofBulk_append more h
  · rfl
  · rfl

theorem read_append {bytes : Bytes} (h : read bytes ≠ .ok none) :
    read (bytes ++ more) = read bytes := by
  obtain ⟨type, line, rest, hl, rfl⟩ := line_of_read h
  rw [read_line hl] at h
  rw [List.cons_append, List.append_assoc, List.cons_append, List.cons_append, read_line hl,
    read_line hl, ofHeader_append more h]

end More

section Open
variable {more : Bytes} {element : Element}

private theorem ofBulk_open {size : Nat} {hs : 0 < size} {n : Int64} {rest : Bytes}
    (h : ofBulk size hs n rest = .ok none)
    (hm : ofBulk size hs n (rest ++ more) = .ok (some element)) :
    size + rest.length < element.size := by
  rcases length_cases n with rfl | hn | ⟨k, hk, rfl⟩
  · cases h
  · rw [ofBulk_refused hn] at h
    cases h
  · rcases data_cases k rest with hd | ⟨data, a, b, rest, rfl, rfl⟩
    · rw [(ofBulk_count hk hm).1]
      omega
    · rw [ofBulk_data hk] at h
      split at h <;> cases h

private theorem ofHeader_open {type : UInt8} {line rest : Bytes}
    (h : ofHeader type line rest = .ok none)
    (hm : ofHeader type line (rest ++ more) = .ok (some element)) :
    line.length + 3 + rest.length < element.size := by
  unfold ofHeader at h hm
  dsimp only at h hm
  split at h
  · cases h
  · cases h
  · cases hn : readInteger line <;> rw [hn] at h <;> cases h
  · cases hn : readInteger line with
    | error => rw [hn] at h; cases h
    | ok n =>
      rw [hn] at h hm
      exact ofBulk_open h hm
  · cases hn : readInteger line with
    | error => rw [hn] at h; cases h
    | ok n =>
      rw [hn] at h
      have : ofArray _ _ n = .ok none := h
      unfold ofArray at this
      split at this <;> cases this
  · cases h

/-- An element ends behind every place at which it was still open. -/
theorem lt_size_of_read {bytes : Bytes} (h : read bytes = .ok none)
    (hm : read (bytes ++ more) = .ok (some element)) : bytes.length < element.size := by
  cases bytes with
  | nil => exact element.size_pos
  | cons type bytes =>
    rcases unbroken_or_line bytes with hu | ⟨line, rest, hl, rfl⟩
    · obtain ⟨type', line, rest, hl, he⟩ := line_of_read (by rw [hm]; simp)
      rw [he, read_line hl] at hm
      have hs := ofHeader_size hm
      obtain ⟨rfl, ht⟩ : type = type' ∧ bytes ++ more = line ++ 0x0d :: 0x0a :: rest := by
        simpa using he
      have hb : bytes.length < line.length + 2 := by
        refine Nat.lt_of_not_le fun hb => not_unbroken_lineEnd line [] (hu.of_infix ?_)
        have hp : line ++ [0x0d, 0x0a] <+: bytes ++ more := ⟨rest, by simp [ht]⟩
        have hpart :=
          List.prefix_of_prefix_length_le hp (List.prefix_append _ _) (by simpa using hb)
        exact hpart.isInfix
      rw [List.length_cons]
      omega
    · rw [read_line hl] at h
      rw [List.cons_append, List.append_assoc, List.cons_append, List.cons_append,
        read_line hl] at hm
      have := ofHeader_open h hm
      simp only [List.length_cons, List.length_append]
      omega

end Open

end SortedSetClient.Resp.Element
