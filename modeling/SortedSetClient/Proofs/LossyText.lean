import SortedSetClient.Proofs.LineEnds
import SortedSetClient.Utf8

/-! Reading octets as text with replacements brings no line end in: a character below 0x80 is read
from its own octet only, and every other character is written without such octets. -/
namespace SortedSetClient.Utf8
open Resp

/-- The octets of what was read as one character, or of its replacement. -/
private def pieceOctets (piece : Option Char) : Bytes :=
  String.utf8EncodeChar (piece.getD '\uFFFD')

private theorem pieceOctets_cons (piece : Option Char) :
    ∃ b tail, pieceOctets piece = b :: tail := by
  apply List.exists_cons_of_length_pos
  rw [pieceOctets, String.length_utf8EncodeChar]
  exact Char.utf8Size_pos _

/-- Neither half of a line end is among the octets. -/
private def Clear (bytes : Bytes) : Prop := ∀ b ∈ bytes, b ≠ 0x0d ∧ b ≠ 0x0a

private theorem clear_of_high {bytes : Bytes} (h : ∀ b ∈ bytes, 0x80 ≤ b.toNat) : Clear bytes := by
  intro b hb
  have := h b hb
  constructor <;> rintro rfl <;> simp at this

private theorem high_encode {c : Char} (h : 0x80 ≤ c.toNat) :
    ∀ b ∈ String.utf8EncodeChar c, 0x80 ≤ b.toNat := by
  have hc : 0x80 ≤ c.val.toNat := h
  have ofNat {n : Nat} (hl : 0x80 ≤ n) (hu : n < 256) : 0x80 ≤ (UInt8.ofNat n).toNat := by
    rw [UInt8.toNat_ofNat_of_lt' hu]
    exact hl
  fun_cases String.utf8EncodeChar c with
  | case1 v hv => exact absurd hv (by omega)
  | _ =>
    simp only [List.mem_cons, List.not_mem_nil, or_false]
    rintro b (rfl | rfl | rfl | rfl) <;> exact ofNat (by omega) (by omega)

/-- A number from 0x80 on that is no character stands for the null character. -/
private theorem clear_ofNat {n : Nat} (h : 0x80 ≤ n) :
    Clear (String.utf8EncodeChar (Char.ofNat n)) := by
  by_cases hv : n.isValidChar
  · apply clear_of_high
    apply high_encode
    rw [show Char.ofNat n = Char.ofNatAux n hv from dif_pos hv]
    exact h
  · rw [show Char.ofNat n = '\x00' from dif_neg hv]
    unfold Clear
    decide +kernel

private theorem readTail_some {bits n : Nat} {bytes rest : Bytes} {c : Char}
    (h : readTail bits n bytes = (some c, rest)) : ∃ m, bits * 64 ^ n ≤ m ∧ c = Char.ofNat m := by
  fun_induction readTail bits n bytes with
  | case1 bits bytes => exact ⟨bits, by simp, by cases h; rfl⟩
  | case2 bits n next bytes hn ih =>
    obtain ⟨m, hm, hc⟩ := ih h
    refine ⟨m, Nat.le_trans ?_ hm, hc⟩
    rw [Nat.pow_succ, Nat.mul_comm (64 ^ n) 64, ← Nat.mul_assoc]
    exact Nat.mul_le_mul_right _ (Nat.le_add_right _ _)
  | case3 => cases h
  | case4 => cases h

/-- A character of several octets has a number from 0x80 on, whatever its last octets are. -/
private theorem lead_bound {lead next : UInt8} {n : Nat} (ht : tailLength lead = some (n + 1))
    (hn : mayFollow lead next = true) :
    0x80 ≤ (leadBits lead * 64 + (next.toNat - 0x80)) * 64 ^ n := by
  simp only [tailLength, UInt8.lt_iff_toNat_lt, UInt8.reduceToNat] at ht
  simp only [mayFollow, ← UInt8.toNat_inj, UInt8.le_iff_toNat_le, UInt8.reduceToNat] at hn
  simp only [leadBits, UInt8.lt_iff_toNat_lt, UInt8.reduceToNat]
  have hcase : n = 0 ∧ 0xc2 ≤ lead.toNat ∧ lead.toNat < 0xe0 ∨
      n = 1 ∧ 0xe0 ≤ lead.toNat ∧ lead.toNat < 0xf0 ∨
      n = 2 ∧ 0xf0 ≤ lead.toNat ∧ lead.toNat < 0xf5 := by grind
  obtain ⟨rfl, hl, hu⟩ | ⟨rfl, hl, hu⟩ | ⟨rfl, hl, hu⟩ := hcase
  · grind
  · grind
  · grind

private theorem readTail_suffix (bits n : Nat) (bytes : Bytes) :
    (readTail bits n bytes).2 <:+ bytes := by
  fun_induction readTail bits n bytes with
  | case2 bits n next bytes hn ih => exact ih.trans (List.suffix_cons _ _)
  | _ => exact List.suffix_refl _

private theorem readChar_suffix (lead : UInt8) (rest : Bytes) :
    (readChar lead rest).2 <:+ rest := by
  fun_cases readChar lead rest with
  | case4 => exact (readTail_suffix _ _ _).trans (List.suffix_cons _ _)
  | _ => exact List.suffix_refl _

/-- What is read as one character is written as its lead octet alone or without line ends. -/
private theorem readChar_octets (lead : UInt8) (rest : Bytes) :
    pieceOctets (readChar lead rest).1 = [lead] ∧ (readChar lead rest).2 = rest ∨
      Clear (pieceOctets (readChar lead rest).1) := by
  have replaced : Clear (pieceOctets none) := by
    unfold Clear
    decide +kernel
  fun_cases readChar lead rest with
  | case1 => exact .inr replaced
  | case2 rest ht =>
    have hl : lead.toNat < 0x80 := by
      simp only [tailLength, UInt8.lt_iff_toNat_lt, UInt8.reduceToNat] at ht
      grind
    refine .inl ⟨?_, rfl⟩
    have hv : lead.toNat.isValidChar := .inl (by omega)
    have hb : leadBits lead = lead.toNat := if_pos hl
    have hc : (Char.ofNat lead.toNat).val.toNat = lead.toNat := by
      rw [show Char.ofNat lead.toNat = Char.ofNatAux lead.toNat hv from dif_pos hv]
      rfl
    rw [pieceOctets, Option.getD_some, hb, String.utf8EncodeChar, hc, if_pos (by omega)]
    simp
  | case3 => exact .inr replaced
  | case4 n next rest ht hn =>
    right
    cases hr : readTail (leadBits lead * 64 + (next.toNat - 0x80)) n rest with
    | mk piece left =>
      cases piece with
      | none => exact replaced
      | some c =>
        obtain ⟨m, hm, rfl⟩ := readTail_some hr
        exact clear_ofNat (Nat.le_trans (lead_bound ht hn) hm)
  | case5 => exact .inr replaced

private theorem piecesOnto_eq (read : List (Option Char)) (bytes : Bytes) :
    piecesOnto read bytes = read.reverse ++ pieces bytes := by
  induction hn : bytes.length using Nat.strongRecOn generalizing read bytes with
  | ind n ih =>
    cases bytes with
    | nil => simp [pieces, piecesOnto]
    | cons lead rest =>
      have hs : (readChar lead rest).2.length < n := by
        have := length_readChar_le lead rest
        simp only [List.length_cons] at hn
        omega
      rw [pieces, piecesOnto, piecesOnto, ih _ hs _ _ rfl, ih _ hs [_] _ rfl]
      simp

private theorem pieces_cons (lead : UInt8) (rest : Bytes) :
    pieces (lead :: rest) = (readChar lead rest).1 :: pieces (readChar lead rest).2 := by
  rw [pieces, piecesOnto, piecesOnto_eq]
  rfl

private theorem encode_decodeLossy_cons (lead : UInt8) (rest : Bytes) :
    encode (decodeLossy (lead :: rest)) =
      pieceOctets (readChar lead rest).1 ++ encode (decodeLossy (readChar lead rest).2) := by
  simp [encode, decodeLossy, pieces_cons, pieceOctets]

private theorem encode_decodeLossy_nil : encode (decodeLossy []) = [] := by
  simp [encode, decodeLossy, pieces, piecesOnto]

/-- Reading as text moves no line feed to the front. -/
private theorem head?_decodeLossy {line : Bytes}
    (h : (encode (decodeLossy line)).head? = some 0x0a) : line.head? = some 0x0a := by
  cases line with
  | nil => simp [encode_decodeLossy_nil] at h
  | cons lead rest =>
    rw [encode_decodeLossy_cons] at h
    rcases readChar_octets lead rest with ⟨ho, -⟩ | hc
    · rw [ho] at h
      exact h
    · obtain ⟨b, tail, hb⟩ := pieceOctets_cons (readChar lead rest).1
      rw [hb] at h hc
      cases h
      exact absurd rfl (hc _ List.mem_cons_self).2

/-- Octets without a line end read as text without one. -/
theorem unbroken_decodeLossy {line : Bytes} (h : Unbroken line) :
    Unbroken (encode (decodeLossy line)) := by
  induction hn : line.length using Nat.strongRecOn generalizing line with
  | ind n ih =>
    cases line with
    | nil =>
      rw [encode_decodeLossy_nil]
      exact unbroken_nil
    | cons lead rest =>
      have hs := readChar_suffix lead rest
      have hr := ih _ (by have := hs.length_le; simp at hn; omega)
        (h.of_infix (hs.trans (List.suffix_cons _ _)).isInfix) rfl
      rw [encode_decodeLossy_cons]
      rcases readChar_octets lead rest with ⟨ho, he⟩ | hc
      · rw [he] at hr
        rw [ho, he]
        obtain ⟨-, hb⟩ := (unbroken_cons_iff _ _).mp h
        exact (unbroken_cons_iff _ _).mpr ⟨hr, fun hh => hb ⟨hh.1, head?_decodeLossy hh.2⟩⟩
      · exact unbroken_append_of_not_mem (fun hm => (hc _ hm).1 rfl) hr

end SortedSetClient.Utf8
