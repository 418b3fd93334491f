import Mathlib
import SortedSetClient.Utf8

/-! Text survives its octets: reading what was written gives the text back, character by
character. -/
namespace SortedSetClient.Utf8

private theorem toNat_ofNat {n : Nat} (h : n < 256) : (UInt8.ofNat n).toNat = n :=
  UInt8.toNat_ofNat_of_lt' h

private theorem tailLength_ofNat {n : Nat} (h : n < 256) :
    tailLength (UInt8.ofNat n) =
      if n < 0x80 then some 0 else if n < 0xc2 then none else if n < 0xe0 then some 1
      else if n < 0xf0 then some 2 else if n < 0xf5 then some 3 else none := by
  simp only [tailLength, UInt8.lt_iff_toNat_lt, toNat_ofNat h]
  rfl

private theorem leadBits_ofNat {n : Nat} (h : n < 256) :
    leadBits (UInt8.ofNat n) =
      if n < 0x80 then n else if n < 0xe0 then n - 0xc0 else if n < 0xf0 then n - 0xe0
      else n - 0xf0 := by
  simp only [leadBits, UInt8.lt_iff_toNat_lt, toNat_ofNat h]
  rfl

private theorem mayFollow_ofNat {n k : Nat} (h : n < 256) (hk : k < 0x40)
    (h0 : n = 0xe0 → 0x20 ≤ k) (hd : n = 0xed → k < 0x20)
    (hf : n = 0xf0 → 0x10 ≤ k) (h4 : n = 0xf4 → k < 0x10) :
    mayFollow (UInt8.ofNat n) (UInt8.ofNat (k + 0x80)) = true := by
  have hn := toNat_ofNat h
  have hk' : (UInt8.ofNat (k + 0x80)).toNat = k + 0x80 := toNat_ofNat (by omega)
  simp only [mayFollow, UInt8.le_iff_toNat_le, ← UInt8.toNat_inj, hn, hk', UInt8.reduceToNat]
  split
  · have := h0 ‹_›; simp; omega
  · split
    · have := hd ‹_›; simp; omega
    · split
      · have := hf ‹_›; simp; omega
      · split
        · have := h4 ‹_›; simp; omega
        · simp; omega

private theorem readTail_cons {bits n k : Nat} {rest : Bytes} (h : k < 0x40) :
    readTail bits (n + 1) (UInt8.ofNat (k + 0x80) :: rest) = readTail (bits * 64 + k) n rest := by
  have hk : (UInt8.ofNat (k + 0x80)).toNat = k + 0x80 := toNat_ofNat (by omega)
  have h1 : (0x80 : UInt8) ≤ UInt8.ofNat (k + 0x80) := by
    rw [UInt8.le_iff_toNat_le, hk]; simp
  have h2 : UInt8.ofNat (k + 0x80) ≤ 0xbf := by
    simp only [UInt8.le_iff_toNat_le, hk, UInt8.reduceToNat]; omega
  rw [readTail, if_pos ⟨h1, h2⟩, hk, Nat.add_sub_cancel]

private theorem readChar_cons {n k m : Nat} {rest : Bytes} (h : n < 256)
    (ht : tailLength (UInt8.ofNat n) = some (m + 1)) (hk : k < 0x40)
    (h0 : n = 0xe0 → 0x20 ≤ k) (hd : n = 0xed → k < 0x20)
    (hf : n = 0xf0 → 0x10 ≤ k) (h4 : n = 0xf4 → k < 0x10) :
    readChar (UInt8.ofNat n) (UInt8.ofNat (k + 0x80) :: rest) =
      readTail (leadBits (UInt8.ofNat n) * 64 + k) m rest := by
  simp only [readChar, ht, mayFollow_ofNat h hk h0 hd hf h4, if_true]
  rw [toNat_ofNat (by omega), Nat.add_sub_cancel]

/-- The octets of a character are a lead octet and what is read with it. -/
theorem readChar_encode (c : Char) (rest : Bytes) :
    ∃ lead tail, String.utf8EncodeChar c = lead :: tail ∧
      readChar lead (tail ++ rest) = (some c, rest) := by
  have hc : Char.ofNat c.val.toNat = c := Char.ofNat_toNat c
  have hv : c.val.toNat < 0xd800 ∨ 0xdfff < c.val.toNat ∧ c.val.toNat < 0x110000 := c.valid
  fun_cases String.utf8EncodeChar c with
  | case1 v h =>
    have hl : v < 0x80 := Nat.lt_succ_of_le h
    refine ⟨_, _, rfl, ?_⟩
    simp only [List.nil_append, readChar, tailLength_ofNat (show v < 256 by omega),
      leadBits_ofNat (show v < 256 by omega), hl, if_true]
    exact Prod.ext (congrArg some hc) rfl
  | case2 v h h' =>
    have hn : v / 64 % 32 + 0xc0 < 256 := by omega
    refine ⟨_, _, rfl, ?_⟩
    rw [List.cons_append, List.nil_append, readChar_cons (m := 0) hn
      (by rw [tailLength_ofNat hn]; grind) (by omega) (by omega) (by omega) (by omega) (by omega),
      leadBits_ofNat hn, readTail]
    have e : (if v / 64 % 32 + 0xc0 < 0x80 then v / 64 % 32 + 0xc0
      else if v / 64 % 32 + 0xc0 < 0xe0 then v / 64 % 32 + 0xc0 - 0xc0
      else if v / 64 % 32 + 0xc0 < 0xf0 then v / 64 % 32 + 0xc0 - 0xe0
      else v / 64 % 32 + 0xc0 - 0xf0) * 64 + v % 64 = v := by grind
    rw [e, hc]
  | case3 v h h' h'' =>
    have hn : v / 4096 % 16 + 0xe0 < 256 := by omega
    refine ⟨_, _, rfl, ?_⟩
    rw [List.cons_append, List.cons_append, List.nil_append, readChar_cons (m := 1) hn
      (by rw [tailLength_ofNat hn]; grind) (by omega) (by omega) (by omega) (by omega) (by omega),
      leadBits_ofNat hn, readTail_cons (by omega), readTail]
    have e : ((if v / 4096 % 16 + 0xe0 < 0x80 then v / 4096 % 16 + 0xe0
      else if v / 4096 % 16 + 0xe0 < 0xe0 then v / 4096 % 16 + 0xe0 - 0xc0
      else if v / 4096 % 16 + 0xe0 < 0xf0 then v / 4096 % 16 + 0xe0 - 0xe0
      else v / 4096 % 16 + 0xe0 - 0xf0) * 64 + v / 64 % 64) * 64 + v % 64 = v := by grind
    rw [e, hc]
  | case4 v h h' h'' =>
    have hn : v / 262144 % 8 + 0xf0 < 256 := by omega
    refine ⟨_, _, rfl, ?_⟩
    rw [List.cons_append, List.cons_append, List.cons_append, List.nil_append,
      readChar_cons (m := 2) hn
      (by rw [tailLength_ofNat hn]; grind) (by omega) (by omega) (by omega) (by omega) (by omega),
      leadBits_ofNat hn, readTail_cons (by omega), readTail_cons (by omega), readTail]
    have e : (((if v / 262144 % 8 + 0xf0 < 0x80 then v / 262144 % 8 + 0xf0
      else if v / 262144 % 8 + 0xf0 < 0xe0 then v / 262144 % 8 + 0xf0 - 0xc0
      else if v / 262144 % 8 + 0xf0 < 0xf0 then v / 262144 % 8 + 0xf0 - 0xe0
      else v / 262144 % 8 + 0xf0 - 0xf0) * 64 + v / 4096 % 64) * 64 + v / 64 % 64) * 64 + v % 64
        = v := by grind
    rw [e, hc]

theorem piecesOnto_encode (read : List (Option Char)) (chars : List Char) :
    piecesOnto read (chars.flatMap String.utf8EncodeChar) = read.reverse ++ chars.map some := by
  induction chars generalizing read with
  | nil => simp [piecesOnto]
  | cons c chars ih =>
    obtain ⟨lead, tail, he, hr⟩ := readChar_encode c (chars.flatMap String.utf8EncodeChar)
    rw [List.flatMap_cons, he, List.cons_append, piecesOnto, hr, ih]
    simp

theorem pieces_encode (text : String) : pieces (encode text) = text.toList.map some := by
  rw [pieces, encode, piecesOnto_encode, List.reverse_nil, List.nil_append]

@[simp] theorem decodeLossy_encode (text : String) : decodeLossy (encode text) = text := by
  rw [decodeLossy, pieces_encode, List.map_map]
  simp [Function.comp_def]

private theorem mapM_some (chars : List Char) : (chars.map some).mapM id = some chars := by
  induction chars with
  | nil => rfl
  | cons c chars ih => rw [List.map_cons, List.mapM_cons, ih]; rfl

@[simp] theorem decode?_encode (text : String) : decode? (encode text) = some text := by
  rw [decode?, pieces_encode, mapM_some, Option.map_some, String.ofList_toList]

/-- Octets that are ASCII are those of the text they spell. -/
theorem encode_ofAscii {bytes : Bytes} (h : ∀ b ∈ bytes, b < 0x80) :
    encode (ofAscii bytes) = bytes := by
  rw [encode, ofAscii, String.toList_ofList]
  induction bytes with
  | nil => rfl
  | cons b bytes ih =>
    obtain ⟨hb, hrest⟩ := List.forall_mem_cons.mp h
    have hn : b.toNat < 0x80 := UInt8.lt_iff_toNat_lt.mp hb
    have hval : (Char.ofNat b.toNat).val.toNat = b.toNat := by
      rw [Char.ofNat, dif_pos (.inl (by omega))]
      rfl
    have hchar : String.utf8EncodeChar (Char.ofNat b.toNat) = [b] := by
      rw [String.utf8EncodeChar.eq_def]
      simp only [hval, show b.toNat ≤ 127 by omega, if_true, UInt8.ofNat_toNat]
    rw [List.map_cons, List.flatMap_cons, hchar, ih hrest]
    rfl

theorem decode?_ascii {bytes : Bytes} (h : ∀ b ∈ bytes, b < 0x80) :
    decode? bytes = some (ofAscii bytes) := by
  rw [← decode?_encode (ofAscii bytes), encode_ofAscii h]

end SortedSetClient.Utf8
