import SortedSetClient.Bound
import SortedSetClient.Proofs.ScoreTexts
import SortedSetClient.Utf8.Lemmas

/-! The texts of score bounds: that of the score, behind a mark where the score is left out, or
the name of an infinity. A number is written without the mark and the letters of a name, so the
text tells the three apart. -/
namespace SortedSetClient.ScoreBound
open Binary64

/-- The name by which an infinity is sent. -/
def infinityName (negative : Bool) : Bytes := Utf8.encode (if negative then "-inf" else "+inf")

private theorem isInfinite_infinity (negative : Bool) :
    (Score.float (.infinity negative)).isInfinite = true := beq_self_eq_true _

private theorem eq_infinity {score : Score} (h : score.isInfinite = true) :
    ∃ negative, score = .float (.infinity negative) := by
  rcases score with _ | _ | ⟨negative, rank⟩
  · cases h
  · cases h
  · refine ⟨negative, ?_⟩
    have hrank : rank.val = infinityRank := beq_iff_eq.mp h
    rw [infinity, show rank = Fin.last _ from Fin.ext hrank]

theorem encode_infinity (negative inclusive : Bool) :
    encode ⟨.float (.infinity negative), inclusive⟩ = infinityName negative := by
  simp only [encode, isInfinite_infinity, if_true]
  rfl

theorem encode_finite {bound : ScoreBound} (hf : bound.score.isInfinite = false) :
    bound.encode = if bound.inclusive then bound.score.encode else 0x28 :: bound.score.encode := by
  rw [encode, hf, if_neg Bool.false_ne_true]

theorem inNumber_encode {score : Score} (h : score.isNaN = false)
    (hf : score.isInfinite = false) : ∀ b ∈ score.encode, InNumber b := by
  cases score with
  | integer n => exact inNumber_ofInt n.toInt
  | float x => exact inNumber_write (Score.ne_nan h) hf

private theorem head?_ne_mark {text : Bytes} (h : ∀ b ∈ text, InNumber b) :
    text.head? ≠ some 0x28 := fun he => by
  rcases h _ (List.mem_of_head? he) with h | h | h <;> cases h

private theorem ascii_inNumber {text : Bytes} (h : ∀ b ∈ text, InNumber b) :
    ∀ b ∈ text, b < 0x80 := by
  intro b hm
  rcases h b hm with rfl | rfl | hd
  · decide
  · decide
  · rw [UInt8.lt_iff_toNat_lt]
    exact Nat.lt_of_le_of_lt ((Decimal.isDigit_iff b).mp hd).2 (by decide)

/-- A name has a letter, which no number's text has, behind the mark or not. -/
private theorem ne_infinityName {text : Bytes} (h : ∀ b ∈ text, InNumber b) (negative : Bool) :
    text ≠ infinityName negative ∧ 0x28 :: text ≠ infinityName negative := by
  have hletter : 0x69 ∈ infinityName negative := by cases negative <;> decide
  constructor
  · rintro rfl
    rcases h _ hletter with h | h | h <;> cases h
  · intro he
    cases negative <;> cases he

/-- The text of a bound begins with the mark when the score is left out. -/
theorem head?_encode {bound : ScoreBound} (h : bound.score.isNaN = false) :
    bound.encode.head? = some 0x28 ↔ bound.isInclusive = false := by
  cases hf : bound.score.isInfinite with
  | true =>
    obtain ⟨score, inclusive⟩ := bound
    obtain ⟨negative, rfl⟩ := eq_infinity hf
    rw [encode_infinity, isInclusive, hf, Bool.or_true]
    cases negative <;> decide
  | false =>
    rw [encode_finite hf, isInclusive, hf, Bool.or_false]
    cases bound.inclusive with
    | true => exact iff_of_false (head?_ne_mark (inNumber_encode h hf)) (by decide)
    | false => exact iff_of_true rfl rfl

/-- The name of an infinity is the text of that infinity only, marked or not. -/
theorem encode_eq_infinityName {bound : ScoreBound} (h : bound.score.isNaN = false)
    (negative : Bool) :
    bound.encode = infinityName negative ↔ bound.score = .float (.infinity negative) := by
  obtain ⟨score, inclusive⟩ := bound
  constructor
  · intro he
    cases hf : score.isInfinite with
    | true =>
      obtain ⟨sign, rfl⟩ := eq_infinity hf
      rw [encode_infinity] at he
      cases sign <;> cases negative <;> first | rfl | cases he
    | false =>
      obtain ⟨hplain, hmarked⟩ := ne_infinityName (inNumber_encode h hf) negative
      rw [encode_finite hf] at he
      cases inclusive with
      | true => exact absurd he hplain
      | false => exact absurd he hmarked
  · rintro rfl
    exact encode_infinity negative inclusive

private theorem read_ofAscii {bytes number : Bytes} {inclusive : Bool} {score : Score}
    (hascii : ∀ b ∈ bytes, b < 0x80) (hsplit : splitMark bytes = (number, inclusive))
    (hread : Score.ofText? number = some score) (h : score.isNaN = false) :
    Utf8.decode? bytes = some (Utf8.ofAscii bytes) ∧
      ScoreBound.read (Utf8.ofAscii bytes) = .ok ⟨score, inclusive⟩ := by
  refine ⟨Utf8.decode?_ascii hascii, ?_⟩
  simp only [ScoreBound.read, Utf8.encode_ofAscii hascii, hsplit, hread, h]
  rfl

private theorem splitMark_unmarked {text : Bytes} (h : text.head? ≠ some 0x28) :
    splitMark text = (text, true) := by
  rw [splitMark.eq_2]
  rintro rest rfl
  exact h rfl

private theorem ascii_infinityName (negative : Bool) :
    ∀ b ∈ infinityName negative, b < 0x80 := by
  cases negative <;> decide +kernel

private theorem splitMark_infinityName (negative : Bool) :
    splitMark (infinityName negative) = (infinityName negative, true) := by
  cases negative <;> rfl

private theorem ofText?_infinityName (negative : Bool) :
    Score.ofText? (infinityName negative) = some (.float (.infinity negative)) := by
  have hinteger : Decimal.int64? (infinityName negative) = none := by
    cases negative <;> decide
  have hread : Binary64.read? (infinityName negative) = some (.infinity negative) := by
    cases negative <;> rfl
  rw [Score.ofText?, hinteger, hread]
  rfl

/-- What a bound is read back as: its score as scores are, left out where it was. -/
theorem read_encode {bound : ScoreBound} (h : bound.score.isNaN = false) :
    ∃ text read, Utf8.decode? bound.encode = some text ∧ ScoreBound.read text = .ok read ∧
      Score.ReadBack bound.score read.score ∧ read.isInclusive = bound.isInclusive := by
  obtain ⟨score, inclusive⟩ := bound
  cases hf : score.isInfinite with
  | true =>
    -- The name has no mark, so the reading includes the score; so does the infinity itself.
    obtain ⟨negative, rfl⟩ := eq_infinity hf
    obtain ⟨htext, hread⟩ := read_ofAscii (ascii_infinityName negative)
      (splitMark_infinityName negative) (ofText?_infinityName negative) h
    rw [encode_infinity]
    refine ⟨_, _, htext, hread, .itself _, ?_⟩
    rw [isInclusive, isInclusive, hf, Bool.or_true, Bool.or_true]
  | false =>
    obtain ⟨read, hscore, hback⟩ := Score.ofText?_encode h
    have hnumber := hback.isNaN_eq h
    have hin := inNumber_encode h hf
    have hinclusive : isInclusive ⟨read, inclusive⟩ = isInclusive ⟨score, inclusive⟩ := by
      rw [isInclusive, isInclusive, hback.isInfinite_eq hf, hf]
    rw [encode_finite hf]
    cases inclusive with
    | true =>
      obtain ⟨htext, hread⟩ := read_ofAscii (ascii_inNumber hin)
        (splitMark_unmarked (head?_ne_mark hin)) hscore hnumber
      exact ⟨_, _, htext, hread, hback, hinclusive⟩
    | false =>
      have hascii : ∀ b ∈ 0x28 :: score.encode, b < 0x80 :=
        List.forall_mem_cons.mpr ⟨by decide, ascii_inNumber hin⟩
      obtain ⟨htext, hread⟩ := read_ofAscii hascii rfl hscore hnumber
      exact ⟨_, _, htext, hread, hback, hinclusive⟩

/-- Bounds with one text mean one thing, since both are read back as one bound. -/
theorem same_of_encode {a b : ScoreBound} (ha : a.score.isNaN = false)
    (hb : b.score.isNaN = false) (h : a.encode = b.encode) :
    a.score.same b.score = true ∧ a.isInclusive = b.isInclusive := by
  obtain ⟨text, read, htext, hread, hback, hinclusive⟩ := read_encode ha
  obtain ⟨text', read', htext', hread', hback', hinclusive'⟩ := read_encode hb
  obtain rfl : text = text' := by
    rw [h, htext', Option.some.injEq] at htext
    exact htext.symm
  obtain rfl : read = read' := by
    rw [hread', Except.ok.injEq] at hread
    exact hread.symm
  exact ⟨hback.same hback' ha, hinclusive.symm.trans hinclusive'⟩

/-- The text of a bound determines what it means. -/
theorem score_bound_text_determines (bound : ScoreBound) (h : bound.score.isNaN = false) :
    (bound.encode.head? = some 0x28 ↔ bound.isInclusive = false) ∧
    (bound.encode = Utf8.encode "-inf" ↔ bound.score = .float (.infinity true)) ∧
    (bound.encode = Utf8.encode "+inf" ↔ bound.score = .float (.infinity false)) ∧
    (∃ text read, Utf8.decode? bound.encode = some text ∧ ScoreBound.read text = .ok read ∧
      read.score.same bound.score = true ∧ read.isInclusive = bound.isInclusive) ∧
    ∀ other : ScoreBound, other.score.isNaN = false → other.encode = bound.encode →
      other.score.same bound.score = true ∧ other.isInclusive = bound.isInclusive := by
  obtain ⟨text, read, htext, hread, hback, hinclusive⟩ := read_encode h
  have hsame := Score.ReadBack.same (.itself read.score) hback (hback.isNaN_eq h)
  exact ⟨head?_encode h, encode_eq_infinityName h true, encode_eq_infinityName h false,
    ⟨text, read, htext, hread, hsame, hinclusive⟩, fun _ hother he => same_of_encode hother h he⟩

/-- A large number left out, whose text is read as an integer, and an infinity marked as left
out. -/
theorem score_bound_text_determines_left_out :
    (∃ text read,
      Utf8.decode? (encode ⟨.float (.ofBits 0x4340000000000001), false⟩) = some text ∧
        ScoreBound.read text = .ok read ∧
        read.score.same (.float (.ofBits 0x4340000000000001)) = true ∧ read.isInclusive = false) ∧
      encode ⟨.float (.infinity true), false⟩ = Utf8.encode "-inf" := by
  constructor
  · obtain ⟨text, read, htext, hread, hsame, hinclusive⟩ :=
      (score_bound_text_determines ⟨.float (.ofBits 0x4340000000000001), false⟩
        (by decide +kernel)).2.2.2.1
    exact ⟨text, read, htext, hread, hsame, hinclusive.trans (by decide +kernel)⟩
  · exact (score_bound_text_determines ⟨.float (.infinity true), false⟩ rfl).2.1.mpr rfl

end SortedSetClient.ScoreBound
