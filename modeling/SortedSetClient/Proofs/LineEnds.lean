import Mathlib
import SortedSetClient.Resp.Line

/-! Where header lines end: at the first line end, whatever arrives after it. Reading octets as text
with replacements brings no line end in. -/
namespace SortedSetClient.Resp

/-- No line end lies among the octets. -/
def Unbroken (bytes : Bytes) : Prop := ¬ [0x0d, 0x0a] <:+: bytes

instance (bytes : Bytes) : Decidable (Unbroken bytes) := inferInstanceAs (Decidable (¬ _))

theorem unbroken_nil : Unbroken [] := by decide

theorem unbroken_cons_iff (b : UInt8) (bytes : Bytes) :
    Unbroken (b :: bytes) ↔ Unbroken bytes ∧ ¬ (b = 0x0d ∧ bytes.head? = some 0x0a) := by
  have hp : [0x0d, 0x0a] <+: b :: bytes ↔ b = 0x0d ∧ bytes.head? = some 0x0a := by
    cases bytes <;> simp [eq_comm]
  unfold Unbroken
  rw [List.infix_cons_iff, hp, not_or, and_comm]

theorem Unbroken.of_infix {part bytes : Bytes} (h : Unbroken bytes) (hp : part <:+: bytes) :
    Unbroken part :=
  fun hc => h (hc.trans hp)

theorem not_unbroken_lineEnd (before after : Bytes) :
    ¬ Unbroken (before ++ 0x0d :: 0x0a :: after) :=
  fun h => h ⟨before, after, by simp⟩

/-- Octets that are neither half of a line end may be put in front. -/
theorem unbroken_append_of_not_mem {bytes rest : Bytes} (hc : 0x0d ∉ bytes) (h : Unbroken rest) :
    Unbroken (bytes ++ rest) := by
  induction bytes with
  | nil => exact h
  | cons b bytes ih =>
    rw [List.mem_cons, not_or] at hc
    exact (unbroken_cons_iff _ _).mpr ⟨ih hc.2, fun hb => hc.1 hb.1.symm⟩

private theorem head?_line {line rest : Bytes}
    (h : (line ++ 0x0d :: 0x0a :: rest).head? = some 0x0a) : line.head? = some 0x0a := by
  cases line with
  | nil => cases h
  | cons c line => exact h

private theorem splitLineOnto_cons {b : UInt8} {passed bytes : Bytes}
    (h : ¬ (b = 0x0d ∧ bytes.head? = some 0x0a)) :
    splitLineOnto passed (b :: bytes) = splitLineOnto (b :: passed) bytes := by
  rw [splitLineOnto.eq_2]
  rintro rest rfl he
  exact h ⟨rfl, by rw [he]; rfl⟩

private theorem splitLineOnto_line (line passed rest : Bytes) (h : Unbroken line) :
    splitLineOnto passed (line ++ 0x0d :: 0x0a :: rest) = some (passed.reverse ++ line, rest) := by
  induction line generalizing passed with
  | nil => simp [splitLineOnto]
  | cons b line ih =>
    obtain ⟨hl, hb⟩ := (unbroken_cons_iff _ _).mp h
    rw [List.cons_append, splitLineOnto_cons fun hn => hb ⟨hn.1, head?_line hn.2⟩, ih _ hl]
    simp

private theorem splitLineOnto_unbroken (bytes passed : Bytes) (h : Unbroken bytes) :
    splitLineOnto passed bytes = none := by
  induction bytes generalizing passed with
  | nil => rfl
  | cons b bytes ih =>
    obtain ⟨hl, hb⟩ := (unbroken_cons_iff _ _).mp h
    rw [splitLineOnto_cons hb, ih _ hl]

/-- Octets either hold no line end or split at the first one. -/
theorem unbroken_or_line (bytes : Bytes) :
    Unbroken bytes ∨ ∃ line rest, Unbroken line ∧ bytes = line ++ 0x0d :: 0x0a :: rest := by
  induction bytes with
  | nil => exact .inl unbroken_nil
  | cons b bytes ih =>
    by_cases hb : b = 0x0d ∧ bytes.head? = some 0x0a
    · obtain ⟨rfl, hb⟩ := hb
      obtain ⟨rest, rfl⟩ : ∃ rest, bytes = 0x0a :: rest := by
        cases bytes <;> simp_all
      exact .inr ⟨[], rest, unbroken_nil, rfl⟩
    · rcases ih with hu | ⟨line, rest, hl, rfl⟩
      · exact .inl ((unbroken_cons_iff _ _).mpr ⟨hu, hb⟩)
      · refine .inr ⟨b :: line, rest, (unbroken_cons_iff _ _).mpr ⟨hl, ?_⟩, rfl⟩
        rintro ⟨rfl, hh⟩
        exact hb ⟨rfl, by cases line <;> simp_all⟩

@[simp] theorem splitLine_line {line : Bytes} (h : Unbroken line) (rest : Bytes) :
    splitLine (line ++ 0x0d :: 0x0a :: rest) = some (line, rest) :=
  splitLineOnto_line line [] rest h

theorem splitLine_eq_none_iff {bytes : Bytes} : splitLine bytes = none ↔ Unbroken bytes := by
  constructor
  · intro h
    rcases unbroken_or_line bytes with hu | ⟨line, rest, hl, rfl⟩
    · exact hu
    · rw [splitLine_line hl] at h
      cases h
  · exact splitLineOnto_unbroken bytes []

end SortedSetClient.Resp
