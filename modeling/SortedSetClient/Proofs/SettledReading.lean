import SortedSetClient.Proofs.FrameGrammar

/-! What the parser says of a buffer it says of every longer one: a value stays the same value and
a fault the same fault, so only a buffer without either is still open, as every beginning of a
value is. -/
namespace SortedSetClient.Resp

section Final
open Resp.Parser
variable {bytes rest : Bytes} {value : Value} {fault : Fault}

/-- What is read as a value stays so when more arrives. -/
theorem readWithin_append_value {levels : Nat} (hl : levels ≤ maxDepth)
    (h : readWithin levels bytes = .ok (some (value, rest))) (more : Bytes) :
    readWithin levels (bytes ++ more) = .ok (some (value, rest ++ more)) := by
  have hd : maxDepth - levels + levels = maxDepth := Nat.sub_add_cancel hl
  obtain ⟨octets, rfl, hf⟩ := frame_of_readWithin hd h
  rw [List.append_assoc]
  exact hf.read hd _

private theorem readLine_append_fault {α : Type} {make : Bytes → Except Fault α}
    (h : readLine make bytes = .error fault) (more : Bytes) :
    readLine make (bytes ++ more) = .error fault := by
  rcases unbroken_or_line bytes with hu | ⟨line, tail, hl, rfl⟩
  · rw [readLine_unbroken hu] at h
    cases h
  · rw [readLine_line hl] at h
    rw [List.append_assoc, List.cons_append, List.cons_append, readLine_line hl]
    cases hm : make line with
    | error => rw [hm] at h; exact h
    | ok => rw [hm] at h; cases h

private theorem readCounted_append_fault {next : Int64 → Bytes → Reading Value} {more : Bytes}
    (hn : ∀ n tail, next n tail = .error fault → next n (tail ++ more) = .error fault)
    (h : readCounted next bytes = .error fault) :
    readCounted next (bytes ++ more) = .error fault := by
  rcases unbroken_or_line bytes with hu | ⟨line, tail, hl, rfl⟩
  · rw [readCounted_unbroken hu] at h
    cases h
  · rw [readCounted_line hl] at h
    rw [List.append_assoc, List.cons_append, List.cons_append, readCounted_line hl]
    cases hm : readInteger line with
    | error => rw [hm] at h; exact h
    | ok n => rw [hm] at h; exact hn n tail h

private theorem readBulk_append_fault {n : Int64} (h : readBulk n bytes = .error fault)
    (more : Bytes) : readBulk n (bytes ++ more) = .error fault := by
  rcases length_cases n with rfl | hn | ⟨k, hk, rfl⟩
  · cases h
  · rw [readBulk_refused hn] at h ⊢
    exact h
  · rcases data_cases k bytes with hs | ⟨data, a, b, tail, rfl, rfl⟩
    · rw [readBulk_short hk hs] at h
      cases h
    · rw [readBulk_data hk] at h
      rw [List.append_assoc, List.cons_append, List.cons_append, readBulk_data hk]
      split at h
      · cases h
      · next hne => rw [if_neg hne, h]

private theorem readArray_append_fault {inside : Nat → Bytes → Reading (List Value)} {more : Bytes}
    (hi : ∀ n bytes, inside n bytes = .error fault → inside n (bytes ++ more) = .error fault)
    {n : Int64} (h : readArray inside n bytes = .error fault) :
    readArray inside n (bytes ++ more) = .error fault := by
  rcases length_cases n with rfl | hn | ⟨k, hk, rfl⟩
  · cases h
  · rw [readArray_refused hn] at h ⊢
    exact h
  · by_cases h0 : 0 < k
    · rw [readArray_count hk h0] at h ⊢
      cases hin : inside k bytes with
      | error => rw [hin] at h; cases h; rw [hi _ _ hin]; rfl
      | ok => rw [hin] at h; cases h
    · obtain rfl : k = 0 := by omega
      cases h

private theorem readItems_append_fault {read : Bytes → Reading Value} {more : Bytes}
    (hv : ∀ bytes value rest, read bytes = .ok (some (value, rest)) →
      read (bytes ++ more) = .ok (some (value, rest ++ more)))
    (hf : ∀ bytes, read bytes = .error fault → read (bytes ++ more) = .error fault)
    {before : List Value} {n : Nat} (h : readItems read before n bytes = .error fault) :
    readItems read before n (bytes ++ more) = .error fault := by
  fun_induction readItems read before n bytes with
  | case1 => cases h
  | case2 before n bytes fault hread =>
    cases h
    rw [readItems, hf _ hread]
  | case3 => cases h
  | case4 before n bytes item tail hread ih =>
    rw [readItems, hv _ _ _ hread]
    exact ih h

private theorem readValue_append_fault {inside : Nat → Bytes → Reading (List Value)} {more : Bytes}
    (hi : ∀ n bytes, inside n bytes = .error fault → inside n (bytes ++ more) = .error fault)
    (h : readValue inside bytes = .error fault) :
    readValue inside (bytes ++ more) = .error fault := by
  unfold readValue at h
  split at h
  · cases h
  · exact readLine_append_fault h more
  · exact readLine_append_fault h more
  · exact readCounted_append_fault (fun _ _ hn => by cases hn) h
  · exact readCounted_append_fault (fun _ _ hn => readBulk_append_fault hn more) h
  · exact readCounted_append_fault (fun _ _ hn => readArray_append_fault hi hn) h
  · next h1 h2 h3 h4 h5 =>
    rw [List.cons_append, readValue.eq_7 _ _ _ h1 h2 h3 h4 h5]
    exact h

/-- A fault stays the same fault when more arrives. -/
theorem readWithin_append_fault {levels : Nat} (hl : levels ≤ maxDepth)
    (h : readWithin levels bytes = .error fault) (more : Bytes) :
    readWithin levels (bytes ++ more) = .error fault := by
  induction levels generalizing bytes with
  | zero => exact readValue_append_fault (fun _ _ h => h) h
  | succ levels ih =>
    have hl' : levels ≤ maxDepth := by omega
    refine readValue_append_fault (fun n bytes hi => ?_) h
    refine readItems_append_fault (fun bytes value rest hv => ?_) (fun bytes hf => ?_) hi
    · exact readWithin_append_value hl' hv more
    · exact ih hl' hf

end Final

section Parse
open Resp.Parser
variable {buffer : Bytes} {value : Value} {n : Nat} {fault : Fault}

theorem parse_eq_none_iff : parse buffer = .ok none ↔ readWithin maxDepth buffer = .ok none := by
  rw [parse]
  rcases readWithin maxDepth buffer with _ | _ | _ <;> simp [Except.map]

theorem parse_eq_error_iff :
    parse buffer = .error fault ↔ readWithin maxDepth buffer = .error fault := by
  rw [parse]
  rcases readWithin maxDepth buffer with _ | _ | _ <;> simp [Except.map]

theorem parse_append_error (h : parse buffer = .error fault) (more : Bytes) :
    parse (buffer ++ more) = .error fault :=
  parse_eq_error_iff.mpr (readWithin_append_fault (Nat.le_refl _) (parse_eq_error_iff.mp h) more)

theorem parse_append_value (h : parse buffer = .ok (some (value, n))) (more : Bytes) :
    parse (buffer ++ more) = .ok (some (value, n)) := by
  obtain ⟨octets, rest, rfl, rfl, hf⟩ := parse_eq_some_iff.mp h
  exact parse_eq_some_iff.mpr ⟨octets, rest ++ more, by simp, rfl, hf⟩

/-- A value takes at least one octet, and no more than there are. -/
theorem parse_bounds (h : parse buffer = .ok (some (value, n))) : 0 < n ∧ n ≤ buffer.length := by
  obtain ⟨octets, rest, rfl, rfl, hf⟩ := parse_eq_some_iff.mp h
  refine ⟨List.length_pos_iff.mpr ?_, by simp⟩
  rintro rfl
  cases hf

/-- Before all of a value has arrived the parser has no answer. -/
theorem parse_front (h : parse buffer = .ok (some (value, n))) {front : Bytes}
    (hp : front <+: buffer) (hn : front.length < n) : parse front = .ok none := by
  obtain ⟨more, rfl⟩ := hp
  match hf : parse front with
  | .ok none => rfl
  | .ok (some (found, m)) =>
    rw [parse_append_value hf] at h
    cases h
    exact absurd (parse_bounds hf).2 (by omega)
  | .error fault =>
    rw [parse_append_error hf] at h
    cases h

end Parse

end SortedSetClient.Resp
