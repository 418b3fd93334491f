import SortedSetClient.Proofs.ElementReading

/-! A scan can stop at any octet and go on there. The place and the counts that an open scan leaves
say all that the octets before it can still mean, so later scans answer what a fresh one would. -/
namespace SortedSetClient.Resp

namespace Scanner

/-- What a scan does behind a whole value: the reply ends there, or an open array goes on. -/
def settle (position : Nat) (missing : List Nat) (bytes : Bytes) :
    Scanner × Except Fault (Option Nat) :=
  match finishValue missing with
  | [] => ({}, .ok (some position))
  | open' => advance position open' bytes

section Steps
variable {bytes : Bytes} (position : Nat) (missing : List Nat)

theorem settle_last {missing : List Nat} (h : finishValue missing = []) :
    settle position missing bytes = ({}, .ok (some position)) := by
  rw [settle, h]

theorem settle_open {missing : List Nat} (h : finishValue missing ≠ []) :
    settle position missing bytes = advance position (finishValue missing) bytes := by
  rw [settle]
  split
  · contradiction
  · rfl

theorem advance_none (h : Element.read bytes = .ok none) :
    advance position missing bytes = (⟨position, missing⟩, .ok none) := by
  rw [advance]
  split <;> simp_all

theorem advance_error {fault : Fault} (h : Element.read bytes = .error fault) :
    advance position missing bytes = (⟨position, missing⟩, .error fault) := by
  rw [advance]
  split <;> simp_all

variable {element : Element} (h : Element.read bytes = .ok (some element))
include h

theorem advance_finish (hi : element.items = 0) :
    advance position missing bytes =
      settle (position + element.size) missing (bytes.drop element.size) := by
  rw [advance, settle]
  split
  · simp_all
  · simp_all
  · next found hr =>
    obtain rfl : found = element := by simpa [h] using hr.symm
    exact if_neg (by omega)

theorem advance_enter {missing : List Nat} (hi : 0 < element.items)
    (hd : missing.length < maxDepth) :
    advance position missing bytes =
      advance (position + element.size) (element.items :: missing) (bytes.drop element.size) := by
  rw [advance]
  split
  · simp_all
  · simp_all
  · next found hr =>
    obtain rfl : found = element := by simpa [h] using hr.symm
    rw [if_pos hi, if_neg (by omega)]

theorem advance_too_deep {missing : List Nat} (hi : 0 < element.items)
    (hd : maxDepth ≤ missing.length) :
    advance position missing bytes = (⟨position + element.size, missing⟩, .error .tooDeep) := by
  rw [advance]
  split
  · simp_all
  · simp_all
  · next found hr =>
    obtain rfl : found = element := by simpa [h] using hr.symm
    rw [if_pos hi, if_pos hd]

end Steps

section More
variable {position n : Nat} {missing : List Nat} {bytes : Bytes} {scanner : Scanner}

private theorem read_more {element : Element} (h : Element.read bytes = .ok (some element))
    (more : Bytes) : Element.read (bytes ++ more) = .ok (some element) ∧
      (bytes ++ more).drop element.size = bytes.drop element.size ++ more := by
  refine ⟨?_, List.drop_append_of_le_length (Element.size_le_of_read h)⟩
  rw [Element.read_append more (by rw [h]; simp), h]

/-- A scan over more octets goes on where an open scan stopped. -/
theorem advance_open (h : advance position missing bytes = (scanner, .ok none)) (more : Bytes) :
    position ≤ scanner.position ∧
      advance position missing (bytes ++ more) =
        advance scanner.position scanner.missing
          ((bytes ++ more).drop (scanner.position - position)) := by
  fun_induction advance position missing bytes with
  | case1 => cases h
  | case2 => cases h; simp
  | case3 => cases h
  | case4 position missing bytes element hread hpos hd ih =>
    obtain ⟨hle, he⟩ := ih h
    obtain ⟨hm, hdrop⟩ := read_more hread more
    refine ⟨by omega, ?_⟩
    rw [advance_enter position hm hpos (by omega), hdrop, he, ← hdrop, List.drop_drop]
    congr 2
    omega
  | case5 => cases h
  | case6 position missing bytes element hread hpos hopen ih =>
    obtain ⟨hle, he⟩ := ih h
    obtain ⟨hm, hdrop⟩ := read_more hread more
    refine ⟨by omega, ?_⟩
    rw [advance_finish position missing hm (by omega), settle_open _ hopen, hdrop, he, ← hdrop,
      List.drop_drop]
    congr 2
    omega

/-- An answer stays the same answer when more arrives. -/
theorem advance_append (h : (advance position missing bytes).2 ≠ .ok none) (more : Bytes) :
    advance position missing (bytes ++ more) = advance position missing bytes := by
  fun_induction advance position missing bytes with
  | case1 position missing bytes fault hread =>
    rw [advance_error]
    rw [Element.read_append more (by rw [hread]; simp), hread]
  | case2 => exact absurd rfl h
  | case3 position missing bytes element hread hpos hd =>
    rw [advance_too_deep position (read_more hread more).1 hpos hd]
  | case4 position missing bytes element hread hpos hd ih =>
    obtain ⟨hm, hdrop⟩ := read_more hread more
    rw [advance_enter position hm hpos (by omega), hdrop, ih h]
  | case5 position missing bytes element hread hpos hlast =>
    obtain ⟨hm, hdrop⟩ := read_more hread more
    rw [advance_finish position missing hm (by omega), settle_last _ hlast]
  | case6 position missing bytes element hread hpos hopen ih =>
    obtain ⟨hm, hdrop⟩ := read_more hread more
    rw [advance_finish position missing hm (by omega), settle_open _ hopen, hdrop, ih h]

/-- A reply that is found ends behind the place where its scan began, and the scanner is fresh. -/
theorem advance_found (h : advance position missing bytes = (scanner, .ok (some n))) :
    scanner = {} ∧ position < n ∧ n ≤ position + bytes.length := by
  fun_induction advance position missing bytes with
  | case1 => cases h
  | case2 => cases h
  | case3 => cases h
  | case4 position missing bytes element hread hpos hd ih =>
    obtain ⟨hs, hlt, hle⟩ := ih h
    have := Element.size_le_of_read hread
    rw [List.length_drop] at hle
    exact ⟨hs, by omega, by omega⟩
  | case5 position missing bytes element hread hpos hlast =>
    cases h
    have := element.size_pos
    have := Element.size_le_of_read hread
    exact ⟨rfl, by omega, by omega⟩
  | case6 position missing bytes element hread hpos hopen ih =>
    obtain ⟨hs, hlt, hle⟩ := ih h
    have := Element.size_le_of_read hread
    rw [List.length_drop] at hle
    exact ⟨hs, by omega, by omega⟩

private theorem size_le_of_found {element : Element} (hr : Element.read bytes = .ok (some element))
    (h : (advance position missing bytes).2 = .ok (some n)) : position + element.size ≤ n := by
  rcases Nat.eq_zero_or_pos element.items with hi | hi
  · rw [advance_finish position missing hr hi] at h
    by_cases hlast : finishValue missing = []
    · rw [settle_last _ hlast] at h
      cases h
      exact Nat.le_refl _
    · rw [settle_open _ hlast] at h
      exact Nat.le_of_lt (advance_found (Prod.ext rfl h)).2.1
  · by_cases hd : missing.length < maxDepth
    · rw [advance_enter position hr hi hd] at h
      exact Nat.le_of_lt (advance_found (Prod.ext rfl h)).2.1
    · rw [advance_too_deep position hr hi (by omega)] at h
      cases h

private theorem lt_of_advance {more : Bytes} (h : (advance position missing bytes).2 = .ok none)
    (hm : (advance position missing (bytes ++ more)).2 = .ok (some n)) :
    position + bytes.length < n := by
  fun_induction advance position missing bytes with
  | case1 => cases h
  | case2 position missing bytes hread =>
    match hm' : Element.read (bytes ++ more) with
    | .error fault => rw [advance_error position missing hm'] at hm; cases hm
    | .ok none => rw [advance_none position missing hm'] at hm; cases hm
    | .ok (some element) =>
      have := Element.lt_size_of_read hread hm'
      have := size_le_of_found hm' hm
      omega
  | case3 => cases h
  | case4 position missing bytes element hread hpos hd ih =>
    have hs := Element.size_le_of_read hread
    obtain ⟨hr, hdrop⟩ := read_more hread more
    rw [advance_enter position hr hpos (by omega), hdrop] at hm
    have := ih h hm
    rw [List.length_drop] at this
    omega
  | case5 => cases h
  | case6 position missing bytes element hread hpos hopen ih =>
    have hs := Element.size_le_of_read hread
    obtain ⟨hr, hdrop⟩ := read_more hread more
    rw [advance_finish position missing hr (by omega), settle_open _ hopen, hdrop] at hm
    have := ih h hm
    rw [List.length_drop] at this
    omega

end More

/-- The scanner sums up the octets seen: whatever comes after them, it goes on as a fresh one
would from the start. -/
def Resumes (scanner : Scanner) (seen : Bytes) : Prop :=
  ∀ more, scanner.scan (seen ++ more) = ({} : Scanner).scan (seen ++ more)

theorem resumes_fresh (seen : Bytes) : Resumes {} seen := fun _ => rfl

section Resumes
variable {scanner next : Scanner} {seen buffer : Bytes} {n : Nat}

theorem Resumes.scan_eq (h : scanner.Resumes seen) (hp : seen <+: buffer) :
    scanner.scan buffer = ({} : Scanner).scan buffer := by
  obtain ⟨more, rfl⟩ := hp
  exact h more

theorem Resumes.mono (h : scanner.Resumes seen) (hp : seen <+: buffer) :
    scanner.Resumes buffer :=
  fun more => h.scan_eq (hp.trans (List.prefix_append buffer more))

private theorem scan_fresh (buffer : Bytes) :
    ({} : Scanner).scan buffer = advance 0 [] buffer := rfl

/-- An open scan leaves a scanner that sums up the buffer. -/
theorem Resumes.scan_open (h : scanner.Resumes seen) (hp : seen <+: buffer)
    (hs : scanner.scan buffer = (next, .ok none)) : next.Resumes buffer := by
  rw [h.scan_eq hp, scan_fresh] at hs
  intro more
  rw [scan_fresh, (advance_open hs more).2]
  rfl

theorem scan_append (h : (({} : Scanner).scan buffer).2 ≠ .ok none) (more : Bytes) :
    ({} : Scanner).scan (buffer ++ more) = ({} : Scanner).scan buffer :=
  advance_append h more

/-- A reply ends behind every place at which it was still open. -/
theorem lt_of_scan {more : Bytes} (h : (({} : Scanner).scan buffer).2 = .ok none)
    (hm : (({} : Scanner).scan (buffer ++ more)).2 = .ok (some n)) : buffer.length < n := by
  have := lt_of_advance h hm
  rwa [Nat.zero_add] at this

theorem scan_nil : ({} : Scanner).scan [] = ({}, .ok none) := advance_none 0 [] rfl

theorem scan_found (h : scanner.scan buffer = (next, .ok (some n))) :
    next = {} ∧ 0 < n ∧ n ≤ buffer.length := by
  obtain ⟨hf, hlt, hle⟩ := advance_found h
  refine ⟨hf, by omega, ?_⟩
  rw [List.length_drop] at hle
  omega

end Resumes
end Scanner
end SortedSetClient.Resp
