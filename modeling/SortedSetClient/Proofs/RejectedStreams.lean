import SortedSetClient.Proofs.ScannerResumption

/-! Streams that a scanner has rejected. Every later scan rejects them for the same reason and from
the same place, whatever comes after them. Only the header of an array that lies too deep is passed
before it is rejected, so the next scan goes on behind it as if it were not there. -/
namespace SortedSetClient.Resp

namespace Element

/-- An element is read from its own octets. -/
theorem read_take {bytes : Bytes} {element : Element} (h : read bytes = .ok (some element)) :
    read (bytes.take element.size) = .ok (some element) := by
  have hb : bytes.take element.size ++ bytes.drop element.size = bytes :=
    List.take_append_drop ..
  have hopen : read (bytes.take element.size) ≠ .ok none := by
    intro ho
    have hlt := lt_size_of_read ho (hb.symm ▸ h)
    rw [List.length_take_of_le (size_le_of_read h)] at hlt
    exact absurd hlt (Nat.lt_irrefl _)
  rw [← read_append (bytes.drop element.size) hopen, hb, h]

private theorem bind_ne_error {α β : Type} {result : Except Fault α} {next : α → Except Fault β}
    {fault : Fault} (h : result ≠ .error fault) (hn : ∀ a, next a ≠ .error fault) :
    result.bind next ≠ .error fault := by
  cases result with
  | error found => exact fun he => h (congrArg _ (Except.error.inj he))
  | ok a => exact hn a

private theorem readInteger_ne_tooDeep (line : Bytes) : readInteger line ≠ .error .tooDeep := by
  unfold readInteger
  split <;> simp

private theorem ofBulk_ne_tooDeep {size : Nat} (hs : 0 < size) (n : Int64) (rest : Bytes) :
    ofBulk size hs n rest ≠ .error .tooDeep := by
  unfold ofBulk
  split
  · simp
  · split
    · simp
    · split <;> simp

private theorem ofArray_ne_tooDeep {size : Nat} (hs : 0 < size) (n : Int64) :
    ofArray size hs n ≠ .error .tooDeep := by
  unfold ofArray
  split <;> simp

/-- How deep an element lies is no matter of its header. -/
theorem read_ne_tooDeep (bytes : Bytes) : read bytes ≠ .error .tooDeep := by
  intro h
  have hsome : read bytes ≠ .ok none := by
    rw [h]
    simp
  obtain ⟨type, line, rest, hl, rfl⟩ := line_of_read hsome
  rw [read_line hl] at h
  revert h
  fun_cases ofHeader type line rest with
  | case1 | case2 => simp
  | case3 =>
    cases hn : readInteger line with
    | error fault =>
      rintro ⟨⟩
      exact readInteger_ne_tooDeep line hn
    | ok n => rintro ⟨⟩
  | case4 => exact bind_ne_error (readInteger_ne_tooDeep line) fun n => ofBulk_ne_tooDeep _ n rest
  | case5 => exact bind_ne_error (readInteger_ne_tooDeep line) fun n => ofArray_ne_tooDeep _ n
  | case6 => simp

end Element

namespace Scanner

/-- What a scan leaves and answers, a number of octets further into the stream. -/
def behind (octets : Nat) :
    Scanner × Except Fault (Option Nat) → Scanner × Except Fault (Option Nat)
  | (scanner, .ok (some n)) => (scanner, .ok (some (n + octets)))
  | (scanner, .ok none) => (⟨scanner.position + octets, scanner.missing⟩, .ok none)
  | (scanner, .error fault) => (⟨scanner.position + octets, scanner.missing⟩, .error fault)

/-- Where a scan is rejected: at an element that is not read, or behind the header of an array that
lies too deep. -/
inductive Rejects (position : Nat) (rest : Bytes) : Scanner → Fault → Prop where
  | element {missing : List Nat} {fault : Fault} : Element.read rest = .error fault →
    Rejects position rest ⟨position, missing⟩ fault
  | array {missing : List Nat} {element : Element} : Element.read rest = .ok (some element) →
    0 < element.items → maxDepth ≤ missing.length →
    Rejects position rest ⟨position + element.size, missing⟩ .tooDeep

section Rejections
variable {position : Nat} {missing : List Nat} {bytes : Bytes} {scanner later : Scanner}
  {fault : Fault}

theorem advance_behind (octets position : Nat) (missing : List Nat) (bytes : Bytes) :
    advance (position + octets) missing bytes = behind octets (advance position missing bytes) := by
  fun_induction advance position missing bytes with
  | case1 position missing bytes fault hread => exact advance_error _ missing hread
  | case2 position missing bytes hread => exact advance_none _ missing hread
  | case3 position missing bytes element hread hpos hd =>
    rw [advance_too_deep _ hread hpos hd, behind, Nat.add_right_comm]
  | case4 position missing bytes element hread hpos hd ih =>
    rw [advance_enter _ hread hpos (by omega), Nat.add_right_comm, ih]
  | case5 position missing bytes element hread hpos hlast =>
    rw [advance_finish _ missing hread (by omega), settle_last _ hlast, behind, Nat.add_right_comm]
  | case6 position missing bytes element hread hpos hopen ih =>
    rw [advance_finish _ missing hread (by omega), settle_open _ hopen, Nat.add_right_comm, ih]

/-- An element at the front is passed alike where the stream ends sooner. -/
private theorem read_front {element : Element} (h : Element.read bytes = .ok (some element))
    {passed rest : Bytes} (hb : bytes.drop element.size = passed ++ rest) :
    ∃ front, bytes = front ++ rest ∧ front.length = element.size + passed.length ∧
      Element.read front = .ok (some element) ∧ front.drop element.size = passed := by
  have hread := Element.read_take h
  have hlength : (bytes.take element.size).length = element.size :=
    List.length_take_of_le (Element.size_le_of_read h)
  refine ⟨bytes.take element.size ++ passed, ?_, ?_, ?_, List.drop_left' hlength⟩
  · rw [List.append_assoc, ← hb, List.take_append_drop]
  · rw [List.length_append, hlength]
  · rw [Element.read_append passed (by rw [hread]; simp), hread]

/-- A scan that is rejected has first passed octets over which it was still open. -/
theorem rejects_of_advance (h : advance position missing bytes = (later, .error fault)) :
    ∃ passed rest, bytes = passed ++ rest ∧
      advance position missing passed = (⟨position + passed.length, later.missing⟩, .ok none) ∧
      Rejects (position + passed.length) rest later fault := by
  fun_induction advance position missing bytes with
  | case1 position missing bytes fault hread =>
    cases h
    exact ⟨[], bytes, rfl, advance_none position missing rfl, .element hread⟩
  | case2 => cases h
  | case3 position missing bytes element hread hpos hd =>
    cases h
    exact ⟨[], bytes, rfl, advance_none position missing rfl, .array hread hpos hd⟩
  | case4 position missing bytes element hread hpos hd ih =>
    obtain ⟨passed, rest, hb, ho, hr⟩ := ih h
    obtain ⟨front, rfl, hlength, hfront, hdrop⟩ := read_front hread hb
    refine ⟨front, rest, rfl, ?_, by rwa [hlength, ← Nat.add_assoc]⟩
    rw [advance_enter position hfront hpos (by omega), hdrop, ho, hlength, Nat.add_assoc]
  | case5 => cases h
  | case6 position missing bytes element hread hpos hopen ih =>
    obtain ⟨passed, rest, hb, ho, hr⟩ := ih h
    obtain ⟨front, rfl, hlength, hfront, hdrop⟩ := read_front hread hb
    refine ⟨front, rest, rfl, ?_, by rwa [hlength, ← Nat.add_assoc]⟩
    rw [advance_finish position missing hfront (by omega), settle_open _ hopen, hdrop, ho, hlength,
      Nat.add_assoc]

theorem Rejects.ne_nil {rest : Bytes} (h : Rejects position rest later fault) : rest ≠ [] := by
  rintro rfl
  cases h with
  | element hread => cases hread
  | array hread => cases hread

/-- The same for a whole buffer: up to some place its scan is open, and there it is rejected. -/
theorem rejects_of_scan {buffer : Bytes} (h : scanner.scan buffer = (later, .error fault)) :
    ∃ before rest, buffer = before ++ rest ∧ scanner.position ≤ before.length ∧
      scanner.scan before = (⟨before.length, later.missing⟩, .ok none) ∧
      Rejects before.length rest later fault := by
  obtain ⟨passed, rest, hb, ho, hr⟩ := rejects_of_advance h
  have hposition : scanner.position < buffer.length := by
    refine Nat.lt_of_not_le fun hle => hr.ne_nil ?_
    rw [List.drop_of_length_le hle] at hb
    exact (List.append_eq_nil_iff.mp hb.symm).2
  have hlength : (buffer.take scanner.position ++ passed).length =
      scanner.position + passed.length := by
    rw [List.length_append, List.length_take_of_le (Nat.le_of_lt hposition)]
  refine ⟨buffer.take scanner.position ++ passed, rest, ?_, by omega, ?_, hlength ▸ hr⟩
  · rw [List.append_assoc, ← hb, List.take_append_drop]
  · rw [scan, List.drop_left' (List.length_take_of_le (Nat.le_of_lt hposition)), ho, hlength]

/-- A scan that is open at the end of a buffer goes on behind it. -/
theorem scan_open_append {before : Bytes} (hp : scanner.position ≤ before.length)
    (h : scanner.scan before = (⟨before.length, missing⟩, .ok none)) (more : Bytes) :
    scanner.scan (before ++ more) = advance before.length missing more := by
  rw [scan, List.drop_append_of_le_length hp, (advance_open h more).2]
  refine congrArg (advance before.length missing) ?_
  rw [← List.drop_append_of_le_length hp, List.drop_drop, Nat.add_sub_cancel' hp, List.drop_left]

end Rejections

/-- What successive scans leave and answer. -/
def scans (scanner : Scanner) : List Bytes → List (Scanner × Except Fault (Option Nat))
  | [] => []
  | buffer :: buffers => scanner.scan buffer :: (scanner.scan buffer).1.scans buffers

section Again
variable {scanner later : Scanner} {buffer : Bytes} {fault : Fault}

/-- A scanner that rejects a buffer for any other reason than depth rejects it again. -/
theorem scan_again (h : scanner.scan buffer = (later, .error fault)) (hf : fault ≠ .tooDeep)
    (more : Bytes) : later.scan (buffer ++ more) = (later, .error fault) := by
  obtain ⟨before, rest, rfl, -, -, hr⟩ := rejects_of_scan h
  cases hr with
  | element hread =>
    rw [scan, List.append_assoc, List.drop_left]
    refine advance_error _ _ ?_
    rw [Element.read_append more (by rw [hread]; simp), hread]
  | array => exact absurd rfl hf

theorem scans_again (h : scanner.scan buffer = (later, .error fault)) (hf : fault ≠ .tooDeep)
    {buffers : List Bytes} (hb : ∀ longer ∈ buffers, buffer <+: longer) :
    later.scans buffers = buffers.map fun _ => (later, .error fault) := by
  induction buffers with
  | nil => rfl
  | cons longer buffers ih =>
    obtain ⟨⟨more, rfl⟩, hlonger⟩ := List.forall_mem_cons.mp hb
    rw [scans, scan_again h hf more, ih hlonger]
    rfl

/-- Octets that are the header of an array with items. -/
def OpensArray (header : Bytes) : Prop :=
  ∃ element, Element.read header = .ok (some element) ∧ 0 < element.items ∧
    element.size = header.length

/-- Behind an array that lies too deep a scanner goes on as if its header had not been there. -/
theorem scan_without_header (h : scanner.scan buffer = (later, .error .tooDeep)) :
    ∃ before header after, buffer = before ++ header ++ after ∧ OpensArray header ∧
      scanner.scan before = (⟨before.length, later.missing⟩, .ok none) ∧
      maxDepth ≤ later.missing.length ∧
      ∀ more, later.scan (buffer ++ more) =
        behind header.length (scanner.scan (before ++ (after ++ more))) := by
  obtain ⟨before, rest, rfl, hp, ho, hr⟩ := rejects_of_scan h
  cases hr with
  | element hread => exact absurd hread (Element.read_ne_tooDeep rest)
  | @array missing element hread hi hd =>
    have hlength : (rest.take element.size).length = element.size :=
      List.length_take_of_le (Element.size_le_of_read hread)
    have hrest : rest.take element.size ++ rest.drop element.size = rest :=
      List.take_append_drop ..
    refine ⟨before, rest.take element.size, rest.drop element.size, ?_,
      ⟨element, Element.read_take hread, hi, hlength.symm⟩, ho, hd, fun more => ?_⟩
    · rw [List.append_assoc, hrest]
    · have hdrop : (before ++ rest ++ more).drop (before.length + element.size) =
          rest.drop element.size ++ more := by
        rw [List.append_assoc, ← List.drop_drop, List.drop_left,
          List.drop_append_of_le_length (Element.size_le_of_read hread)]
      rw [scan, hdrop, advance_behind, scan_open_append hp ho, hlength]

/-- A scan that is rejected for depth has gone on. -/
theorem position_lt_of_tooDeep (h : scanner.scan buffer = (later, .error .tooDeep)) :
    scanner.position < later.position := by
  obtain ⟨before, rest, -, hp, -, hr⟩ := rejects_of_scan h
  cases hr with
  | element hread => exact absurd hread (Element.read_ne_tooDeep rest)
  | @array missing element => exact Nat.lt_of_le_of_lt hp (Nat.lt_add_of_pos_right element.size_pos)

end Again

/-- Arrays of one item each, one inside the other, around some octets. -/
def nested (count : Nat) (inner : Bytes) : Bytes :=
  (List.replicate count [0x2a, 0x31, 0x0d, 0x0a]).flatten ++ inner

theorem nested_add (m n : Nat) (inner : Bytes) :
    nested (m + n) inner = nested m (nested n inner) := by
  rw [nested, nested, nested, List.replicate_add, List.flatten_append, List.append_assoc]

theorem read_nested (count : Nat) (inner : Bytes) :
    Element.read (nested (count + 1) inner) = .ok (some ⟨4, 1, by decide⟩) ∧
      (nested (count + 1) inner).drop 4 = nested count inner := by
  have hread : Element.read [0x2a, 0x31, 0x0d, 0x0a] = .ok (some ⟨4, 1, by decide⟩) := rfl
  have happend : nested (count + 1) inner = [0x2a, 0x31, 0x0d, 0x0a] ++ nested count inner := by
    rw [Nat.add_comm, nested_add]
    rfl
  rw [happend]
  exact ⟨(Element.read_append _ (by rw [hread]; simp)).trans hread, rfl⟩

theorem advance_nested {count : Nat} {missing : List Nat} (h : missing.length + count ≤ maxDepth)
    (position : Nat) (inner : Bytes) :
    advance position missing (nested count inner) =
      advance (position + 4 * count) (List.replicate count 1 ++ missing) inner := by
  induction count generalizing position missing with
  | zero => rfl
  | succ count ih =>
    obtain ⟨hread, hdrop⟩ := read_nested count inner
    have hmore : (1 :: missing).length + count ≤ maxDepth := by
      rw [List.length_cons]
      omega
    have hposition : position + 4 + 4 * count = position + 4 * (count + 1) := by omega
    rw [advance_enter position hread (by decide) (by omega), hdrop, ih hmore, hposition,
      List.replicate_succ', List.append_assoc, List.singleton_append]

/-- An array inside as many others as may be open is rejected behind its header. -/
theorem scan_nested (inner : Bytes) :
    ({} : Scanner).scan (nested (maxDepth + 1) inner) =
      (⟨4 * maxDepth + 4, List.replicate maxDepth 1⟩, .error .tooDeep) := by
  obtain ⟨hread, -⟩ := read_nested 0 inner
  rw [nested_add, scan]
  refine (advance_nested (Nat.le_of_eq (Nat.zero_add maxDepth)) 0 _).trans ?_
  rw [Nat.zero_add, List.append_nil]
  exact advance_too_deep _ hread Nat.zero_lt_one (by rw [List.length_replicate])

/-- A scanner that has rejected a buffer answers every later scan of it, with whatever comes after
it, with the same fault, and nothing in it changes. This fails for a single fault. An array that
lies too deep is passed over: the scanner goes on behind its header as it would have without it, and
never again as it did. -/
theorem rejected_again_unless_too_deep {scanner later : Scanner} {buffer : Bytes} {fault : Fault}
    (h : scanner.scan buffer = (later, .error fault)) :
    (fault ≠ .tooDeep → ∀ buffers : List Bytes, (∀ longer ∈ buffers, buffer <+: longer) →
      later.scans buffers = buffers.map fun _ => (later, .error fault)) ∧
    (fault = .tooDeep →
      (∀ more, later.scan (buffer ++ more) ≠ (later, .error fault)) ∧
      ∃ before header after, buffer = before ++ header ++ after ∧ OpensArray header ∧
        scanner.scan before = (⟨before.length, later.missing⟩, .ok none) ∧
        maxDepth ≤ later.missing.length ∧
        ∀ more, later.scan (buffer ++ more) =
          behind header.length (scanner.scan (before ++ (after ++ more)))) := by
  refine ⟨fun hf _ hb => scans_again h hf hb, ?_⟩
  rintro rfl
  exact ⟨fun more hm => Nat.lt_irrefl _ (position_lt_of_tooDeep hm), scan_without_header h⟩

/-- An unknown type inside an array, behind a prefix over which the scan was open; and any octets
inside one array too many. -/
theorem rejected_again_inside_array :
    let scanner : Scanner := ⟨4, [1]⟩
    let buffer : Bytes := nested 1 [0x3f, 0x78, 0x0d, 0x0a]
    let rejected : Scanner × Except Fault (Option Nat) := (scanner, .error (.unknownType 0x3f))
    let deep : Scanner := ⟨4 * maxDepth + 4, List.replicate maxDepth 1⟩
    (({} : Scanner).scan (nested 1 []) = (scanner, .ok none) ∧ scanner.scan buffer = rejected ∧
      scanner.scans [buffer, buffer ++ [0x2b], buffer] = [rejected, rejected, rejected]) ∧
    ∀ inner more, ({} : Scanner).scan (nested (maxDepth + 1) inner) = (deep, .error .tooDeep) ∧
      deep.scan (nested (maxDepth + 1) inner ++ more) ≠ (deep, .error .tooDeep) := by
  intro scanner buffer rejected deep
  have hdepth : ([] : List Nat).length + 1 ≤ maxDepth := by decide
  have hopen : ({} : Scanner).scan (nested 1 []) = (scanner, .ok none) :=
    (advance_nested hdepth 0 []).trans (advance_none 4 [1] rfl)
  have hrejected : scanner.scan buffer = rejected := advance_error 4 [1] rfl
  refine ⟨⟨hopen, hrejected, ?_⟩, fun inner more => ?_⟩
  · refine (rejected_again_unless_too_deep hrejected).1 (by decide) _ fun longer hlonger => ?_
    simp only [List.mem_cons, List.not_mem_nil, or_false] at hlonger
    rcases hlonger with rfl | rfl | rfl
    · exact List.prefix_rfl
    · exact List.prefix_append ..
    · exact List.prefix_rfl
  · have hdeep := scan_nested inner
    exact ⟨hdeep, ((rejected_again_unless_too_deep hdeep).2 rfl).1 more⟩

/-- A reply that lies too deep is rejected, and scanned again it is found to be whole. -/
theorem too_deep_found_again :
    let deep := nested 65 [0x3a, 0x31, 0x0d, 0x0a]
    let later : Scanner := ⟨260, List.replicate 64 1⟩
    ({} : Scanner).scan deep = (later, .error .tooDeep) ∧
      later.scan deep = ({}, .ok (some 264)) := by
  intro deep later
  refine ⟨scan_nested _, ?_⟩
  have hdrop : deep.drop 260 = [0x3a, 0x31, 0x0d, 0x0a] := by decide +kernel
  have hread : Element.read [0x3a, 0x31, 0x0d, 0x0a] = .ok (some ⟨4, 0, by decide⟩) := rfl
  rw [scan, hdrop]
  exact (advance_finish 260 _ hread rfl).trans (settle_last 264 (by decide +kernel))

end Scanner
end SortedSetClient.Resp
