import SortedSetClient.Proofs.ScannerResumption
import SortedSetClient.Proofs.SettledReading

/-! The scanner's loop against the parser's recursion. Where the parser has read a value, the scan
stands behind it with the counts of the arrays around it; where the parser meets a fault, the scan
meets the same one, except that it sees a type octet only when the line behind it has ended. -/
namespace SortedSetClient.Resp
open Resp.Parser

/-- The type octets of the protocol. -/
def Known (type : UInt8) : Prop := type ∈ ([0x2b, 0x2d, 0x3a, 0x24, 0x2a] : Bytes)

instance (type : UInt8) : Decidable (Known type) := inferInstanceAs (Decidable (_ ∈ _))

/-- An array around the items that were read. -/
def asArray (read : Option (List Value × Bytes)) : Option (Value × Bytes) :=
  read.map fun (items, rest) => (.array items, rest)

/-- What the scanner finds at the front of a buffer, by what the parser reads there. -/
inductive Heads (inside : Nat → Bytes → Reading (List Value)) :
    Bytes → Except Fault (Option Element) → Prop where
  | pending {bytes : Bytes} : readValue inside bytes = .ok none → Heads inside bytes (.ok none)
  | leaf {octets rest : Bytes} {element : Element} {value : Value} :
      element.items = 0 → octets.length = element.size →
      (∀ more, readValue inside (octets ++ more) = .ok (some (value, more))) →
      Heads inside (octets ++ rest) (.ok (some element))
  | array {header rest : Bytes} {element : Element} :
      0 < element.items → header.length = element.size →
      (∀ more, readValue inside (header ++ more) = (inside element.items more).map asArray) →
      Heads inside (header ++ rest) (.ok (some element))
  | fault {bytes : Bytes} {fault : Fault} : (∀ type, fault ≠ .unknownType type) →
      readValue inside bytes = .error fault → Heads inside bytes (.error fault)
  | unknown {type : UInt8} {after : Bytes} : ¬ Known type →
      Heads inside (type :: after)
        (if Unbroken after then .ok none else .error (.unknownType type))

section Elements
variable {inside : Nat → Bytes → Reading (List Value)}

theorem readValue_unknown {type : UInt8} (h : ¬ Known type) (after : Bytes) :
    readValue inside (type :: after) = .error (.unknownType type) := by
  simp only [Known, List.mem_cons, List.not_mem_nil, or_false, not_or] at h
  obtain ⟨h1, h2, h3, h4, h5⟩ := h
  rw [readValue.eq_7 _ _ _ (by simpa using h1) (by simpa using h2) (by simpa using h3)
    (by simpa using h4) (by simpa using h5)]

theorem readValue_unbroken {type : UInt8} (h : Known type) {after : Bytes} (hu : Unbroken after) :
    readValue inside (type :: after) = .ok none := by
  simp only [Known, List.mem_cons, List.not_mem_nil, or_false] at h
  rcases h with rfl | rfl | rfl | rfl | rfl
  · exact readLine_unbroken hu
  · exact readLine_unbroken hu
  · exact readCounted_unbroken hu
  · exact readCounted_unbroken hu
  · exact readCounted_unbroken hu

private theorem heads_unknown {type : UInt8} (h : ¬ Known type) (after : Bytes) :
    Heads inside (type :: after) (Element.read (type :: after)) := by
  have hr : Element.read (type :: after) =
      if Unbroken after then .ok none else .error (.unknownType type) := by
    rcases unbroken_or_line after with hu | ⟨line, rest, hl, rfl⟩
    · rw [Element.read_unbroken hu, if_pos hu]
    · rw [Element.read_line hl, if_neg (not_unbroken_lineEnd line rest)]
      simp only [Known, List.mem_cons, List.not_mem_nil, or_false, not_or] at h
      obtain ⟨h1, h2, h3, h4, h5⟩ := h
      rw [Element.ofHeader.eq_6 _ _ _ (by simpa using h1) (by simpa using h2) (by simpa using h3)
        (by simpa using h4) (by simpa using h5)]
  rw [hr]
  exact .unknown h

section Headers
variable {header rest : Bytes} {n : Int64} {size : Nat} {hs : 0 < size}

private theorem heads_ofBulk (hh : header.length = size)
    (hv : ∀ more, readValue inside (header ++ more) = readBulk n more) :
    Heads inside (header ++ rest) (Element.ofBulk size hs n rest) := by
  rcases length_cases n with rfl | hn | ⟨k, hk, rfl⟩
  · exact .leaf rfl hh hv
  · rw [Element.ofBulk_refused hn]
    exact .fault (by simp) ((hv rest).trans (readBulk_refused hn rest))
  · rcases data_cases k rest with hd | ⟨data, a, b, rest, rfl, rfl⟩
    · rw [Element.ofBulk_short hk hd]
      exact .pending ((hv rest).trans (readBulk_short hk hd))
    · rw [Element.ofBulk_data hk]
      split
      · next he =>
        obtain ⟨rfl, rfl⟩ := he
        have hb : Heads inside (header ++ data ++ [0x0d, 0x0a] ++ rest)
            (.ok (some ⟨size + data.length + 2, 0, by omega⟩)) := by
          refine @Heads.leaf _ _ _ _ (.bulk data) rfl (by simp [hh]; omega) fun more => ?_
          rw [List.append_assoc, List.append_assoc, hv]
          exact (readBulk_data hk _ _ more).trans (if_pos ⟨rfl, rfl⟩)
        simpa using hb
      · next he =>
        exact .fault (by simp) ((hv _).trans ((readBulk_data hk a b rest).trans (if_neg he)))

private theorem heads_ofArray (hh : header.length = size)
    (hv : ∀ more, readValue inside (header ++ more) = readArray inside n more) :
    Heads inside (header ++ rest) (Element.ofArray size hs n) := by
  rcases length_cases n with rfl | hn | ⟨k, hk, rfl⟩
  · exact .leaf rfl hh hv
  · rw [Element.ofArray_refused hn]
    exact .fault (by simp) ((hv rest).trans (readArray_refused hn rest))
  · rw [Element.ofArray_count hk]
    rcases Nat.eq_zero_or_pos k with rfl | h0
    · exact .leaf rfl hh hv
    · exact .array h0 hh fun more => (hv more).trans (readArray_count hk h0 more)

end Headers

section Lines
variable {line : Bytes} (hl : Unbroken line) (rest : Bytes)
include hl

private theorem readValue_text {make : Bytes → Except Fault Value} {type : UInt8} {value : Value}
    (ht : ∀ bytes, readValue inside (type :: bytes) = readLine make bytes)
    (hm : make line = .ok value) (more : Bytes) :
    readValue inside (Value.line type line ++ more) = .ok (some (value, more)) := by
  rw [line_append, ht, readLine_line hl, hm]
  rfl

private theorem heads_counted {type : UInt8} {next : Int64 → Bytes → Reading Value}
    {found : Int64 → Except Fault (Option Element)}
    (ht : ∀ bytes, readValue inside (type :: bytes) = readCounted next bytes)
    (hn : ∀ n, (∀ more, readValue inside (Value.line type line ++ more) = next n more) →
      Heads inside (Value.line type line ++ rest) (found n)) :
    Heads inside (Value.line type line ++ rest) ((readInteger line).bind found) := by
  have hv (more : Bytes) : readValue inside (Value.line type line ++ more) =
      (readInteger line).bind fun n => next n more := by
    rw [line_append, ht, readCounted_line hl]
  cases hr : readInteger line with
  | error fault =>
    refine .fault (fun type he => ?_) (by rw [hv, hr]; rfl)
    rw [readInteger] at hr
    split at hr <;> cases hr
    cases he
  | ok n => exact hn n fun more => by rw [hv, hr]; rfl

private theorem heads_known {type : UInt8} (hk : Known type) :
    Heads inside (Value.line type line ++ rest) (Element.ofHeader type line rest) := by
  have hs := Value.length_line type line
  simp only [Known, List.mem_cons, List.not_mem_nil, or_false] at hk
  rcases hk with rfl | rfl | rfl | rfl | rfl
  · exact .leaf rfl hs (readValue_text hl (fun _ => rfl) rfl)
  · exact .leaf rfl hs (readValue_text hl (fun _ => rfl) rfl)
  · exact heads_counted hl rest (fun _ => rfl) fun n hv => .leaf rfl hs hv
  · exact heads_counted hl rest (fun _ => rfl) fun n hv => heads_ofBulk hs hv
  · exact heads_counted hl rest (fun _ => rfl) fun n hv => heads_ofArray hs hv

end Lines

theorem heads_read (bytes : Bytes) : Heads inside bytes (Element.read bytes) := by
  cases bytes with
  | nil => exact .pending rfl
  | cons type bytes =>
    by_cases hk : Known type
    · rcases unbroken_or_line bytes with hu | ⟨line, rest, hl, rfl⟩
      · rw [Element.read_unbroken hu]
        exact .pending (readValue_unbroken hk hu)
      · rw [Element.read_line hl, ← line_append]
        exact heads_known hl rest hk
    · exact heads_unknown hk bytes

end Elements

/-- The answer of a scan, by what is read from the same octets: behind what was read it goes on as
`next` says, and it meets the same fault, but an unknown type octet only when its line has ended. -/
inductive Follows {α : Type} (read : Bytes → Reading α)
    (next : Nat → Bytes → Scanner × Except Fault (Option Nat)) (position : Nat) :
    Bytes → Scanner × Except Fault (Option Nat) → Prop where
  | done {octets rest : Bytes} {a : α} : (∀ more, read (octets ++ more) = .ok (some (a, more))) →
      Follows read next position (octets ++ rest) (next (position + octets.length) rest)
  | pending {bytes : Bytes} {scanner : Scanner} : read bytes = .ok none →
      Follows read next position bytes (scanner, .ok none)
  | fault {bytes : Bytes} {scanner : Scanner} {fault : Fault} :
      (∀ type, fault ≠ .unknownType type) → read bytes = .error fault →
      Follows read next position bytes (scanner, .error fault)
  | unknown {before after : Bytes} {type : UInt8} {scanner : Scanner} : read before = .ok none →
      (∀ more, read (before ++ type :: more) = .error (.unknownType type)) →
      Follows read next position (before ++ type :: after)
        (scanner, if Unbroken after then .ok none else .error (.unknownType type))

section Runs
open Scanner

/-- A scan follows a reading that passes some octets and then goes on as one that it follows. -/
theorem Follows.behind {α β : Type} {read : Bytes → Reading α} {inner : Bytes → Reading β}
    {next : Nat → Bytes → Scanner × Except Fault (Option Nat)} {position : Nat}
    {front bytes : Bytes} {answer : Scanner × Except Fault (Option Nat)} (make : β → α)
    (hr : ∀ more, read (front ++ more) = (inner more).map (·.map fun (b, rest) => (make b, rest)))
    (h : Follows inner next (position + front.length) bytes answer) :
    Follows read next position (front ++ bytes) answer := by
  cases h with
  | @done octets rest b hb =>
    have hd : Follows read next position (front ++ octets ++ rest)
        (next (position + (front ++ octets).length) rest) := by
      refine @Follows.done _ _ _ _ _ _ (make b) fun more => ?_
      rw [List.append_assoc, hr, hb]
      rfl
    simpa [Nat.add_assoc] using hd
  | pending hb => exact .pending (by rw [hr, hb]; rfl)
  | fault hf hb => exact .fault hf (by rw [hr, hb]; rfl)
  | @unknown before after type scanner hb ht =>
    rw [← List.append_assoc]
    refine .unknown (by rw [hr, hb]; rfl) fun more => ?_
    rw [List.append_assoc, hr, ht]
    rfl

section Items
variable {read : Bytes → Reading Value} {outer : List Nat}

private theorem settle_one (place : Nat) (rest : Bytes) :
    settle place (1 :: outer) rest = settle place outer rest := by
  rw [settle, settle, finishValue, if_pos (Nat.le_refl 1)]

private theorem settle_more (place k : Nat) (rest : Bytes) :
    settle place ((k + 2) :: outer) rest = advance place ((k + 1) :: outer) rest := by
  rw [settle, finishValue, if_neg (by omega)]
  rfl

private theorem follows_items_cons {next : Nat → Bytes → Scanner × Except Fault (Option Nat)}
    {position left k : Nat} {bytes : Bytes} {answer : Scanner × Except Fault (Option Nat)}
    (items : List Value)
    (h : Follows read (fun place => settle place (left :: outer)) position bytes answer)
    (hs : ∀ item place rest, Follows (readItems read (item :: items) k) next place rest
      (settle place (left :: outer) rest)) :
    Follows (readItems read items (k + 1)) next position bytes answer := by
  cases h with
  | @done octets rest item hr =>
    refine (hs item _ rest).behind id fun more => ?_
    rw [readItems, hr]
    dsimp only
    rcases readItems read (item :: items) k more with _ | _ | _ <;> rfl
  | pending hr => exact .pending (by rw [readItems, hr])
  | fault hf hr => exact .fault hf (by rw [readItems, hr])
  | unknown hr ht =>
    exact .unknown (by rw [readItems, hr]) fun more => by rw [readItems, ht]

/-- The scan of an array's items follows the reading of them one by one. -/
theorem follows_items
    (h : ∀ position left bytes, Follows read (fun place => settle place (left :: outer)) position
      bytes (advance position (left :: outer) bytes))
    (items : List Value) (k position : Nat) (bytes : Bytes) :
    Follows (readItems read items (k + 1)) (fun place => settle place outer) position bytes
      (advance position ((k + 1) :: outer) bytes) := by
  induction k generalizing items position bytes with
  | zero =>
    apply follows_items_cons items (h position 1 bytes)
    intro item place rest
    rw [settle_one]
    exact @Follows.done _ _ _ place [] rest _ fun more => rfl
  | succ k ih =>
    apply follows_items_cons items (h position (k + 2) bytes)
    intro item place rest
    rw [settle_more]
    exact ih (item :: items) place rest

end Items

private theorem follows_readValue {inside : Nat → Bytes → Reading (List Value)} {missing : List Nat}
    {position : Nat} (bytes : Bytes)
    (ha : ∀ header rest element, Element.read (header ++ rest) = .ok (some element) →
      0 < element.items → header.length = element.size →
      (∀ more, readValue inside (header ++ more) = (inside element.items more).map asArray) →
      Follows (readValue inside) (fun place => settle place missing) position (header ++ rest)
        (advance position missing (header ++ rest))) :
    Follows (readValue inside) (fun place => settle place missing) position bytes
      (advance position missing bytes) := by
  generalize he : Element.read bytes = found
  have hh : Heads inside bytes found := he ▸ heads_read bytes
  cases hh with
  | pending hr =>
    rw [advance_none position missing he]
    exact .pending hr
  | @leaf octets rest element value hi hs hr =>
    rw [advance_finish position missing he hi, ← hs, List.drop_left]
    exact .done hr
  | @array header rest element hi hs hr => exact ha header rest element he hi hs hr
  | fault hf hr =>
    rw [advance_error position missing he]
    exact .fault hf hr
  | @unknown type after hk =>
    have hadv : advance position missing (type :: after) =
        (⟨position, missing⟩, if Unbroken after then .ok none else .error (.unknownType type)) := by
      split at he
      · next hu => rw [advance_none position missing he, if_pos hu]
      · next hu => rw [advance_error position missing he, if_neg hu]
    rw [hadv]
    exact @Follows.unknown _ _ _ _ [] after type _ rfl fun more => readValue_unknown hk more

/-- A scan that has opened the arrays around it follows the reading of one value. -/
theorem follows_readWithin {levels : Nat} {missing : List Nat}
    (hl : missing.length + levels = maxDepth) (position : Nat) (bytes : Bytes) :
    Follows (readWithin levels) (fun place => settle place missing) position bytes
      (advance position missing bytes) := by
  induction levels generalizing missing position bytes with
  | zero =>
    rw [readWithin_eq]
    apply follows_readValue
    intro header rest element he hi hs hr
    rw [advance_too_deep position he hi (by omega)]
    exact .fault (by simp) (hr rest)
  | succ levels ih =>
    rw [readWithin_eq]
    apply follows_readValue
    intro header rest element he hi hs hr
    rw [advance_enter position he hi (by omega), ← hs, List.drop_left]
    obtain ⟨k, hk⟩ : ∃ k, element.items = k + 1 := ⟨element.items - 1, by omega⟩
    rw [hk] at hr ⊢
    -- The items lie inside one array more, so one level less is left for them.
    apply Follows.behind .array hr
    apply follows_items
    intro position left bytes
    exact ih (by simp; omega) position bytes

end Runs
end SortedSetClient.Resp
