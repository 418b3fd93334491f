import SortedSetClient.Proofs.HeaderReading

/-! Steps at places of a buffer that a machine of 64-bit words may be unable to take. Each of them
is guarded: a sum that is no word, a count below zero, octets or a place outside the buffer and open
arrays that are too many or expect nothing end in a trap. -/
namespace SortedSetClient.Resp

/-- A step that cannot be taken. -/
inductive Trap where
  | overflow
  | underflow
  | outOfRange
  | miscounted
deriving DecidableEq

/-- Why a guarded run comes to an end without a result. -/
inductive Stop where
  | trap (trap : Trap)
  | incomplete
  | fault (fault : Fault)
deriving DecidableEq

abbrev Guarded (α : Type) := Except Stop α

namespace Guarded
variable {α β : Type}

/-- What is read, or why nothing is: no trap is among the answers. -/
def answer : Except Fault (Option α) → Guarded α
  | .error fault => .error (.fault fault)
  | .ok none => .error .incomplete
  | .ok (some a) => .ok a

theorem answer_ne_trap (result : Except Fault (Option α)) (trap : Trap) :
    answer result ≠ .error (.trap trap) := by
  rcases result with fault | _ | a <;> simp [answer]

@[simp] theorem ok_bind (a : α) (next : α → Guarded β) : (.ok a >>= next) = next a := rfl

@[simp] theorem error_bind (stop : Stop) (next : α → Guarded β) :
    (.error stop >>= next) = .error stop := rfl

/-- A step that traps unless its condition holds. -/
def provided (holds : Prop) [Decidable holds] (trap : Trap) (a : α) : Guarded α :=
  if holds then .ok a else .error (.trap trap)

theorem provided_of {holds : Prop} [Decidable holds] (h : holds) (trap : Trap) (a : α) :
    provided holds trap a = .ok a :=
  if_pos h

/-- The sum of two words. -/
def add (m n : Nat) : Guarded Nat :=
  provided (m + n < UInt64.size) .overflow (m + n)

theorem add_of_lt {m n : Nat} (h : m + n < 2 ^ 64) : add m n = .ok (m + n) :=
  provided_of h _ _

/-- One less. -/
def countDown (n : Nat) : Guarded Nat :=
  provided (0 < n) .underflow (n - 1)

/-- The octet at a place. -/
def octet (buffer : Bytes) (i : Nat) : Guarded UInt8 :=
  match buffer[i]? with
  | some b => .ok b
  | none => .error (.trap .outOfRange)

/-- The octets from one place up to another. -/
def slice (buffer : Bytes) (start stop : Nat) : Guarded Bytes :=
  provided (start ≤ stop ∧ stop ≤ buffer.length) .outOfRange
    ((buffer.drop start).take (stop - start))

/-- A place to go on from. -/
def moveTo (buffer : Bytes) (position : Nat) : Guarded Nat :=
  provided (position ≤ buffer.length) .outOfRange position

/-- Whether a line ends at a place. The second octet is looked at only where the first one fits. -/
def lineEndAt (buffer : Bytes) (i : Nat) : Guarded Bool := do
  let first ← octet buffer i
  if first = 0x0d then do
    let next ← add i 1
    let second ← octet buffer next
    .ok (second == 0x0a)
  else .ok false

/-- The place of the first line end from a place on. -/
def findLineEnd (buffer : Bytes) (i : Nat) : Guarded Nat :=
  if i < buffer.length - 1 then do
    let found ← lineEndAt buffer i
    if found then .ok i else findLineEnd buffer (i + 1)
  else .error .incomplete
termination_by buffer.length - i

/-- The integer that a line holds. -/
def lineInteger (text : Bytes) : Guarded Int64 :=
  match readInteger text with
  | .error fault => .error (.fault fault)
  | .ok n => .ok n

/-- A length of at least zero as a word. -/
def lengthWord (n : Int64) : Nat := n.toUInt64.toNat

/-- The place behind counted data and the two octets that end them. -/
def behindData (buffer : Bytes) (count position : Nat) : Guarded Nat := do
  let stop ← add position count
  let behind ← add stop 2
  if buffer.length < behind then .error .incomplete
  else do
    let terminator ← slice buffer stop behind
    if terminator = [0x0d, 0x0a] then .ok behind else .error (.fault .missingTerminator)

section Places
variable (front : Bytes)

theorem octet_front (b : UInt8) (rest : Bytes) :
    octet (front ++ b :: rest) front.length = .ok b := by
  simp [octet]

theorem octet_second (a b : UInt8) (rest : Bytes) :
    octet (front ++ a :: b :: rest) (front.length + 1) = .ok b := by
  simp [octet]

theorem slice_front (part rest : Bytes) :
    slice (front ++ (part ++ rest)) front.length (front.length + part.length) = .ok part := by
  rw [slice, provided_of (by simp), List.drop_left, Nat.add_sub_cancel_left, List.take_left]

theorem moveTo_front (rest : Bytes) : moveTo (front ++ rest) front.length = .ok front.length :=
  provided_of (by simp) _ _

/-- The place behind a part and the two octets that end it. -/
theorem length_ended (part : Bytes) (a b : UInt8) :
    (front ++ (part ++ [a, b])).length = front.length + part.length + 2 := by
  simp only [List.length_append, List.length_cons, List.length_nil]
  omega

variable {front} {buffer part rest : Bytes} {a b : UInt8}

theorem behind_type (h : buffer = front ++ a :: rest) : buffer = (front ++ [a]) ++ rest := by
  simp [h]

theorem behind_ended (h : buffer = front ++ (part ++ a :: b :: rest)) :
    buffer = (front ++ (part ++ [a, b])) ++ rest := by
  simp [h]

end Places

section LineEnds
variable {front : Bytes}

theorem findLineEnd_step {b c : UInt8} {rest : Bytes}
    (hw : (front ++ b :: c :: rest).length < 2 ^ 62) :
    findLineEnd (front ++ b :: c :: rest) front.length =
      if b = 0x0d ∧ c = 0x0a then .ok front.length
      else findLineEnd (front ++ b :: c :: rest) (front.length + 1) := by
  simp only [List.length_append, List.length_cons] at hw
  have hi : front.length < (front ++ b :: c :: rest).length - 1 := by
    simp only [List.length_append, List.length_cons]
    omega
  have ha : add front.length 1 = .ok (front.length + 1) := add_of_lt (by omega)
  rw [findLineEnd, if_pos hi, lineEndAt, octet_front, ok_bind, ha]
  by_cases hb : b = 0x0d
  · rw [if_pos hb, ok_bind, octet_second, ok_bind, ok_bind]
    simp [hb]
  · rw [if_neg hb, ok_bind]
    simp [hb]

theorem findLineEnd_short {bytes : Bytes} (h : bytes.length < 2) :
    findLineEnd (front ++ bytes) front.length = .error .incomplete := by
  rw [findLineEnd, if_neg]
  rw [List.length_append]
  omega

/-- Without a line end the search comes to the end of the buffer. -/
theorem findLineEnd_unbroken {bytes : Bytes} (h : Unbroken bytes)
    (hw : (front ++ bytes).length < 2 ^ 62) :
    findLineEnd (front ++ bytes) front.length = .error .incomplete := by
  induction bytes generalizing front with
  | nil => exact findLineEnd_short (by decide)
  | cons b bytes ih =>
    obtain ⟨hu, hb⟩ := (unbroken_cons_iff b bytes).mp h
    cases bytes with
    | nil => exact findLineEnd_short (by simp)
    | cons c rest =>
      have hmove : front ++ b :: c :: rest = (front ++ [b]) ++ c :: rest := by simp
      have hlength : front.length + 1 = (front ++ [b]).length := by simp
      rw [findLineEnd_step hw, if_neg (by simpa using hb)]
      rw [hmove] at hw ⊢
      rw [hlength, ih hu hw]

/-- The search finds the end of the line at its start. -/
theorem findLineEnd_line {line rest : Bytes} (h : Unbroken line)
    (hw : (front ++ (line ++ 0x0d :: 0x0a :: rest)).length < 2 ^ 62) :
    findLineEnd (front ++ (line ++ 0x0d :: 0x0a :: rest)) front.length =
      .ok (front.length + line.length) := by
  induction line generalizing front with
  | nil => exact (findLineEnd_step hw).trans (if_pos ⟨rfl, rfl⟩)
  | cons b line ih =>
    obtain ⟨hu, hb⟩ := (unbroken_cons_iff b line).mp h
    obtain ⟨c, after, hafter, hc⟩ : ∃ c after, line ++ 0x0d :: 0x0a :: rest = c :: after ∧
        ¬ (b = 0x0d ∧ c = 0x0a) := by
      cases line with
      | nil => exact ⟨0x0d, _, rfl, by simp⟩
      | cons c line => exact ⟨c, _, rfl, by simpa using hb⟩
    have hmove : front ++ (b :: line ++ 0x0d :: 0x0a :: rest) =
        (front ++ [b]) ++ (line ++ 0x0d :: 0x0a :: rest) := by simp
    have hstep : findLineEnd (front ++ (b :: line ++ 0x0d :: 0x0a :: rest)) front.length =
        findLineEnd (front ++ (b :: line ++ 0x0d :: 0x0a :: rest)) (front ++ [b]).length := by
      rw [List.cons_append, hafter] at hw ⊢
      rw [findLineEnd_step hw, if_neg hc]
      simp
    rw [hstep]
    rw [hmove] at hw ⊢
    rw [ih hu hw, List.length_append, List.length_singleton, List.length_cons]
    exact congrArg _ (by omega)

end LineEnds

section Data
variable {front : Bytes}

theorem lengthWord_ofNat {k : Nat} (hk : k < 2 ^ 63) : lengthWord (Int64.ofNat k) = k := by
  rw [lengthWord, Int64.toUInt64_ofNat', UInt64.toNat_ofNat']
  omega

theorem behindData_short {k : Nat} (hk : k < 2 ^ 63) {bytes : Bytes} (h : bytes.length < k + 2)
    (hw : (front ++ bytes).length < 2 ^ 62) :
    behindData (front ++ bytes) k front.length = .error .incomplete := by
  rw [List.length_append] at hw
  have hshort : (front ++ bytes).length < front.length + k + 2 := by
    rw [List.length_append]
    omega
  rw [behindData, add_of_lt (by omega), ok_bind, add_of_lt (by omega), ok_bind, if_pos hshort]

/-- The bound on the buffer is what keeps these sums in a word. -/
example : behindData [] (2 ^ 63) (2 ^ 63) = .error (.trap .overflow) := rfl

theorem behindData_data {data : Bytes} (a b : UInt8) {rest : Bytes}
    (hw : (front ++ (data ++ a :: b :: rest)).length < 2 ^ 62) :
    behindData (front ++ (data ++ a :: b :: rest)) data.length front.length =
      if a = 0x0d ∧ b = 0x0a then .ok (front.length + data.length + 2)
      else .error (.fault .missingTerminator) := by
  have henough : ¬ (front ++ (data ++ a :: b :: rest)).length < front.length + data.length + 2 := by
    simp only [List.length_append, List.length_cons]
    omega
  simp only [List.length_append, List.length_cons] at hw
  have hslice : slice (front ++ (data ++ a :: b :: rest)) (front.length + data.length)
      (front.length + data.length + 2) = .ok [a, b] := by
    rw [← List.append_assoc, ← List.length_append]
    exact slice_front (front ++ data) [a, b] rest
  rw [behindData, add_of_lt (by omega), ok_bind, add_of_lt (by omega), ok_bind, if_neg henough,
    hslice, ok_bind]
  simp

end Data
end Guarded
end SortedSetClient.Resp
