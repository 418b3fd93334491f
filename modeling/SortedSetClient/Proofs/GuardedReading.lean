import SortedSetClient.Proofs.GuardedSteps

/-! The parser at places of a buffer, in guarded steps. On a buffer that a machine can hold it reads
what the parser on the octets themselves reads, and stands where the octets that are left begin. -/
namespace SortedSetClient.Resp.Guarded
open Resp.Parser (Reading)

/-- Read a line. -/
def readLine (buffer : Bytes) (start : Nat) : Guarded (Bytes × Nat) := do
  let stop ← findLineEnd buffer start
  let behind ← add stop 2
  let position ← moveTo buffer behind
  let line ← slice buffer start stop
  .ok (line, position)

/-- Read a header that holds an integer. -/
def readLength (buffer : Bytes) (start : Nat) : Guarded (Int64 × Nat) := do
  let (line, position) ← readLine buffer start
  let n ← lineInteger line
  .ok (n, position)

/-- Read that many octets and pass the two that end them. -/
def readData (buffer : Bytes) (count position : Nat) : Guarded (Value × Nat) := do
  let _ ← behindData buffer count position
  let stop ← add position count
  let data ← slice buffer position stop
  let passed ← add count 2
  let behind ← add position passed
  let position ← moveTo buffer behind
  .ok (.bulk data, position)

/-- Read the octets of a bulk string of known length. -/
def readBulk (buffer : Bytes) (length : Int64) (position : Nat) : Guarded (Value × Nat) :=
  if length = -1 then .ok (.nilBulk, position)
  else if length < 0 then .error (.fault (.invalidBulkLength length))
  else readData buffer (lengthWord length) position

/-- Read that many items, behind those already read. -/
def readItems (read : Nat → Guarded (Value × Nat)) (items : List Value) :
    Nat → Nat → Guarded (List Value × Nat)
  | 0, position => .ok (items.reverse, position)
  | n + 1, position => do
    let (item, position) ← read position
    readItems read (item :: items) n position

/-- Read an array of known length; `inside` reads the items of one that is not empty. -/
def readArray (inside : Nat → Nat → Guarded (List Value × Nat)) (length : Int64) (position : Nat) :
    Guarded (Value × Nat) :=
  if length = -1 then .ok (.nilArray, position)
  else if length < 0 then .error (.fault (.invalidArrayLength length))
  else if length = 0 then .ok (.array [], position)
  else do
    let (items, position) ← inside (lengthWord length) position
    .ok (.array items, position)

/-- Read what a type octet announces. -/
def readContent (buffer : Bytes) (inside : Nat → Nat → Guarded (List Value × Nat)) (type : UInt8)
    (position : Nat) : Guarded (Value × Nat) :=
  match type with
  | 0x2b => do
    let (line, position) ← readLine buffer position
    .ok (.simple (Utf8.decodeLossy line), position)
  | 0x2d => do
    let (line, position) ← readLine buffer position
    .ok (.error (Utf8.decodeLossy line), position)
  | 0x3a => do
    let (n, position) ← readLength buffer position
    .ok (.integer n, position)
  | 0x24 => do
    let (length, position) ← readLength buffer position
    readBulk buffer length position
  | 0x2a => do
    let (length, position) ← readLength buffer position
    readArray inside length position
  | type => .error (.fault (.unknownType type))

/-- Read one value. -/
def readValue (buffer : Bytes) (inside : Nat → Nat → Guarded (List Value × Nat)) (position : Nat) :
    Guarded (Value × Nat) :=
  if buffer.length ≤ position then .error .incomplete
  else do
    let type ← octet buffer position
    let next ← add position 1
    let position ← moveTo buffer next
    readContent buffer inside type position

/-- Read one value inside `depth` arrays. -/
def readAtDepth (buffer : Bytes) (depth : Nat) : Nat → Guarded (Value × Nat) :=
  readValue buffer fun count position =>
    if maxDepth ≤ depth then .error (.fault .tooDeep)
    else do
      let _ ← add depth 1
      readItems (readAtDepth buffer (depth + 1)) [] count position
termination_by maxDepth - depth

/-- The value at the front of a buffer and the place behind it. -/
def parse (buffer : Bytes) : Guarded (Value × Nat) :=
  if buffer.isEmpty then .error .incomplete else readAtDepth buffer 0 0

/-- What a guarded reading comes to, by what is read of the octets themselves. It never traps, and
it stands where the octets that are left begin. -/
inductive Located (buffer : Bytes) {α : Type} : Reading α → Guarded (α × Nat) → Prop where
  | refused {fault : Fault} : Located buffer (.error fault) (.error (.fault fault))
  | incomplete : Located buffer (.ok none) (.error .incomplete)
  | read {a : α} {front rest : Bytes} : buffer = front ++ rest →
      Located buffer (.ok (some (a, rest))) (.ok (a, front.length))

/-- At every place of the buffer, what is read there is what is read of the octets from there on. -/
def Everywhere {α : Type} (buffer : Bytes) (read : Bytes → Reading α)
    (read' : Nat → Guarded (α × Nat)) : Prop :=
  ∀ front bytes, buffer = front ++ bytes → Located buffer (read bytes) (read' front.length)

section Readers
variable {α β : Type} {buffer front bytes : Bytes}

theorem Located.map {reading : Reading α} {guarded : Guarded (α × Nat)}
    (h : Located buffer reading guarded) (f : α → β) :
    Located buffer (reading.map fun read => read.map fun (a, rest) => (f a, rest)) (do
      let (a, position) ← guarded
      .ok (f a, position)) := by
  cases h with
  | refused => exact .refused
  | incomplete => exact .incomplete
  | read hb => exact .read hb

variable (hw : buffer.length < 2 ^ 62) (hb : buffer = front ++ bytes)
include hw hb

theorem readLine_unbroken (hu : Unbroken bytes) :
    readLine buffer front.length = .error .incomplete := by
  subst hb
  rw [readLine, findLineEnd_unbroken hu hw, error_bind]

omit hb in
theorem readLine_line {line rest : Bytes} (hl : Unbroken line)
    (hb : buffer = front ++ (line ++ 0x0d :: 0x0a :: rest)) :
    readLine buffer front.length = .ok (line, (front ++ (line ++ [0x0d, 0x0a])).length) := by
  have hmove : moveTo buffer (front ++ (line ++ [0x0d, 0x0a])).length = _ :=
    behind_ended hb ▸ moveTo_front _ rest
  have hle := congrArg List.length (behind_ended hb)
  rw [List.length_append, length_ended] at hle
  subst hb
  rw [readLine, findLineEnd_line hl hw, ok_bind, add_of_lt (by omega), ok_bind, ← length_ended,
    hmove, ok_bind, slice_front, ok_bind]

theorem located_line {make : Bytes → α} :
    Located buffer (Parser.readLine (fun line => .ok (make line)) bytes) (do
      let (line, position) ← readLine buffer front.length
      .ok (make line, position)) := by
  rcases unbroken_or_line bytes with hu | ⟨line, rest, hl, rfl⟩
  · rw [Parser.readLine_unbroken hu, readLine_unbroken hw hb hu]
    exact .incomplete
  · rw [Parser.readLine_line hl, readLine_line hw hl hb]
    exact .read (behind_ended hb)

theorem located_counted {next : Int64 → Bytes → Reading Value}
    {next' : Int64 → Nat → Guarded (Value × Nat)} (hn : ∀ n, Everywhere buffer (next n) (next' n)) :
    Located buffer (Parser.readCounted next bytes) (do
      let (n, position) ← readLength buffer front.length
      next' n position) := by
  rcases unbroken_or_line bytes with hu | ⟨line, rest, hl, rfl⟩
  · rw [Parser.readCounted_unbroken hu, readLength, readLine_unbroken hw hb hu]
    exact .incomplete
  · rw [Parser.readCounted_line hl, readLength, readLine_line hw hl hb, ok_bind]
    dsimp only [lineInteger]
    rcases readInteger line with fault | n
    · exact .refused
    · exact hn n _ rest (behind_ended hb)

omit hb in
theorem readData_data {data rest : Bytes} {a b : UInt8}
    (hb : buffer = front ++ (data ++ a :: b :: rest)) :
    readData buffer data.length front.length =
      if a = 0x0d ∧ b = 0x0a then .ok (.bulk data, (front ++ (data ++ [a, b])).length)
      else .error (.fault .missingTerminator) := by
  have hmove : moveTo buffer (front ++ (data ++ [a, b])).length = _ :=
    behind_ended hb ▸ moveTo_front _ rest
  have hle := congrArg List.length (behind_ended hb)
  rw [List.length_append, length_ended] at hle
  subst hb
  rw [readData, behindData_data a b hw]
  by_cases he : a = 0x0d ∧ b = 0x0a
  · rw [if_pos he, if_pos he, ok_bind, add_of_lt (by omega), ok_bind, slice_front, ok_bind,
      add_of_lt (by omega), ok_bind, add_of_lt (by omega), ok_bind, ← Nat.add_assoc,
      ← length_ended, hmove, ok_bind]
  · rw [if_neg he, if_neg he, error_bind]

theorem located_bulk (n : Int64) :
    Located buffer (Parser.readBulk n bytes) (readBulk buffer n front.length) := by
  rcases length_cases n with rfl | hn | ⟨k, hk, rfl⟩
  · exact .read hb
  · rw [Parser.readBulk_refused hn, readBulk, if_neg (refused_length hn).1,
      if_pos (refused_length hn).2]
    exact .refused
  · rw [readBulk, if_neg (count_ne_nil hk), if_neg (count_not_neg hk), lengthWord_ofNat hk]
    rcases data_cases k bytes with hs | ⟨data, a, b, rest, rfl, rfl⟩
    · subst hb
      rw [Parser.readBulk_short hk hs, readData, behindData_short hk hs hw]
      exact .incomplete
    · rw [Parser.readBulk_data hk, readData_data hw hb]
      split
      · exact .read (behind_ended hb)
      · exact .refused

end Readers

section Values
variable {buffer : Bytes}

theorem readItems_everywhere {read : Bytes → Reading Value} {read' : Nat → Guarded (Value × Nat)}
    (hr : Everywhere buffer read read') (items : List Value) (n : Nat) :
    Everywhere buffer (Parser.readItems read items n) (readItems read' items n) := by
  induction n generalizing items with
  | zero => exact fun _ _ hb => .read hb
  | succ n ih =>
    intro front bytes hb
    have h := hr front bytes hb
    rw [Parser.readItems, readItems]
    generalize read bytes = reading at h ⊢
    generalize read' front.length = guarded at h ⊢
    cases h with
    | refused => exact .refused
    | incomplete => exact .incomplete
    | read hb => exact ih _ _ _ hb

theorem readArray_everywhere {inside : Nat → Bytes → Reading (List Value)}
    {inside' : Nat → Nat → Guarded (List Value × Nat)}
    (hi : ∀ n, Everywhere buffer (inside n) (inside' n)) (n : Int64) :
    Everywhere buffer (Parser.readArray inside n) (readArray inside' n) := by
  intro front bytes hb
  rcases length_cases n with rfl | hn | ⟨k, hk, rfl⟩
  · exact .read hb
  · rw [Parser.readArray_refused hn, readArray, if_neg (refused_length hn).1,
      if_pos (refused_length hn).2]
    exact .refused
  · rw [readArray, if_neg (count_ne_nil hk), if_neg (count_not_neg hk)]
    by_cases h0 : 0 < k
    · rw [if_neg (mt (count_eq_zero hk).mp (by omega)), lengthWord_ofNat hk,
        Parser.readArray_count hk h0]
      exact (hi k front bytes hb).map Value.array
    · obtain rfl : k = 0 := by omega
      exact .read hb

theorem readValue_content (hw : buffer.length < 2 ^ 62) {front bytes : Bytes} {type : UInt8}
    (hb : buffer = front ++ type :: bytes) (inside : Nat → Nat → Guarded (List Value × Nat)) :
    readValue buffer inside front.length =
      readContent buffer inside type (front ++ [type]).length := by
  have hoctet : octet buffer front.length = .ok type := hb ▸ octet_front front type bytes
  have hmove : moveTo buffer (front ++ [type]).length = _ := behind_type hb ▸ moveTo_front _ bytes
  have hle := congrArg List.length (behind_type hb)
  rw [List.length_append, List.length_append, List.length_singleton] at hle
  rw [readValue, if_neg (by omega), hoctet, ok_bind, add_of_lt (by omega), ok_bind,
    ← List.length_singleton, ← List.length_append, hmove, ok_bind]

theorem readValue_everywhere (hw : buffer.length < 2 ^ 62)
    {inside : Nat → Bytes → Reading (List Value)}
    {inside' : Nat → Nat → Guarded (List Value × Nat)}
    (hi : ∀ n, Everywhere buffer (inside n) (inside' n)) :
    Everywhere buffer (Parser.readValue inside) (readValue buffer inside') := by
  intro front bytes hb
  fun_cases Parser.readValue inside bytes with
  | case1 =>
    rw [readValue, if_pos (by simp [hb])]
    exact .incomplete
  | case2 bytes | case3 bytes =>
    rw [readValue_content hw hb]
    exact located_line hw (behind_type hb)
  | case4 bytes =>
    rw [readValue_content hw hb]
    have hinteger : ∀ n, Everywhere buffer (fun rest => .ok (some (Value.integer n, rest)))
        fun position => .ok (Value.integer n, position) := fun _ _ _ hb => .read hb
    exact located_counted hw (behind_type hb) hinteger
  | case5 bytes =>
    rw [readValue_content hw hb]
    exact located_counted hw (behind_type hb) fun n _ _ hb => located_bulk hw hb n
  | case6 bytes =>
    rw [readValue_content hw hb]
    exact located_counted hw (behind_type hb) (readArray_everywhere hi)
  | case7 type bytes =>
    have hunknown : readContent buffer inside' type (front ++ [type]).length =
        .error (.fault (.unknownType type)) := by
      simp [readContent, *]
    rw [readValue_content hw hb, hunknown]
    exact .refused

/-- Inside `depth` arrays as many more may be opened as are left. -/
theorem readAtDepth_everywhere (hw : buffer.length < 2 ^ 62) {depth levels : Nat}
    (hl : depth + levels = maxDepth) :
    Everywhere buffer (Parser.readWithin levels) (readAtDepth buffer depth) := by
  induction levels generalizing depth with
  | zero =>
    rw [readAtDepth, Parser.readWithin]
    refine readValue_everywhere hw fun n front bytes _ => ?_
    rw [if_pos (by omega)]
    exact .refused
  | succ levels ih =>
    rw [readAtDepth, Parser.readWithin]
    refine readValue_everywhere hw fun n front bytes hb => ?_
    have hdepth : depth + 1 < 2 ^ 64 := by
      have : maxDepth = 64 := rfl
      omega
    rw [if_neg (by omega), add_of_lt hdepth, ok_bind]
    exact readItems_everywhere (ih (by omega)) [] n front bytes hb

end Values

/-- No step of the parser traps on a buffer that a machine can hold, and it answers as the parser on
the octets does. -/
theorem parse_eq_answer {buffer : Bytes} (hw : buffer.length < 2 ^ 62) :
    parse buffer = answer (Parser.parse buffer) := by
  have h := readAtDepth_everywhere hw (Nat.zero_add maxDepth) [] buffer rfl
  rw [List.length_nil] at h
  rw [parse, Parser.parse]
  rcases buffer with _ | ⟨type, bytes⟩
  · rfl
  · rw [if_neg (by simp)]
    generalize Parser.readWithin maxDepth (type :: bytes) = reading at h ⊢
    generalize readAtDepth (type :: bytes) 0 0 = guarded at h ⊢
    cases h with
    | refused => rfl
    | incomplete => rfl
    | @read value front rest hb =>
      have hlength := congrArg List.length hb
      rw [List.length_append] at hlength
      have hn : (type :: bytes).length - rest.length = front.length := by omega
      exact congrArg (fun n => Except.ok (value, n)) hn.symm

end SortedSetClient.Resp.Guarded
