import SortedSetClient.Resp.Parser

/-! Reading values from a stream that arrives in chunks. Every value takes at least one octet, so
the values at the front of a buffer come to an end. -/
namespace SortedSetClient.Resp

namespace Parser

theorem length_lt_of_splitLineOnto {passed bytes text rest : Bytes}
    (h : splitLineOnto passed bytes = some (text, rest)) : rest.length < bytes.length := by
  fun_induction splitLineOnto passed bytes with
  | case1 passed tail =>
    obtain ⟨_, rfl⟩ : passed.reverse = text ∧ tail = rest := by simpa using h
    simp only [List.length_cons]
    omega
  | case2 _ _ _ _ ih => exact Nat.lt_succ_of_lt (ih h)
  | case3 => simp at h

theorem length_lt_of_readLine {α : Type} {make : Bytes → Except Fault α} {bytes rest : Bytes}
    {a : α}
    (h : readLine make bytes = .ok (some (a, rest))) : rest.length < bytes.length := by
  unfold readLine at h
  split at h
  · simp at h
  · next text rest' hs =>
    cases hm : make text <;> simp [hm, Except.map] at h
    exact h.2 ▸ length_lt_of_splitLineOnto hs

theorem length_lt_of_readCounted {next : Int64 → Bytes → Reading Value} {bytes rest : Bytes}
    {value : Value} (hn : ∀ n b r v, next n b = .ok (some (v, r)) → r.length ≤ b.length)
    (h : readCounted next bytes = .ok (some (value, rest))) : rest.length < bytes.length := by
  unfold readCounted at h
  split at h
  · simp at h
  · simp at h
  · next n rest' hl =>
    exact Nat.lt_of_le_of_lt (hn _ _ _ _ h) (length_lt_of_readLine hl)

theorem length_le_of_readBulk {length : Int64} {bytes rest : Bytes} {value : Value}
    (h : readBulk length bytes = .ok (some (value, rest))) : rest.length ≤ bytes.length := by
  unfold readBulk at h
  split at h
  · simp_all
  · split at h
    · simp at h
    · split at h
      · next rest' hd =>
        simp only [Except.ok.injEq, Option.some.injEq, Prod.mk.injEq] at h
        have := congrArg List.length hd
        simp only [List.length_drop, List.length_cons] at this
        rw [← h.2]; omega
      · simp at h
      · simp at h

theorem length_le_of_readItems {read : Bytes → Reading Value}
    (hr : ∀ b r v, read b = .ok (some (v, r)) → r.length < b.length)
    {items list : List Value} {n : Nat} {bytes rest : Bytes}
    (h : readItems read items n bytes = .ok (some (list, rest))) : rest.length ≤ bytes.length := by
  fun_induction readItems read items n bytes with
  | case1 => simp_all
  | case2 => simp at h
  | case3 => simp at h
  | case4 _ _ _ _ _ hread ih =>
    exact Nat.le_of_lt (Nat.lt_of_le_of_lt (ih h) (hr _ _ _ hread))

theorem length_le_of_readArray {inside : Nat → Bytes → Reading (List Value)}
    (hi : ∀ n b r l, inside n b = .ok (some (l, r)) → r.length ≤ b.length)
    {length : Int64} {bytes rest : Bytes} {value : Value}
    (h : readArray inside length bytes = .ok (some (value, rest))) :
    rest.length ≤ bytes.length := by
  unfold readArray at h
  split at h
  · simp_all
  · split at h
    · simp at h
    · split at h
      · simp_all
      · cases hr : inside length.toNatClampNeg bytes with
        | error => simp [hr, Except.map] at h
        | ok read =>
          cases read with
          | none => simp [hr, Except.map] at h
          | some p =>
            simp only [hr, Except.map, Option.map_some, Except.ok.injEq, Option.some.injEq,
              Prod.mk.injEq] at h
            exact h.2 ▸ hi _ _ _ _ hr

theorem length_lt_of_readValue {inside : Nat → Bytes → Reading (List Value)}
    (hi : ∀ n b r l, inside n b = .ok (some (l, r)) → r.length ≤ b.length)
    {bytes rest : Bytes} {value : Value}
    (h : readValue inside bytes = .ok (some (value, rest))) : rest.length < bytes.length := by
  unfold readValue at h
  split at h
  · simp at h
  · exact Nat.lt_succ_of_lt (length_lt_of_readLine h)
  · exact Nat.lt_succ_of_lt (length_lt_of_readLine h)
  · exact Nat.lt_succ_of_lt (length_lt_of_readCounted (by simp) h)
  · exact Nat.lt_succ_of_lt (length_lt_of_readCounted (fun _ _ _ _ => length_le_of_readBulk) h)
  · exact Nat.lt_succ_of_lt
      (length_lt_of_readCounted (fun _ _ _ _ => length_le_of_readArray hi) h)
  · simp at h

theorem length_lt_of_readWithin {levels : Nat} {bytes rest : Bytes} {value : Value}
    (h : readWithin levels bytes = .ok (some (value, rest))) : rest.length < bytes.length := by
  induction levels generalizing bytes rest value with
  | zero => exact length_lt_of_readValue (by simp) h
  | succ levels ih =>
    exact length_lt_of_readValue (fun _ _ _ _ => length_le_of_readItems fun _ _ _ => ih) h

end Parser

/-- A stream as far as it has been read. -/
structure Stream where
  /-- The values read, in order. -/
  values : List Value := []
  /-- Why reading stopped, unless for want of octets. -/
  fault : Option Fault := none
  /-- The octets not yet read. -/
  left : Bytes := []

namespace Stream

/-- Read values from the front of a buffer, behind those already read, as long as there are any. -/
def readOnto (values : List Value) (buffer : Bytes) : Stream :=
  match _ : Parser.readWithin maxDepth buffer with
  | .error fault => { values := values.reverse, fault, left := buffer }
  | .ok none => { values := values.reverse, left := buffer }
  | .ok (some (value, rest)) => readOnto (value :: values) rest
termination_by buffer.length
decreasing_by exact Parser.length_lt_of_readWithin ‹_›

/-- What a buffer holds. -/
def ofBuffer (buffer : Bytes) : Stream := readOnto [] buffer

/-- Go on with a chunk. What is left is read again together with it, after a fault too. -/
def append (stream : Stream) (chunk : Bytes) : Stream :=
  ofBuffer (stream.left ++ chunk)

end Stream
end SortedSetClient.Resp
