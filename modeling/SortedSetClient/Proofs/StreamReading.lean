import SortedSetClient.Proofs.SettledReading
import SortedSetClient.Resp.Stream

/-! The verdict of the parser on a buffer is final. So a stream that is read as it arrives gives the
same values as all of it at once, leaves the same octets and stops at the same fault. -/
namespace SortedSetClient.Resp
open Resp.Parser

/-- A buffer is taken apart value by value, down to one that begins with none. -/
@[elab_as_elim]
theorem parse_induction {motive : Bytes → Prop}
    (value : ∀ buffer value n, parse buffer = .ok (some (value, n)) → motive (buffer.drop n) →
      motive buffer)
    (pending : ∀ buffer, parse buffer = .ok none → motive buffer)
    (fault : ∀ buffer fault, parse buffer = .error fault → motive buffer) (buffer : Bytes) :
    motive buffer := by
  induction hl : buffer.length using Nat.strongRecOn generalizing buffer with
  | _ length ih =>
    match hp : parse buffer with
    | .error _ => exact fault buffer _ hp
    | .ok none => exact pending buffer hp
    | .ok (some (found, n)) =>
      have hb := parse_bounds hp
      refine value buffer found n hp (ih _ ?_ _ rfl)
      rw [List.length_drop]
      omega

theorem Frames.concat {depth : Nat} {values : List Value} {value : Value} {octets others : Bytes}
    (h : Frames depth values octets) (hf : Frame depth value others) :
    Frames depth (values ++ [value]) (octets ++ others) := by
  induction values generalizing octets with
  | nil =>
    cases h
    simpa using Frames.cons hf .nil
  | cons first values ih =>
    cases h with
    | cons h hs =>
      rw [List.append_assoc]
      exact .cons h (ih hs)

namespace Stream
variable {buffer rest : Bytes} {value : Value} {values : List Value} {n : Nat} {fault : Fault}

private theorem readOnto_value (h : readWithin maxDepth buffer = .ok (some (value, rest))) :
    readOnto values buffer = readOnto (value :: values) rest := by
  rw [readOnto]
  split <;> simp_all

private theorem readOnto_open (h : parse buffer = .ok none) :
    readOnto values buffer = { values := values.reverse, left := buffer } := by
  have hr := parse_eq_none_iff.mp h
  rw [readOnto]
  split <;> simp_all

private theorem readOnto_fault (h : parse buffer = .error fault) :
    readOnto values buffer = { values := values.reverse, fault, left := buffer } := by
  have hr := parse_eq_error_iff.mp h
  rw [readOnto]
  split <;> simp_all

private theorem readOnto_parse (h : parse buffer = .ok (some (value, n))) :
    readOnto values buffer = readOnto (value :: values) (buffer.drop n) := by
  obtain ⟨octets, rest, rfl, rfl, hf⟩ := parse_eq_some_iff.mp h
  rw [readOnto_value (hf.read (Nat.zero_add _) rest), List.drop_left]

private theorem readOnto_eq (values : List Value) (buffer : Bytes) :
    readOnto values buffer =
      { ofBuffer buffer with values := values.reverse ++ (ofBuffer buffer).values } := by
  induction buffer using parse_induction generalizing values with
  | value buffer value n h ih =>
    rw [ofBuffer, readOnto_parse h, readOnto_parse h, ih (value :: values), ih [value]]
    simp
  | pending buffer h =>
    rw [ofBuffer, readOnto_open h, readOnto_open h]
    simp
  | fault buffer fault h =>
    rw [ofBuffer, readOnto_fault h, readOnto_fault h]
    simp

theorem ofBuffer_value (h : parse buffer = .ok (some (value, n))) :
    ofBuffer buffer =
      { ofBuffer (buffer.drop n) with values := value :: (ofBuffer (buffer.drop n)).values } := by
  rw [ofBuffer, readOnto_parse h, readOnto_eq]
  rfl

theorem ofBuffer_open (h : parse buffer = .ok none) : ofBuffer buffer = { left := buffer } :=
  readOnto_open h

theorem ofBuffer_fault (h : parse buffer = .error fault) :
    ofBuffer buffer = { fault, left := buffer } :=
  readOnto_fault h

/-- There are no values where the first is missing. -/
theorem values_ofBuffer_eq_nil (h : ∀ value n, parse buffer ≠ .ok (some (value, n))) :
    (ofBuffer buffer).values = [] := by
  match hp : parse buffer with
  | .error fault => rw [ofBuffer_fault hp]
  | .ok none => rw [ofBuffer_open hp]
  | .ok (some (value, n)) => exact absurd hp (h value n)

theorem ofBuffer_nil : ofBuffer [] = {} := ofBuffer_open rfl

/-- Frames at the front of a buffer are read as their values, and the rest as if it were alone. -/
theorem ofBuffer_frames {octets : Bytes} (h : Frames 0 values octets) (rest : Bytes) :
    ofBuffer (octets ++ rest) =
      { ofBuffer rest with values := values ++ (ofBuffer rest).values } := by
  induction values generalizing octets with
  | nil =>
    cases h
    rfl
  | cons value values ih =>
    cases h with
    | @cons _ _ _ octets others hf hs =>
      have hp : parse (octets ++ (others ++ rest)) = .ok (some (value, octets.length)) :=
        parse_eq_some_iff.mpr ⟨octets, others ++ rest, rfl, rfl, hf⟩
      rw [List.append_assoc, ofBuffer_value hp, List.drop_left, ih hs]
      rfl

/-- The values of a stream are those of the frames in front of what is left, and what is left has
no value in front: it is still open, or it is the fault. -/
structure Reads (stream : Stream) (octets : Bytes) : Prop where
  whole : ∃ taken, Frames 0 stream.values taken ∧ taken ++ stream.left = octets
  rest : parse stream.left = stream.fault.elim (.ok none) .error

theorem reads_ofBuffer (buffer : Bytes) : (ofBuffer buffer).Reads buffer := by
  induction buffer using parse_induction with
  | value buffer value n h ih =>
    obtain ⟨octets, rest, rfl, rfl, hf⟩ := parse_eq_some_iff.mp h
    rw [ofBuffer_value h]
    rw [List.drop_left] at ih ⊢
    obtain ⟨⟨taken, hs, hw⟩, hr⟩ := ih
    exact ⟨⟨octets ++ taken, .cons hf hs, by rw [List.append_assoc, hw]⟩, hr⟩
  | pending buffer h =>
    rw [ofBuffer_open h]
    exact ⟨⟨[], .nil, rfl⟩, h⟩
  | fault buffer fault h =>
    rw [ofBuffer_fault h]
    exact ⟨⟨[], .nil, rfl⟩, h⟩

/-- Go on with a chunk, behind the values already read. -/
def extend (stream : Stream) (chunk : Bytes) : Stream :=
  { stream.append chunk with values := stream.values ++ (stream.append chunk).values }

/-- What has been read of a buffer stands when the buffer goes on. -/
theorem extend_ofBuffer (buffer chunk : Bytes) :
    (ofBuffer buffer).extend chunk = ofBuffer (buffer ++ chunk) := by
  induction buffer using parse_induction with
  | value buffer value n h ih =>
    have hdrop : (buffer ++ chunk).drop n = buffer.drop n ++ chunk :=
      List.drop_append_of_le_length (parse_bounds h).2
    rw [ofBuffer_value (parse_append_value h chunk), hdrop, ← ih, ofBuffer_value h]
    rfl
  | pending buffer h =>
    rw [ofBuffer_open h]
    rfl
  | fault buffer fault h =>
    rw [ofBuffer_fault h]
    rfl

theorem foldl_extend (chunks : List Bytes) (buffer : Bytes) :
    chunks.foldl extend (ofBuffer buffer) = ofBuffer (buffer ++ chunks.flatten) := by
  induction chunks generalizing buffer with
  | nil => simp
  | cons chunk chunks ih =>
    rw [List.foldl_cons, extend_ofBuffer, ih, List.flatten_cons, List.append_assoc]

end Stream

/-- A value found at the front of a buffer is found there whatever comes after it, and not before
all of it has arrived; a fault stays the same fault. So a stream gives the same values, leaves the
same octets and stops at the same fault in whatever chunks it comes. -/
theorem parse_verdict_final :
    (∀ buffer more : Bytes,
      (∀ value n, parse buffer = .ok (some (value, n)) →
        0 < n ∧ n ≤ buffer.length ∧ parse (buffer ++ more) = .ok (some (value, n)) ∧
        ∀ front, front <+: buffer → front.length < n → parse front = .ok none) ∧
      ∀ fault, parse buffer = .error fault → parse (buffer ++ more) = .error fault) ∧
    ∀ chunks : List Bytes,
      chunks.foldl Stream.extend {} = Stream.extend {} chunks.flatten ∧
      (chunks.foldl Stream.extend {}).Reads chunks.flatten := by
  refine ⟨fun buffer more => ⟨fun value n h => ?_, fun fault h => parse_append_error h more⟩,
    fun chunks => ?_⟩
  · obtain ⟨hpos, hle⟩ := parse_bounds h
    exact ⟨hpos, hle, parse_append_value h more, fun front => parse_front h⟩
  · have hfold : chunks.foldl Stream.extend {} = Stream.ofBuffer chunks.flatten := by
      rw [← Stream.ofBuffer_nil, Stream.foldl_extend, List.nil_append]
    have honce : Stream.extend {} chunks.flatten = Stream.ofBuffer chunks.flatten := by
      rw [← Stream.ofBuffer_nil, Stream.extend_ofBuffer, List.nil_append]
    exact ⟨by rw [hfold, honce], hfold ▸ Stream.reads_ofBuffer chunks.flatten⟩

/-- Two values and a fault, in chunks cut inside a line end, inside data and inside a length. -/
theorem parse_verdict_final_behind_values :
    let reply : Bytes := [0x24, 0x31, 0x0d, 0x0a, 0x61, 0x0d, 0x0a]
    let bogus : Bytes := [0x2a, 0x2d, 0x32, 0x0d, 0x0a]
    let chunks : List Bytes :=
      [[0x3a, 0x37, 0x0d], 0x0a :: reply.take 4, reply.drop 4 ++ bogus.take 2, [], bogus.drop 2]
    parse reply = .ok (some (.bulk [0x61], 7)) ∧
    parse (reply ++ bogus) = .ok (some (.bulk [0x61], 7)) ∧
    parse (reply.take 6) = .ok none ∧
    parse bogus = .error (.invalidArrayLength (-2)) ∧
    parse (bogus ++ reply) = .error (.invalidArrayLength (-2)) ∧
    chunks.foldl Stream.extend {} =
      ⟨[.integer 7, .bulk [0x61]], some (.invalidArrayLength (-2)), bogus⟩ := by
  intro reply bogus chunks
  have hr : parse reply = .ok (some (.bulk [0x61], 7)) := rfl
  have hb : parse bogus = .error (.invalidArrayLength (-2)) := rfl
  obtain ⟨-, -, hmore, hfront⟩ := (parse_verdict_final.1 reply bogus).1 _ _ hr
  have honce : Stream.extend {} chunks.flatten =
      ⟨[.integer 7, .bulk [0x61]], some (.invalidArrayLength (-2)), bogus⟩ := by cbv
  exact ⟨hr, hmore, hfront _ (List.take_prefix _ _) (by decide), hb,
    (parse_verdict_final.1 bogus reply).2 _ hb, (parse_verdict_final.2 chunks).1.trans honce⟩

end SortedSetClient.Resp
