import SortedSetClient.Proofs.Dispatch
import SortedSetClient.Proofs.NumberLengths
import SortedSetClient.Proofs.StreamReading
import SortedSetClient.Proofs.WireRoundTrip

/-! The commands of operations as the server reads them: one array of bulk strings for each, word
for word what was asked, whatever octets the arguments hold. -/
namespace SortedSetClient
open Resp (Value Stream Frame Frames maxDepth)

namespace Operation

/-- The first word of a command. -/
def name : Operation → String
  | add .. => "ZADD"
  | card .. => "ZCARD"
  | countByScore .. => "ZCOUNT"
  | increment .. => "ZINCRBY"
  | combine .intersection .. => "ZINTERSTORE"
  | combine .union .. => "ZUNIONSTORE"
  | countByLex .. => "ZLEXCOUNT"
  | range .ascending .. => "ZRANGE"
  | range .descending .. => "ZREVRANGE"
  | rangeByLex .. => "ZRANGEBYLEX"
  | rangeByScore .ascending .. => "ZRANGEBYSCORE"
  | rangeByScore .descending .. => "ZREVRANGEBYSCORE"
  | rank .ascending .. => "ZRANK"
  | rank .descending .. => "ZREVRANK"
  | remove .. => "ZREM"
  | removeByLex .. => "ZREMRANGEBYLEX"
  | removeByRank .. => "ZREMRANGEBYRANK"
  | removeByScore .. => "ZREMRANGEBYSCORE"
  | scoreOf .. => "ZSCORE"
  | scan .. => "ZSCAN"

/-- The key of the set that an operation is about. -/
def key : Operation → Bytes
  | add key .. | card key | countByScore key .. | increment key .. | combine _ key _
  | countByLex key .. | range _ key .. | rangeByLex key .. | rangeByScore _ key .. | rank _ key _
  | remove key .. | removeByLex key .. | removeByRank key .. | removeByScore key .. | scoreOf key _
  | scan key .. => key

/-- The words that follow the key. Only a listing downwards by score has the upper bound first. -/
def arguments : Operation → List Bytes
  | add _ score member more =>
    score.encode :: member :: (more.map fun (score, member) => [score.encode, member]).flatten
  | countByScore _ min max | removeByScore _ min max | rangeByScore .ascending _ min max _ =>
    [min.encode, max.encode]
  | rangeByScore .descending _ min max _ => [max.encode, min.encode]
  | countByLex _ min max | rangeByLex _ min max .. | removeByLex _ min max =>
    [min.encodeMin, max.encodeMax]
  | range _ _ start stop _ | removeByRank _ start stop =>
    [Decimal.ofInt64 start, Decimal.ofInt64 stop]
  | increment _ amount member => [amount.encode, member]
  | rank _ _ member | scoreOf _ member => [member]
  | remove _ member more => member :: more
  | scan _ cursor .. => [Decimal.ofUInt64 cursor]
  | card _ | combine .. => []

/-- Whether the scores are asked for beside the members. -/
def asksScores : Operation → Bool
  | range _ _ _ _ withScores => withScores
  | rangeByScore _ _ _ _ options => options.withScores
  | _ => false

/-- Which members a scan gives, and about how many at a time. -/
def choice : Operation → Option Bytes × Option Int64
  | scan _ _ pattern count => (pattern, count)
  | _ => (none, none)

/-- The words at the end of a command, each behind its keyword and only where it is asked for. -/
def modifiers (operation : Operation) : List Bytes :=
  (if operation.asksScores then [Utf8.encode "WITHSCORES"] else []) ++
  (match operation.limit with
    | (some offset, some count) =>
      [Utf8.encode "LIMIT", Decimal.ofInt64 offset, Decimal.ofInt64 count]
    | _ => []) ++
  (match operation.choice.1 with
    | some pattern => [Utf8.encode "MATCH", pattern]
    | none => []) ++
  (match operation.choice.2 with
    | some count => [Utf8.encode "COUNT", Decimal.ofInt64 count]
    | none => [])

/-- What is sent for an operation, word by word. -/
def words (operation : Operation) : List Bytes :=
  Utf8.encode operation.name :: operation.key :: operation.arguments ++ operation.modifiers

/-- The octets that an operation is given: its key, members, a pattern, and the ends of a
lexicographical range behind their marks. -/
def texts : Operation → List Bytes
  | add key _ member more => key :: member :: more.map (·.2)
  | increment key _ member | rank _ key member | scoreOf key member => [key, member]
  | countByLex key min max | rangeByLex key min max .. | removeByLex key min max =>
    [key, min.marked, max.marked]
  | remove key member more => key :: member :: more
  | scan key _ pattern _ => key :: pattern.toList
  | operation => [operation.key]

/-- The octets can be in memory: no text takes `2 ^ 63` of them, and no list has `2 ^ 60` texts. -/
structure Fits (operation : Operation) : Prop where
  text : ∀ text ∈ operation.texts, text.length < 2 ^ 63
  list : operation.texts.length < 2 ^ 60

instance (operation : Operation) : Decidable operation.Fits :=
  decidable_of_iff
    ((∀ text ∈ operation.texts, text.length < 2 ^ 63) ∧ operation.texts.length < 2 ^ 60)
    ⟨fun h => ⟨h.1, h.2⟩, fun h => ⟨h.text, h.list⟩⟩

section Words
variable {operation : Operation}

private theorem modifiers_eq (operation : Operation) :
    operation.modifiers =
      Command.flag "WITHSCORES" operation.asksScores ++
        limitArgs operation.limit.1 operation.limit.2 ++
        Command.option "MATCH" operation.choice.1 ++
        Command.option "COUNT" (operation.choice.2.map Decimal.ofInt64) := by
  unfold modifiers
  rcases operation.limit with ⟨_ | offset, _ | count⟩ <;>
    rcases operation.choice with ⟨_ | pattern, _ | number⟩ <;> rfl

/-- The command of an operation that is sent has exactly these words. -/
theorem tokens_toCommand (h : operation.check = .ok ()) :
    operation.toCommand.tokens = operation.words := by
  unfold words
  rw [modifiers_eq]
  cases operation with
  | combine how destination keys => cases how <;> cases h
  | range direction key start stop withScores =>
    cases direction <;> cases withScores <;> rfl
  | rangeByScore direction key min max options =>
    cases direction <;> simp [toCommand, Command.tokens, Command.option, name, Operation.key,
      arguments, asksScores, limit, choice, directed, boundArgs]
  | rank direction key member => cases direction <;> rfl
  | add key score member more =>
    rw [arguments, ← List.flatMap_def]
    exact (List.append_nil _).symm
  | remove key member more => exact (List.append_nil _).symm
  | rangeByLex key min max offset count =>
    simp [toCommand, Command.tokens, Command.flag, Command.option, name, Operation.key, arguments,
      asksScores, limit, choice]
  | _ => rfl

theorem key_mem_texts (operation : Operation) : operation.key ∈ operation.texts := by
  cases operation <;> simp [key, texts]

private theorem length_name_le (operation : Operation) :
    (Utf8.encode operation.name).length ≤ 20 := by
  fun_cases name operation <;> decide

private theorem lexEnd_cases (bound : LexBound) {sign : Bytes} (h : sign.length ≤ 4001) :
    (if bound.value = sign then bound.value else bound.marked) = bound.marked ∨
      (if bound.value = sign then bound.value else bound.marked).length ≤ 4001 := by
  split
  · next he => exact .inr (he ▸ h)
  · exact .inl rfl

private theorem length_ofInt64_le (n : Int64) : (Decimal.ofInt64 n).length ≤ 4001 :=
  Nat.le_trans (Decimal.length_ofInt64_le n) (by decide)

private theorem mem_arguments {word : Bytes} (h : word ∈ operation.arguments) :
    word ∈ operation.texts ∨ word.length ≤ 4001 := by
  have huint (n : UInt64) : (Decimal.ofUInt64 n).length ≤ 4001 :=
    Nat.le_trans (Decimal.length_ofUInt64_le n) (by decide)
  have hscore (score : Score) : score.encode.length ≤ 4001 :=
    Nat.le_succ_of_le score.length_encode_le
  have hlex {key : Bytes} {min max : LexBound} (h : word ∈ [min.encodeMin, max.encodeMax]) :
      word ∈ [key, min.marked, max.marked] ∨ word.length ≤ 4001 := by
    rcases List.mem_pair.mp h with rfl | rfl
    · have hmin : min.encodeMin = min.marked ∨ min.encodeMin.length ≤ 4001 :=
        lexEnd_cases min (by decide)
      exact hmin.imp_left fun he => by simp [he]
    · have hmax : max.encodeMax = max.marked ∨ max.encodeMax.length ≤ 4001 :=
        lexEnd_cases max (by decide)
      exact hmax.imp_left fun he => by simp [he]
  cases operation with
  | add key score member more =>
    simp only [arguments, texts, List.mem_cons, List.mem_flatten, List.mem_map] at h ⊢
    rcases h with rfl | rfl | ⟨_, ⟨pair, hpair, rfl⟩, h⟩
    · exact .inr (hscore _)
    · simp
    · rcases List.mem_pair.mp h with rfl | rfl
      · exact .inr (hscore _)
      · exact .inl (.inr (.inr ⟨pair, hpair, rfl⟩))
  | countByLex key min max => exact hlex h
  | rangeByLex key min max offset count => exact hlex h
  | removeByLex key min max => exact hlex h
  | countByScore key min max | removeByScore key min max =>
    rcases List.mem_pair.mp h with rfl | rfl <;> exact .inr (ScoreBound.length_encode_le _)
  | rangeByScore direction key min max options =>
    cases direction <;> rcases List.mem_pair.mp h with rfl | rfl <;>
      exact .inr (ScoreBound.length_encode_le _)
  | range direction key start stop withScores =>
    rcases List.mem_pair.mp h with rfl | rfl <;> exact .inr (length_ofInt64_le _)
  | removeByRank key start stop =>
    rcases List.mem_pair.mp h with rfl | rfl <;> exact .inr (length_ofInt64_le _)
  | increment key amount member =>
    rcases List.mem_pair.mp h with rfl | rfl
    · exact .inr (hscore _)
    · simp [texts]
  | rank direction key member | scoreOf key member =>
    rw [List.mem_singleton.mp h]
    simp [texts]
  | remove key member more => exact .inl (List.mem_cons_of_mem _ h)
  | scan key cursor pattern count =>
    rw [List.mem_singleton.mp h]
    exact .inr (huint _)
  | card key | combine how destination keys => cases h

private theorem mem_limitArgs {word : Bytes} {offset count : Option Int64}
    (h : word ∈ limitArgs offset count) : word.length ≤ 4001 := by
  cases offset with
  | none => cases h
  | some offset =>
    cases count with
    | none => cases h
    | some count =>
      rcases List.mem_cons.mp h with rfl | h
      · decide
      · rcases List.mem_pair.mp h with rfl | rfl <;> exact length_ofInt64_le _

private theorem mem_option {word : Bytes} {keyword : String} {value : Option Bytes}
    (hk : (Utf8.encode keyword).length ≤ 4001) (h : word ∈ Command.option keyword value) :
    value = some word ∨ word.length ≤ 4001 := by
  cases value with
  | none => cases h
  | some value =>
    rcases List.mem_pair.mp h with rfl | rfl
    · exact .inr hk
    · exact .inl rfl

private theorem mem_modifiers {word : Bytes} (h : word ∈ operation.modifiers) :
    word ∈ operation.texts ∨ word.length ≤ 4001 := by
  rw [modifiers_eq, List.mem_append, List.mem_append, List.mem_append] at h
  rcases h with ((h | h) | h) | h
  · rw [Command.flag, List.mem_ite_nil_right, List.mem_singleton] at h
    rw [h.2]
    exact .inr (by decide)
  · exact .inr (mem_limitArgs h)
  · refine (mem_option (by decide) h).imp_left fun hp => ?_
    cases operation with
    | scan key cursor pattern count =>
      have hp : pattern = some word := hp
      simp [texts, hp]
    | _ => cases hp
  · rcases mem_option (by decide) h with hc | hl
    · obtain ⟨count, -, rfl⟩ := Option.map_eq_some_iff.mp hc
      exact .inr (length_ofInt64_le _)
    · exact .inr hl

/-- Every word is a text that was given, or it is short. -/
theorem mem_words {word : Bytes} (h : word ∈ operation.words) :
    word ∈ operation.texts ∨ word.length ≤ 4001 := by
  rw [words, List.cons_append, List.cons_append, List.mem_cons, List.mem_cons,
    List.mem_append] at h
  rcases h with rfl | rfl | h | h
  · exact .inr (Nat.le_trans operation.length_name_le (by decide))
  · exact .inl operation.key_mem_texts
  · exact mem_arguments h
  · exact mem_modifiers h

private theorem length_modifiers_le (operation : Operation) : operation.modifiers.length ≤ 8 := by
  unfold modifiers
  rcases operation.limit with ⟨_ | offset, _ | count⟩ <;>
    rcases operation.choice with ⟨_ | pattern, _ | number⟩ <;>
      split <;> simp

/-- There are not many more words than twice the texts that were given. -/
theorem length_words_le (operation : Operation) :
    operation.words.length ≤ 2 * operation.texts.length + 10 := by
  have harguments : operation.arguments.length ≤ 2 * operation.texts.length := by
    cases operation with
    | add key score member more =>
      simp [arguments, texts, List.length_flatten, Function.comp_def]
      omega
    | rangeByScore direction => cases direction <;> simp [arguments, texts]
    | _ => simp [arguments, texts] <;> omega
  have hmodifiers := operation.length_modifiers_le
  simp only [words, List.length_append, List.length_cons]
  omega

/-- What an operation that fits asks can be counted in a header. -/
theorem Fits.words (h : operation.Fits) :
    (∀ word ∈ operation.words, word.length < 2 ^ 63) ∧ operation.words.length < 2 ^ 63 := by
  constructor
  · intro word hword
    rcases mem_words hword with hw | hw
    · exact h.text word hw
    · omega
  · have := operation.length_words_le
    have := h.list
    omega

end Words

/-- The array that a command is: its words in bulk strings. -/
def request (operation : Operation) : Value := .array (operation.words.map .bulk)

private theorem everywhereAll_bulk {p : Value → Prop} {words : List Bytes}
    (h : ∀ word ∈ words, p (.bulk word)) : Value.EverywhereAll p (words.map .bulk) := by
  induction words with
  | nil => trivial
  | cons word words ih =>
    exact ⟨h word List.mem_cons_self, ih fun other hm => h other (List.mem_cons_of_mem _ hm)⟩

private theorem depthAll_bulk (words : List Bytes) : Value.depthAll (words.map .bulk) = 0 := by
  induction words with
  | nil => rfl
  | cons word words ih =>
    rw [List.map_cons, Value.depthAll, ih]
    rfl

theorem depth_request_le (operation : Operation) : operation.request.depth ≤ 1 := by
  have h := depthAll_bulk operation.words
  rw [words, List.cons_append, List.map_cons, Value.depthAll] at h
  rw [request, words, List.cons_append, List.map_cons, Value.depth]
  omega

/-- The octets of a command are one frame, that of its words. -/
theorem frame_toCommand {operation : Operation} (h : operation.check = .ok ())
    (hf : operation.Fits) : Frame 0 operation.request operation.toCommand.encode := by
  obtain ⟨hword, hlist⟩ := hf.words
  have hdepth : 0 + operation.request.depth ≤ maxDepth := by
    have := operation.depth_request_le
    rw [maxDepth]
    omega
  rw [Command.encode, Command.toValue, tokens_toCommand h, ← request]
  refine Resp.frame_encode _ ⟨trivial, everywhereAll_bulk fun _ _ => trivial⟩ ?_ hdepth
  exact ⟨by rwa [Value.Counted, List.length_map], everywhereAll_bulk hword⟩

theorem frames_toCommand {operations : List Operation}
    (h : ∀ operation ∈ operations, operation.check = .ok () ∧ operation.Fits) :
    Frames 0 (operations.map request)
      ((operations.map toCommand).flatMap Command.encode) := by
  induction operations with
  | nil => exact .nil
  | cons operation operations ih =>
    obtain ⟨hc, hf⟩ := h operation List.mem_cons_self
    exact .cons (frame_toCommand hc hf) (ih fun other hm => h other (List.mem_cons_of_mem _ hm))

section Runs
variable {m : Type → Type} [Monad m]

/-- Carry out operations one after another. -/
def runAll (execute : Command → m (Except Error Value)) (operations : List Operation) :
    m (List (Except Error Answer)) :=
  operations.mapM fun operation => operation.run execute

/-- Operations carried out one after another give the carrier their commands in turn. -/
theorem runAll_recording [LawfulMonad m] {operations : List Operation}
    (h : ∀ operation ∈ operations, operation.check = .ok ())
    (execute : Command → m (Except Error Value)) (sent : List Command) :
    (runAll (recording execute) operations).run sent =
      (·, sent ++ operations.map toCommand) <$> runAll execute operations := by
  unfold runAll
  induction operations generalizing sent with
  | nil => simp
  | cons operation operations ih =>
    have hc := h operation List.mem_cons_self
    have hs := ih fun other hm => h other (List.mem_cons_of_mem _ hm)
    rw [List.mapM_cons, List.mapM_cons, run_checked _ hc, run_checked _ hc]
    simp only [StateT.run_bind, run_recording, hs, bind_map_left, map_bind]
    refine bind_congr fun reply => ?_
    simp

end Runs
end Operation

/-- Whatever the arguments hold, the octets of all commands that operations have sent are read back
to the last octet, as one array of bulk strings for each operation in turn. Its words are those that
were asked: name, key, arguments, and the modifiers that were asked for. -/
theorem commands_read_back (operations : List Operation)
    (h : ∀ operation ∈ operations, operation.check = .ok () ∧ operation.Fits) :
    ∃ commands : List Command,
      (∀ {m : Type → Type} [Monad m] [LawfulMonad m] (execute : Command → m (Except Error Value))
        (sent : List Command),
        (Operation.runAll (recording execute) operations).run sent =
          (·, sent ++ commands) <$> Operation.runAll execute operations) ∧
      Stream.ofBuffer (commands.flatMap Command.encode) =
        { values := operations.map fun operation => .array (operation.words.map .bulk)
          fault := none, left := [] } := by
  refine ⟨operations.map Operation.toCommand, fun execute sent => ?_, ?_⟩
  · exact Operation.runAll_recording (fun operation hm => (h operation hm).1) execute sent
  · have hframes := Stream.ofBuffer_frames (Operation.frames_toCommand h) []
    rw [List.append_nil, Stream.ofBuffer_nil, List.append_nil] at hframes
    exact hframes

/-- A key that looks like a command of its own, members with line ends, a range listed downwards and
a scan with both of its keywords are read back as they were asked. -/
theorem commands_read_back_hostile :
    let keyText := Utf8.encode "*1\r\n$5\r\nZCARD\r\n"
    let lineEnds := Utf8.encode "\r\n\r\n"
    let added : Operation :=
      .add keyText (.integer (-2)) lineEnds
        [(.float (.number false 0), []), (.integer 7, Utf8.encode "$-1")]
    let listed : Operation :=
      .rangeByScore .descending keyText ⟨.integer 1, false⟩ .posInf
        { withScores := true, offset := some 0, count := some (-1) }
    let scanned : Operation := .scan lineEnds 17 (some (Utf8.encode "COUNT")) (some 5)
    let operations := [added, listed, scanned]
    (∀ operation ∈ operations, operation.check = .ok () ∧ operation.Fits) ∧
    ∃ commands : List Command,
      (∀ sent : List Command,
        (Operation.runAll (recording Recorder.execute) operations).run sent =
          (·, sent ++ commands) <$> Operation.runAll Recorder.execute operations) ∧
      Stream.ofBuffer (commands.flatMap Command.encode) =
        { values := operations.map fun operation => .array (operation.words.map .bulk)
          fault := none, left := [] } := by
  intro keyText lineEnds added listed scanned operations
  have hfits : ∀ operation ∈ operations, operation.check = .ok () ∧ operation.Fits := by
    intro operation hm
    have hchecked : operation.check = .ok () := by
      rcases List.mem_cons.mp hm with rfl | hm
      · rfl
      · rcases List.mem_pair.mp hm with rfl | rfl <;> rfl
    have hfitting : ∀ operation ∈ operations, operation.Fits := by decide +zetaReduce
    exact ⟨hchecked, hfitting operation hm⟩
  obtain ⟨commands, hrun, hread⟩ := commands_read_back operations hfits
  exact ⟨hfits, commands, fun sent => hrun Recorder.execute sent, hread⟩

end SortedSetClient
