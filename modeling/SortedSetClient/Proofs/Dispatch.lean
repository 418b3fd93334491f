import SortedSetClient.Proofs.ErrorKinds
import SortedSetClient.Recorder

/-! What an operation hands to whatever carries commands: one command, whose reply is decoded, or
nothing where its arguments are refused. They are refused for a score that is no number, for half a
limit and for a range that is upside down; and two operations are not provided. -/
namespace SortedSetClient
open Resp (Value)

namespace Score

theorem isNaN_iff {score : Score} : score.isNaN = true ↔ score = .float .nan := by
  cases score with
  | integer n => simp [isNaN, toBinary64, Binary64.ofInt, Binary64.isNaN]
  | float x => cases x <;> simp [isNaN, toBinary64, Binary64.isNaN]

theorem check_eq (role : ScoreRole) (score : Score) :
    score.check role =
      if score = .float .nan then .error (.invalidArgument (.notANumber role)) else .ok () := by
  simp only [check, isNaN_iff]

/-- Scores are judged in turn, up to the first that is no number. -/
theorem forM_check_eq (scores : List (ScoreRole × Score)) :
    (scores.forM fun score => score.2.check score.1) =
      match scores.find? fun score => score.2 = .float .nan with
      | some (role, _) => .error (.invalidArgument (.notANumber role))
      | none => .ok () := by
  induction scores with
  | nil => rfl
  | cons score scores ih =>
    rw [List.forM, check_eq]
    split
    · next h =>
      rw [List.find?_cons_of_pos (by simpa using h)]
      rfl
    · next h =>
      rw [List.find?_cons_of_neg (by simpa using h), ← ih]
      rfl

end Score

namespace Operation

/-- The scores among the arguments, each with its role, in the order in which they are judged. -/
def scores : Operation → List (ScoreRole × Score)
  | add _ score _ more => (.score, score) :: more.map fun pair => (.allScores, pair.1)
  | increment _ amount _ => [(.increment, amount)]
  | countByScore _ min max | rangeByScore _ _ min max _ | removeByScore _ min max =>
    [(.min, min.score), (.max, max.score)]
  | _ => []

/-- The offset and the count among the arguments. -/
def limit : Operation → Option Int64 × Option Int64
  | rangeByLex _ _ _ offset count => (offset, count)
  | rangeByScore _ _ _ _ options => (options.offset, options.count)
  | _ => (none, none)

/-- All scores among the arguments are numbers. -/
def Numeric (operation : Operation) : Prop :=
  ∀ score ∈ operation.scores, score.2 ≠ .float .nan

/-- Why nothing is sent for an operation. -/
inductive Refused (operation : Operation) : Error → Prop where
  | notANumber {role : ScoreRole} {score : Score} :
    operation.scores.find? (fun score => score.2 = .float .nan) = some (role, score) →
    operation.Refused (.invalidArgument (.notANumber role))
  | halfLimit : operation.Numeric → operation.limit.1.isSome ≠ operation.limit.2.isSome →
    operation.Refused (.invalidArgument .halfLimit)
  | minAboveMax {key : Bytes} {min max : ScoreBound} :
    operation = countByScore key min max → operation.Numeric → min.score.gt max.score = true →
    operation.Refused (.invalidRange .minAboveMax)
  | intersection {destination : Bytes} {keys : List Bytes} :
    operation = combine .intersection destination keys →
    operation.Refused (.notImplemented "ZINTERSTORE")
  | union {destination : Bytes} {keys : List Bytes} :
    operation = combine .union destination keys →
    operation.Refused (.notImplemented "ZUNIONSTORE")

section Checks
variable {operation : Operation} {error : Error}

/-- What is judged once all scores are numbers. -/
private def checkRest : Operation → Except Error Unit
  | countByScore _ min max =>
    if min.score.gt max.score then .error (.invalidRange .minAboveMax) else .ok ()
  | combine .intersection .. => .error (.notImplemented "ZINTERSTORE")
  | combine .union .. => .error (.notImplemented "ZUNIONSTORE")
  | operation => (checkLimit operation.limit.1 operation.limit.2).map fun _ => ()

private theorem forM_bounds (min max : ScoreBound) :
    ([(ScoreRole.min, min.score), (ScoreRole.max, max.score)].forM fun score =>
      score.2.check score.1) = checkBounds min max := by
  simp [checkBounds, List.forM]

private theorem forM_pairs (pairs : List (Score × Bytes)) :
    ((pairs.map fun pair => (ScoreRole.allScores, pair.1)).forM fun score =>
      score.2.check score.1) = pairs.forM fun (score, _) => score.check .allScores := by
  induction pairs with
  | nil => rfl
  | cons pair pairs ih => rw [List.map_cons, List.forM, List.forM, ih]

private theorem check_eq (operation : Operation) :
    operation.check =
      (operation.scores.forM fun score => score.2.check score.1) >>= fun _ =>
        operation.checkRest := by
  cases operation with
  | add key score member more =>
    rw [scores, List.forM, forM_pairs, bind_assoc]
    refine bind_congr fun _ => ?_
    exact (bind_pure _).symm
  | increment key amount member =>
    rw [scores, List.forM, bind_assoc]
    exact (bind_pure _).symm
  | countByScore key min max =>
    rw [scores, forM_bounds]
    rfl
  | rangeByScore direction key min max options =>
    rw [scores, forM_bounds]
    rfl
  | removeByScore key min max =>
    rw [scores, forM_bounds]
    exact (bind_pure _).symm
  | combine how destination keys => cases how <;> rfl
  | _ => rfl

private theorem numeric_iff :
    operation.Numeric ↔ operation.scores.find? (fun score => score.2 = .float .nan) = none := by
  simp [Numeric, List.find?_eq_none]

private theorem checkLimit_eq_error_iff {offset count : Option Int64} :
    (checkLimit offset count).map (fun _ => ()) = .error error ↔
      offset.isSome ≠ count.isSome ∧ error = .invalidArgument .halfLimit := by
  constructor
  · intro h
    match offset, count, h with
    | some _, none, rfl => exact ⟨by simp, rfl⟩
    | none, some _, rfl => exact ⟨by simp, rfl⟩
  · rintro ⟨h, rfl⟩
    match offset, count, h with
    | some _, none, _ => rfl
    | none, some _, _ => rfl
    | some _, some _, h => exact absurd rfl h
    | none, none, h => exact absurd rfl h

private theorem checkRest_eq_error_iff (h : operation.Numeric) :
    operation.checkRest = .error error ↔ operation.Refused error := by
  constructor
  · intro he
    cases operation with
    | countByScore key min max =>
      rw [checkRest] at he
      split at he
      · next hgt =>
        cases he
        exact .minAboveMax rfl h hgt
      · cases he
    | combine how destination keys =>
      cases how with
      | intersection =>
        cases he
        exact .intersection rfl
      | union =>
        cases he
        exact .union rfl
    | rangeByLex key min max offset count =>
      obtain ⟨hl, rfl⟩ := checkLimit_eq_error_iff.mp he
      exact .halfLimit h hl
    | rangeByScore direction key min max options =>
      obtain ⟨hl, rfl⟩ := checkLimit_eq_error_iff.mp he
      exact .halfLimit h hl
    | _ => cases he
  · intro hr
    cases hr with
    | notANumber hf =>
      rw [numeric_iff.mp h] at hf
      cases hf
    | halfLimit _ hl =>
      cases operation with
      | rangeByLex => exact checkLimit_eq_error_iff.mpr ⟨hl, rfl⟩
      | rangeByScore => exact checkLimit_eq_error_iff.mpr ⟨hl, rfl⟩
      | _ => exact absurd rfl hl
    | minAboveMax ho _ hgt =>
      subst ho
      rw [checkRest, if_pos hgt]
    | intersection ho =>
      subst ho
      rfl
    | union ho =>
      subst ho
      rfl

/-- Arguments are refused for these reasons and no others. -/
theorem check_eq_error_iff : operation.check = .error error ↔ operation.Refused error := by
  rw [check_eq, Score.forM_check_eq]
  split
  · next role score hf =>
    constructor
    · intro he
      cases he
      exact .notANumber hf
    · intro hr
      have hn : ¬ operation.Numeric := fun h => by simp [numeric_iff.mp h] at hf
      cases hr with
      | notANumber hf' =>
        rw [hf] at hf'
        cases hf'
        rfl
      | halfLimit h _ => exact absurd h hn
      | minAboveMax _ h _ => exact absurd h hn
      | intersection ho =>
        subst ho
        cases hf
      | union ho =>
        subst ho
        cases hf
  · next hf => exact checkRest_eq_error_iff (numeric_iff.mpr hf)

end Checks

section Runs
variable {m : Type → Type} [Monad m]

/-- Nothing is carried for an operation whose arguments are refused. -/
theorem run_refused {operation : Operation} {error : Error}
    (execute : Command → m (Except Error Value)) (h : operation.check = .error error) :
    operation.run execute = pure (.error error) := by
  unfold run
  rw [h]

variable [LawfulMonad m]

/-- For any other operation one command is carried, and its reply is decoded. -/
theorem run_checked {operation : Operation} (execute : Command → m (Except Error Value))
    (h : operation.check = .ok ()) :
    operation.run execute =
      (fun reply => reply.bind operation.decode) <$> execute operation.toCommand := by
  unfold run
  rw [h, map_eq_bind_pure_comp]
  refine bind_congr fun reply => ?_
  cases reply <;> rfl

end Runs
end Operation

section Recording
variable {m : Type → Type} [Monad m]

/-- Carry commands as before, and keep a list of them. -/
def recording (execute : Command → m (Except Error Value)) (command : Command) :
    StateT (List Command) m (Except Error Value) := do
  modify (· ++ [command])
  execute command

theorem run_recording [LawfulMonad m] (execute : Command → m (Except Error Value))
    (command : Command) (sent : List Command) :
    (recording execute command).run sent = (·, sent ++ [command]) <$> execute command := by
  simp [recording]

/-- The list gets the command of an operation whose arguments are not refused. -/
theorem run_recording_checked [LawfulMonad m] {operation : Operation}
    (execute : Command → m (Except Error Value)) (sent : List Command)
    (h : operation.check = .ok ()) :
    (operation.run (recording execute)).run sent =
      (fun reply => (reply.bind operation.decode, sent ++ [operation.toCommand])) <$>
        execute operation.toCommand := by
  rw [Operation.run_checked _ h, StateT.run_map, run_recording, Functor.map_map]

end Recording

/-- Whatever carries commands, an operation gives it none where the arguments are refused, and they
are refused for the reasons listed and no others. Otherwise it gives it one command, once, and the
result is the carrier's own error or what the reply means. -/
theorem checked_before_dispatch {m : Type → Type} [Monad m] [LawfulMonad m]
    (execute : Command → m (Except Error Value)) (operation : Operation) (sent : List Command) :
    (∃ error, operation.Refused error ∧
      (operation.run (recording execute)).run sent = pure (.error error, sent)) ∨
    (∀ error, ¬ operation.Refused error) ∧
      (operation.run (recording execute)).run sent =
        (fun reply => (reply.bind operation.decode, sent ++ [operation.toCommand])) <$>
          execute operation.toCommand := by
  cases hc : operation.check with
  | error error =>
    refine .inl ⟨error, Operation.check_eq_error_iff.mp hc, ?_⟩
    rw [Operation.run_refused _ hc]
    rfl
  | ok =>
    refine .inr ⟨fun error hr => ?_, ?_⟩
    · rw [Operation.check_eq_error_iff.mpr hr] at hc
      cases hc
    · rw [Operation.run_checked _ hc, StateT.run_map, run_recording, Functor.map_map]

/-- A NaN in the last of several pairs keeps a command back, the prepared reply stays where it is;
and a count between bounds in order takes it, though it is the carrier's own error. -/
theorem checked_before_dispatch_nan_in_pair :
    let hidden : Operation :=
      .add [0x6b] (.integer 1) [0x61] [(.integer 2, [0x62]), (.float .nan, [0x63])]
    let counted : Operation := .countByScore [0x6b] ⟨.integer 1, false⟩ ⟨.integer 5, true⟩
    let recorder : Recorder := { replies := [.error .connectionClosed] }
    (∃ error, hidden.Refused error ∧
      ((hidden.run (recording Recorder.execute)).run []).run recorder =
        ((.error error, []), recorder)) ∧
    ((counted.run (recording Recorder.execute)).run []).run recorder =
      ((.error .connectionClosed, [counted.toCommand]),
        { replies := [], received := [counted.toCommand] }) := by
  intro hidden counted recorder
  constructor
  · rcases checked_before_dispatch Recorder.execute hidden [] with ⟨error, hr, hrun⟩ | ⟨hn, -⟩
    · exact ⟨error, hr, by rw [hrun]; rfl⟩
    · have hr : hidden.Refused (.invalidArgument (.notANumber .allScores)) :=
        Operation.check_eq_error_iff.mp rfl
      exact absurd hr (hn _)
  · rcases checked_before_dispatch Recorder.execute counted [] with ⟨error, hr, -⟩ | ⟨-, hrun⟩
    · cases Operation.check_eq_error_iff.mpr hr
    · rw [hrun]
      rfl

end SortedSetClient
