import SortedSetClient.Proofs.Dispatch
import SortedSetClient.Proofs.ExactValues

/-! Which ranges of scores are counted. An integer is compared with a floating-point number only
after rounding, so a range that is upside down may pass; but none that is in order is refused, and
between scores of one kind the check is exact. -/
namespace SortedSetClient
open Resp (Value)

namespace Operation

section Bounds
variable {key : Bytes} {min max : ScoreBound} {low high : Extended}
  (hlow : min.score.value? = some low) (hhigh : max.score.value? = some high)
include hlow hhigh

/-- Between bounds that are numbers only their order is judged. -/
private theorem check_countByScore :
    (countByScore key min max).check =
      if min.score.gt max.score then .error (.invalidRange .minAboveMax) else .ok () := by
  have hnumber {role : ScoreRole} {score : Score} {x : Extended} (h : score.value? = some x) :
      score.check role = .ok () := by
    rw [Score.check_eq, if_neg]
    rintro rfl
    cases h
  rw [check, checkBounds, hnumber hlow, hnumber hhigh]
  rfl

theorem check_countByScore_in_order (h : low ≤ high) :
    (countByScore key min max).check = .ok () := by
  rw [check_countByScore hlow hhigh, if_neg]
  intro hgt
  exact absurd h (not_le.mpr (Score.value_lt_of_gt hlow hhigh hgt))

theorem check_countByScore_upside_down (hkind : min.score.SameKind max.score) (h : high < low) :
    (countByScore key min max).check = .error (.invalidRange .minAboveMax) := by
  rw [check_countByScore hlow hhigh, if_pos (Score.gt_of_value_lt hlow hhigh hkind h)]

end Bounds

/-- No reply to a command that is sent is a refusal of the range. -/
theorem decode_ne_invalidRange {operation : Operation} (hc : operation.check = .ok ())
    (reply : Value) (fault : RangeFault) :
    operation.decode reply ≠ .error (.invalidRange fault) := by
  intro h
  cases raises_decode hc reply _ h

end Operation

/-- Whatever carries commands, in whatever world, it is given the count of every range that is in
order, and only it can then fail for the range. Between scores of one kind a range is refused, and
nothing is given on, just where it is upside down. -/
theorem counted_unless_upside_down {World : Type}
    (execute : Command → StateM World (Except Error Value)) (world : World) (key : Bytes)
    (min max : ScoreBound) {low high : Extended} (hlow : min.score.value? = some low)
    (hhigh : max.score.value? = some high) :
    let count := Operation.countByScore key min max
    let result := ((count.run (recording execute)).run []).run world
    (low ≤ high →
      ∃ reply after, (execute count.toCommand).run world = (reply, after) ∧
        result = ((reply.bind count.decode, [count.toCommand]), after) ∧
        ∀ fault, result.1.1 = .error (.invalidRange fault) →
          reply = .error (.invalidRange fault)) ∧
    (min.score.SameKind max.score →
      (result = ((.error (.invalidRange .minAboveMax), []), world) ↔ high < low)) := by
  intro count result
  have hchecked (h : low ≤ high) : count.check = .ok () :=
    Operation.check_countByScore_in_order hlow hhigh h
  have hcounted (h : low ≤ high) : result =
      ((((execute count.toCommand).run world).1.bind count.decode, [count.toCommand]),
        ((execute count.toCommand).run world).2) := by
    unfold result
    rw [run_recording_checked execute [] (hchecked h)]
    rfl
  have hrefused (hkind : min.score.SameKind max.score) (h : high < low) :
      result = ((.error (.invalidRange .minAboveMax), []), world) := by
    have hc : count.check = .error (.invalidRange .minAboveMax) :=
      Operation.check_countByScore_upside_down hlow hhigh hkind h
    unfold result
    rw [Operation.run_refused _ hc]
    rfl
  constructor
  · intro h
    refine ⟨_, _, rfl, hcounted h, fun fault hf => ?_⟩
    rw [hcounted h] at hf
    cases hreply : ((execute count.toCommand).run world).1 with
    | error error =>
      rw [hreply] at hf
      cases hf
      exact hreply
    | ok reply =>
      rw [hreply] at hf
      exact absurd hf (Operation.decode_ne_invalidRange (hchecked h) reply fault)
  · intro hkind
    refine ⟨fun hr => ?_, hrefused hkind⟩
    by_contra hle
    rw [hcounted (not_lt.mp hle)] at hr
    cases congrArg (fun result => result.1.2) hr

/-- An integer that is rounded down, and the number above it; and an infinity above the greatest
finite number. -/
theorem counted_unless_upside_down_past_integers :
    let odd := Score.integer 9007199254740993
    let next := Score.float (.ofBits 0x4340000000000001)
    let infinite := Score.float (.infinity false)
    let greatest := Score.float (.ofBits 0x7fefffffffffffff)
    let count := Operation.countByScore [0x6b] ⟨odd, false⟩ ⟨next, false⟩
    let refused := Operation.countByScore [0x6b] ⟨infinite, true⟩ ⟨greatest, true⟩
    let recorder : Recorder := { replies := [.ok (.integer 7)] }
    ((count.run (recording Recorder.execute)).run []).run recorder =
        ((.ok (.integer 7), [count.toCommand]), { replies := [], received := [count.toCommand] }) ∧
      ((refused.run (recording Recorder.execute)).run []).run recorder =
        ((.error (.invalidRange .minAboveMax), []), recorder) := by
  intro odd next infinite greatest count refused recorder
  have hnext : next.value? = some ((9007199254740994 : ℚ) : WithTop ℚ) := by
    have hbits : Binary64.ofBits 0x4340000000000001 =
        .number false ⟨0x4340000000000001, by decide⟩ := by decide +kernel
    have hunits : Binary64.units 0x4340000000000001 = 9007199254740994 * Binary64.unitsPerOne := by
      decide +kernel
    have hone : (Binary64.unitsPerOne : ℚ) ≠ 0 :=
      Nat.cast_ne_zero.mpr Binary64.unitsPerOne_pos.ne'
    unfold next
    rw [Score.value?, hbits, Binary64.value?, if_neg (by decide +kernel), if_neg Bool.false_ne_true,
      hunits]
    generalize Binary64.unitsPerOne = one at hone
    refine congrArg some (congrArg WithBot.some (congrArg WithTop.some ?_))
    rw [Int.cast_natCast, Nat.cast_mul]
    exact mul_div_cancel_right₀ _ hone
  have hgreatest : ∃ q : ℚ, greatest.value? = some (q : WithTop ℚ) := by
    have hbits : Binary64.ofBits 0x7fefffffffffffff =
        .number false ⟨0x7fefffffffffffff, by decide⟩ := by decide +kernel
    unfold greatest
    rw [Score.value?, hbits, Binary64.value?, if_neg (by decide +kernel)]
    exact ⟨_, rfl⟩
  constructor
  · have hle : ((9007199254740993 : Int) : ℚ) ≤ 9007199254740994 := by norm_num
    obtain ⟨reply, after, hreply, hresult, -⟩ :=
      (counted_unless_upside_down Recorder.execute recorder [0x6b] ⟨odd, false⟩ ⟨next, false⟩ rfl
        hnext).1 (Extended.coe_le_coe_iff.mpr hle)
    cases hreply
    exact hresult
  · obtain ⟨q, hq⟩ := hgreatest
    exact ((counted_unless_upside_down Recorder.execute recorder [0x6b] ⟨infinite, true⟩
      ⟨greatest, true⟩ rfl hq).2 (.floats _ _)).mpr (WithBot.coe_lt_coe.mpr (WithTop.coe_lt_top q))

end SortedSetClient
