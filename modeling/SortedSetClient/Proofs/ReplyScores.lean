import SortedSetClient.Proofs.CommandReading
import SortedSetClient.Proofs.ScanPages

/-! The scores in answers, each read from a text in the reply. A text may be a name for what is no
number; such a score is answered all the same, though no operation takes it as an argument. Every
other score of an answer is a number and may go into any operation. -/
namespace SortedSetClient
open Resp (Value)

namespace Binary64

/-- The spellings of the name without a sign. -/
def nanSpellings : List Bytes :=
  ["nan", "naN", "nAn", "nAN", "Nan", "NaN", "NAn", "NAN"].map Utf8.encode

/-- The names of what is no number, with a sign or without. -/
def nanNames : List Bytes :=
  nanSpellings ++ nanSpellings.map (0x2b :: ·) ++ nanSpellings.map (0x2d :: ·)

private theorem eq_of_lower {b c : UInt8} (h : lower b = c) : b = c ∨ b = c - 0x20 := by
  unfold lower at h
  split at h
  · exact .inr ((UInt8.add_sub_cancel b 0x20).symm.trans (congrArg (· - 0x20) h))
  · exact .inl h

theorem mem_nanSpellings_iff {text : Bytes} :
    text ∈ nanSpellings ↔ text.map lower = Utf8.encode "nan" := by
  constructor
  · revert text
    decide +kernel
  · intro h
    have hlength : text.length = 3 := by
      rw [← List.length_map lower, h]
      rfl
    obtain ⟨a, b, c, rfl⟩ := List.length_eq_three.mp hlength
    change [lower a, lower b, lower c] = [0x6e, 0x61, 0x6e] at h
    obtain ⟨ha, hb, hc⟩ : lower a = 0x6e ∧ lower b = 0x61 ∧ lower c = 0x6e := by simpa using h
    -- Each of the three letters is small or capital.
    rcases eq_of_lower ha with rfl | rfl <;> rcases eq_of_lower hb with rfl | rfl <;>
      rcases eq_of_lower hc with rfl | rfl <;> decide +kernel

theorem read?_eq_nan_iff {text : Bytes} : read? text = some nan ↔ text ∈ nanNames := by
  constructor
  · intro h
    have hname : (Decimal.splitSign text).2 ∈ nanSpellings := by
      rw [mem_nanSpellings_iff]
      unfold read? at h
      dsimp only at h
      split at h
      · cases h
      · split at h
        · next hn => exact hn
        · obtain ⟨rank, -, hr⟩ := Option.map_eq_some_iff.mp h
          cases hr
    revert hname
    unfold nanNames
    fun_cases Decimal.splitSign text with
    | case1 rest =>
      intro hname
      exact List.mem_append_right _ (List.mem_map_of_mem hname)
    | case2 rest =>
      intro hname
      exact List.mem_append_left _ (List.mem_append_right _ (List.mem_map_of_mem hname))
    | case3 text =>
      intro hname
      exact List.mem_append_left _ (List.mem_append_left _ hname)
  · revert text
    decide +kernel

end Binary64

namespace Score

/-- A score is no number just where its text is a name for what is none. -/
theorem isNaN_iff_name {text : Bytes} {score : Score} (h : ofText? text = some score) :
    score.isNaN = true ↔ text ∈ Binary64.nanNames := by
  rw [isNaN_iff]
  constructor
  · rintro rfl
    rw [← Binary64.read?_eq_nan_iff]
    unfold ofText? at h
    split at h
    · cases h
    · obtain ⟨x, hx, he⟩ := Option.map_eq_some_iff.mp h
      cases he
      exact hx
  · intro hname
    have hnan : ∀ text ∈ Binary64.nanNames, ofText? text = some (.float .nan) := by decide +kernel
    rw [hnan text hname, Option.some.injEq] at h
    exact h.symm

end Score

namespace Answer

/-- The scores in an answer, in order. -/
def scores : Answer → List Score
  | score s => [s]
  | scoreOf s => s.toList
  | listing (.scored entries) | page _ entries => entries.map (·.2)
  | _ => []

end Answer

namespace Operation

/-- The items of a list that stand for scores. -/
def numbersOf : Value → List Value
  | .array items => (Reply.pairsOf items).map (·.2)
  | _ => []

/-- The parts of a reply that the operation takes for scores, in order. -/
def scoreParts : Operation → Value → List Value
  | increment .., reply => [reply]
  | scoreOf .., reply => if reply.isNil then [] else [reply]
  | scan .., .array [_, list] => numbersOf list
  | operation, reply => if operation.asksScores then numbersOf reply else []

end Operation

/-- A score is read from the text that the part of a reply carries. -/
def ReadsScore (part : Value) (score : Score) : Prop :=
  ∃ text, Reply.Carries part text ∧ Score.ofText? text = some score

section Answers
open Reply
variable {operation : Operation} {reply : Value} {answer : Answer}

private theorem forall₂_numbersOf {read : List Entry} (h : ReadsEntries reply read) :
    List.Forall₂ ReadsScore (Operation.numbersOf reply) (read.map (·.2)) := by
  obtain ⟨items, hitems, hread⟩ := h
  cases hitems with
  | array =>
    rw [Operation.numbersOf, List.forall₂_map_left_iff, List.forall₂_map_right_iff]
    exact hread.imp fun _ _ hentry => hentry.2
  | nilArray =>
    cases hread
    exact .nil

private theorem forall₂_listing {withScores : Bool} {listing : Listing}
    (h : Reply.listing withScores reply = .ok listing) :
    List.Forall₂ ReadsScore (if withScores then Operation.numbersOf reply else [])
      (Answer.listing listing).scores := by
  cases withScores with
  | true =>
    obtain ⟨read, hread, rfl⟩ := map_eq_ok_iff.mp h
    exact forall₂_numbersOf (entries_eq_ok_iff.mp hread)
  | false =>
    obtain ⟨read, -, rfl⟩ := map_eq_ok_iff.mp h
    exact .nil

private theorem readsScore_of_score {score : Score} (h : Reply.score reply = .ok score) :
    ReadsScore reply score := by
  rw [Reply.score] at h
  cases reply with
  | error text => cases h
  | _ => exact scoreText_eq_ok_iff.mp h

private theorem forall₂_optionalScore {score : Option Score}
    (h : Reply.optionalScore reply = .ok score) :
    List.Forall₂ ReadsScore (if reply.isNil then [] else [reply]) score.toList := by
  cases reply with
  | nilBulk | nilArray =>
    cases h
    exact .nil
  | simple | bulk =>
    obtain ⟨number, hnumber, rfl⟩ := map_eq_ok_iff.mp h
    exact .cons (scoreText_eq_ok_iff.mp hnumber) .nil
  | _ => cases h

/-- The scores of an answer are read one by one from the parts of the reply that stand for them. -/
theorem forall₂_scoreParts (h : operation.decode reply = .ok answer) :
    List.Forall₂ ReadsScore (operation.scoreParts reply) answer.scores := by
  cases operation with
  | combine => cases h
  | increment key amount member =>
    obtain ⟨score, hscore, rfl⟩ := map_eq_ok_iff.mp h
    exact .cons (readsScore_of_score hscore) .nil
  | scoreOf key member =>
    obtain ⟨score, hscore, rfl⟩ := map_eq_ok_iff.mp h
    exact forall₂_optionalScore hscore
  | range direction key start stop withScores =>
    obtain ⟨listing, hlisting, rfl⟩ := map_eq_ok_iff.mp h
    exact forall₂_listing hlisting
  | rangeByScore direction key min max options =>
    obtain ⟨listing, hlisting, rfl⟩ := map_eq_ok_iff.mp h
    exact forall₂_listing hlisting
  | scan key cursor pattern count =>
    obtain ⟨⟨next, read⟩, hpage, rfl⟩ := map_eq_ok_iff.mp h
    obtain ⟨first, second, rfl, -, hread⟩ := page_eq_ok_iff.mp hpage
    exact forall₂_numbersOf hread
  | _ =>
    obtain ⟨result, -, rfl⟩ := map_eq_ok_iff.mp h
    exact .nil

private theorem exists_part {parts : List Value} {scores : List Score} {score : Score}
    (h : List.Forall₂ ReadsScore parts scores) (hs : score ∈ scores) :
    ∃ part ∈ parts, ReadsScore part score := by
  induction h with
  | nil => cases hs
  | @cons part _ parts _ hread _ ih =>
    rcases List.mem_cons.mp hs with rfl | hs
    · exact ⟨part, List.mem_cons_self, hread⟩
    · obtain ⟨other, hother, hscore⟩ := ih hs
      exact ⟨other, List.mem_cons_of_mem part hother, hscore⟩

/-- What is no number is refused by every operation that takes scores. -/
private theorem refused_of_nan {later : Operation} {role : ScoreRole}
    (h : (role, Score.float .nan) ∈ later.scores) :
    ∃ role, later.Refused (.invalidArgument (.notANumber role)) := by
  cases hf : later.scores.find? fun score => score.2 = .float .nan with
  | none => exact absurd (List.find?_eq_none.mp hf _ h) (by simp)
  | some found => exact ⟨found.1, .notANumber hf⟩

private theorem nan_of_refused {later : Operation} {role : ScoreRole}
    (h : later.Refused (.invalidArgument (.notANumber role))) :
    (role, Score.float .nan) ∈ later.scores := by
  cases h with
  | @notANumber role score hf =>
    have hnan : score = .float .nan := by simpa using List.find?_some hf
    rw [hnan] at hf
    exact List.mem_of_find?_eq_some hf

end Answers

open Reply

/-- Each score of an answer is read from its own part of the reply, and it is a number unless the
text there is a name for what is none. Such a score is refused by every operation that takes
scores; where the reply has no such text, none of the scores is refused for being no number. -/
theorem replied_scores_numbers_unless_named {operation : Operation} {reply : Value}
    {answer : Answer} (h : operation.decode reply = .ok answer) :
    List.Forall₂ (fun part score => ∃ text, Carries part text ∧ Score.ofText? text = some score ∧
      (score.isNaN = true ↔ text ∈ Binary64.nanNames)) (operation.scoreParts reply) answer.scores ∧
    (∀ score ∈ answer.scores, score.isNaN = true → ∀ (later : Operation) (role : ScoreRole),
      (role, score) ∈ later.scores →
      ∃ role, later.Refused (.invalidArgument (.notANumber role))) ∧
    ((∀ part ∈ operation.scoreParts reply, ∀ text ∈ Binary64.nanNames, ¬Carries part text) →
      (∀ score ∈ answer.scores, score.isNaN = false) ∧
      ∀ later : Operation, (∀ used ∈ later.scores, used.2 ∈ answer.scores) →
        ∀ role, ¬later.Refused (.invalidArgument (.notANumber role))) := by
  have hread := forall₂_scoreParts h
  refine ⟨hread.imp fun part score hscore => ?_, fun score _ hnan later role hmem => ?_,
    fun hnames => ?_⟩
  · obtain ⟨text, ht, hs⟩ := hscore
    exact ⟨text, ht, hs, Score.isNaN_iff_name hs⟩
  · rw [Score.isNaN_iff.mp hnan] at hmem
    exact refused_of_nan hmem
  · have hnumber : ∀ score ∈ answer.scores, score.isNaN = false := by
      intro score hscore
      obtain ⟨part, hpart, text, ht, hs⟩ := exists_part hread hscore
      rw [Bool.eq_false_iff, ne_eq, Score.isNaN_iff_name hs]
      exact fun hname => hnames part hpart text hname ht
    refine ⟨hnumber, fun later hused role hrefused => ?_⟩
    have hnan := hnumber _ (hused _ (nan_of_refused hrefused))
    cases hnan

/-- A member may have such a name, and infinity is a number: the scores of this listing may be the
bounds of a count. -/
theorem replied_scores_numbers_beside_named_member :
    let listed : Operation := .range .ascending [0x6b] 0 (-1) true
    let reply : Value := .array [.bulk [0x61], .bulk (Utf8.encode "+inf"),
      .bulk (Utf8.encode "nan"), .simple "7", .bulk (Utf8.encode "NaN")]
    let infinite : Score := .float (.infinity false)
    let answer : Answer :=
      .listing (.scored [([0x61], infinite), (Utf8.encode "nan", .integer 7)])
    let later : Operation := .countByScore [0x6b] ⟨.integer 7, false⟩ ⟨infinite, true⟩
    listed.decode reply = .ok answer ∧ (∀ score ∈ answer.scores, score.isNaN = false) ∧
      ∀ role, ¬later.Refused (.invalidArgument (.notANumber role)) := by
  intro listed reply infinite answer later
  have hentries : entries reply = .ok [([0x61], infinite), (Utf8.encode "nan", .integer 7)] :=
    entries_array_eq_ok_iff.mpr
      (.cons ⟨.bulk _, _, .bulk _, by decide +kernel⟩
        (.cons ⟨.bulk _, _, .simple _, by decide +kernel⟩ .nil))
  have hdecode : listed.decode reply = .ok answer := by
    have hlisting : Reply.listing true reply = (entries reply).map .scored := rfl
    rw [Operation.decode, hlisting, hentries]
    rfl
  have hnames : ∀ part ∈ listed.scoreParts reply, ∀ text ∈ Binary64.nanNames,
      ¬Carries part text := by
    intro part hpart text hname hcarries
    have hparts : listed.scoreParts reply = [.bulk (Utf8.encode "+inf"), .simple "7"] := rfl
    rw [hparts, List.mem_pair] at hpart
    rcases hpart with rfl | rfl <;> cases hcarries <;> revert hname <;> decide +kernel
  obtain ⟨-, -, hnumbers⟩ := replied_scores_numbers_unless_named hdecode
  obtain ⟨hscores, hlater⟩ := hnumbers hnames
  refine ⟨hdecode, hscores, hlater later fun used hused => ?_⟩
  rcases List.mem_pair.mp hused with rfl | rfl
  · exact List.mem_cons_of_mem _ List.mem_cons_self
  · exact List.mem_cons_self

/-- From each kind of reply that has scores, one that is no number can come, and no operation takes
it back. -/
theorem replied_nan_refused :
    let number : Value := .bulk (Utf8.encode "nan")
    let list : Value := .array [.bulk [0x61], number]
    Reply.score number = .ok (.float .nan) ∧
    Reply.optionalScore number = .ok (some (.float .nan)) ∧
    Reply.entries list = .ok [([0x61], .float .nan)] ∧
    Reply.page (.array [.bulk [0x30], list]) = .ok (0, [([0x61], .float .nan)]) ∧
    (Operation.increment [0x6b] (.float .nan) [0x61]).check =
      .error (.invalidArgument (.notANumber .increment)) := by
  intro number list
  have hread : Score.ofText? (Utf8.encode "nan") = some (.float .nan) := by decide +kernel
  have hscore : scoreText number = .ok (.float .nan) :=
    scoreText_eq_ok_iff.mpr ⟨_, .bulk _, hread⟩
  have hentries : ReadsEntries list [([0x61], .float .nan)] :=
    ⟨_, .array _, .cons ⟨.bulk _, _, .bulk _, hread⟩ .nil⟩
  have hcursor : ReadsCursor (.bulk [0x30]) 0 :=
    ⟨_, .bulk _, ⟨by decide, by decide +kernel⟩, by decide +kernel, by decide +kernel⟩
  refine ⟨hscore, ?_, entries_eq_ok_iff.mpr hentries, ?_, rfl⟩
  · exact congrArg (Except.map some) hscore
  · exact page_eq_ok_iff.mpr
      ⟨_, _, rfl, hcursor, hentries⟩

end SortedSetClient
