import SortedSetClient.Proofs.CommandLines
import SortedSetClient.Proofs.GivenScores

/-! What is sent for an addition with further pairs: all of them in one command, or nothing. That
the texts are even in number is judged before any of them, and then every other one must be the text
of a number. What stands between them may be any text. -/
namespace SortedSetClient
open Resp (Value)

namespace Operation

/-- An addition whose scores are all numbers is not refused. -/
theorem check_add {key member : Bytes} {first : Score} {pairs : List (Score × Bytes)}
    (hf : first ≠ .float .nan) (hp : ∀ pair ∈ pairs, pair.1 ≠ .float .nan) :
    (add key first member pairs).check = .ok () := by
  cases hc : (add key first member pairs).check with
  | ok => rfl
  | error error =>
    have hnumeric : (add key first member pairs).Numeric := by
      refine List.forall_mem_cons.mpr ⟨hf, fun score hs => ?_⟩
      obtain ⟨pair, hpair, rfl⟩ := List.mem_map.mp hs
      exact hp pair hpair
    cases check_eq_error_iff.mp hc with
    | notANumber hfound =>
      have hnan := List.find?_some hfound
      exact absurd (of_decide_eq_true hnan) (hnumeric _ (List.mem_of_find?_eq_some hfound))
    | halfLimit _ hhalf => exact absurd rfl hhalf
    | _ h => cases h

end Operation

namespace CommandLine

/-- The texts are scores and members in turn, each score a number. -/
structure Paired (texts : List String) : Prop where
  even : texts.length % 2 = 0
  scores : ∀ i text, texts[2 * i]? = some text → ∃ score, Score.Reads text score

/-- These arguments are sent for the texts: each score as it is written, each member as it is. -/
structure SentFor (texts : List String) (args : List Bytes) : Prop where
  length : args.length = texts.length
  scores : ∀ i text, texts[2 * i]? = some text →
    ∃ score, Score.Reads text score ∧ args[2 * i]? = some score.encode
  members : ∀ i text, texts[2 * i + 1]? = some text → args[2 * i + 1]? = some (Utf8.encode text)

/-- Why texts are refused: for their number, or else for the first score that is none. -/
inductive PairFault (texts : List String) : ArgumentFault → Prop where
  | odd : texts.length % 2 = 1 → PairFault texts .unpairedScore
  | score {i : Nat} {text : String} : texts.length % 2 = 0 → texts[2 * i]? = some text →
    (¬∃ score, Score.Reads text score) →
    (∀ j < i, ∀ earlier, texts[2 * j]? = some earlier → ∃ score, Score.Reads earlier score) →
    PairFault texts (.unreadableScore text)

section Pairs
variable {text member : String} {texts : List String}

theorem Paired.nil : Paired [] where
  even := rfl
  scores := nofun

theorem Paired.cons {score : Score} (hs : Score.Reads text score) (h : Paired texts) :
    Paired (text :: member :: texts) where
  even := by
    have heven := h.even
    simp only [List.length_cons]
    omega
  scores
    | 0, _, hi => Option.some.inj hi ▸ ⟨score, hs⟩
    | i + 1, later, hi => h.scores i later hi

theorem SentFor.nil : SentFor [] [] where
  length := rfl
  scores := nofun
  members := nofun

theorem SentFor.cons {score : Score} {args : List Bytes} (hs : Score.Reads text score)
    (h : SentFor texts args) :
    SentFor (text :: member :: texts) (score.encode :: Utf8.encode member :: args) where
  length := by simp only [List.length_cons, h.length]
  scores
    | 0, _, hi => Option.some.inj hi ▸ ⟨score, hs, rfl⟩
    | i + 1, later, hi => h.scores i later hi
  members
    | 0, _, hi => Option.some.inj hi ▸ rfl
    | i + 1, later, hi => h.members i later hi

theorem Paired.of_cons (h : Paired (text :: member :: texts)) :
    (∃ score, Score.Reads text score) ∧ Paired texts := by
  refine ⟨h.scores 0 text rfl, ?_, fun i later hi => h.scores (i + 1) later hi⟩
  have heven := h.even
  simp only [List.length_cons] at heven
  omega

theorem PairFault.cons {score : Score} {fault : ArgumentFault} (hs : Score.Reads text score)
    (h : PairFault texts fault) : PairFault (text :: member :: texts) fault := by
  cases h with
  | odd hodd => exact .odd (by simp only [List.length_cons]; omega)
  | @score i later heven hi hbad hearlier =>
    refine .score (i := i + 1) (by simp only [List.length_cons]; omega) hi hbad ?_
    rintro (_ | j) hj earlier hej
    · exact Option.some.inj hej ▸ ⟨score, hs⟩
    · exact hearlier j (Nat.lt_of_succ_lt_succ hj) earlier hej

/-- The texts determine what is sent for them. -/
theorem SentFor.unique {args others : List Bytes} (h : SentFor texts args)
    (ho : SentFor texts others) : args = others := by
  refine List.ext_getElem? fun i => ?_
  cases hi : texts[i]? with
  | none =>
    rw [List.getElem?_eq_none_iff] at hi
    rw [List.getElem?_eq_none (h.length ▸ hi), List.getElem?_eq_none (ho.length ▸ hi)]
  | some text =>
    obtain ⟨j, rfl | rfl⟩ := Nat.even_or_odd' i
    · obtain ⟨score, hs, harg⟩ := h.scores j text hi
      obtain ⟨other, hother, hoarg⟩ := ho.scores j text hi
      rw [harg, hoarg, hs.unique hother]
    · rw [h.members j text hi, ho.members j text hi]

theorem PairFault.not_paired {fault : ArgumentFault} (h : PairFault texts fault) :
    ¬Paired texts := by
  intro hp
  cases h with
  | odd hodd =>
    rw [hp.even] at hodd
    cases hodd
  | score _ hi hbad => exact hbad (hp.scores _ _ hi)

/-- They also determine why they are refused. -/
theorem PairFault.unique {fault other : ArgumentFault} (h : PairFault texts fault)
    (ho : PairFault texts other) : fault = other := by
  cases h with
  | odd hodd =>
    cases ho with
    | odd => rfl
    | score heven => omega
  | @score i text heven hi hbad hearlier =>
    cases ho with
    | odd => omega
    | @score j later _ hj hlater hbefore =>
      rcases Nat.lt_trichotomy i j with hlt | rfl | hlt
      · exact absurd (hbefore i hlt text hi) hbad
      · rw [hi, Option.some.injEq] at hj
        rw [hj]
      · exact absurd (hearlier j hlt later hj) hlater

end Pairs

namespace Request
variable {texts : List String}

theorem readPairs_paired (h : Paired texts) :
    ∃ pairs, readPairs texts = .ok pairs ∧ (∀ pair ∈ pairs, pair.1 ≠ .float .nan) ∧
      SentFor texts (pairs.flatMap fun (score, member) => [score.encode, member]) := by
  induction texts using pairUp.induct with
  | case1 text member texts ih =>
    obtain ⟨⟨score, hs⟩, hrest⟩ := h.of_cons
    obtain ⟨pairs, hread, hnumbers, hsent⟩ := ih hrest
    have heven : texts.length % 2 ≠ 1 := by
      rw [hrest.even]
      decide
    refine ⟨(score, Utf8.encode member) :: pairs, ?_, ?_, hsent.cons hs⟩
    · rw [readPairs_cons _ _ _ heven, Score.read_eq_ok_iff.mpr hs, hread]
      rfl
    · exact List.forall_mem_cons.mpr ⟨hs.2, hnumbers⟩
  | case2 texts hshort =>
    rcases texts with _ | ⟨text, _ | ⟨member, texts⟩⟩
    · exact ⟨[], rfl, List.forall_mem_nil _, .nil⟩
    · exact absurd h.even (by simp)
    · exact absurd rfl (hshort text member texts)

theorem readPairs_not_paired (h : ¬Paired texts) :
    ∃ fault, PairFault texts fault ∧ readPairs texts = .error (.invalidArgument fault) := by
  by_cases hodd : texts.length % 2 = 1
  · exact ⟨_, .odd hodd, readPairs_odd hodd⟩
  · induction texts using pairUp.induct with
    | case1 text member texts ih =>
      have heven : texts.length % 2 ≠ 1 := by
        simp only [List.length_cons] at hodd
        omega
      rw [readPairs_cons _ _ _ heven]
      cases hread : Score.read text with
      | error error =>
        obtain ⟨hbad, rfl⟩ := Score.read_eq_error_iff.mp hread
        refine ⟨_, .score (i := 0) ?_ rfl hbad fun j hj => absurd hj (Nat.not_lt_zero j), rfl⟩
        simp only [List.length_cons]
        omega
      | ok score =>
        have hs := Score.read_eq_ok_iff.mp hread
        obtain ⟨fault, hfault, hrest⟩ := ih (fun hrest => h (hrest.cons hs)) heven
        refine ⟨fault, hfault.cons hs, ?_⟩
        rw [hrest]
        rfl
    | case2 texts hshort =>
      rcases texts with _ | ⟨text, _ | ⟨member, texts⟩⟩
      · exact absurd .nil h
      · exact absurd rfl hodd
      · exact absurd rfl (hshort text member texts)

/-! ### Running -/

variable {m : Type → Type} [Monad m] (execute : Command → m (Except Error Value))
  (sent : List Command) (key : String) (first : Score) (member : String)

/-- Nothing is handed over for texts that are refused. -/
theorem run_recording_refused {error : Error} (h : readPairs texts = .error error) :
    ((add key first member texts).run (recording execute)).run sent =
      pure (.error error, sent) := by
  rw [run, toOperation, h]
  rfl

/-- For any others the request is the operation with their pairs. -/
theorem run_recording_pairs {pairs : List (Score × Bytes)} (h : readPairs texts = .ok pairs) :
    ((add key first member texts).run (recording execute)).run sent =
      ((Operation.add (Utf8.encode key) first (Utf8.encode member) pairs).run
        (recording execute)).run sent := by
  rw [run, toOperation, h]
  rfl

end Request

/-- An addition is all or nothing. If its further texts are scores and members in turn, it hands
over exactly one command, with the key, the first pair and all others in order. If not, it hands
over none and names their odd number, or else the first score that is none. The first score is
always a number on a command line, and one that is none is refused behind the pairs. -/
theorem added_all_or_nothing {m : Type → Type} [Monad m] [LawfulMonad m]
    (execute : Command → m (Except Error Value)) (sent : List Command) (key : String)
    (first : Score) (member : String) (texts : List String) :
    let outcome := ((Request.add key first member texts).run (recording execute)).run sent
    (Paired texts → first ≠ .float .nan →
      ∃ args, SentFor texts args ∧
        let command : Command :=
          ⟨"ZADD", Utf8.encode key :: first.encode :: Utf8.encode member :: args⟩
        outcome = (fun reply => (reply.bind fun value => (Reply.integer value).map .integer,
          sent ++ [command])) <$> execute command) ∧
    (Paired texts → first = .float .nan →
      outcome = pure (.error (.invalidArgument (.notANumber .score)), sent)) ∧
    (¬Paired texts →
      ∃ fault, PairFault texts fault ∧
        outcome = pure (.error (.invalidArgument fault), sent)) ∧
    (∀ args invocation, Invocation.read args = .ok invocation →
      invocation.request = .add key first member texts → first ≠ .float .nan) ∧
    ∀ typed : Typed .score, typed.value = first →
      Invocation.read (arguments "zadd" [] (key :: typed.text :: member :: texts)) =
        .ok { config := none, address := none, request := .add key first member texts } := by
  intro outcome
  refine ⟨fun h hf => ?_, ?_, fun h => ?_, ?_, ?_⟩
  · obtain ⟨pairs, hread, hnumbers, hsent⟩ := Request.readPairs_paired h
    refine ⟨_, hsent, ?_⟩
    exact (Request.run_recording_pairs execute sent key first member hread).trans
      (run_recording_checked execute sent (Operation.check_add hf hnumbers))
  · rintro h rfl
    obtain ⟨pairs, hread, -, -⟩ := Request.readPairs_paired h
    have hcheck : (Operation.add (Utf8.encode key) (.float .nan) (Utf8.encode member) pairs).check =
        .error (.invalidArgument (.notANumber .score)) := rfl
    refine (Request.run_recording_pairs execute sent key _ member hread).trans ?_
    rw [Operation.run_refused _ hcheck]
    rfl
  · obtain ⟨fault, hfault, hread⟩ := Request.readPairs_not_paired h
    exact ⟨fault, hfault, Request.run_recording_refused execute sent key first member hread⟩
  · exact fun args invocation h hr => Invocation.number_of_add h hr
  · rintro typed rfl
    exact read_addArguments key typed member texts

/-- Members that look like scores and bounds are sent as they are. Of two scores that are none the
first is named, and before either the odd number. -/
theorem added_all_or_nothing_among_look_alikes :
    let recorder : Recorder := { replies := [.ok (.integer 3)] }
    let outcome (texts : List String) :=
      (((Request.add "-k" (.integer 1) "2" texts).run (recording Recorder.execute)).run []).run
        recorder
    let command : Command := ⟨"ZADD", ["-k", "1", "2", "-3", "nan", "inf", "(4"].map Utf8.encode⟩
    outcome ["-03", "nan", "+inf", "(4"] =
      ((.ok (.integer 3), [command]), { replies := [], received := [command] }) ∧
    outcome ["5", "a", "nan", "6", "b", "7"] =
      ((.error (.invalidArgument (.unreadableScore "nan")), []), recorder) ∧
    outcome ["b"] = ((.error (.invalidArgument .unpairedScore), []), recorder) ∧
    ∃ invocation, Invocation.read (["zadd", "--", "-k", "+1", "2", "b"].map Utf8.encode) =
      .ok invocation ∧ invocation.request = .add "-k" (.integer 1) "2" ["b"] := by
  intro recorder outcome command
  have hall (texts : List String) :=
    added_all_or_nothing Recorder.execute [] "-k" (.integer 1) "2" texts
  have hrefused {texts : List String} {fault : ArgumentFault} (h : PairFault texts fault) :
      outcome texts = ((.error (.invalidArgument fault), []), recorder) := by
    obtain ⟨found, hfound, hrun⟩ := (hall texts).2.2.1 h.not_paired
    rw [h.unique hfound]
    exact congrFun hrun recorder
  refine ⟨?_, hrefused ?_, hrefused (.odd rfl), ?_⟩
  · have hinteger : Score.Reads "-03" (.integer (-3)) := ⟨by decide +kernel, by decide⟩
    have hinfinity : Score.Reads "+inf" (.float (.infinity false)) := ⟨by decide +kernel, by decide⟩
    obtain ⟨args, hsent, hrun⟩ := (hall ["-03", "nan", "+inf", "(4"]).1
      (.cons hinteger (.cons hinfinity .nil)) (by decide)
    obtain rfl := hsent.unique (.cons hinteger (.cons hinfinity .nil))
    have hfirst : (Score.integer 1).encode = Utf8.encode "1" := by decide +kernel
    have hthree : (Score.integer (-3)).encode = Utf8.encode "-3" := by decide +kernel
    have hinf : (Score.float (.infinity false)).encode = Utf8.encode "inf" := by decide +kernel
    rw [hfirst, hthree, hinf] at hrun
    exact congrFun hrun recorder
  · refine .score (i := 1) rfl rfl ?_ ?_
    · rintro ⟨score, hs⟩
      exact hs.2 (Option.some.inj (hs.1.symm.trans (by decide +kernel)))
    · rintro (_ | j) hj earlier he
      · cases he
        exact ⟨.integer 5, by decide +kernel, by decide⟩
      · omega
  · let typed : Typed .score := ⟨"+1", .integer 1, rfl⟩
    exact ⟨_, (hall ["b"]).2.2.2.2 typed rfl, rfl⟩

end CommandLine
end SortedSetClient
