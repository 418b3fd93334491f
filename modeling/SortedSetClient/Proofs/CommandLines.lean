import SortedSetClient.Program
import SortedSetClient.Recorder
import SortedSetClient.Proofs.ErrorKinds
import SortedSetClient.Proofs.SubcommandRequests

/-! Whole command lines: a subcommand, its options, two hyphens, and texts in the order in which the
arguments are declared. They are understood, and the program does for them what it does for the
operation that is meant. -/
namespace SortedSetClient.CommandLine
open Resp (Value)

/-- The arguments of the program: a subcommand, what is chosen, and texts behind two hyphens. -/
def arguments (name : String) (settings : List Setting) (texts : List String) : List Bytes :=
  (name :: settings.map Setting.token ++ "--" :: texts).map Utf8.encode

/-! ### Reading -/

namespace Subcommand

theorem plain {subcommand : Subcommand} (h : subcommand ∈ all) : subcommand.grammar.Plain := by
  have hall : ∀ subcommand ∈ all, subcommand.grammar.Plain := by decide
  exact hall subcommand h

theorem find?_name {subcommand : Subcommand} (h : subcommand ∈ all) :
    all.find? (·.name = subcommand.name) = some subcommand := by
  have hnodup : (all.map (·.name)).Nodup := by decide
  refine find?_eq_some_of_unique h (decide_eq_true rfl) fun other ho he => ?_
  exact List.inj_on_of_nodup_map hnodup ho h (of_decide_eq_true he)

/-- A subcommand gives the request that it makes of any values in which the settings and the words
are found. -/
theorem read_arguments {subcommand : Subcommand} (h : subcommand ∈ all) {choices : Choices}
    {settings : List Setting} {words : List Word} {request : Request}
    (hs : settings.Perm choices.settings)
    (ho : ∀ setting ∈ choices.settings, setting.option ∈ subcommand.grammar.options)
    (hw : InOrder subcommand.grammar.positionals words)
    (hr : ∀ values, Holds choices words values → subcommand.request? values = some request) :
    subcommand.read (settings.map (Utf8.encode ·.token) ++
      Utf8.encode "--" :: words.map (Utf8.encode ·.text)) = .ok request := by
  have hnodup : (settings.map (·.option.name)).Nodup :=
    (hs.map _).nodup_iff.mpr choices.nodup_settings
  have hread := (plain h).read_eq (fun setting hm => ho setting (hs.subset hm)) hnodup hw
  have hnamed : ∀ word ∈ words, word.positional.name ∉ optionNames := by
    have hall : ∀ subcommand ∈ all, ∀ positional ∈ subcommand.grammar.positionals,
        positional.name ∉ optionNames := by decide
    exact fun word hm => hall subcommand h _ (hw.positional_mem hm)
  have hrequest := hr _ (holds_append hs hnamed)
  simp only [read, hread, bind, Except.bind, hrequest]
  rfl

end Subcommand

/-- Behind the name of a subcommand everything belongs to it. -/
theorem Invocation.read_subcommand {subcommand : Subcommand} (h : subcommand ∈ Subcommand.all)
    {tokens : List Bytes} {request : Request} (hr : subcommand.read tokens = .ok request) :
    Invocation.read (Utf8.encode subcommand.name :: tokens) =
      .ok { config := none, address := none, request } := by
  have hfound : grammar.subcommand? (Utf8.encode subcommand.name) = some subcommand.name := by
    have hm : subcommand.name ∈ grammar.subcommands :=
      List.mem_append_left _ (List.mem_map.mpr ⟨subcommand, h, rfl⟩)
    refine find?_eq_some_of_unique hm (beq_self_eq_true _) fun other _ he => ?_
    exact Utf8.encode_injective (beq_iff_eq.mp he)
  have htokens : Scan.takeTokens grammar { positionals := [] }
      (Utf8.encode subcommand.name :: tokens) =
        .ok ({ positionals := [] }, some (subcommand.name, tokens)) := by
    rw [Scan.takeTokens, hfound]
    rfl
  simp only [Invocation.read, htokens, bind, Except.bind, Subcommand.find?_name h, hr]
  rfl

theorem arguments_words (name : String) (settings : List Setting) (words : List Word) :
    arguments name settings (words.map (·.text)) =
      Utf8.encode name :: (settings.map (Utf8.encode ·.token) ++
        Utf8.encode "--" :: words.map (Utf8.encode ·.text)) := by
  simp [arguments, Function.comp_def]

/-- The arguments that are written for a line are read as its request. -/
theorem Line.read_arguments (line : Line) {settings : List Setting} {written omitted : List String}
    (hs : settings.Perm line.choices.settings) (hw : line.positionals = written ++ omitted)
    (ho : omitted <:+ line.defaults) :
    Invocation.read (arguments line.name settings written) =
      .ok { config := none, address := none, request := line.request } := by
  rw [← line.text_words] at hw
  obtain ⟨front, back, hwords, rfl, rfl⟩ := List.map_eq_append_iff.mp hw
  have horder : InOrder line.subcommand.grammar.positionals front :=
    InOrder.of_append (hwords ▸ line.inOrder_words)
  rw [arguments_words, ← line.name_subcommand]
  refine Invocation.read_subcommand line.subcommand_mem ?_
  refine Subcommand.read_arguments line.subcommand_mem hs line.option_mem horder ?_
  exact fun values hv => line.request?_eq hv hwords ho

/-- Any texts at all are read as further pairs. -/
theorem read_addArguments (key : String) (score : Typed .score) (member : String)
    (texts : List String) :
    Invocation.read (arguments "zadd" [] (key :: score.text :: member :: texts)) =
      .ok { config := none, address := none, request := .add key score.value member texts } := by
  have htexts : key :: score.text :: member :: texts =
      (addWords key score member texts).map (·.text) := by
    simp [addWords, keyWord, memberWord, pairWord, Word.of, Typed.plain, Function.comp_def]
  have hmem : Subcommand.add ∈ Subcommand.all := List.mem_cons_self
  have hread := Subcommand.read_arguments hmem (.refl (Choices.settings {})) (List.forall_mem_nil _)
    (inOrder_addWords key score member texts) fun values hv => request?_addWords hv
  rw [htexts, arguments_words]
  exact Invocation.read_subcommand hmem hread

/-! ### Further pairs -/

theorem Typed.read_score (typed : Typed .score) : Score.read typed.text = .ok typed.value := by
  have hreads : (Score.read typed.text).toOption = some typed.value := typed.reads
  cases hr : Score.read typed.text with
  | error error => rw [hr] at hreads; cases hreads
  | ok score => rw [hr] at hreads; cases hreads; rfl

namespace Request

theorem readPairs_odd {texts : List String} (h : texts.length % 2 = 1) :
    readPairs texts = .error (.invalidArgument .unpairedScore) := if_pos h

theorem readPairs_cons (text member : String) (texts : List String)
    (h : texts.length % 2 ≠ 1) :
    readPairs (text :: member :: texts) = do
      let score ← Score.read text
      let pairs ← readPairs texts
      return (score, Utf8.encode member) :: pairs := by
  have h' : (text :: member :: texts).length % 2 ≠ 1 := by
    rw [List.length_cons, List.length_cons]
    omega
  rw [readPairs, readPairs, if_neg h, if_neg h', pairUp, List.mapM_cons]
  simp only [bind_assoc, pure_bind]

private theorem even_pairTexts (pairs : List (Typed .score × String)) :
    (pairTexts pairs).length % 2 ≠ 1 := by
  induction pairs with
  | nil => decide
  | cons pair pairs ih =>
    have hlength : (pairTexts (pair :: pairs)).length = (pairTexts pairs).length + 2 := by
      simp [pairTexts]
    omega

/-- Scores that are read stand with their members. -/
theorem readPairs_pairTexts (pairs : List (Typed .score × String)) :
    readPairs (pairTexts pairs) =
      .ok (pairs.map fun (score, member) => (score.value, Utf8.encode member)) := by
  induction pairs with
  | nil => rfl
  | cons pair pairs ih =>
    have hcons : pairTexts (pair :: pairs) = pair.1.text :: pair.2 :: pairTexts pairs := rfl
    rw [hcons, readPairs_cons _ _ _ (even_pairTexts pairs), pair.1.read_score, ih]
    rfl

/-- Only scores that are read, each with a member, are accepted. -/
theorem exists_pairTexts {texts : List String} {pairs : List (Score × Bytes)}
    (h : readPairs texts = .ok pairs) : ∃ typed, texts = pairTexts typed := by
  have heven : texts.length % 2 ≠ 1 := by
    intro hodd
    rw [readPairs_odd hodd] at h
    cases h
  induction texts using pairUp.induct generalizing pairs with
  | case1 text member texts ih =>
    have hrest : texts.length % 2 ≠ 1 := by
      rw [List.length_cons, List.length_cons] at heven
      omega
    rw [readPairs_cons _ _ _ hrest] at h
    cases hs : Score.read text with
    | error error => rw [hs] at h; cases h
    | ok score =>
      cases hp : readPairs texts with
      | error error => rw [hs, hp] at h; cases h
      | ok rest =>
        obtain ⟨typed, rfl⟩ := ih hp hrest
        have hreads : ValueType.parse? .score text = some score := by
          rw [ValueType.parse?, hs]
          rfl
        exact ⟨(⟨text, score, hreads⟩, member) :: typed, rfl⟩
  | case2 texts hshort =>
    rcases texts with _ | ⟨text, _ | ⟨member, texts⟩⟩
    · exact ⟨[], rfl⟩
    · exact absurd rfl heven
    · exact absurd rfl (hshort text member texts)

theorem raises_readPairs (texts : List String) :
    Raises (· matches .invalidArgument _) (readPairs texts) := by
  unfold readPairs
  split
  · exact raises_error rfl
  · refine Raises.mapM (fun (text, member) => Raises.bind ?_ fun score => raises_ok _) _
    unfold Score.read
    split
    · split
      · exact raises_error rfl
      · exact raises_ok _
    · exact raises_error rfl

end Request

/-! ### Running -/

theorem Line.run_request {m : Type → Type} [Monad m] (line : Line)
    (execute : Command → m (Except Error Value)) :
    line.request.run execute = line.operation.run execute := by
  cases line with
  | add key score member pairs =>
    rw [request, Request.run, Request.toOperation, Request.readPairs_pairTexts]
    rfl
  | _ => rfl

/-- Where nothing is said of a configuration, the request is served under the default one. -/
theorem run_program {m : Type → Type} [Monad m] [LawfulMonad m] (host : Host m) {args : List Bytes}
    {request : Request} {operation : Operation}
    (hr : Invocation.read args = .ok { config := none, address := none, request })
    (hrun : ∀ execute : Command → m (Except Error Value),
      request.run execute = operation.run execute) :
    Program.run host args = Program.serve host {} (.call operation) := by
  have hcall (execute : Command → m (Except Error Value)) :
      (Request.call operation).run execute = operation.run execute := rfl
  have hserve : Program.serve host {} request = Program.serve host {} (.call operation) := by
    simp only [Program.serve, hrun, hcall]
  rw [Program.run, hr, ← hserve]
  exact pure_bind _ _

/-- Every operation that has a subcommand can be asked for on the command line. Whatever texts stand
behind the two hyphens, with the options before them in any order and with or without the texts that
have defaults, the arguments are read, and carrying them out with anything is carrying out the
operation on the values of the texts; so the program prints its answer. Further pairs that are not
scores with members are refused before anything is sent. -/
theorem command_lines_express_operations :
    (∀ (line : Line) (settings : List Setting) (written omitted : List String),
      settings.Perm line.choices.settings → line.positionals = written ++ omitted →
      omitted <:+ line.defaults →
      ∃ invocation, Invocation.read (arguments line.name settings written) = .ok invocation ∧
        (∀ {m : Type → Type} [Monad m] (execute : Command → m (Except Error Value)),
          invocation.request.run execute = line.operation.run execute) ∧
        ∀ {m : Type → Type} [Monad m] [LawfulMonad m] (host : Host m),
          Program.run host (arguments line.name settings written) =
            Program.serve host {} (.call line.operation)) ∧
    ∀ (key : String) (score : Typed .score) (member : String) (texts : List String),
      (∀ pairs, texts ≠ pairTexts pairs) →
      ∃ invocation fault,
        Invocation.read (arguments "zadd" [] (key :: score.text :: member :: texts)) =
          .ok invocation ∧
        Request.readPairs texts = .error (.invalidArgument fault) ∧
        ∀ {m : Type → Type} [Monad m] (execute : Command → m (Except Error Value)),
          invocation.request.run execute = pure (.error (.invalidArgument fault)) := by
  constructor
  · intro line settings written omitted hs hw ho
    have hread := line.read_arguments hs hw ho
    refine ⟨_, hread, fun execute => line.run_request execute, fun host => ?_⟩
    exact run_program host hread line.run_request
  · intro key score member texts hnot
    have hread := read_addArguments key score member texts
    cases hp : Request.readPairs texts with
    | ok pairs =>
      obtain ⟨typed, htexts⟩ := Request.exists_pairTexts hp
      exact absurd htexts (hnot typed)
    | error error =>
      have hfault := Request.raises_readPairs texts error hp
      cases error with
      | invalidArgument fault =>
        refine ⟨_, fault, hread, rfl, fun execute => ?_⟩
        rw [Request.run, Request.toOperation, hp]
        rfl
      | _ => cases hfault

/-- A range listed downwards of a key that looks like an option, with its options in another order
and its lower bound left out; and further pairs that are odd in number. -/
theorem command_lines_express_operations_hyphens :
    let args := ["zrevrangebyscore", "--count=-1", "--withscores", "--offset=0", "--", "--count=2",
      "(5"].map Utf8.encode
    let odd := ["zadd", "--", "-k", "-1", "-m", "-2.5"].map Utf8.encode
    (∃ invocation, Invocation.read args = .ok invocation ∧
      ∀ execute : Command → StateM Recorder (Except Error Value),
        invocation.request.run execute =
          Operation.run execute (.rangeByScore .descending (Utf8.encode "--count=2") .negInf
            ⟨.integer 5, false⟩ { withScores := true, offset := some 0, count := some (-1) })) ∧
    ∃ invocation, Invocation.read odd = .ok invocation ∧
      ∀ execute : Command → StateM Recorder (Except Error Value),
        invocation.request.run execute = pure (.error (.invalidArgument .unpairedScore)) := by
  intro args odd
  let zero : Typed .signed := ⟨"0", 0, rfl⟩
  let all : Typed .signed := ⟨"-1", -1, rfl⟩
  let least : Typed .scoreBound := ⟨"-inf", .negInf, rfl⟩
  let five : Typed .scoreBound := ⟨"(5", ⟨.integer 5, false⟩, rfl⟩
  let line : Line := .rangeByScore .descending "--count=2" least five true (some zero) (some all)
  have hsettings : [Setting.count all, .withScores, .offset zero].Perm line.choices.settings :=
    (List.perm_append_singleton _ _).symm
  constructor
  · obtain ⟨invocation, hread, hrun, -⟩ := command_lines_express_operations.1 line _
      ["--count=2", "(5"] ["-inf"] hsettings rfl ⟨["+inf"], rfl⟩
    exact ⟨invocation, hread, fun execute => hrun execute⟩
  · have hnot : ∀ pairs, ["-2.5"] ≠ pairTexts pairs := by
      intro pairs h
      cases pairs with
      | nil => cases h
      | cons pair pairs => simp [pairTexts] at h
    obtain ⟨invocation, fault, hread, hpairs, hrun⟩ :=
      command_lines_express_operations.2 "-k" ⟨"-1", .integer (-1), rfl⟩ "-m" ["-2.5"] hnot
    cases hpairs
    exact ⟨invocation, hread, fun execute => hrun execute⟩

end SortedSetClient.CommandLine
