import SortedSetClient.Proofs.TypedTexts

/-! The subcommands with a text for each argument: what is written for them, which operation is
meant, and that every subcommand makes the request for that operation out of what was written. -/
namespace SortedSetClient.CommandLine

/-! ### Subcommands with their arguments -/

/-- A subcommand with a text for each of its arguments. -/
inductive Line where
  | add (key : String) (score : Typed .score) (member : String)
      (pairs : List (Typed .score × String))
  | card (key : String)
  | countByScore (key : String) (min max : Typed .scoreBound)
  | increment (key : String) (amount : Typed .score) (member : String)
  | countByLex (key : String) (min max : Typed .lexBound)
  | range (direction : Direction) (key : String) (start stop : Typed .signed) (withScores : Bool)
  | rangeByLex (key : String) (min max : Typed .lexBound) (offset count : Option (Typed .signed))
  | rangeByScore (direction : Direction) (key : String) (min max : Typed .scoreBound)
      (withScores : Bool) (offset count : Option (Typed .signed))
  | rank (direction : Direction) (key member : String)
  | remove (key member : String) (more : List String)
  | removeByLex (key : String) (min max : Typed .lexBound)
  | removeByRank (key : String) (start stop : Typed .signed)
  | removeByScore (key : String) (min max : Typed .scoreBound)
  | scoreOf (key member : String)
  | scan (key : String) (cursor : Typed .unsigned) (pattern : Option String)
      (count : Option (Typed .signed))

/-- The texts of scores and members in turn. -/
def pairTexts (pairs : List (Typed .score × String)) : List String :=
  pairs.flatMap fun (score, member) => [score.text, member]

namespace Line

def name : Line → String
  | add .. => "zadd"
  | card .. => "zcard"
  | countByScore .. => "zcount"
  | increment .. => "zincrby"
  | countByLex .. => "zlexcount"
  | range .ascending .. => "zrange"
  | range .descending .. => "zrevrange"
  | rangeByLex .. => "zrangebylex"
  | rangeByScore .ascending .. => "zrangebyscore"
  | rangeByScore .descending .. => "zrevrangebyscore"
  | rank .ascending .. => "zrank"
  | rank .descending .. => "zrevrank"
  | remove .. => "zrem"
  | removeByLex .. => "zremrangebylex"
  | removeByRank .. => "zremrangebyrank"
  | removeByScore .. => "zremrangebyscore"
  | scoreOf .. => "zscore"
  | scan .. => "zscan"

def choices : Line → Choices
  | range _ _ _ _ withScores => { withScores }
  | rangeByLex _ _ _ offset count => { offset, count }
  | rangeByScore _ _ _ _ withScores offset count => { withScores, offset, count }
  | scan _ _ pattern count => { pattern, count }
  | _ => {}

/-- The texts of the positional arguments as they are declared. Only a listing downwards by score
has the upper bound first. -/
def positionals : Line → List String
  | add key score member pairs => key :: score.text :: member :: pairTexts pairs
  | card key => [key]
  | countByScore key min max | rangeByScore .ascending key min max .. | removeByScore key min max =>
    [key, min.text, max.text]
  | rangeByScore .descending key min max .. => [key, max.text, min.text]
  | countByLex key min max | rangeByLex key min max .. | removeByLex key min max =>
    [key, min.text, max.text]
  | increment key amount member => [key, amount.text, member]
  | range _ key start stop _ | removeByRank key start stop => [key, start.text, stop.text]
  | rank _ key member | scoreOf key member => [key, member]
  | remove key member more => key :: member :: more
  | scan key cursor .. => [key, cursor.text]

/-- What stands for the last positional arguments where they are left out. -/
def defaults : Line → List String
  | countByScore .. | rangeByScore .ascending .. | removeByScore .. => ["-inf", "+inf"]
  | rangeByScore .descending .. => ["+inf", "-inf"]
  | countByLex .. | rangeByLex .. => ["-", "+"]
  | range .ascending .. => ["0", "-1"]
  | scan .. => ["0"]
  | _ => []

/-- What the library is asked with the values of the texts. -/
def operation : Line → Operation
  | add key score member pairs =>
    .add (Utf8.encode key) score.value (Utf8.encode member)
      (pairs.map fun (score, member) => (score.value, Utf8.encode member))
  | card key => .card (Utf8.encode key)
  | countByScore key min max => .countByScore (Utf8.encode key) min.value max.value
  | increment key amount member => .increment (Utf8.encode key) amount.value (Utf8.encode member)
  | countByLex key min max => .countByLex (Utf8.encode key) min.value max.value
  | range direction key start stop withScores =>
    .range direction (Utf8.encode key) start.value stop.value withScores
  | rangeByLex key min max offset count =>
    .rangeByLex (Utf8.encode key) min.value max.value (offset.map (·.value)) (count.map (·.value))
  | rangeByScore direction key min max withScores offset count =>
    .rangeByScore direction (Utf8.encode key) min.value max.value
      { withScores, offset := offset.map (·.value), count := count.map (·.value) }
  | rank direction key member => .rank direction (Utf8.encode key) (Utf8.encode member)
  | remove key member more =>
    .remove (Utf8.encode key) (Utf8.encode member) (more.map Utf8.encode)
  | removeByLex key min max => .removeByLex (Utf8.encode key) min.value max.value
  | removeByRank key start stop => .removeByRank (Utf8.encode key) start.value stop.value
  | removeByScore key min max => .removeByScore (Utf8.encode key) min.value max.value
  | scoreOf key member => .scoreOf (Utf8.encode key) (Utf8.encode member)
  | scan key cursor pattern count =>
    .scan (Utf8.encode key) cursor.value (pattern.map Utf8.encode) (count.map (·.value))

/-! ### What is written, as words for the arguments -/

def subcommand : Line → Subcommand
  | add .. => .add
  | card .. => .card
  | countByScore .. => .countByScore
  | increment .. => .increment
  | countByLex .. => .countByLex
  | range .ascending .. => .range
  | range .descending .. => .revRange
  | rangeByLex .. => .rangeByLex
  | rangeByScore .ascending .. => .rangeByScore
  | rangeByScore .descending .. => .revRangeByScore
  | rank .ascending .. => .rank
  | rank .descending .. => .revRank
  | remove .. => .remove
  | removeByLex .. => .removeByLex
  | removeByRank .. => .removeByRank
  | removeByScore .. => .removeByScore
  | scoreOf .. => .scoreOf
  | scan .. => .scan

theorem name_subcommand (line : Line) : line.subcommand.name = line.name := by
  fun_cases name line <;> rfl

theorem subcommand_mem (line : Line) : line.subcommand ∈ Subcommand.all := by
  fun_cases subcommand line <;> simp [Subcommand.all]

theorem option_mem (line : Line) :
    ∀ setting ∈ line.choices.settings, setting.option ∈ line.subcommand.grammar.options := by
  cases line with
  | range direction key start stop withScores =>
    cases direction with
    | ascending =>
      exact Choices.option_mem _ Subcommand.range.grammar.options (fun _ => by decide) nofun
        nofun nofun
    | descending =>
      exact Choices.option_mem _ Subcommand.revRange.grammar.options (fun _ => by decide) nofun
        nofun nofun
  | rangeByLex =>
    exact Choices.option_mem _ Subcommand.rangeByLex.grammar.options nofun (fun _ => by decide)
      (fun _ => by decide) nofun
  | rangeByScore direction =>
    cases direction with
    | ascending =>
      exact Choices.option_mem _ Subcommand.rangeByScore.grammar.options (fun _ => by decide)
        (fun _ => by decide) (fun _ => by decide) nofun
    | descending =>
      exact Choices.option_mem _ Subcommand.revRangeByScore.grammar.options (fun _ => by decide)
        (fun _ => by decide) (fun _ => by decide) nofun
  | scan =>
    exact Choices.option_mem _ Subcommand.scan.grammar.options nofun nofun (fun _ => by decide)
      (fun _ => by decide)
  | _ => exact Choices.option_mem _ _ nofun nofun nofun nofun

end Line

def keyWord (key : String) : Word := .of Subcommand.key (.plain key)

def memberWord (member : String) : Word := .of Subcommand.member (.plain member)

/-- A word for the argument that takes all further pairs. -/
def pairWord (text : String) : Word :=
  .of { name := "pairs", hyphens := true, repeated := true } (.plain text)

/-- A word for the argument that takes all further members. -/
def furtherWord (member : String) : Word :=
  .of { name := "members", repeated := true } (.plain member)

def cursorWord (cursor : Typed .unsigned) : Word :=
  .of { name := "cursor", type := .unsigned } cursor

def addWords (key : String) (score : Typed .score) (member : String) (texts : List String) :
    List Word :=
  keyWord key :: .of (Subcommand.hyphened "score" .score) score :: memberWord member ::
    texts.map pairWord

/-- All words that are written for a line if nothing is left out. -/
def Line.words : Line → List Word
  | add key score member pairs => addWords key score member (pairTexts pairs)
  | card key => [keyWord key]
  | countByScore key min max | rangeByScore .ascending key min max .. | removeByScore key min max =>
    [keyWord key, .of Subcommand.minScore min, .of Subcommand.maxScore max]
  | rangeByScore .descending key min max .. =>
    [keyWord key, .of Subcommand.maxScore max, .of Subcommand.minScore min]
  | countByLex key min max | rangeByLex key min max .. | removeByLex key min max =>
    [keyWord key, .of Subcommand.minLex min, .of Subcommand.maxLex max]
  | increment key amount member =>
    [keyWord key, .of (Subcommand.hyphened "increment" .score) amount, memberWord member]
  | range _ key start stop _ | removeByRank key start stop =>
    [keyWord key, .of Subcommand.start start, .of Subcommand.stop stop]
  | rank _ key member | scoreOf key member => [keyWord key, memberWord member]
  | remove key member more => keyWord key :: memberWord member :: more.map furtherWord
  | scan key cursor .. => [keyWord key, cursorWord cursor]

private theorem inOrder_repeated {positional : Positional} (h : positional.repeated = true)
    (make : String → Word) (hm : ∀ text, (make text).positional = positional)
    (texts : List String) : InOrder [positional] (texts.map make) := by
  induction texts with
  | nil => exact .done
  | cons text texts ih =>
    refine .next (hm text) ?_
    rw [if_pos h]
    exact ih

theorem inOrder_addWords (key : String) (score : Typed .score) (member : String)
    (texts : List String) :
    InOrder Subcommand.add.grammar.positionals (addWords key score member texts) :=
  .next rfl (.next rfl (.next rfl (inOrder_repeated rfl pairWord (fun _ => rfl) texts)))

theorem Line.inOrder_words (line : Line) :
    InOrder line.subcommand.grammar.positionals line.words := by
  cases line with
  | add key score member pairs => exact inOrder_addWords key score member (pairTexts pairs)
  | remove key member more =>
    exact .next rfl (.next rfl (inOrder_repeated rfl furtherWord (fun _ => rfl) more))
  | card key => exact .next rfl .done
  | scan key cursor => exact .next rfl (.next rfl .done)
  | scoreOf key member => exact .next rfl (.next rfl .done)
  | rank direction key member => cases direction <;> exact .next rfl (.next rfl .done)
  | range direction key start stop =>
    cases direction <;> exact .next rfl (.next rfl (.next rfl .done))
  | rangeByScore direction key min max =>
    cases direction <;> exact .next rfl (.next rfl (.next rfl .done))
  | _ => exact .next rfl (.next rfl (.next rfl .done))

theorem Line.text_words (line : Line) : line.words.map (·.text) = line.positionals := by
  fun_cases words line <;>
    simp [addWords, positionals, keyWord, memberWord, pairWord, furtherWord, cursorWord, Word.of,
      Typed.plain, Function.comp_def]

/-! ### Arguments that may be left out -/

section Ends
variable {choices : Choices} {values : Values} {front back : List Word} {key : String}

/-- Words at the end may be left out where the defaults have the same texts. -/
theorem omitted_cases {a b c : Word} {x y : String} (hw : [a, b, c] = front ++ back)
    (hb : (back.map (·.text)) <:+ [x, y]) :
    front = [a, b, c] ∨ front = [a, b] ∧ c.text = y ∨ front = [a] ∧ b.text = x ∧ c.text = y := by
  rcases front with _ | ⟨_, _ | ⟨_, _ | ⟨_, front⟩⟩⟩
  · rw [List.nil_append] at hw
    subst hw
    exact absurd hb.length_le (by simp)
  · cases hw
    obtain ⟨hx, hy⟩ : b.text = x ∧ c.text = y := by
      simpa using hb.eq_of_length rfl
    exact .inr (.inr ⟨rfl, hx, hy⟩)
  · cases hw
    rcases List.suffix_cons_iff.mp hb with he | hb
    · simp at he
    · exact .inr (.inl ⟨rfl, by simpa using hb.eq_of_length rfl⟩)
  · obtain ⟨rfl, rfl, rfl, hrest⟩ : a = _ ∧ b = _ ∧ c = _ ∧ [] = front ++ back := by
      simpa using hw
    obtain ⟨rfl, -⟩ := List.append_eq_nil_iff.mp hrest.symm
    exact .inl rfl

/-- Nothing is left out where nothing has a default. -/
private theorem front_eq {words : List Word} (hw : words = front ++ back)
    (hb : (back.map (·.text)) <:+ []) : front = words := by
  obtain rfl := List.map_eq_nil_iff.mp (List.suffix_nil.mp hb)
  rw [hw, List.append_nil]

theorem keyOf_eq {more : List Word} (hv : Holds choices (keyWord key :: more) values) :
    Subcommand.keyOf values = some (Utf8.encode key) := by
  rw [Subcommand.keyOf, Values.text?, hv.lookup "key" (by decide)]
  rfl

/-- Under a name this value is found; or nothing is, and the text of the value is the default. -/
def Supplies (values : Values) (name : String) (value : ArgValue) (text default : String) : Prop :=
  values.lookup name = some value ∨ values.lookup name = none ∧ text = default

/-- Two arguments behind the key, each written or left out. -/
theorem Holds.ends (hv : Holds choices front values) {a b : Word} {x y : String}
    (hd : ("key" :: a.positional.name :: b.positional.name :: optionNames).Nodup)
    (hw : [keyWord key, a, b] = front ++ back) (hb : (back.map (·.text)) <:+ [x, y]) :
    Subcommand.keyOf values = some (Utf8.encode key) ∧
      Supplies values a.positional.name a.value a.text x ∧
      Supplies values b.positional.name b.value b.text y := by
  obtain ⟨hk, hd⟩ := List.nodup_cons.mp hd
  obtain ⟨ha, hd⟩ := List.nodup_cons.mp hd
  obtain ⟨hb', -⟩ := List.nodup_cons.mp hd
  have hak : (a.positional.name == "key") = false := beq_false_of_ne fun he => hk (by simp [he])
  have hbk : (b.positional.name == "key") = false := beq_false_of_ne fun he => hk (by simp [he])
  have hba : (b.positional.name == a.positional.name) = false :=
    beq_false_of_ne fun he => ha (by simp [he])
  have hfirst := hv.lookup _ fun hm => ha (List.mem_cons_of_mem _ hm)
  have hsecond := hv.lookup _ hb'
  have hkey : (keyWord key).positional.name = "key" := rfl
  unfold Supplies
  rw [hfirst, hsecond]
  rcases omitted_cases hw hb with rfl | ⟨rfl, hy⟩ | ⟨rfl, hx, hy⟩
  · refine ⟨keyOf_eq hv, .inl ?_, .inl ?_⟩
    · simp [Word.entry, List.lookup_cons, hkey, hak]
    · simp [Word.entry, List.lookup_cons, hkey, hbk, hba]
  · refine ⟨keyOf_eq hv, .inl ?_, .inr ⟨?_, hy⟩⟩
    · simp [Word.entry, List.lookup_cons, hkey, hak]
    · simp [Word.entry, List.lookup_cons, hkey, hbk, hba]
  · refine ⟨keyOf_eq hv, .inr ⟨?_, hx⟩, .inr ⟨?_, hy⟩⟩
    · simp [Word.entry, List.lookup_cons, hkey, hak]
    · simp [Word.entry, List.lookup_cons, hkey, hbk]

/-- One argument behind the key, written or left out. -/
theorem Holds.cursorEnd (hv : Holds choices front values) {cursor : Typed .unsigned} {x : String}
    (hw : [keyWord key, cursorWord cursor] = front ++ back) (hb : (back.map (·.text)) <:+ [x]) :
    Subcommand.keyOf values = some (Utf8.encode key) ∧
      Supplies values "cursor" (.unsigned cursor.value) cursor.text x := by
  unfold Supplies
  rw [hv.lookup "cursor" (by decide)]
  rcases front with _ | ⟨_, _ | ⟨_, front⟩⟩
  · rw [List.nil_append] at hw
    subst hw
    exact absurd hb.length_le (by simp)
  · cases hw
    have hc : [cursor.text] = [x] := hb.eq_of_length rfl
    exact ⟨keyOf_eq hv, .inr ⟨rfl, (List.cons.inj hc).1⟩⟩
  · obtain ⟨rfl, rfl, -⟩ : _ = _ ∧ _ = _ ∧ [] = front ++ back := by
      simpa using hw
    exact ⟨keyOf_eq hv, .inl rfl⟩

end Ends

section Defaults
variable {values : Values} {name text : String}

theorem scoreBound?_getD {bound : Typed .scoreBound} {default : ScoreBound}
    (h : Supplies values name (.scoreBound bound.value) bound.text text)
    (hd : ValueType.parse? .scoreBound text = some default) :
    (values.scoreBound? name).getD default = bound.value := by
  rw [Values.scoreBound?]
  rcases h with hl | ⟨hl, ht⟩ <;> rw [hl]
  · rfl
  · exact (bound.value_eq ht hd).symm

theorem lexBound?_getD {bound : Typed .lexBound} {default : LexBound}
    (h : Supplies values name (.lexBound bound.value) bound.text text)
    (hd : ValueType.parse? .lexBound text = some default) :
    (values.lexBound? name).getD default = bound.value := by
  rw [Values.lexBound?]
  rcases h with hl | ⟨hl, ht⟩ <;> rw [hl]
  · rfl
  · exact (bound.value_eq ht hd).symm

theorem signed?_getD {n : Typed .signed} {default : Int64}
    (h : Supplies values name (.signed n.value) n.text text)
    (hd : ValueType.parse? .signed text = some default) :
    (values.signed? name).getD default = n.value := by
  rw [Values.signed?]
  rcases h with hl | ⟨hl, ht⟩ <;> rw [hl]
  · rfl
  · exact (n.value_eq ht hd).symm

theorem unsigned?_getD {n : Typed .unsigned} {default : UInt64}
    (h : Supplies values name (.unsigned n.value) n.text text)
    (hd : ValueType.parse? .unsigned text = some default) :
    (values.unsigned? name).getD default = n.value := by
  rw [Values.unsigned?]
  rcases h with hl | ⟨hl, ht⟩ <;> rw [hl]
  · rfl
  · exact (n.value_eq ht hd).symm

end Defaults

section Bounds
variable {choices : Choices} {values : Values} {front back : List Word} {key : String}

/-- Two bounds by score, in whichever order they stand. -/
theorem scoreEnds (hv : Holds choices front values) {min max : Typed .scoreBound}
    (h : [keyWord key, .of Subcommand.minScore min, .of Subcommand.maxScore max] = front ++ back ∧
        (back.map (·.text)) <:+ ["-inf", "+inf"] ∨
      [keyWord key, .of Subcommand.maxScore max, .of Subcommand.minScore min] = front ++ back ∧
        (back.map (·.text)) <:+ ["+inf", "-inf"]) :
    Subcommand.keyOf values = some (Utf8.encode key) ∧
      Subcommand.minScoreOf values = min.value ∧ Subcommand.maxScoreOf values = max.value := by
  rcases h with ⟨hw, hb⟩ | ⟨hw, hb⟩
  · obtain ⟨hkey, hmin, hmax⟩ :=
      hv.ends (show ("key" :: "min" :: "max" :: optionNames).Nodup by decide) hw hb
    exact ⟨hkey, scoreBound?_getD hmin rfl, scoreBound?_getD hmax rfl⟩
  · obtain ⟨hkey, hmax, hmin⟩ :=
      hv.ends (show ("key" :: "max" :: "min" :: optionNames).Nodup by decide) hw hb
    exact ⟨hkey, scoreBound?_getD hmin rfl, scoreBound?_getD hmax rfl⟩

/-- Two bounds in lexicographical order. -/
theorem lexEnds (hv : Holds choices front values) {min max : Typed .lexBound}
    (hw : [keyWord key, .of Subcommand.minLex min, .of Subcommand.maxLex max] = front ++ back)
    (hb : (back.map (·.text)) <:+ ["-", "+"]) :
    Subcommand.keyOf values = some (Utf8.encode key) ∧
      Subcommand.minLexOf values = min.value ∧ Subcommand.maxLexOf values = max.value := by
  obtain ⟨hkey, hmin, hmax⟩ :=
    hv.ends (show ("key" :: "min" :: "max" :: optionNames).Nodup by decide) hw hb
  exact ⟨hkey, lexBound?_getD hmin rfl, lexBound?_getD hmax rfl⟩

end Bounds

/-! ### The requests -/

section Requests
variable {choices : Choices} {values : Values} {key member : String}

theorem memberOf_eq {more : List Word}
    (hv : Holds choices (keyWord key :: memberWord member :: more) values) :
    Subcommand.memberOf values = some (Utf8.encode member) := by
  rw [Subcommand.memberOf, Values.text?, hv.lookup "member" (by decide)]
  rfl

theorem request?_addWords {score : Typed .score} {texts : List String}
    (hv : Holds choices (addWords key score member texts) values) :
    Subcommand.add.request? values = some (.add key score.value member texts) := by
  have hkey : values.lookup "key" = some (.text key) := hv.lookup "key" (by decide)
  have hscore : values.lookup "score" = some (.score score.value) := hv.lookup "score" (by decide)
  have hmember : values.lookup "member" = some (.text member) := hv.lookup "member" (by decide)
  have hpairs : values.texts "pairs" = texts := by
    rw [hv.texts "pairs" (by decide), addWords, List.map_cons, List.map_cons, List.map_cons,
      texts_cons (show "key" ≠ "pairs" by decide), texts_cons (show "score" ≠ "pairs" by decide),
      texts_cons (show "member" ≠ "pairs" by decide)]
    exact texts_map (fun _ => rfl) texts
  simp [Subcommand.add, Values.text?, Values.score?, hkey, hscore, hmember, hpairs]

end Requests

namespace Line

/-- The request that a line is: the scores of further pairs stay text. -/
def request : Line → Request
  | add key score member pairs => .add key score.value member (pairTexts pairs)
  | line => .call line.operation

/-- A subcommand makes the request of a line out of what is written, whether or not words that have
defaults are left out. -/
theorem request?_eq (line : Line) {front back : List Word} {values : Values}
    (hv : Holds line.choices front values) (hw : line.words = front ++ back)
    (hb : (back.map (·.text)) <:+ line.defaults) :
    line.subcommand.request? values = some line.request := by
  cases line with
  | countByScore key min max =>
    obtain ⟨hkey, hmin, hmax⟩ := scoreEnds hv (.inl ⟨hw, hb⟩)
    simp [subcommand, Subcommand.countByScore, Subcommand.make, hkey, hmin, hmax, request,
      operation]
  | removeByScore key min max =>
    obtain ⟨hkey, hmin, hmax⟩ := scoreEnds hv (.inl ⟨hw, hb⟩)
    simp [subcommand, Subcommand.removeByScore, Subcommand.make, hkey, hmin, hmax, request,
      operation]
  | rangeByScore direction key min max withScores offset count =>
    cases direction with
    | ascending =>
      obtain ⟨hkey, hmin, hmax⟩ := scoreEnds hv (.inl ⟨hw, hb⟩)
      simp [subcommand, Subcommand.rangeByScore, Subcommand.make, Subcommand.rangeOptionsOf, hkey,
        hmin, hmax, hv.withScores, hv.offset, hv.count, choices, request, operation]
    | descending =>
      obtain ⟨hkey, hmin, hmax⟩ := scoreEnds hv (.inr ⟨hw, hb⟩)
      simp [subcommand, Subcommand.revRangeByScore, Subcommand.make, Subcommand.rangeOptionsOf,
        hkey, hmin, hmax, hv.withScores, hv.offset, hv.count, choices, request, operation]
  | countByLex key min max =>
    obtain ⟨hkey, hmin, hmax⟩ := lexEnds hv hw hb
    simp [subcommand, Subcommand.countByLex, Subcommand.make, hkey, hmin, hmax, request, operation]
  | rangeByLex key min max offset count =>
    obtain ⟨hkey, hmin, hmax⟩ := lexEnds hv hw hb
    simp [subcommand, Subcommand.rangeByLex, Subcommand.make, hkey, hmin, hmax, hv.offset,
      hv.count, choices, request, operation]
  | removeByLex key min max =>
    obtain rfl := front_eq hw hb
    have hmin : values.lookup "min" = some (.lexBound min.value) := hv.lookup "min" (by decide)
    have hmax : values.lookup "max" = some (.lexBound max.value) := hv.lookup "max" (by decide)
    simp [subcommand, Subcommand.removeByLex, Subcommand.make, keyOf_eq hv, Values.lexBound?,
      hmin, hmax, request, operation]
  | range direction key start stop withScores =>
    cases direction with
    | ascending =>
      obtain ⟨hkey, hstart, hstop⟩ :=
        hv.ends (show ("key" :: "start" :: "stop" :: optionNames).Nodup by decide) hw hb
      have hstart : (values.signed? "start").getD 0 = start.value := signed?_getD hstart rfl
      have hstop : (values.signed? "stop").getD (-1) = stop.value := signed?_getD hstop rfl
      simp [subcommand, Subcommand.range, Subcommand.make, hkey, hstart, hstop, hv.withScores,
        choices, request, operation]
    | descending =>
      obtain rfl := front_eq hw hb
      have hstart : values.lookup "start" = some (.signed start.value) :=
        hv.lookup "start" (by decide)
      have hstop : values.lookup "stop" = some (.signed stop.value) := hv.lookup "stop" (by decide)
      simp [subcommand, Subcommand.revRange, Subcommand.make, keyOf_eq hv, Values.signed?, hstart,
        hstop, hv.withScores, choices, request, operation]
  | removeByRank key start stop =>
    obtain rfl := front_eq hw hb
    have hstart : values.lookup "start" = some (.signed start.value) :=
      hv.lookup "start" (by decide)
    have hstop : values.lookup "stop" = some (.signed stop.value) := hv.lookup "stop" (by decide)
    simp [subcommand, Subcommand.removeByRank, Subcommand.make, keyOf_eq hv, Values.signed?,
      hstart, hstop, request, operation]
  | scan key cursor pattern count =>
    obtain ⟨hkey, hcursor⟩ := hv.cursorEnd hw hb
    have hcursor : (values.unsigned? "cursor").getD 0 = cursor.value := unsigned?_getD hcursor rfl
    simp [subcommand, Subcommand.scan, Subcommand.make, hkey, hcursor, hv.pattern, hv.count,
      choices, request, operation]
  | add key score member pairs =>
    obtain rfl := front_eq hw hb
    exact request?_addWords hv
  | remove key member more =>
    obtain rfl := front_eq hw hb
    have hmore : values.texts "members" = more := by
      rw [hv.texts "members" (by decide), words, List.map_cons, List.map_cons,
        texts_cons (show "key" ≠ "members" by decide),
        texts_cons (show "member" ≠ "members" by decide)]
      exact texts_map (fun _ => rfl) more
    simp [subcommand, Subcommand.remove, Subcommand.make, keyOf_eq hv, memberOf_eq hv, hmore,
      request, operation]
  | increment key amount member =>
    obtain rfl := front_eq hw hb
    have hamount : values.lookup "increment" = some (.score amount.value) :=
      hv.lookup "increment" (by decide)
    have hmember : values.lookup "member" = some (.text member) := hv.lookup "member" (by decide)
    simp [subcommand, Subcommand.increment, Subcommand.make, keyOf_eq hv, Subcommand.memberOf,
      Values.text?, Values.score?, hamount, hmember, request, operation]
  | rank direction key member =>
    obtain rfl := front_eq hw hb
    cases direction <;>
      simp [subcommand, Subcommand.rank, Subcommand.revRank, Subcommand.make, keyOf_eq hv,
        memberOf_eq hv, request, operation]
  | scoreOf key member =>
    obtain rfl := front_eq hw hb
    simp [subcommand, Subcommand.scoreOf, Subcommand.make, keyOf_eq hv, memberOf_eq hv, request,
      operation]
  | card key =>
    obtain rfl := front_eq hw hb
    simp [subcommand, Subcommand.card, Subcommand.make, keyOf_eq hv, request, operation]

end Line
end SortedSetClient.CommandLine
