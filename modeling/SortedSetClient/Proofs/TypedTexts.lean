import SortedSetClient.CommandLine.Subcommand
import SortedSetClient.Proofs.TokenReading

/-! Texts that the readers of their types accept, and options that are chosen with such texts. In
whatever order options stand, each is found as it was chosen. -/
namespace SortedSetClient.CommandLine

/-! ### Texts of one type -/

namespace ValueType

/-- What a text of a type stands for. -/
@[reducible] def Carrier : ValueType → Type
  | text => String
  | score => Score
  | scoreBound => ScoreBound
  | lexBound => LexBound
  | signed => Int64
  | unsigned => UInt64

/-- What a text stands for, as the value of an argument. -/
def inject : (type : ValueType) → type.Carrier → ArgValue
  | text => .text
  | score => .score
  | scoreBound => .scoreBound
  | lexBound => .lexBound
  | signed => .signed
  | unsigned => .unsigned

/-- Read a text with the reader of its type. -/
def parse? : (type : ValueType) → String → Option type.Carrier
  | text, content => some content
  | score, content => (Score.read content).toOption
  | scoreBound, content => (ScoreBound.read content).toOption
  | lexBound, content => (LexBound.read content).toOption
  | signed, content => Decimal.int64? (Utf8.encode content)
  | unsigned, content => unsigned? (Utf8.encode content)

private theorem orBad_eq {ε α : Type} {make : α → ArgValue} {result : Except ε α} {a : α}
    (h : result.toOption = some a) : orBad make result = .ok (make a) := by
  cases result with
  | error error => cases h
  | ok found => cases h; rfl

theorem read_of_parse? {type : ValueType} {content : String} {value : type.Carrier}
    (h : type.parse? content = some value) :
    type.read (Utf8.encode content) = .ok (type.inject value) := by
  rw [read, Utf8.decode?_encode]
  cases type with
  | text => cases h; rfl
  | score | scoreBound | lexBound => exact orBad_eq h
  | signed | unsigned => exact congrArg (Option.elim · _ _) h

end ValueType

/-- A text that the reader of its type accepts. -/
structure Typed (type : ValueType) where
  text : String
  value : type.Carrier
  reads : type.parse? text = some value

/-- Any text at all. -/
def Typed.plain (text : String) : Typed .text := ⟨text, text, rfl⟩

theorem Typed.value_eq {type : ValueType} (typed : Typed type) {text : String}
    {value : type.Carrier} (h : typed.text = text) (hv : type.parse? text = some value) :
    typed.value = value := by
  subst h
  exact Option.some.inj (typed.reads.symm.trans hv)

/-- A text for a positional argument of its type. -/
def Word.of (positional : Positional) (text : Typed positional.type) : Word where
  positional := positional
  text := text.text
  value := positional.type.inject text.value
  reads := ValueType.read_of_parse? text.reads

/-! ### The options of the subcommands -/

namespace Setting

def withScores : Setting := ⟨Subcommand.withScores, none, .given, .alone⟩

/-- An option with a text of its type attached. -/
def attached (option : NamedOption) {type : ValueType} (h : option.role = .value type)
    (typed : Typed type) : Setting where
  option := option
  text := typed.text
  value := type.inject typed.value
  reads := h ▸ .attached (ValueType.read_of_parse? typed.reads)

def offset (n : Typed .signed) : Setting := attached Subcommand.offset rfl n

def count (n : Typed .signed) : Setting := attached Subcommand.count rfl n

def pattern (text : String) : Setting := attached Subcommand.pattern rfl (.plain text)

end Setting

/-- The names of all options that have to do with a command. -/
def optionNames : List String := ["withscores", "offset", "count", "match"]

/-- The options that are chosen. -/
structure Choices where
  withScores : Bool := false
  offset : Option (Typed .signed) := none
  count : Option (Typed .signed) := none
  pattern : Option String := none

/-- The options that are chosen, in one order. -/
def Choices.settings (choices : Choices) : List Setting :=
  (if choices.withScores then [.withScores] else []) ++ (choices.offset.map .offset).toList ++
    (choices.count.map .count).toList ++ (choices.pattern.map .pattern).toList

/-! ### What is found under the names of options -/

/-- Under each name at most one value is found, wherever it stands. -/
theorem lookup_eq_some_iff_mem {values : Values} (h : (values.map (·.1)).Nodup) {name : String}
    {value : ArgValue} : values.lookup name = some value ↔ (name, value) ∈ values := by
  induction values with
  | nil => simp
  | cons first values ih =>
    obtain ⟨found, other⟩ := first
    obtain ⟨hnot, h⟩ := List.nodup_cons.mp h
    rw [List.lookup_cons, List.mem_cons]
    by_cases he : name = found
    · subst he
      have hnone : (name, value) ∉ values := fun hm => hnot (List.mem_map.mpr ⟨_, hm, rfl⟩)
      simp [hnone, eq_comm]
    · rw [beq_false_of_ne he]
      simp [ih h, he]

/-- The order of options does not matter. -/
theorem lookup_perm {values others : Values} (hp : values.Perm others)
    (h : (others.map (·.1)).Nodup) (name : String) : values.lookup name = others.lookup name := by
  have hv : (values.map (·.1)).Nodup := (hp.map _).nodup_iff.mpr h
  refine Option.ext fun value => ?_
  rw [lookup_eq_some_iff_mem hv, lookup_eq_some_iff_mem h, hp.mem_iff]

namespace Choices

variable (choices : Choices)

private theorem names_toList {α : Type} (make : α → Setting) {name : String}
    (h : ∀ a, (make a).option.name = name) (chosen : Option α) :
    ((chosen.map make).toList.map (·.option.name)).Sublist [name] := by
  cases chosen with
  | none => exact List.nil_sublist _
  | some a => rw [← h a]; exact List.Sublist.refl _

theorem names_settings :
    (choices.settings.map (·.option.name)).Sublist optionNames := by
  have hflag : ((if choices.withScores then [Setting.withScores] else []).map
      (·.option.name)).Sublist ["withscores"] := by
    split
    · exact List.Sublist.refl _
    · exact List.nil_sublist _
  have hoffset : ((choices.offset.map Setting.offset).toList.map
      (·.option.name)).Sublist ["offset"] := names_toList .offset (fun _ => rfl) _
  have hcount : ((choices.count.map Setting.count).toList.map
      (·.option.name)).Sublist ["count"] := names_toList .count (fun _ => rfl) _
  have hpattern : ((choices.pattern.map Setting.pattern).toList.map
      (·.option.name)).Sublist ["match"] := names_toList .pattern (fun _ => rfl) _
  rw [settings, List.map_append, List.map_append, List.map_append]
  exact ((hflag.append hoffset).append hcount).append hpattern

/-- Only what is chosen is among the settings. -/
theorem option_mem (options : List NamedOption)
    (hw : choices.withScores = true → Subcommand.withScores ∈ options)
    (ho : choices.offset.isSome = true → Subcommand.offset ∈ options)
    (hc : choices.count.isSome = true → Subcommand.count ∈ options)
    (hp : choices.pattern.isSome = true → Subcommand.pattern ∈ options) :
    ∀ setting ∈ choices.settings, setting.option ∈ options := by
  intro setting hm
  rw [settings, List.mem_append, List.mem_append, List.mem_append] at hm
  simp only [Option.mem_toList, Option.map_eq_some_iff] at hm
  rcases hm with ((hm | ⟨n, hn, rfl⟩) | ⟨n, hn, rfl⟩) | ⟨text, ht, rfl⟩
  · obtain ⟨hgiven, hm⟩ := List.mem_ite_nil_right.mp hm
    rw [List.mem_singleton.mp hm]
    exact hw hgiven
  · exact ho (Option.isSome_of_eq_some hn)
  · exact hc (Option.isSome_of_eq_some hn)
  · exact hp (Option.isSome_of_eq_some ht)

theorem name_mem {setting : Setting} (h : setting ∈ choices.settings) :
    setting.option.name ∈ optionNames :=
  choices.names_settings.subset (List.mem_map.mpr ⟨setting, h, rfl⟩)

theorem nodup_settings : (choices.settings.map (·.option.name)).Nodup :=
  choices.names_settings.nodup (by decide)

theorem lookup_withScores : (choices.settings.map Setting.entry).lookup "withscores" =
    if choices.withScores then some .given else none := by
  rcases choices with ⟨_ | _, _ | offset, _ | count, _ | pattern⟩ <;> rfl

theorem lookup_offset : (choices.settings.map Setting.entry).lookup "offset" =
    choices.offset.map fun n => .signed n.value := by
  rcases choices with ⟨_ | _, _ | offset, _ | count, _ | pattern⟩ <;> rfl

theorem lookup_count : (choices.settings.map Setting.entry).lookup "count" =
    choices.count.map fun n => .signed n.value := by
  rcases choices with ⟨_ | _, _ | offset, _ | count, _ | pattern⟩ <;> rfl

theorem lookup_match : (choices.settings.map Setting.entry).lookup "match" =
    choices.pattern.map .text := by
  rcases choices with ⟨_ | _, _ | offset, _ | count, _ | pattern⟩ <;> rfl

theorem lookup_other {name : String} (h : name ∉ optionNames) :
    (choices.settings.map Setting.entry).lookup name = none := by
  refine List.lookup_eq_none_iff.mpr fun entry hm => bne_iff_ne.mpr fun he => h ?_
  obtain ⟨setting, hs, rfl⟩ := List.mem_map.mp hm
  rw [he]
  exact choices.name_mem hs

end Choices

/-! ### What is found among all values -/

/-- What is written is found in these values: the options that were chosen, and under any other name
the words for it. -/
structure Holds (choices : Choices) (words : List Word) (values : Values) : Prop where
  withScores : values.given "withscores" = choices.withScores
  offset : values.signed? "offset" = choices.offset.map (·.value)
  count : values.signed? "count" = choices.count.map (·.value)
  pattern : values.text? "match" = choices.pattern
  lookup : ∀ name ∉ optionNames, values.lookup name = (words.map Word.entry).lookup name
  texts : ∀ name ∉ optionNames, values.texts name = Values.texts (words.map Word.entry) name

section Holding
variable {choices : Choices} {settings : List Setting} {words : List Word}

private theorem lookup_settings (hs : settings.Perm choices.settings) (name : String) :
    (settings.map Setting.entry).lookup name =
      (choices.settings.map Setting.entry).lookup name := by
  refine lookup_perm (hs.map _) ?_ name
  have hnodup := choices.nodup_settings
  rwa [List.map_map]

private theorem texts_settings (hs : settings.Perm choices.settings) {name : String}
    (h : name ∉ optionNames) : Values.texts (settings.map Setting.entry) name = [] := by
  refine List.filterMap_eq_nil_iff.mpr fun entry hm => ?_
  obtain ⟨setting, hsetting, rfl⟩ := List.mem_map.mp hm
  have hname : setting.option.name ≠ name := fun he =>
    h (he ▸ choices.name_mem (hs.subset hsetting))
  rw [Setting.entry]
  cases setting.value with
  | text text => exact if_neg hname
  | _ => rfl

/-- Settings in any order and words that have no option's name. -/
theorem holds_append (hs : settings.Perm choices.settings)
    (hw : ∀ word ∈ words, word.positional.name ∉ optionNames) :
    Holds choices words (settings.map Setting.entry ++ words.map Word.entry) := by
  have hfound {name : String} (h : name ∈ optionNames) :
      (settings.map Setting.entry ++ words.map Word.entry).lookup name =
        (choices.settings.map Setting.entry).lookup name := by
    have hnone : (words.map Word.entry).lookup name = none := by
      refine List.lookup_eq_none_iff.mpr fun entry hm => bne_iff_ne.mpr fun he => ?_
      obtain ⟨word, hword, rfl⟩ := List.mem_map.mp hm
      have hname : name = word.positional.name := he
      exact hw word hword (hname ▸ h)
    rw [List.lookup_append, lookup_settings hs, hnone, Option.or_none]
  constructor
  · rw [Values.given, hfound (by decide), Choices.lookup_withScores]
    cases choices.withScores <;> rfl
  · rw [Values.signed?, hfound (by decide), Choices.lookup_offset]
    cases choices.offset <;> rfl
  · rw [Values.signed?, hfound (by decide), Choices.lookup_count]
    cases choices.count <;> rfl
  · rw [Values.text?, hfound (by decide), Choices.lookup_match]
    cases choices.pattern <;> rfl
  · intro name h
    rw [List.lookup_append, lookup_settings hs, Choices.lookup_other _ h, Option.none_or]
  · intro name h
    have hnone := texts_settings hs h
    rw [Values.texts] at hnone ⊢
    rw [List.filterMap_append, hnone, List.nil_append]
    rfl

end Holding

theorem texts_cons {word : Word} {name : String} (h : word.positional.name ≠ name)
    (values : Values) : Values.texts (word.entry :: values) name = values.texts name := by
  refine List.filterMap_cons_none ?_
  rw [Word.entry]
  cases word.value with
  | text text => exact if_neg h
  | _ => rfl

theorem texts_map {make : String → Word} {name : String}
    (h : ∀ text, (make text).entry = (name, .text text)) (texts : List String) :
    Values.texts ((texts.map make).map Word.entry) name = texts := by
  rw [Values.texts, List.map_map, List.filterMap_map]
  simp [Function.comp_def, h]

end SortedSetClient.CommandLine
