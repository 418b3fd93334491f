import SortedSetClient.CommandLine.Scan
import SortedSetClient.Utf8.Lemmas

/-! Reading the tokens of one level when options come first, each with its value attached, then two
hyphens alone, then positional arguments in their order. All values are found, whatever the texts
look like, since nothing behind the two hyphens is taken for an option. -/
namespace SortedSetClient

namespace Utf8

theorem encode_append (a b : String) : encode (a ++ b) = encode a ++ encode b := by
  simp [encode]

theorem encode_injective : Function.Injective encode :=
  Function.LeftInverse.injective decodeLossy_encode

end Utf8

namespace CommandLine

/-- A text for a positional argument, with what is read there. -/
structure Word where
  positional : Positional
  text : String
  value : ArgValue
  reads : positional.type.read (Utf8.encode text) = .ok value

def Word.entry (word : Word) : String × ArgValue := (word.positional.name, word.value)

/-- What is read of an option that stands alone, or of one with a text attached. -/
inductive OptionRole.Reads : OptionRole → Option String → ArgValue → Prop where
  | alone : Reads .flag none .given
  | attached {type : ValueType} {text : String} {value : ArgValue} :
    type.read (Utf8.encode text) = .ok value → Reads (.value type) (some text) value

/-- An option that is chosen, with what is read of it. -/
structure Setting where
  option : NamedOption
  text : Option String
  value : ArgValue
  reads : option.role.Reads text value

namespace Setting

def entry (setting : Setting) : String × ArgValue := (setting.option.name, setting.value)

/-- The option as one token. -/
def token (setting : Setting) : String :=
  "--" ++ setting.option.name ++ setting.text.elim "" ("=" ++ ·)

end Setting

/-- Words in the order of the arguments they are for. The last arguments may have none, and one that
is repeated has any number. -/
inductive InOrder : List Positional → List Word → Prop where
  | done {positionals : List Positional} : InOrder positionals []
  | next {positional : Positional} {rest : List Positional} {word : Word} {words : List Word} :
    word.positional = positional →
      InOrder (if positional.repeated then positional :: rest else rest) words →
      InOrder (positional :: rest) (word :: words)

/-- Words at the end may be left out. -/
theorem InOrder.of_append {positionals : List Positional} {front back : List Word}
    (h : InOrder positionals (front ++ back)) : InOrder positionals front := by
  induction front generalizing positionals with
  | nil => exact .done
  | cons word front ih =>
    cases h with
    | next hw h => exact .next hw (ih h)

/-- Every word is for an argument that is declared. -/
theorem InOrder.positional_mem {positionals : List Positional} {words : List Word}
    (h : InOrder positionals words) {word : Word} (hm : word ∈ words) :
    word.positional ∈ positionals := by
  induction h with
  | done => cases hm
  | @next positional rest first words hw h ih =>
    rcases List.mem_cons.mp hm with rfl | hm
    · exact hw ▸ List.mem_cons_self
    · have hrest := ih hm
      split at hrest
      · exact hrest
      · exact List.mem_cons_of_mem _ hrest

/-- A level without subcommands, whose options can be told from each other and from their values. -/
structure Grammar.Plain (grammar : Grammar) : Prop where
  leaf : grammar.subcommands = []
  distinct : (grammar.options.map (·.name)).Nodup
  named : ∀ option ∈ grammar.options, option.name ≠ "" ∧ 0x3d ∉ Utf8.encode option.name

instance (grammar : Grammar) : Decidable grammar.Plain :=
  decidable_of_iff
    (grammar.subcommands = [] ∧ (grammar.options.map (·.name)).Nodup ∧
      ∀ option ∈ grammar.options, option.name ≠ "" ∧ 0x3d ∉ Utf8.encode option.name)
    ⟨fun h => ⟨h.1, h.2.1, h.2.2⟩, fun h => ⟨h.leaf, h.distinct, h.named⟩⟩

/-- What is found is the one element that answers. -/
theorem find?_eq_some_of_unique {α : Type} {p : α → Bool} {list : List α} {a : α} (ha : a ∈ list)
    (hp : p a = true) (hu : ∀ b ∈ list, p b = true → b = a) : list.find? p = some a := by
  cases hf : list.find? p with
  | none => exact absurd hp (List.find?_eq_none.mp hf a ha)
  | some b => rw [hu b (List.mem_of_find?_eq_some hf) (List.find?_some hf)]

theorem Grammar.Plain.named?_eq {grammar : Grammar} (h : grammar.Plain) {option : NamedOption}
    (hm : option ∈ grammar.options) :
    grammar.named? (Utf8.encode option.name) = some option := by
  refine find?_eq_some_of_unique hm (beq_self_eq_true _) fun other ho he => ?_
  have hname : other.name = option.name := Utf8.encode_injective (beq_iff_eq.mp he)
  exact List.inj_on_of_nodup_map h.distinct ho hm hname

namespace Scan
variable {grammar : Grammar} {scan : Scan} {values : Values} {positionals : List Positional}

/-! ### Options with their values attached -/

private theorem splitAttached_append {name : Bytes} (h : 0x3d ∉ name) (text : Option String) :
    splitAttached (name ++ text.elim [] (0x3d :: Utf8.encode ·)) =
      (name, text.map Utf8.encode) := by
  have hp : ∀ b ∈ name, (b != 0x3d) = true := fun b hb => bne_iff_ne.mpr (ne_of_mem_of_not_mem hb h)
  have hs : (name ++ text.elim [] (0x3d :: Utf8.encode ·)).span (· != 0x3d) =
      (name, text.elim [] (0x3d :: Utf8.encode ·)) := by
    rw [List.span_eq_takeWhile_dropWhile, List.takeWhile_append_of_pos hp,
      List.dropWhile_append_of_pos hp]
    cases text <;> simp
  rw [splitAttached, hs]
  cases text <;> rfl

private theorem takeToken_long {name rest : Bytes} (hn : name ≠ []) :
    takeToken grammar { values, positionals } (0x2d :: 0x2d :: (name ++ rest)) =
      takeLong grammar { values, positionals } (0x2d :: 0x2d :: (name ++ rest)) (name ++ rest) := by
  obtain ⟨letter, letters, rfl⟩ := List.exists_cons_of_ne_nil hn
  rfl

private theorem encode_token (setting : Setting) :
    Utf8.encode setting.token =
      0x2d :: 0x2d :: (Utf8.encode setting.option.name ++
        setting.text.elim [] (0x3d :: Utf8.encode ·)) := by
  rw [Setting.token, Utf8.encode_append, Utf8.encode_append]
  cases setting.text with
  | none => rfl
  | some text =>
    rw [Option.elim, Utf8.encode_append]
    rfl

private theorem completeOption_eq (h : scan.pending = none) (option : NamedOption)
    (tokens : List Bytes) :
    scan.completeOption option tokens = scan.recordOption option tokens := by
  rw [completeOption, settle, h]
  rfl

private theorem takeLong_option (hg : grammar.Plain) {option : NamedOption} {text : Option String}
    {value : ArgValue} (hm : option ∈ grammar.options) (hr : option.role.Reads text value)
    (hnew : values.given option.name = false) (token : Bytes) :
    takeLong grammar { values, positionals } token
        (Utf8.encode option.name ++ text.elim [] (0x3d :: Utf8.encode ·)) =
      .ok { values := values ++ [(option.name, value)], positionals } := by
  have hnamed : grammar.named? (Utf8.encode option.name) = some option := hg.named?_eq hm
  rw [takeLong, splitAttached_append (hg.named option hm).2]
  generalize hrole : option.role = role at hr
  cases hr with
  | alone => simp [hnamed, hrole, takesHyphens, completeOption_eq, recordOption, hnew]
  | attached hread =>
    simp [hnamed, hrole, takesHyphens, completeOption_eq, recordOption, hnew, hread]

variable (values positionals) in
/-- A setting is recorded at once, if none of its name has been before. -/
theorem takeToken_setting (hg : grammar.Plain) {setting : Setting}
    (hm : setting.option ∈ grammar.options) (hnew : values.given setting.option.name = false) :
    takeToken grammar { values, positionals } (Utf8.encode setting.token) =
      .ok { values := values ++ [setting.entry], positionals } := by
  have hname : Utf8.encode setting.option.name ≠ [] := fun h =>
    (hg.named _ hm).1 (Utf8.encode_injective h)
  rw [encode_token, takeToken_long hname]
  exact takeLong_option hg hm setting.reads hnew _

private theorem takeTokens_cons (hg : grammar.Plain) {token : Bytes} {next : Scan}
    (h : takeToken grammar scan token = .ok next) (tokens : List Bytes) :
    takeTokens grammar scan (token :: tokens) = takeTokens grammar next tokens := by
  have hsub : grammar.subcommand? token = none := by
    rw [Grammar.subcommand?, hg.leaf]
    rfl
  rw [takeTokens, hsub, ite_self, h]
  rfl

variable (values positionals) in
/-- Settings of different names are recorded in the order in which they stand. -/
theorem takeTokens_settings (hg : grammar.Plain) {settings : List Setting}
    (hm : ∀ setting ∈ settings, setting.option ∈ grammar.options)
    (hd : (settings.map (·.option.name)).Nodup)
    (hnew : ∀ setting ∈ settings, values.given setting.option.name = false) (tokens : List Bytes) :
    takeTokens grammar { values, positionals } (settings.map (Utf8.encode ·.token) ++ tokens) =
      takeTokens grammar { values := values ++ settings.map Setting.entry, positionals }
        tokens := by
  induction settings generalizing values with
  | nil => rw [List.map_nil, List.map_nil, List.nil_append, List.append_nil]
  | cons setting settings ih =>
    obtain ⟨hnot, hd⟩ := List.nodup_cons.mp hd
    have hfirst := takeToken_setting values positionals hg
      (hm setting List.mem_cons_self) (hnew setting List.mem_cons_self)
    have hrest : ∀ other ∈ settings,
        Values.given (values ++ [setting.entry]) other.option.name = false := by
      intro other ho
      have hne : other.option.name ≠ setting.option.name := fun he =>
        hnot (List.mem_map.mpr ⟨other, ho, he⟩)
      have hother := hnew other (List.mem_cons_of_mem _ ho)
      rw [Values.given, Option.isSome_eq_false_iff, Option.isNone_iff_eq_none] at hother ⊢
      rw [List.lookup_append, hother, Setting.entry, List.lookup_cons, beq_false_of_ne hne]
      rfl
    rw [List.map_cons, List.cons_append, takeTokens_cons hg hfirst,
      ih _ (fun other ho => hm other (List.mem_cons_of_mem _ ho)) hd hrest, List.map_cons,
      List.append_assoc, List.singleton_append]

/-! ### Positional arguments behind the two hyphens -/

private theorem takeToken_trailing (h : scan.trailing = true) (token : Bytes) :
    takeToken grammar scan token = takePositional grammar scan token := by
  unfold takeToken
  exact if_pos h

private theorem recordPositional_eq_ok {positional : Positional} {tokens : List Bytes}
    {next : Scan} :
    scan.recordPositional positional tokens = .ok next ↔
      ∃ read, tokens.mapM positional.type.read = .ok read ∧
        { scan with values := scan.values ++ read.map (positional.name, ·) } = next := by
  rw [recordPositional]
  cases hread : tokens.mapM positional.type.read with
  | error refusal => exact ⟨nofun, by rintro ⟨_, ⟨⟩, _⟩⟩
  | ok read =>
    constructor
    · rintro ⟨⟩
      exact ⟨read, rfl, rfl⟩
    · rintro ⟨_, ⟨⟩, rfl⟩
      rfl

private theorem trailing_recordOption {option : NamedOption} {tokens : List Bytes} {next : Scan}
    (h : scan.recordOption option tokens = .ok next) : next.trailing = scan.trailing := by
  revert h
  fun_cases recordOption scan option tokens with
  | case5 _ type token =>
    intro h
    cases hread : type.read token with
    | error refusal => rw [hread] at h; cases h
    | ok value => rw [hread] at h; cases h; rfl
  | case6 => rintro ⟨⟩; rfl
  | _ => nofun

private theorem trailing_settle {settled : Scan} (h : scan.settle = .ok settled) :
    settled.trailing = scan.trailing := by
  revert h
  fun_cases settle scan with
  | case1 => rintro ⟨⟩; rfl
  | case2 => exact fun h => (trailing_recordOption h).trans rfl
  | case3 =>
    intro h
    obtain ⟨read, -, rfl⟩ := recordPositional_eq_ok.mp h
    rfl

theorem values?_eq_ok :
    scan.values? = .ok values ↔ ∃ settled, scan.settle = .ok settled ∧ settled.values = values := by
  rw [values?]
  cases scan.settle with
  | error refusal => exact ⟨nofun, by rintro ⟨_, ⟨⟩, _⟩⟩
  | ok settled =>
    constructor
    · rintro ⟨⟩
      exact ⟨settled, rfl, rfl⟩
    · rintro ⟨_, ⟨⟩, rfl⟩
      rfl

/-- Words that are collected for one argument are judged together. -/
private theorem values?_collected {word : Word} {tokens : List Bytes} {read : List ArgValue}
    {accepting : Bool}
    (hp : scan.pending =
      some ⟨.positional word.positional, Utf8.encode word.text :: tokens, accepting⟩)
    (hr : tokens.reverse.mapM word.positional.type.read = .ok read) :
    scan.values? =
      .ok (scan.values ++ read.map (word.positional.name, ·) ++ [word.entry]) := by
  have hall : (Utf8.encode word.text :: tokens).reverse.mapM word.positional.type.read =
      .ok (read ++ [word.value]) := by
    rw [List.reverse_cons, List.mapM_append, hr, List.mapM_cons, word.reads]
    rfl
  have hsettle : scan.settle =
      .ok { scan with
        pending := none
        values := scan.values ++ (read ++ [word.value]).map (word.positional.name, ·) } := by
    rw [settle, hp]
    exact recordPositional_eq_ok.mpr ⟨_, hall, rfl⟩
  refine values?_eq_ok.mpr ⟨_, hsettle, ?_⟩
  rw [List.map_append, ← List.append_assoc]
  rfl

variable (grammar) in
/-- A word for the argument that is next adds its value to those that the scan stands for. -/
theorem takePositional_word {word : Word} {rest : List Positional}
    (hv : scan.values? = .ok values) (hp : scan.positionals = word.positional :: rest) :
    ∃ next, takePositional grammar scan (Utf8.encode word.text) = .ok next ∧
      next.values? = .ok (values ++ [word.entry]) ∧ next.trailing = scan.trailing ∧
      next.positionals =
        if word.positional.repeated then word.positional :: rest else rest := by
  obtain ⟨settled, hsettle, rfl⟩ := values?_eq_ok.mp hv
  -- A word may join those that are pending for the same argument, or else it is the first.
  by_cases hjoin : ∃ tokens accepting, scan.pending =
      some ⟨.positional word.positional, tokens, accepting⟩ ∧ word.positional.repeated = true
  · obtain ⟨tokens, accepting, hpend, hrep⟩ := hjoin
    have hrecord := hsettle
    rw [settle, hpend] at hrecord
    obtain ⟨read, hread, rfl⟩ := recordPositional_eq_ok.mp hrecord
    refine ⟨{ scan with
      pending := some ⟨.positional word.positional, Utf8.encode word.text :: tokens, true⟩
      positionals := word.positional :: rest }, ?_, values?_collected rfl hread, rfl, ?_⟩
    · simp [takePositional, hp, hpend, hrep]
    · rw [if_pos hrep]
  · have htake : takePositional grammar scan (Utf8.encode word.text) =
        .ok { settled with
          pending := some ⟨.positional word.positional, [Utf8.encode word.text],
            word.positional.repeated⟩
          positionals := if word.positional.repeated then word.positional :: rest else rest } := by
      rw [takePositional, hp]
      dsimp only
      split
      · next pending tokens accepting hpend =>
        have hnot : ¬(pending = word.positional ∧ word.positional.repeated = true) := by
          rintro ⟨rfl, hrep⟩
          exact hjoin ⟨tokens, accepting, hpend, hrep⟩
        rw [if_neg hnot, hsettle]
        rfl
      · rw [hsettle]
        rfl
    have hempty : [].reverse.mapM word.positional.type.read = .ok [] := rfl
    refine ⟨_, htake, ?_, ?_, rfl⟩
    · rw [values?_collected rfl hempty, List.map_nil, List.append_nil]
    · have hsame := trailing_settle hsettle
      exact hsame

theorem takeTokens_words (hg : grammar.Plain) {words : List Word} (ht : scan.trailing = true)
    (hv : scan.values? = .ok values) (ho : InOrder scan.positionals words) :
    ∃ next, takeTokens grammar scan (words.map (Utf8.encode ·.text)) = .ok (next, none) ∧
      next.values? = .ok (values ++ words.map Word.entry) := by
  induction words generalizing scan values with
  | nil => exact ⟨scan, rfl, by rw [hv, List.map_nil, List.append_nil]⟩
  | cons word words ih =>
    generalize hp : scan.positionals = positionals at ho
    cases ho with
    | next hw ho =>
      obtain rfl := hw
      obtain ⟨step, hstep, hsv, hst, hsp⟩ := takePositional_word grammar hv hp
      obtain ⟨next, hrest, hnv⟩ := ih (hst.trans ht) hsv (hsp ▸ ho)
      refine ⟨next, ?_, by rw [hnv, List.map_cons, List.append_assoc, List.singleton_append]⟩
      rw [List.map_cons, takeTokens_cons hg ((takeToken_trailing ht _).trans hstep), hrest]

end Scan

/-- A level gives the values of what is written on it: settings, two hyphens, and words. -/
theorem Grammar.Plain.read_eq {grammar : Grammar} (hg : grammar.Plain) {settings : List Setting}
    {words : List Word} (hm : ∀ setting ∈ settings, setting.option ∈ grammar.options)
    (hd : (settings.map (·.option.name)).Nodup) (ho : InOrder grammar.positionals words) :
    grammar.read (settings.map (Utf8.encode ·.token) ++
        Utf8.encode "--" :: words.map (Utf8.encode ·.text)) =
      .ok (settings.map Setting.entry ++ words.map Word.entry) := by
  have hsettings := Scan.takeTokens_settings [] grammar.positionals hg hm hd (fun _ _ => rfl)
    (Utf8.encode "--" :: words.map (Utf8.encode ·.text))
  let behind : Scan :=
    { values := settings.map Setting.entry, positionals := grammar.positionals, trailing := true }
  have hwords : ∃ next, Scan.takeTokens grammar behind (words.map (Utf8.encode ·.text)) =
      .ok (next, none) ∧ next.values? = .ok (behind.values ++ words.map Word.entry) :=
    Scan.takeTokens_words hg rfl rfl ho
  obtain ⟨next, hwords, hvalues⟩ := hwords
  rw [Grammar.read, hsettings, Scan.takeTokens_cons hg rfl, List.nil_append, hwords]
  exact hvalues

end CommandLine
end SortedSetClient
