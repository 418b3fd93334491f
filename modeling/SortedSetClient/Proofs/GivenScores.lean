import SortedSetClient.CommandLine.Invocation
import SortedSetClient.Proofs.Dispatch
import SortedSetClient.Proofs.TokenReading

/-! The scores that command lines give. A score is read from the text of a number only, and no token
adds a value that is not read; so a command line that is understood holds no score but numbers. -/
namespace SortedSetClient

namespace Score
variable {text : String} {score : Score}

/-- The text is that of a number. -/
def Reads (text : String) (score : Score) : Prop :=
  ofText? (Utf8.encode text) = some score ∧ score ≠ .float .nan

theorem Reads.unique {other : Score} (h : Reads text score) (ho : Reads text other) :
    score = other :=
  Option.some.inj (h.1.symm.trans ho.1)

theorem read_eq_ok_iff : read text = .ok score ↔ Reads text score := by
  unfold Score.read Reads
  split
  · next found hfound =>
    rw [hfound, Option.some.injEq]
    split
    · next hnan =>
      refine iff_of_false nofun ?_
      rintro ⟨rfl, h⟩
      exact h (isNaN_iff.mp hnan)
    · next hnumber =>
      rw [Except.ok.injEq]
      refine ⟨fun h => ⟨h, fun hnan => hnumber ?_⟩, And.left⟩
      rw [h]
      exact isNaN_iff.mpr hnan
  · next hnone =>
    rw [hnone]
    exact iff_of_false nofun nofun

theorem read_eq_error_iff {error : Error} :
    read text = .error error ↔
      (¬∃ score, Reads text score) ∧ error = .invalidArgument (.unreadableScore text) := by
  cases hread : read text with
  | ok score =>
    refine iff_of_false nofun ?_
    rintro ⟨hnone, -⟩
    exact hnone ⟨score, read_eq_ok_iff.mp hread⟩
  | error found =>
    have hfound : found = .invalidArgument (.unreadableScore text) := by
      revert hread
      unfold Score.read
      split
      · split <;> rintro ⟨⟩
        rfl
      · rintro ⟨⟩
        rfl
    have hnone : ¬∃ score, Reads text score := by
      rintro ⟨score, h⟩
      rw [read_eq_ok_iff.mpr h] at hread
      cases hread
    rw [Except.error.injEq, hfound, eq_comm]
    exact (and_iff_right hnone).symm

end Score

namespace CommandLine

private theorem bind_eq_ok_iff {α β : Type} {result : Except Refusal α}
    {next : α → Except Refusal β} {b : β} :
    (result >>= next) = .ok b ↔ ∃ a, result = .ok a ∧ next a = .ok b := by
  cases result with
  | error refusal => exact iff_of_false nofun (by rintro ⟨a, ⟨⟩, -⟩)
  | ok a => exact ⟨fun h => ⟨a, rfl, h⟩, by rintro ⟨_, ⟨⟩, h⟩; exact h⟩

/-- No value is a score that is no number. -/
def Values.Numeric (values : Values) : Prop :=
  ∀ name, (name, ArgValue.score (.float .nan)) ∉ values

theorem Values.numeric_append {values more : Values} (h : values.Numeric) (hm : more.Numeric) :
    Values.Numeric (values ++ more) := fun name hs =>
  (List.mem_append.mp hs).elim (h name) (hm name)

/-- The readers of scores keep NaN out, and no other reader gives a score. -/
theorem ValueType.read_ne_nan (type : ValueType) (octets : Bytes) :
    type.read octets ≠ .ok (.score (.float .nan)) := by
  rw [ValueType.read]
  split
  · nofun
  · next content _ =>
    cases type with
    | text => nofun
    | score =>
      cases hread : Score.read content with
      | error error => nofun
      | ok score =>
        rintro ⟨⟩
        exact (Score.read_eq_ok_iff.mp hread).2 rfl
    | scoreBound => cases ScoreBound.read content <;> nofun
    | lexBound => cases LexBound.read content <;> nofun
    | signed => cases Decimal.int64? octets <;> nofun
    | unsigned => cases unsigned? octets <;> nofun

theorem ValueType.mapM_read_ne_nan (type : ValueType) {tokens : List Bytes}
    {values : List ArgValue} (h : tokens.mapM type.read = .ok values) :
    ArgValue.score (.float .nan) ∉ values := by
  induction tokens generalizing values with
  | nil =>
    cases h
    exact List.not_mem_nil
  | cons token tokens ih =>
    rw [List.mapM_cons] at h
    obtain ⟨value, hfirst, h⟩ := bind_eq_ok_iff.mp h
    obtain ⟨rest, hrest, h⟩ := bind_eq_ok_iff.mp h
    cases h
    rw [List.mem_cons, not_or]
    refine ⟨?_, ih hrest⟩
    rintro rfl
    exact type.read_ne_nan token hfirst

namespace Scan

/-- The values that a step leaves, if it succeeds, have no score but numbers. -/
def Numeric (result : Except Refusal Scan) : Prop :=
  ∀ scan, result = .ok scan → scan.values.Numeric

section Results
variable {result : Except Refusal Scan}

theorem numeric_error {refusal : Refusal} : Numeric (.error refusal) := nofun

theorem numeric_ok {scan : Scan} (h : scan.values.Numeric) : Numeric (.ok scan) := by
  rintro _ ⟨⟩
  exact h

theorem Numeric.bind {next : Scan → Except Refusal Scan} (h : Numeric result)
    (hn : ∀ scan : Scan, scan.values.Numeric → Numeric (next scan)) :
    Numeric (result >>= next) := by
  cases result with
  | error refusal => exact numeric_error
  | ok scan => exact hn scan (h scan rfl)

theorem Numeric.map {f : Scan → Scan} (h : Numeric result)
    (hf : ∀ scan, (f scan).values = scan.values) : Numeric (result.map f) := by
  cases result with
  | error refusal => exact numeric_error
  | ok scan => exact numeric_ok ((hf scan).symm ▸ h scan rfl)

end Results

section Steps
variable {scan : Scan} (h : scan.values.Numeric)
include h

theorem numeric_recordOption (option : NamedOption) (tokens : List Bytes) :
    Numeric (scan.recordOption option tokens) := by
  fun_cases recordOption scan option tokens with
  | case5 _ type token =>
    cases hread : type.read token with
    | error refusal => exact numeric_error
    | ok value =>
      refine numeric_ok (Values.numeric_append h fun name hname => ?_)
      cases List.mem_singleton.mp hname
      exact type.read_ne_nan token hread
  | case6 =>
    refine numeric_ok (Values.numeric_append h fun name hname => ?_)
    cases List.mem_singleton.mp hname
  | _ => exact numeric_error

theorem numeric_recordPositional (positional : Positional) (tokens : List Bytes) :
    Numeric (scan.recordPositional positional tokens) := by
  rw [recordPositional]
  cases hread : tokens.mapM positional.type.read with
  | error refusal => exact numeric_error
  | ok values =>
    refine numeric_ok (Values.numeric_append h fun name hname => ?_)
    obtain ⟨value, hvalue, hentry⟩ := List.mem_map.mp hname
    cases hentry
    exact positional.type.mapM_read_ne_nan hread hvalue

theorem numeric_settle : Numeric scan.settle := by
  have hcleared : ({ scan with pending := none } : Scan).values.Numeric := h
  fun_cases settle scan with
  | case1 => exact numeric_ok h
  | case2 => exact numeric_recordOption hcleared _ _
  | case3 => exact numeric_recordPositional hcleared _ _

theorem numeric_completeOption (option : NamedOption) (tokens : List Bytes) :
    Numeric (scan.completeOption option tokens) :=
  (numeric_settle h).bind fun _ hs => numeric_recordOption hs option tokens

theorem numeric_awaitValue (option : NamedOption) : Numeric (scan.awaitValue option) :=
  (numeric_settle h).bind fun _ hs => numeric_ok hs

variable (grammar : Grammar)

theorem numeric_takePositional (token : Bytes) : Numeric (takePositional grammar scan token) := by
  fun_cases takePositional grammar scan token with
  | case1 => exact numeric_error
  | case2 => exact numeric_ok h
  | case3 | case4 => exact (numeric_settle h).map fun _ => rfl

theorem numeric_takeValue (token : Bytes) : Numeric (takeValue grammar scan token) := by
  fun_cases takeValue grammar scan token with
  | case1 => exact numeric_ok h
  | case2 => exact numeric_takePositional h grammar token

theorem numeric_takeLong (token text : Bytes) : Numeric (takeLong grammar scan token text) := by
  fun_cases takeLong grammar scan token text with
  | case1 | case6 => exact numeric_takeValue h grammar token
  | case2 | case5 => exact numeric_completeOption h _ _
  | case3 => exact numeric_awaitValue h _
  | case4 | case7 => exact numeric_error

end Steps

section Tokens
variable (grammar : Grammar)

theorem numeric_takeLetters {scan : Scan} (h : scan.values.Numeric) (letters : Bytes) :
    Numeric (takeLetters grammar scan letters) := by
  induction letters generalizing scan with
  | nil => exact numeric_ok h
  | cons letter rest ih =>
    rw [takeLetters]
    split
    · exact numeric_error
    · split
      · exact numeric_awaitValue h _
      · exact numeric_completeOption h _ _
      · exact numeric_completeOption h _ _
      · exact (numeric_completeOption h _ _).bind fun _ hs => ih hs

theorem numeric_takeShort {scan : Scan} (h : scan.values.Numeric) (token letters : Bytes) :
    Numeric (takeShort grammar scan token letters) := by
  fun_cases takeShort grammar scan token letters with
  | case1 | case2 => exact numeric_takeValue h grammar token
  | case3 => exact numeric_takeLetters grammar h letters

/-- One token adds no score but a number. -/
theorem numeric_takeToken {scan : Scan} (h : scan.values.Numeric) (token : Bytes) :
    Numeric (takeToken grammar scan token) := by
  fun_cases takeToken grammar scan token with
  | case1 => exact numeric_takePositional h grammar token
  | case2 | case6 => exact numeric_takeValue h grammar _
  | case3 => exact numeric_ok h
  | case4 => exact numeric_takeLong h grammar _ _
  | case5 => exact numeric_takeShort grammar h _ _

/-- Nor do all tokens of a level. -/
theorem numeric_takeTokens {scan next : Scan} {below : Option (String × List Bytes)}
    {tokens : List Bytes} (h : scan.values.Numeric)
    (ht : takeTokens grammar scan tokens = .ok (next, below)) : next.values.Numeric := by
  induction tokens generalizing scan with
  | nil =>
    cases ht
    exact h
  | cons token tokens ih =>
    rw [takeTokens] at ht
    split at ht
    · cases ht
      exact h
    · cases htoken : takeToken grammar scan token with
      | error refusal => rw [htoken] at ht; cases ht
      | ok taken =>
        rw [htoken] at ht
        exact ih (numeric_takeToken grammar h token taken htoken) ht

end Tokens
end Scan

theorem Grammar.numeric_read {grammar : Grammar} {tokens : List Bytes} {values : Values}
    (h : grammar.read tokens = .ok values) : values.Numeric := by
  obtain ⟨⟨scan, below⟩, ht, h⟩ := bind_eq_ok_iff.mp h
  have htaken := Scan.numeric_takeTokens grammar (fun _ => List.not_mem_nil) ht
  obtain ⟨settled, hs, rfl⟩ := Scan.values?_eq_ok.mp h
  exact Scan.numeric_settle htaken settled hs

theorem Values.number_of_score? {values : Values} (h : values.Numeric) {name : String}
    {score : Score} (hs : values.score? name = some score) : score ≠ .float .nan := by
  rw [score?] at hs
  split at hs
  · next found hfound =>
    obtain ⟨before, after, rfl, -⟩ := List.lookup_eq_some_iff.mp hfound
    rintro rfl
    cases hs
    exact h name (by simp)
  · cases hs

/-- Every subcommand but one asks for an operation. -/
theorem Subcommand.eq_add_or_call {subcommand : Subcommand} (h : subcommand ∈ all) :
    subcommand = add ∨ ∃ operation? : Values → Option Operation,
      subcommand.request? = fun values => (operation? values).map .call := by
  rcases List.mem_cons.mp h with rfl | h
  · exact .inl rfl
  · refine .inr ?_
    fin_cases h <;> exact ⟨_, rfl⟩

/-- The first score of an addition is a number. -/
theorem Subcommand.number_of_request? {subcommand : Subcommand} (hm : subcommand ∈ all)
    {values : Values} (hv : values.Numeric) {key member : String} {first : Score}
    {texts : List String}
    (h : subcommand.request? values = some (.add key first member texts)) :
    first ≠ .float .nan := by
  rcases eq_add_or_call hm with rfl | ⟨operation?, hcall⟩
  · simp only [add, Option.bind_eq_bind, Option.bind_eq_some_iff, pure, Option.some.injEq,
      Request.add.injEq] at h
    obtain ⟨_, _, score, hscore, _, _, -, rfl, -, -⟩ := h
    exact Values.number_of_score? hv hscore
  · rw [hcall] at h
    obtain ⟨operation, -, hadd⟩ := Option.map_eq_some_iff.mp h
    cases hadd

theorem Subcommand.exists_values {subcommand : Subcommand} {tokens : List Bytes}
    {request : Request} (h : subcommand.read tokens = .ok request) :
    ∃ values, subcommand.grammar.read tokens = .ok values ∧
      subcommand.request? values = some request := by
  obtain ⟨values, hvalues, hrequest⟩ := bind_eq_ok_iff.mp h
  refine ⟨values, hvalues, ?_⟩
  split at hrequest
  · next found hfound =>
    cases hrequest
    exact hfound
  · cases hrequest

/-- What is asked for has been read as the arguments of a subcommand. -/
theorem Invocation.exists_subcommand {args : List Bytes} {invocation : Invocation}
    (h : Invocation.read args = .ok invocation) :
    ∃ subcommand ∈ Subcommand.all, ∃ tokens,
      subcommand.read tokens = .ok invocation.request := by
  obtain ⟨⟨scan, _ | ⟨name, rest⟩⟩, -, h⟩ := bind_eq_ok_iff.mp h
  · obtain ⟨values, -, h⟩ := bind_eq_ok_iff.mp h
    split at h <;> cases h
  · dsimp only at h
    split at h
    · cases h
    · next subcommand hfound =>
      obtain ⟨request, hrequest, h⟩ := bind_eq_ok_iff.mp h
      obtain ⟨values, -, h⟩ := bind_eq_ok_iff.mp h
      cases h
      exact ⟨subcommand, List.mem_of_find?_eq_some hfound, rest, hrequest⟩

/-- However a command line is written, the first score of an addition that it asks for is a
number. -/
theorem Invocation.number_of_add {args : List Bytes} {invocation : Invocation}
    (h : Invocation.read args = .ok invocation) {key member : String} {first : Score}
    {texts : List String} (hr : invocation.request = .add key first member texts) :
    first ≠ .float .nan := by
  obtain ⟨subcommand, hm, tokens, hread⟩ := Invocation.exists_subcommand h
  obtain ⟨values, hvalues, hrequest⟩ := Subcommand.exists_values hread
  exact Subcommand.number_of_request? hm (Grammar.numeric_read hvalues) (hr ▸ hrequest)

end CommandLine
end SortedSetClient
