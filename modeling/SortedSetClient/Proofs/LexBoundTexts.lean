import SortedSetClient.Proofs.CommandLines

/-! The texts of lexicographical bounds that are written with a mark. A bound keeps its value and
whether it is left out, but not that it had a mark. So the sign that leaves a side open is sent
alone for that side even where it was marked; any other text is sent as it was written. -/
namespace SortedSetClient.CommandLine

/-- A value behind its mark. -/
def markedText (inclusive : Bool) (value : String) : String :=
  (if inclusive then "[" else "(") ++ value

theorem encode_markedText (inclusive : Bool) (value : String) :
    Utf8.encode (markedText inclusive value) =
      (if inclusive then 0x5b else 0x28) :: Utf8.encode value := by
  rw [markedText, Utf8.encode_append]
  cases inclusive <;> rfl

theorem read_markedText (inclusive : Bool) (value : String) :
    LexBound.read (markedText inclusive value) = .ok ⟨Utf8.encode value, inclusive⟩ := by
  rw [LexBound.read, encode_markedText]
  cases inclusive <;> rfl

/-- A bound that is written with a mark. -/
def markedBound (inclusive : Bool) (value : String) : Typed .lexBound where
  text := markedText inclusive value
  value := ⟨Utf8.encode value, inclusive⟩
  reads := by rw [ValueType.parse?, read_markedText]; rfl

private theorem unmark_sign (inclusive : Bool) (value sign : String) :
    (if Utf8.encode value = Utf8.encode sign then Utf8.encode value
      else LexBound.marked ⟨Utf8.encode value, inclusive⟩) =
    if value = sign then Utf8.encode sign else Utf8.encode (markedText inclusive value) := by
  by_cases h : value = sign
  · rw [h, if_pos rfl, if_pos rfl]
  · rw [if_neg h, if_neg fun he => h (Utf8.encode_injective he), encode_markedText]
    rfl

theorem encodeMin_markedBound (inclusive : Bool) (value : String) :
    (markedBound inclusive value).value.encodeMin =
      if value = "-" then Utf8.encode "-" else Utf8.encode (markedText inclusive value) :=
  unmark_sign inclusive value "-"

theorem encodeMax_markedBound (inclusive : Bool) (value : String) :
    (markedBound inclusive value).value.encodeMax =
      if value = "+" then Utf8.encode "+" else Utf8.encode (markedText inclusive value) :=
  unmark_sign inclusive value "+"

/-- The subcommands over a lexicographical range. -/
def lexLines (key : String) (min max : Typed .lexBound) (offset count : Option (Typed .signed)) :
    List Line :=
  [.countByLex key min max, .rangeByLex key min max offset count, .removeByLex key min max]

/-- The line is understood, and its operation is sent with these arguments first. -/
def Line.Sends (line : Line) (args : List Bytes) : Prop :=
  args <+: line.operation.toCommand.args ∧
    ∃ invocation, Invocation.read (arguments line.name line.choices.settings line.positionals) =
        .ok invocation ∧
      ∀ {m : Type → Type} [Monad m] (execute : Command → m (Except Error Resp.Value)),
        invocation.request.run execute = line.operation.run execute

theorem sends_lexLines (key : String) (min max : Typed .lexBound)
    (offset count : Option (Typed .signed)) :
    ∀ line ∈ lexLines key min max offset count,
      line.Sends [Utf8.encode key, min.value.encodeMin, max.value.encodeMax] := by
  intro line hline
  have hread := line.read_arguments (.refl _) (List.append_nil _).symm (List.nil_suffix ..)
  refine ⟨?_, _, hread, fun execute => line.run_request execute⟩
  simp only [lexLines, List.mem_cons, List.not_mem_nil, or_false] at hline
  rcases hline with rfl | rfl | rfl
  · exact List.prefix_rfl
  · exact List.prefix_append ..
  · exact List.prefix_rfl

/-- Every text with a mark is read as a bound, and it is sent as it was written, on either side and
by every operation, except for the sign that leaves its side open. -/
theorem marked_bound_sent (inclusive : Bool) (value : String) :
    ∃ bound : Typed .lexBound, bound.text = markedText inclusive value ∧
      LexBound.read (markedText inclusive value) = .ok bound.value ∧
      bound.value.encodeMin =
        (if value = "-" then Utf8.encode "-" else Utf8.encode (markedText inclusive value)) ∧
      bound.value.encodeMax =
        (if value = "+" then Utf8.encode "+" else Utf8.encode (markedText inclusive value)) ∧
      ∀ (key : String) (other : Typed .lexBound) (offset count : Option (Typed .signed)),
        (∀ line ∈ lexLines key bound other offset count,
          line.Sends [Utf8.encode key, bound.value.encodeMin, other.value.encodeMax]) ∧
        ∀ line ∈ lexLines key other bound offset count,
          line.Sends [Utf8.encode key, other.value.encodeMin, bound.value.encodeMax] :=
  ⟨markedBound inclusive value, rfl, read_markedText inclusive value,
    encodeMin_markedBound inclusive value, encodeMax_markedBound inclusive value,
    fun key other offset count => ⟨sends_lexLines key _ other offset count,
      sends_lexLines key other _ offset count⟩⟩

/-- Removing from the value `-` upwards removes everything. -/
theorem marked_bound_sent_to_remove :
    ∃ bound : Typed .lexBound, bound.text = "[-" ∧
      Line.Sends (.removeByLex "k" bound ⟨"+", .greatest, rfl⟩)
        [Utf8.encode "k", Utf8.encode "-", Utf8.encode "+"] := by
  obtain ⟨bound, htext, -, hmin, -, hsent⟩ := marked_bound_sent true "-"
  rw [if_pos rfl] at hmin
  refine ⟨bound, htext, ?_⟩
  rw [← hmin]
  exact (hsent "k" ⟨"+", .greatest, rfl⟩ none none).1 _ (by simp [lexLines])

/-- A minus that is marked as a value leaves the lower side open, and a marked plus the upper. -/
theorem marked_sign_sent_alone :
    (LexBound.read "[-" = .ok ⟨Utf8.encode "-", true⟩ ∧
      LexBound.encodeMin ⟨Utf8.encode "-", true⟩ = Utf8.encode "-" ∧
      Utf8.encode "-" ≠ Utf8.encode "[-") ∧
    LexBound.read "(+" = .ok ⟨Utf8.encode "+", false⟩ ∧
      LexBound.encodeMax ⟨Utf8.encode "+", false⟩ = Utf8.encode "+" ∧
      Utf8.encode "+" ≠ Utf8.encode "(+" :=
  ⟨⟨rfl, by decide +kernel, by decide +kernel⟩, rfl, by decide +kernel, by decide +kernel⟩

end SortedSetClient.CommandLine
