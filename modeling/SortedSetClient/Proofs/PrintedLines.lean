import SortedSetClient.CommandLine.Output
import SortedSetClient.Proofs.NumberTexts
import SortedSetClient.Utf8.Lemmas

/-! The lines that are printed for lists. A member stands between quotes as it is, so it brings its
own line ends with it, and what follows one may look like the next entry. A list has a line for each
entry just where no member has a line end, and members can be told from the text as long as none of
them has in it a quote, a line end and the number of the entry behind it. -/
namespace SortedSetClient

/-- How many lines end in a text. -/
def lineEnds (text : String) : Nat := text.toList.count '\n'

@[simp] theorem lineEnds_append (a b : String) : lineEnds (a ++ b) = lineEnds a + lineEnds b := by
  simp [lineEnds]

theorem lineEnds_eq_zero_iff {text : String} : lineEnds text = 0 ↔ '\n' ∉ text.toList :=
  List.count_eq_zero

theorem isDigit_of_mem_number {n : Nat} {c : Char} (h : c ∈ (toString n).toList) : c.isDigit := by
  rw [Nat.toString_eq_repr, Nat.repr, String.toList_ofList] at h
  exact Nat.isDigit_of_mem_toDigits (by decide) (by decide) h

theorem lineEnds_number (n : Nat) : lineEnds (toString n) = 0 :=
  lineEnds_eq_zero_iff.mpr fun h => Bool.noConfusion (isDigit_of_mem_number h)

namespace Score

private theorem lineFeed_not_mem_encode (score : Score) : 0x0a ∉ score.encode := by
  have hnumber {text : Bytes} (h : ∀ b ∈ text, Binary64.InNumber b) : 0x0a ∉ text := fun hm => by
    rcases h _ hm with h | h | h <;> cases h
  cases score with
  | integer n => exact hnumber (Binary64.inNumber_ofInt n.toInt)
  | float x =>
    rcases x with _ | ⟨negative, rank⟩
    · decide +kernel
    · by_cases hrank : rank.val = Binary64.infinityRank
      · obtain rfl : rank = ⟨Binary64.infinityRank, by decide⟩ := Fin.ext hrank
        cases negative <;> decide +kernel
      · refine hnumber (Binary64.inNumber_write (by simp) ?_)
        exact beq_false_of_ne hrank

theorem lineEnds_text (score : Score) : lineEnds score.text = 0 := by
  have hchar : ∀ b : UInt8, Char.ofNat b.toNat = '\n' → b = 0x0a := by decide +kernel
  rw [lineEnds_eq_zero_iff, text, Utf8.ofAscii, String.toList_ofList, List.mem_map]
  rintro ⟨b, hb, h⟩
  exact lineFeed_not_mem_encode score (hchar b h ▸ hb)

end Score

namespace Answer

/-! ### Numbered lines -/

/-- The characters of lines that are numbered from some number on. -/
def numberedFrom (indent : String) (n : Nat) : List String → List Char
  | [] => []
  | entry :: rest =>
    (indent ++ toString n ++ ") " ++ entry).toList ++ '\n' :: numberedFrom indent (n + 1) rest

theorem toList_numbered (indent : String) (entries : List String) :
    (numbered indent entries).toList = numberedFrom indent 1 entries := by
  have hfrom (k : Nat) : ((entries.mapIdx fun i entry =>
      line (indent ++ toString (i + k) ++ ") " ++ entry)).flatMap String.toList) =
        numberedFrom indent k entries := by
    induction entries generalizing k with
    | nil => rfl
    | cons entry rest ih =>
      have hshift : (fun i entry => line (indent ++ toString (i + 1 + k) ++ ") " ++ entry)) =
          fun i entry => line (indent ++ toString (i + (k + 1)) ++ ") " ++ entry) := by
        funext i entry
        rw [Nat.add_assoc, Nat.add_comm 1 k]
      rw [List.mapIdx_cons, List.flatMap_cons, hshift, ih, numberedFrom, line, Nat.zero_add]
      simp
  rw [numbered, String.toList_join, hfrom]

theorem count_numberedFrom {indent : String} (h : lineEnds indent = 0) (n : Nat)
    (entries : List String) :
    (numberedFrom indent n entries).count '\n' = entries.length + (entries.map lineEnds).sum := by
  induction entries generalizing n with
  | nil => rfl
  | cons entry rest ih =>
    have hentry : (indent ++ toString n ++ ") " ++ entry).toList.count '\n' = lineEnds entry := by
      change lineEnds _ = _
      simp only [lineEnds_append, h, lineEnds_number]
      exact Nat.zero_add _
    rw [numberedFrom, List.count_append, hentry, List.count_cons_self, ih, List.length_cons,
      List.map_cons, List.sum_cons]
    omega

/-- Every line is ended. -/
theorem getLast?_numberedFrom (indent : String) (n : Nat) (entries : List String) :
    (numberedFrom indent n entries).getLast?.getD '\n' = '\n' := by
  induction entries generalizing n with
  | nil => rfl
  | cons entry rest ih =>
    rw [numberedFrom, List.getLast?_append, List.getLast?_cons, ih]
    rfl

theorem numberedFrom_append (indent : String) (n : Nat) (first second : List String) :
    numberedFrom indent n (first ++ second) =
      numberedFrom indent n first ++ numberedFrom indent (n + first.length) second := by
  induction first generalizing n with
  | nil => rfl
  | cons entry rest ih =>
    rw [List.cons_append, numberedFrom, numberedFrom, ih, List.length_cons, Nat.add_assoc,
      Nat.add_comm 1, List.append_assoc, List.cons_append]

/-! ### Lines of lists -/

/-- The members in an answer with a list. -/
def listed? : Answer → Option (List Bytes)
  | members list | listing (.members list) => some list
  | listing (.scored entries) | page _ entries => some (entries.map (·.1))
  | _ => none

/-- The lines that belong to no entry: the cursor of a page, or what says that there is none. -/
def headings : Answer → Nat
  | members list => if list.isEmpty then 1 else 0
  | listing list => if list.isEmpty then 1 else 0
  | page .. => 1
  | _ => 0

/-- The text ends with a line end. -/
def Ended (text : String) : Prop := text.toList.getLast? = some '\n'

theorem ended_line (text : String) : Ended (line text) := by
  rw [Ended, line, String.toList_append, List.getLast?_append]
  rfl

theorem ended_append_numbered {text : String} (h : Ended text) (indent : String)
    (entries : List String) : Ended (text ++ numbered indent entries) := by
  have hlast := getLast?_numberedFrom indent 1 entries
  rw [Ended, String.toList_append, List.getLast?_append, toList_numbered, h]
  cases hn : (numberedFrom indent 1 entries).getLast? with
  | none => rfl
  | some c =>
    rw [hn] at hlast
    exact congrArg some hlast

theorem lineEnds_line (text : String) : lineEnds (line text) = lineEnds text + 1 :=
  lineEnds_append text "\n"

theorem lineEnds_numbered {indent : String} (h : lineEnds indent = 0) (entries : List String) :
    lineEnds (numbered indent entries) = entries.length + (entries.map lineEnds).sum := by
  rw [lineEnds, toList_numbered, count_numberedFrom h]

theorem lineEnds_quoted (member : Bytes) :
    lineEnds (quoted member) = lineEnds (Utf8.decodeLossy member) := by
  have hquote : lineEnds "\"" = 0 := by decide
  rw [quoted, lineEnds_append, lineEnds_append, hquote, Nat.zero_add, Nat.add_zero]

theorem lineEnds_scored (entry : Entry) :
    lineEnds (scored entry) = lineEnds (Utf8.decodeLossy entry.1) := by
  have hblank : lineEnds " " = 0 := by decide
  rw [scored, lineEnds_append, lineEnds_append, hblank, Score.lineEnds_text, lineEnds_quoted]
  rfl

/-- The lines of entries, or the one that says that there are none. -/
def printList (entries : List String) : String :=
  if entries.isEmpty then line "(empty array)" else numbered "" entries

theorem printMembers_eq (members : List Bytes) :
    printMembers members = printList (members.map quoted) := by
  cases members <;> rfl

theorem lines_printList (entries : List String) :
    Ended (printList entries) ∧
      lineEnds (printList entries) =
        (if entries.isEmpty then 1 else 0) + entries.length + (entries.map lineEnds).sum := by
  cases entries with
  | nil => exact ⟨ended_line _, by decide +kernel⟩
  | cons entry rest =>
    have hempty : lineEnds "" = 0 := by decide
    refine ⟨?_, ?_⟩
    · rw [Ended, printList, if_neg (by simp), toList_numbered, numberedFrom,
        List.getLast?_append, List.getLast?_cons, getLast?_numberedFrom]
      rfl
    · rw [printList, if_neg (by simp), lineEnds_numbered hempty, if_neg (by simp), Nat.zero_add]

/-- A list has a line for each entry and one more for each line end in a member. -/
theorem lines_print {answer : Answer} {members : List Bytes} (h : answer.listed? = some members) :
    Ended answer.print ∧
      lineEnds answer.print = answer.headings + members.length +
        (members.map fun member => lineEnds (Utf8.decodeLossy member)).sum := by
  have hmembers (list : List Bytes) : Ended (printMembers list) ∧
      lineEnds (printMembers list) = (if list.isEmpty then 1 else 0) + list.length +
        (list.map fun member => lineEnds (Utf8.decodeLossy member)).sum := by
    have hlines := lines_printList (list.map quoted)
    rw [printMembers_eq]
    simpa [Function.comp_def, lineEnds_quoted] using hlines
  cases answer with
  | members list =>
    cases h
    exact hmembers _
  | listing list =>
    cases list with
    | members list =>
      cases h
      have hempty : (Listing.members members).isEmpty = members.isEmpty := by cases members <;> rfl
      rw [headings, hempty]
      exact hmembers _
    | scored entries =>
      cases h
      have hempty : (Listing.scored entries).isEmpty = (entries.map scored).isEmpty := by
        cases entries <;> rfl
      have hprint : (listing (.scored entries)).print = printList (entries.map scored) := by
        cases entries <;> rfl
      have hlines := lines_printList (entries.map scored)
      rw [hprint, headings, hempty]
      simpa [Function.comp_def, lineEnds_scored] using hlines
  | page cursor entries =>
    cases h
    have hcursor : lineEnds ("cursor: " ++ toString cursor.toNat) = 0 := by
      rw [lineEnds_append, lineEnds_number]
      decide
    refine ⟨ended_append_numbered (ended_line _) _ _, ?_⟩
    rw [print, lineEnds_append, lineEnds_line, hcursor, lineEnds_numbered (by decide)]
    simp [headings, Function.comp_def, lineEnds_scored, Nat.add_assoc]
  | _ => cases h

/-! ### Members out of lines -/

/-- What is printed between a member and the next one, whose entry has the number. -/
def turn (n : Nat) : String := "\"\n" ++ toString n ++ ") "

/-- No member has in it what is printed behind it, its entries being numbered from `n`. -/
def Unmistakable (n : Nat) (texts : List String) : Prop :=
  ∀ i text, texts[i]? = some text → ¬(turn (n + i + 1)).toList <:+: text.toList

theorem unmistakable_cons {n : Nat} {text : String} {texts : List String} :
    Unmistakable n (text :: texts) ↔
      ¬(turn (n + 1)).toList <:+: text.toList ∧ Unmistakable (n + 1) texts := by
  constructor
  · refine fun h => ⟨h 0 text rfl, fun i later hi => ?_⟩
    rw [Nat.add_right_comm n 1 i]
    exact h (i + 1) later hi
  · rintro ⟨hfirst, hrest⟩ (_ | i) later hi
    · obtain rfl := Option.some.inj hi
      exact hfirst
    · rw [← Nat.add_assoc n i 1, Nat.add_right_comm n i 1]
      exact hrest i later hi

theorem unmistakable_of_lineEnds {n : Nat} {texts : List String}
    (h : ∀ text ∈ texts, '\n' ∉ text.toList) : Unmistakable n texts := by
  intro i text hi hturn
  exact h text (List.mem_of_getElem? hi) (hturn.subset (by simp [turn]))

/-- Behind a member, either all lines end or the next entry begins. -/
private def Goes (n : Nat) (rest : List Char) : Prop :=
  rest = [] ∨ ∃ more, rest = (toString n ++ ") ").toList ++ '"' :: more

private theorem quote_not_mem (n : Nat) : '"' ∉ (toString n ++ ") ").toList := by
  rw [String.toList_append, List.mem_append, not_or]
  exact ⟨fun h => Bool.noConfusion (isDigit_of_mem_number h), by decide⟩

/-- A member that went on past a closing quote would have the beginning of the next line in it. -/
private theorem nothing_past_quote {n : Nat} {member past rest rest' : List Char}
    (hm : ¬(turn n).toList <:+: member ++ past) (hr : Goes n rest)
    (h : '"' :: '\n' :: rest = past ++ '"' :: '\n' :: rest') : past = [] := by
  rcases past with _ | ⟨c, _ | ⟨d, past⟩⟩
  · rfl
  · cases h
  · obtain ⟨rfl, rfl, hrest⟩ : '"' = c ∧ '\n' = d ∧ rest = past ++ '"' :: '\n' :: rest' := by
      simpa using h
    rcases hr with rfl | ⟨more, rfl⟩
    · simp at hrest
    · have hturn : (turn n).toList = '"' :: '\n' :: (toString n ++ ") ").toList := by
        simp [turn]
      have hprefix : (toString n ++ ") ").toList <+: past := by
        rcases List.append_eq_append_iff.mp hrest with ⟨as, rfl, -⟩ | ⟨bs, ho, hbs⟩
        · exact List.prefix_append ..
        · cases bs with
          | nil => rw [ho, List.append_nil]
          | cons c bs =>
            -- The number has no quote in it, so it cannot end sooner than the member.
            obtain ⟨rfl, -⟩ := List.cons.inj hbs
            exact absurd (ho ▸ List.mem_append_right past List.mem_cons_self) (quote_not_mem n)
      refine absurd ?_ hm
      rw [hturn]
      have hbroken : '"' :: '\n' :: (toString n ++ ") ").toList <+: '"' :: '\n' :: past := by
        simpa using hprefix
      exact hbroken.isInfix.trans (List.suffix_append member _).isInfix

private theorem member_unique {n : Nat} {member member' rest rest' : List Char}
    (hm : ¬(turn n).toList <:+: member) (hm' : ¬(turn n).toList <:+: member')
    (hr : Goes n rest) (hr' : Goes n rest')
    (h : member ++ '"' :: '\n' :: rest = member' ++ '"' :: '\n' :: rest') :
    member = member' ∧ rest = rest' := by
  obtain ⟨past, rfl, hpast⟩ | ⟨past, rfl, hpast⟩ := List.append_eq_append_iff.mp h
  · obtain rfl := nothing_past_quote hm' hr hpast
    simpa using hpast
  · obtain rfl := nothing_past_quote hm hr' hpast
    simpa [eq_comm] using hpast

/-- Members as the entries of a list. -/
def quotedTexts (texts : List String) : List String :=
  texts.map fun text => quoted (Utf8.encode text)

private theorem numberedFrom_member (n : Nat) (text : String) (texts : List String) :
    numberedFrom "" n (quotedTexts (text :: texts)) =
      (toString n ++ ") ").toList ++ '"' :: (text.toList ++ '"' :: '\n' ::
        numberedFrom "" (n + 1) (quotedTexts texts)) := by
  simp [quotedTexts, numberedFrom, quoted]

/-- Two lists print alike from one number on just if what is behind that number is alike. -/
private theorem numberedFrom_cons_inj_iff {n : Nat} {text other : String}
    {texts others : List String} :
    numberedFrom "" n (quotedTexts (text :: texts)) =
        numberedFrom "" n (quotedTexts (other :: others)) ↔
      text.toList ++ '"' :: '\n' :: numberedFrom "" (n + 1) (quotedTexts texts) =
        other.toList ++ '"' :: '\n' :: numberedFrom "" (n + 1) (quotedTexts others) := by
  rw [numberedFrom_member, numberedFrom_member, List.append_cancel_left_eq, List.cons_inj_right]

private theorem goes_numberedFrom (n : Nat) (texts : List String) :
    Goes n (numberedFrom "" n (quotedTexts texts)) := by
  cases texts with
  | nil => exact .inl rfl
  | cons text texts => exact .inr ⟨_, numberedFrom_member n text texts⟩

private theorem numberedFrom_member_ne_nil (n : Nat) (text : String) (texts : List String) :
    numberedFrom "" n (quotedTexts (text :: texts)) ≠ [] := by
  rw [numberedFrom_member]
  simp

/-- Member by member, the first lines of both lists being of one number. -/
private theorem numberedFrom_injective {n : Nat} {texts others : List String}
    (ht : Unmistakable n texts) (ho : Unmistakable n others)
    (h : numberedFrom "" n (quotedTexts texts) = numberedFrom "" n (quotedTexts others)) :
    texts = others := by
  induction texts generalizing n others with
  | nil =>
    cases others with
    | nil => rfl
    | cons other others => exact absurd h.symm (numberedFrom_member_ne_nil n other others)
  | cons text texts ih =>
    cases others with
    | nil => exact absurd h (numberedFrom_member_ne_nil n text texts)
    | cons other others =>
      obtain ⟨htext, htexts⟩ := unmistakable_cons.mp ht
      obtain ⟨hother, hothers⟩ := unmistakable_cons.mp ho
      obtain ⟨hfirst, hrest⟩ := member_unique htext hother (goes_numberedFrom _ _)
        (goes_numberedFrom _ _) (numberedFrom_cons_inj_iff.mp h)
      rw [String.toList_inj.mp hfirst, ih htexts hothers hrest]

private theorem toList_printList_quotedTexts_cons (text : String) (texts : List String) :
    (printList (quotedTexts (text :: texts))).toList =
      numberedFrom "" 1 (quotedTexts (text :: texts)) := by
  rw [printList, if_neg (by simp [quotedTexts]), toList_numbered]

private theorem printList_cons_inj_iff {text other : String} {texts others : List String} :
    printList (quotedTexts (text :: texts)) = printList (quotedTexts (other :: others)) ↔
      numberedFrom "" 1 (quotedTexts (text :: texts)) =
        numberedFrom "" 1 (quotedTexts (other :: others)) := by
  rw [← String.toList_inj, toList_printList_quotedTexts_cons, toList_printList_quotedTexts_cons]

/-- The first line of members begins with a number, the one for none of them does not. -/
private theorem printList_cons_ne_nil (text : String) (texts : List String) :
    printList (quotedTexts (text :: texts)) ≠ printList (quotedTexts []) := by
  intro h
  have hone : (toString 1 ++ ") ").toList = ['1', ')', ' '] := by decide +kernel
  have hempty : (printList (quotedTexts [])).toList.head? = some '(' := by decide +kernel
  rw [← h, toList_printList_quotedTexts_cons, numberedFrom_member, hone] at hempty
  cases hempty

theorem printList_quotedTexts_injective {texts others : List String} (ht : Unmistakable 1 texts)
    (ho : Unmistakable 1 others)
    (h : printList (quotedTexts texts) = printList (quotedTexts others)) : texts = others := by
  cases texts with
  | nil =>
    cases others with
    | nil => rfl
    | cons other others => exact absurd h.symm (printList_cons_ne_nil other others)
  | cons text texts =>
    cases others with
    | nil => exact absurd h (printList_cons_ne_nil text texts)
    | cons other others => exact numberedFrom_injective ht ho (printList_cons_inj_iff.mp h)

/-- The last two members print like one that has both in it and what is printed between them. -/
theorem printList_merged (texts : List String) (a b : String) :
    printList (quotedTexts (texts ++ [a, b])) = printList (quotedTexts
      (texts ++ [a ++ turn (texts.length + 2) ++ "\"" ++ b])) := by
  have hlast (n : Nat) : numberedFrom "" n (quotedTexts [a, b]) =
      numberedFrom "" n (quotedTexts [a ++ turn (n + 1) ++ "\"" ++ b]) := by
    have hnone (k : Nat) : numberedFrom "" k (quotedTexts []) = [] := rfl
    simp [numberedFrom_member, hnone, turn]
  have hlength : (quotedTexts texts).length = texts.length := List.length_map _
  have hchars (tail : List String) (h : tail ≠ []) :
      (printList (quotedTexts (texts ++ tail))).toList =
        numberedFrom "" 1 (quotedTexts texts) ++
          numberedFrom "" (1 + texts.length) (quotedTexts tail) := by
    have hsplit : quotedTexts (texts ++ tail) = quotedTexts texts ++ quotedTexts tail :=
      List.map_append
    rw [printList, if_neg (by simp [quotedTexts, h]), toList_numbered, hsplit, numberedFrom_append,
      hlength]
  rw [← String.toList_inj, hchars _ (by simp), hchars _ (by simp), hlast, Nat.add_comm 1,
    Nat.add_assoc]

/-- A member that prints like two or more has in it what is printed between the first two. -/
private theorem turn_of_printList {text first second : String} {later : List String}
    (h : printList (quotedTexts (first :: second :: later)) = printList (quotedTexts [text])) :
    (turn 2 ++ "\"").toList <:+: text.toList := by
  have hchars := numberedFrom_cons_inj_iff.mp (printList_cons_inj_iff.mp h)
  rw [numberedFrom_member] at hchars
  have hlines : first.toList ++ (turn 2 ++ "\"").toList ++ (second.toList ++ '"' :: '\n' ::
      numberedFrom "" 3 (quotedTexts later)) = text.toList ++ ['"', '\n'] := by
    have hend : numberedFrom "" 2 (quotedTexts []) = [] := rfl
    simpa [turn, hend] using hchars
  have hlength : (first.toList ++ (turn 2 ++ "\"").toList).length ≤ text.toList.length := by
    have hboth := congrArg List.length hlines
    simp only [List.length_append, List.length_cons, List.length_nil] at hboth ⊢
    omega
  have hprefix : first.toList ++ (turn 2 ++ "\"").toList <+: text.toList :=
    List.prefix_of_prefix_length_le (hlines ▸ List.prefix_append ..) (List.prefix_append ..) hlength
  exact (List.suffix_append ..).isInfix.trans hprefix.isInfix

/-- Only no members at all and a single one that could not be two are printed like no others. -/
theorem printList_quotedTexts_unique_iff {texts : List String} :
    (∀ others, printList (quotedTexts others) = printList (quotedTexts texts) → others = texts) ↔
      texts = [] ∨ ∃ text, texts = [text] ∧ ¬(turn 2 ++ "\"").toList <:+: text.toList := by
  constructor
  · intro h
    rcases List.eq_nil_or_concat' texts with rfl | ⟨front, b, rfl⟩
    · exact .inl rfl
    · rcases List.eq_nil_or_concat' front with rfl | ⟨before, a, rfl⟩
      · refine .inr ⟨b, rfl, ?_⟩
        rintro ⟨first, second, hb⟩
        obtain rfl : b = String.ofList first ++ turn 2 ++ "\"" ++ String.ofList second := by
          rw [← String.toList_inj, ← hb]
          simp
        have htwo := h [String.ofList first, String.ofList second] (printList_merged [] _ _)
        simp at htwo
      · rw [List.append_assoc] at h
        have hone := h _ (printList_merged before a b).symm
        simp at hone
  · rintro (rfl | ⟨text, rfl, hquiet⟩) others h
    · cases others with
      | nil => rfl
      | cons other others => exact absurd h (printList_cons_ne_nil other others)
    · rcases others with _ | ⟨first, _ | ⟨second, later⟩⟩
      · exact absurd h.symm (printList_cons_ne_nil text [])
      · have hchars := numberedFrom_cons_inj_iff.mp (printList_cons_inj_iff.mp h)
        rw [String.toList_inj.mp (List.append_cancel_right hchars)]
      · exact absurd (turn_of_printList h) hquiet

/-- Lists end each of their lines, and have one for each entry and one more for each line end in a
member, so one for each entry just where there is no such member. Lists in which no member has in it
what is printed between it and the next one are told from each other by their text. From every other
list only two kinds are told: no members at all, and a single one that could not be two. -/
theorem listed_lines_unless_broken (texts : List String) :
    (∀ answer : Answer, answer.listed? = some (texts.map Utf8.encode) →
      Ended answer.print ∧
        lineEnds answer.print = answer.headings + texts.length + (texts.map lineEnds).sum ∧
        (lineEnds answer.print = answer.headings + texts.length ↔
          ∀ text ∈ texts, '\n' ∉ text.toList)) ∧
    ∀ make ∈ [members, fun list => listing (.members list)],
      (∀ others : List String, Unmistakable 1 texts → Unmistakable 1 others →
        ((make (texts.map Utf8.encode)).print = (make (others.map Utf8.encode)).print ↔
          texts = others)) ∧
      ((∀ others : List String,
          (make (others.map Utf8.encode)).print = (make (texts.map Utf8.encode)).print →
            others = texts) ↔
        texts = [] ∨ ∃ text, texts = [text] ∧ ¬(turn 2 ++ "\"").toList <:+: text.toList) := by
  refine ⟨fun answer h => ?_, fun make hmake => ?_⟩
  · obtain ⟨hended, hlines⟩ := lines_print h
    have hsum : lineEnds answer.print =
        answer.headings + texts.length + (texts.map lineEnds).sum := by
      simpa [Function.comp_def, Utf8.decodeLossy_encode] using hlines
    have hquiet : (texts.map lineEnds).sum = 0 ↔ ∀ text ∈ texts, '\n' ∉ text.toList := by
      simp [List.sum_eq_zero_iff, lineEnds_eq_zero_iff]
    exact ⟨hended, hsum, by rw [← hquiet, hsum, Nat.add_eq_left]⟩
  · have hprint (texts : List String) :
        (make (texts.map Utf8.encode)).print = printList (quotedTexts texts) := by
      have hmap : (texts.map Utf8.encode).map quoted = quotedTexts texts := List.map_map
      simp only [List.mem_cons, List.not_mem_nil, or_false] at hmake
      rcases hmake with rfl | rfl <;> exact (printMembers_eq _).trans (congrArg printList hmap)
    refine ⟨fun others ht ho => ?_, ?_⟩
    · rw [hprint, hprint]
      exact ⟨printList_quotedTexts_injective ht ho, fun h => by rw [h]⟩
    · simp only [hprint]
      exact printList_quotedTexts_unique_iff

/-- A member with a quote and one that looks like an entry keep to their lines. -/
theorem listed_lines_of_quiet_members :
    lineEnds (page 7 [(Utf8.encode "a\"", .integer 1), (Utf8.encode "2) b", .integer 2)]).print =
        3 ∧
      ((members [Utf8.encode "a\"", Utf8.encode "2) b"]).print =
          (members [Utf8.encode "a\"", Utf8.encode "2) \"b"]).print ↔
        ["a\"", "2) b"] = ["a\"", "2) \"b"]) := by
  obtain ⟨hlines, hmembers⟩ := listed_lines_unless_broken ["a\"", "2) b"]
  refine ⟨?_, ?_⟩
  · exact (hlines _ rfl).2.2.mpr (by decide)
  · exact (hmembers members (by simp)).1 ["a\"", "2) \"b"] (unmistakable_of_lineEnds (by decide))
      (unmistakable_of_lineEnds (by decide))

/-- One member that is printed in two lines, and as two members. -/
theorem member_printed_as_two :
    (members [Utf8.encode "a\"\n2) \"b"]).print =
        (members [Utf8.encode "a", Utf8.encode "b"]).print ∧
      [Utf8.encode "a\"\n2) \"b"] ≠ [Utf8.encode "a", Utf8.encode "b"] ∧
      lineEnds (members [Utf8.encode "a\"\n2) \"b"]).print = 2 := by
  refine ⟨?_, by simp, ?_⟩ <;> decide +kernel

end Answer
end SortedSetClient
