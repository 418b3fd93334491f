import SortedSetClient.Proofs.ErrorKinds

/-! What lists are read as. Every item that carries text is a member; items in turn are members and
scores, and a last one without a score is passed over. A list is read whole and in order, or it
fails with its first fault. -/
namespace SortedSetClient
open Resp (Value)

section Lists
variable {α β : Type} {f : α → Except Error β} {Reads : α → β → Prop} {Good : α → Prop}
  {Fault : α → Error → Prop} {a : α} {list : List α} {error : Error}

/-- This is the fault of the first element that is not good. -/
def FirstFault (Good : α → Prop) (Fault : α → Error → Prop) (list : List α) (error : Error) :
    Prop :=
  ∃ before a after, list = before ++ a :: after ∧ (∀ b ∈ before, Good b) ∧ Fault a error

theorem not_firstFault_nil : ¬FirstFault Good Fault [] error := by
  rintro ⟨before, a, after, h, -, -⟩
  simp at h

theorem firstFault_cons_iff :
    FirstFault Good Fault (a :: list) error ↔
      Fault a error ∨ Good a ∧ FirstFault Good Fault list error := by
  constructor
  · rintro ⟨_ | ⟨b, before⟩, c, after, h, hgood, hfault⟩
    · cases h
      exact .inl hfault
    · cases h
      obtain ⟨ha, hbefore⟩ := List.forall_mem_cons.mp hgood
      exact .inr ⟨ha, before, c, after, rfl, hbefore, hfault⟩
  · rintro (hfault | ⟨ha, before, c, after, rfl, hbefore, hfault⟩)
    · exact ⟨[], a, list, rfl, List.forall_mem_nil _, hfault⟩
    · exact ⟨a :: before, c, after, rfl, List.forall_mem_cons.mpr ⟨ha, hbefore⟩, hfault⟩

theorem map_eq_ok_iff {result : Except Error α} {g : α → β} {b : β} :
    result.map g = .ok b ↔ ∃ a, result = .ok a ∧ g a = b := by
  cases result with
  | error e => exact iff_of_false (by rintro ⟨⟩) (by rintro ⟨a, ⟨⟩, -⟩)
  | ok a =>
    constructor
    · rintro ⟨⟩
      exact ⟨a, rfl, rfl⟩
    · rintro ⟨_, ⟨⟩, rfl⟩
      rfl

private theorem mapM_cons_eq_ok_iff {read : List β} :
    (a :: list).mapM f = .ok read ↔
      ∃ b rest, f a = .ok b ∧ list.mapM f = .ok rest ∧ read = b :: rest := by
  rw [List.mapM_cons]
  cases ha : f a with
  | error e => exact iff_of_false (by rintro ⟨⟩) (by rintro ⟨b, rest, ⟨⟩, -⟩)
  | ok b =>
    cases hl : list.mapM f with
    | error e => exact iff_of_false (by rintro ⟨⟩) (by rintro ⟨b, rest, -, ⟨⟩, -⟩)
    | ok rest =>
      constructor
      · rintro ⟨⟩
        exact ⟨b, rest, rfl, rfl, rfl⟩
      · rintro ⟨_, _, ⟨⟩, ⟨⟩, rfl⟩
        rfl

private theorem mapM_cons_eq_error_iff :
    (a :: list).mapM f = .error error ↔
      f a = .error error ∨ (∃ b, f a = .ok b) ∧ list.mapM f = .error error := by
  rw [List.mapM_cons]
  cases ha : f a with
  | error e =>
    constructor
    · rintro ⟨⟩
      exact .inl rfl
    · rintro (⟨⟨⟩⟩ | ⟨⟨b, ⟨⟩⟩, -⟩)
      rfl
  | ok b =>
    cases hl : list.mapM f with
    | error e =>
      constructor
      · rintro ⟨⟩
        exact .inr ⟨⟨b, rfl⟩, rfl⟩
      · rintro (⟨⟨⟩⟩ | ⟨-, ⟨⟩⟩)
        rfl
    | ok rest => exact iff_of_false (by rintro ⟨⟩) (by rintro (⟨⟨⟩⟩ | ⟨-, ⟨⟩⟩))

section
variable (hok : ∀ a b, f a = .ok b ↔ Reads a b)
include hok

/-- A list is read as the list of what its elements are read as, if all of them are. -/
theorem mapM_eq_ok_iff {read : List β} :
    list.mapM f = .ok read ↔ List.Forall₂ Reads list read := by
  induction list generalizing read with
  | nil =>
    rw [List.forall₂_nil_left_iff, List.mapM_nil]
    exact ⟨by rintro ⟨⟩; rfl, by rintro rfl; rfl⟩
  | cons a list ih =>
    rw [mapM_cons_eq_ok_iff, List.forall₂_cons_left_iff]
    simp only [hok, ih]

/-- It fails with the fault of the first element that is not read. -/
theorem mapM_eq_error_iff (herror : ∀ a error, f a = .error error ↔ Fault a error) :
    list.mapM f = .error error ↔ FirstFault (fun a => ∃ b, Reads a b) Fault list error := by
  induction list with
  | nil => exact iff_of_false (by rintro ⟨⟩) not_firstFault_nil
  | cons a list ih =>
    rw [mapM_cons_eq_error_iff, firstFault_cons_iff, ih]
    simp only [hok, herror]

end
end Lists

namespace Reply

/-- A value carries text as a bulk string, or as a simple string in octets. -/
inductive Carries : Value → Bytes → Prop where
  | bulk (data : Bytes) : Carries (.bulk data) data
  | simple (text : String) : Carries (.simple text) (Utf8.encode text)

theorem textual?_eq_some_iff {value : Value} {text : Bytes} :
    textual? value = some text ↔ Carries value text := by
  constructor
  · intro h
    cases value with
    | bulk data =>
      cases h
      exact .bulk _
    | simple s =>
      cases h
      exact .simple _
    | _ => cases h
  · rintro (_ | _) <;> rfl

theorem textual?_eq_none_iff {value : Value} :
    textual? value = none ↔ ¬∃ text, Carries value text := by
  rw [Option.eq_none_iff_forall_ne_some, not_exists]
  exact forall_congr' fun text => not_congr textual?_eq_some_iff

/-- The items two by two; a last one alone is left out. -/
def pairsOf : List Value → List (Value × Value)
  | name :: number :: rest => (name, number) :: pairsOf rest
  | _ => []

theorem length_pairsOf (items : List Value) : (pairsOf items).length = items.length / 2 := by
  fun_induction pairsOf items with
  | case1 name number rest ih =>
    rw [List.length_cons, ih, List.length_cons, List.length_cons]
    omega
  | case2 items h =>
    rcases items with _ | ⟨name, _ | ⟨number, rest⟩⟩
    · rfl
    · exact (Nat.div_eq_of_lt (Nat.lt_succ_self 1)).symm
    · exact absurd rfl (h name number rest)

theorem getElem?_pairsOf {items : List Value} {i : Nat} (h : 2 * i + 1 < items.length) :
    (pairsOf items)[i]? = some (items[2 * i], items[2 * i + 1]) := by
  fun_induction pairsOf items generalizing i with
  | case1 name number rest ih =>
    cases i with
    | zero => rfl
    | succ i => exact ih (i := i) (by simp only [List.length_cons] at h; omega)
  | case2 items hitems =>
    rcases items with _ | ⟨name, _ | ⟨number, rest⟩⟩
    · exact absurd h (Nat.not_lt_zero _)
    · simp at h
    · exact absurd rfl (hitems name number rest)

/-- A pair is read as the text of its first value and the score that the second is the text of. -/
def IsEntry (pair : Value × Value) (entry : Entry) : Prop :=
  Carries pair.1 entry.1 ∧ ∃ text, Carries pair.2 text ∧ Score.ofText? text = some entry.2

/-- Why a pair is not read. The score is judged before the member. -/
inductive EntryFault : Value × Value → Error → Prop where
  | score {name number : Value} : (¬∃ text, Carries number text) →
    EntryFault (name, number) (.unexpectedReply (.mismatch .textualScore number))
  | number {name number : Value} {text : Bytes} : Carries number text →
    Score.ofText? text = none → EntryFault (name, number) (.unexpectedReply (.notANumber text))
  | member {name number : Value} {text : Bytes} {score : Score} : Carries number text →
    Score.ofText? text = some score → (¬∃ text, Carries name text) →
    EntryFault (name, number) (.unexpectedReply (.mismatch .member name))

section Judging
variable {value name number : Value} {text : Bytes}

theorem Carries.unique {text' : Bytes} (h : Carries value text) (h' : Carries value text') :
    text = text' :=
  Option.some.inj ((textual?_eq_some_iff.mpr h).symm.trans (textual?_eq_some_iff.mpr h'))

theorem scoreText_of_carries (h : Carries value text) :
    scoreText value =
      match Score.ofText? text with
      | some score => .ok score
      | none => .error (.unexpectedReply (.notANumber text)) := by
  cases h <;> rfl

theorem scoreText_of_not_carries (h : ¬∃ text, Carries value text) :
    scoreText value = .error (.unexpectedReply (.mismatch .textualScore value)) := by
  rw [scoreText, textual?_eq_none_iff.mpr h]
  rfl

theorem member_of_carries (h : Carries value text) : member value = .ok text := by
  rw [member, textual?_eq_some_iff.mpr h]

theorem member_of_not_carries (h : ¬∃ text, Carries value text) :
    member value = .error (.unexpectedReply (.mismatch .member value)) := by
  rw [member, textual?_eq_none_iff.mpr h]
  rfl

theorem scoreText_eq_ok_iff {score : Score} :
    scoreText value = .ok score ↔ ∃ text, Carries value text ∧ Score.ofText? text = some score := by
  by_cases hv : ∃ text, Carries value text
  · obtain ⟨text, ht⟩ := hv
    rw [scoreText_of_carries ht]
    constructor
    · intro h
      refine ⟨text, ht, ?_⟩
      cases hs : Score.ofText? text with
      | none => rw [hs] at h; cases h
      | some score => rw [hs] at h; cases h; rfl
    · rintro ⟨text', ht', hs⟩
      rw [ht.unique ht', hs]
  · rw [scoreText_of_not_carries hv]
    exact iff_of_false (by rintro ⟨⟩) fun ⟨text, ht, _⟩ => hv ⟨text, ht⟩

theorem member_eq_ok_iff : member value = .ok text ↔ Carries value text := by
  by_cases hv : ∃ text, Carries value text
  · obtain ⟨text', ht⟩ := hv
    rw [member_of_carries ht, Except.ok.injEq]
    exact ⟨fun h => h ▸ ht, ht.unique⟩
  · rw [member_of_not_carries hv]
    exact iff_of_false (by rintro ⟨⟩) fun ht => hv ⟨text, ht⟩

theorem member_eq_error_iff {error : Error} :
    member value = .error error ↔
      (¬∃ text, Carries value text) ∧ error = .unexpectedReply (.mismatch .member value) := by
  by_cases hv : ∃ text, Carries value text
  · obtain ⟨text', ht⟩ := hv
    rw [member_of_carries ht]
    exact iff_of_false (by rintro ⟨⟩) fun h => h.1 ⟨text', ht⟩
  · rw [member_of_not_carries hv, and_iff_right hv, Except.error.injEq, eq_comm]

/-- The entry of a pair. -/
def entry (pair : Value × Value) : Except Error Entry := do
  let score ← scoreText pair.2
  let member ← member pair.1
  return (member, score)

theorem entry_eq_ok_iff {pair : Value × Value} {read : Entry} :
    entry pair = .ok read ↔ IsEntry pair read := by
  rw [IsEntry, ← scoreText_eq_ok_iff, ← member_eq_ok_iff, entry]
  cases scoreText pair.2 with
  | error e => exact iff_of_false (by rintro ⟨⟩) (by rintro ⟨-, ⟨⟩⟩)
  | ok score =>
    cases member pair.1 with
    | error e => exact iff_of_false (by rintro ⟨⟩) (by rintro ⟨⟨⟩, -⟩)
    | ok text =>
      obtain ⟨member, number⟩ := read
      constructor
      · rintro ⟨⟩
        exact ⟨rfl, rfl⟩
      · rintro ⟨⟨⟩, ⟨⟩⟩
        rfl

theorem entry_eq_error_iff {pair : Value × Value} {error : Error} :
    entry pair = .error error ↔ EntryFault pair error := by
  obtain ⟨name, number⟩ := pair
  constructor
  · intro h
    by_cases hnumber : ∃ text, Carries number text
    · obtain ⟨text, ht⟩ := hnumber
      cases hs : Score.ofText? text with
      | none =>
        rw [entry, scoreText_of_carries ht, hs] at h
        cases h
        exact .number ht hs
      | some score =>
        by_cases hname : ∃ text, Carries name text
        · obtain ⟨text', ht'⟩ := hname
          rw [entry, scoreText_of_carries ht, hs, member_of_carries ht'] at h
          cases h
        · rw [entry, scoreText_of_carries ht, hs, member_of_not_carries hname] at h
          cases h
          exact .member ht hs hname
    · rw [entry, scoreText_of_not_carries hnumber] at h
      cases h
      exact .score hnumber
  · intro h
    cases h with
    | score hnumber =>
      rw [entry, scoreText_of_not_carries hnumber]
      rfl
    | number ht hs =>
      rw [entry, scoreText_of_carries ht, hs]
      rfl
    | member ht hs hname =>
      rw [entry, scoreText_of_carries ht, hs, member_of_not_carries hname]
      rfl

/-- Entries are read pair by pair. -/
theorem entriesOnto_eq (read : List Entry) (items : List Value) :
    entriesOnto read items = ((pairsOf items).mapM entry).map (read.reverse ++ ·) := by
  fun_induction entriesOnto read items with
  | case1 read name number rest ih =>
    rw [pairsOf, List.mapM_cons, entry]
    cases scoreText number with
    | error e => rfl
    | ok score =>
      cases member name with
      | error e => rfl
      | ok text =>
        change entriesOnto ((text, score) :: read) rest = _
        rw [ih score text]
        cases (pairsOf rest).mapM entry with
        | error e => rfl
        | ok entries =>
          refine congrArg Except.ok ?_
          rw [List.reverse_cons]
          exact List.append_assoc ..
  | case2 items read h =>
    have hpairs : pairsOf items = [] := by
      rw [pairsOf]
      exact h
    rw [hpairs, List.mapM_nil]
    exact congrArg Except.ok (List.append_nil _).symm

end Judging

/-! ### Whole lists -/

section Whole
variable {items : List Value} {error : Error}

theorem members_array_eq_ok_iff {read : List Bytes} :
    members (.array items) = .ok read ↔ List.Forall₂ Carries items read :=
  mapM_eq_ok_iff fun _ _ => member_eq_ok_iff

theorem entries_array (items : List Value) :
    entries (.array items) = (pairsOf items).mapM entry := by
  change entriesOnto [] items = _
  rw [entriesOnto_eq]
  cases (pairsOf items).mapM entry <;> rfl

theorem entries_array_eq_ok_iff {read : List Entry} :
    entries (.array items) = .ok read ↔ List.Forall₂ IsEntry (pairsOf items) read := by
  rw [entries_array]
  exact mapM_eq_ok_iff fun _ _ => entry_eq_ok_iff

end Whole

/-- Members are the texts of all items, and entries are those of the pairs that the items form, a
last one alone passed over. Either list is read as a whole or fails with its first fault; a nil
array is an empty list, and any other value but an error reply is of the wrong shape. -/
theorem lists_read_whole (items : List Value) :
    (∀ read, members (.array items) = .ok read ↔ List.Forall₂ Carries items read) ∧
    (∀ error, members (.array items) = .error error ↔
      FirstFault (fun item => ∃ text, Carries item text)
        (fun item error => (¬∃ text, Carries item text) ∧
          error = .unexpectedReply (.mismatch .member item)) items error) ∧
    ((pairsOf items).length = items.length / 2 ∧
      ∀ i (h : 2 * i + 1 < items.length),
        (pairsOf items)[i]? = some (items[2 * i], items[2 * i + 1])) ∧
    (∀ read, entries (.array items) = .ok read ↔ List.Forall₂ IsEntry (pairsOf items) read) ∧
    (∀ error, entries (.array items) = .error error ↔
      FirstFault (fun pair => ∃ entry, IsEntry pair entry) EntryFault (pairsOf items) error) ∧
    (members .nilArray = .ok [] ∧ entries .nilArray = .ok []) ∧
    ∀ value : Value, (∀ items, value ≠ .array items) → value ≠ .nilArray →
      (∀ text, value ≠ .error text) →
        members value = .error (.unexpectedReply (.mismatch .array value)) ∧
          entries value = .error (.unexpectedReply (.mismatch .array value)) := by
  refine ⟨fun _ => members_array_eq_ok_iff, fun _ => ?_,
    ⟨length_pairsOf items, fun _ => getElem?_pairsOf⟩, fun _ => entries_array_eq_ok_iff, fun _ => ?_,
    ⟨rfl, rfl⟩, fun value harray hnil herror => ?_⟩
  · exact mapM_eq_error_iff (fun _ _ => member_eq_ok_iff) fun _ _ => member_eq_error_iff
  · rw [entries_array]
    exact mapM_eq_error_iff (fun _ _ => entry_eq_ok_iff) fun _ _ => entry_eq_error_iff
  · cases value with
    | array items => exact absurd rfl (harray items)
    | nilArray => exact absurd rfl hnil
    | error text => exact absurd rfl (herror text)
    | _ => exact ⟨rfl, rfl⟩

/-- Of these items the third is the first that is no member, while the fourth is no score and is
judged before the third. The last item alone is judged by members only. -/
theorem lists_read_whole_odd_tail :
    let items : List Value :=
      [.bulk [0x61], .simple "1", .nilBulk, .bulk [0x78], .error "ERR"]
    members (.array items) = .error (.unexpectedReply (.mismatch .member .nilBulk)) ∧
    entries (.array items) = .error (.unexpectedReply (.notANumber [0x78])) ∧
    entries (.array [.bulk [0x61], .simple "1", .error "ERR"]) = .ok [([0x61], .integer 1)] := by
  intro items
  have hfirst : IsEntry (.bulk [0x61], .simple "1") ([0x61], .integer 1) :=
    ⟨.bulk _, _, .simple _, by decide +kernel⟩
  obtain ⟨-, hmembers, -, -, hentries, -⟩ := lists_read_whole items
  refine ⟨(hmembers _).mpr ?_, (hentries _).mpr ?_, ?_⟩
  · refine ⟨[.bulk [0x61], .simple "1"], .nilBulk, _, rfl, ?_, ?_, rfl⟩
    · exact List.forall_mem_cons.mpr ⟨⟨_, .bulk _⟩, List.forall_mem_singleton.mpr ⟨_, .simple _⟩⟩
    · rintro ⟨text, ⟨⟩⟩
  · refine ⟨[(.bulk [0x61], .simple "1")], (.nilBulk, .bulk [0x78]), [], rfl, ?_, ?_⟩
    · exact List.forall_mem_singleton.mpr ⟨_, hfirst⟩
    · exact .number (.bulk _) (by decide +kernel)
  · obtain ⟨-, -, -, hread, -⟩ := lists_read_whole [.bulk [0x61], .simple "1", .error "ERR"]
    exact (hread _).mpr (.cons hfirst .nil)

end Reply
end SortedSetClient
