import SortedSetClient.Operation
import SortedSetClient.Proofs.Numerals

/-! The errors by where they come from: the arguments of an operation, a reply that has come whole,
or the stream. What judges arguments and what judges replies keeps to its own kind. -/
namespace SortedSetClient
open Resp (Value)

namespace Error

/-- The arguments are refused, before anything is sent. -/
def ofArguments : Error → Bool
  | invalidArgument _ | invalidRange _ | notImplemented _ => true
  | _ => false

/-- A reply is the server's refusal, or it has the wrong shape. -/
def ofReply : Error → Bool
  | unexpectedReply _ | server _ => true
  | _ => false

/-- The stream has failed before the end of a reply. -/
def ofStream : Error → Bool
  | protocol _ | connectionClosed | io _ => true
  | _ => false

theorem ofStream_of_ofArguments {error : Error} (h : error.ofArguments = true) :
    error.ofStream = false := by
  cases error <;> first | rfl | cases h

theorem ofStream_of_ofReply {error : Error} (h : error.ofReply = true) :
    error.ofStream = false := by
  cases error <;> first | rfl | cases h

end Error

/-- What fails fails with an error of this kind. -/
def Raises {α : Type} (kind : Error → Bool) (result : Except Error α) : Prop :=
  ∀ error, result = .error error → kind error = true

section Raising
variable {α β : Type} {kind : Error → Bool} {result : Except Error α}

theorem raises_ok (a : α) : Raises kind (.ok a : Except Error α) := fun _ h => by cases h

theorem raises_error {error : Error} (h : kind error = true) :
    Raises kind (.error error : Except Error α) := fun _ he => by
  cases he
  exact h

theorem Raises.bind {next : α → Except Error β} (h : Raises kind result)
    (hn : ∀ a, Raises kind (next a)) : Raises kind (result >>= next) := by
  cases result with
  | error error => exact raises_error (h error rfl)
  | ok a => exact hn a

theorem Raises.bind_of_ok {next : α → Except Error β} (h : Raises kind result)
    (hn : ∀ a, result = .ok a → Raises kind (next a)) : Raises kind (result >>= next) := by
  cases result with
  | error error => exact raises_error (h error rfl)
  | ok a => exact hn a rfl

theorem Raises.map (h : Raises kind result) (f : α → β) : Raises kind (result.map f) := by
  have hb : Raises kind (result >>= fun a => .ok (f a)) := h.bind fun a => raises_ok (f a)
  exact hb

theorem Raises.mapM {f : α → Except Error β} (h : ∀ a, Raises kind (f a)) (list : List α) :
    Raises kind (list.mapM f) := by
  induction list with
  | nil => exact raises_ok []
  | cons a list ih =>
    rw [List.mapM_cons]
    exact (h a).bind fun b => ih.bind fun bs => raises_ok (b :: bs)

theorem Raises.forM {f : α → Except Error Unit} (h : ∀ a, Raises kind (f a)) (list : List α) :
    Raises kind (list.forM f) := by
  induction list with
  | nil => exact raises_ok ()
  | cons a list ih => exact (h a).bind fun _ => ih

end Raising

section Arguments
open Operation

private theorem raises_scoreCheck (role : ScoreRole) (score : Score) :
    Raises Error.ofArguments (score.check role) := by
  unfold Score.check
  split
  · exact raises_error rfl
  · exact raises_ok ()

private theorem raises_checkBounds (min max : ScoreBound) :
    Raises Error.ofArguments (checkBounds min max) :=
  (raises_scoreCheck _ _).bind fun _ => raises_scoreCheck _ _

private theorem raises_checkLimit (offset count : Option Int64) :
    Raises Error.ofArguments (checkLimit offset count) := by
  match offset, count with
  | some _, some _ => exact raises_ok _
  | none, none => exact raises_ok _
  | some _, none => exact raises_error rfl
  | none, some _ => exact raises_error rfl

/-- Arguments are refused by an error of their own kind. -/
theorem raises_check (operation : Operation) : Raises Error.ofArguments operation.check := by
  unfold Operation.check
  split
  · exact (raises_scoreCheck _ _).bind fun _ => .forM (fun _ => raises_scoreCheck _ _) _
  · refine (raises_checkBounds _ _).bind fun _ => ?_
    split
    · exact raises_error rfl
    · exact raises_ok ()
  · exact raises_scoreCheck _ _
  · exact raises_error rfl
  · exact (raises_checkLimit _ _).map _
  · exact (raises_checkBounds _ _).bind fun _ => (raises_checkLimit _ _).map _
  · exact raises_checkBounds _ _
  · exact raises_ok ()

end Arguments

namespace Operation

/-- The reply to a scan gives a cursor, and the server's refusal in place of the entries. -/
inductive PageRefused : Operation → Value → String → Prop where
  | mk {key : Bytes} {cursor : UInt64} {pattern : Option Bytes} {count : Option Int64}
      {next : Value} {digits : Bytes} {text : String} :
    Reply.textual? next = some digits → Decimal.Digits digits → Decimal.value digits < 2 ^ 64 →
    PageRefused (scan key cursor pattern count) (.array [next, .error text]) text

end Operation

namespace Reply

theorem cursor_eq_ok_iff {value : Value} {n : UInt64} :
    cursor value = .ok n ↔
      ∃ digits, textual? value = some digits ∧ Decimal.uint64? digits = some n := by
  rw [← Option.bind_eq_some_iff, cursor]
  cases (textual? value).bind Decimal.uint64? <;> simp [unexpected]

end Reply

section Replies
open Reply
variable {kind : Error → Bool} (hk : ∀ fault, kind (.unexpectedReply fault) = true)
include hk

private theorem raises_unexpected {α : Type} (expected : ReplyShape) (got : Value) :
    Raises kind (unexpected expected got : Except Error α) := raises_error (hk _)

private theorem raises_scoreText (value : Value) : Raises kind (scoreText value) := by
  unfold scoreText
  split
  · exact raises_unexpected hk _ _
  · split
    · exact raises_ok _
    · exact raises_error (hk _)

private theorem raises_asInteger (value : Value) : Raises kind (asInteger value) := by
  unfold asInteger
  split
  · exact raises_ok _
  · exact raises_unexpected hk _ _

private theorem raises_member (value : Value) : Raises kind (member value) := by
  unfold member
  split
  · exact raises_ok _
  · exact raises_unexpected hk _ _

private theorem raises_entriesOnto (read : List Entry) (list : List Value) :
    Raises kind (entriesOnto read list) := by
  fun_induction entriesOnto read list with
  | case1 read name number rest ih =>
    exact (raises_scoreText hk number).bind fun score =>
      (raises_member hk name).bind fun member => ih score member
  | case2 => exact raises_ok _

private theorem raises_cursor (value : Value) : Raises kind (cursor value) := by
  unfold cursor
  split
  · exact raises_ok _
  · exact raises_unexpected hk _ _

section Refusals
variable {value : Value} (hs : ∀ text, value = .error text → kind (.server text) = true)
include hs

omit hk in
private theorem raises_accepted : Raises kind (accepted value) := by
  unfold accepted
  split
  · exact raises_error (hs _ rfl)
  · exact raises_ok _

omit hk in
private theorem raises_optional {α : Type} {read : Value → Except Error α}
    (h : ∀ value, Raises kind (read value)) : Raises kind (optional read value) := by
  refine (raises_accepted hs).bind fun value => ?_
  split
  · exact raises_ok none
  · exact (h value).bind fun a => raises_ok (some a)

private theorem raises_items : Raises kind (items value) := by
  refine (raises_accepted hs).bind fun value => ?_
  unfold asItems
  split
  · exact raises_ok _
  · exact raises_ok _
  · exact raises_unexpected hk _ _

private theorem raises_members : Raises kind (members value) :=
  (raises_items hk hs).bind fun list => .mapM (raises_member hk) list

private theorem raises_entries : Raises kind (entries value) :=
  (raises_items hk hs).bind fun list => raises_entriesOnto hk [] list

private theorem raises_listing (withScores : Bool) : Raises kind (listing withScores value) := by
  unfold listing
  split
  · exact (raises_entries hk hs).map _
  · exact (raises_members hk hs).map _

omit hk hs in
private theorem eq_array_of_items {first : Value} {rest : List Value}
    (h : items value = .ok (first :: rest)) : value = .array (first :: rest) := by
  cases value with
  | array list =>
    cases h
    rfl
  | _ => cases h

private theorem raises_page
    (hp : ∀ next n text, value = .array [next, .error text] → cursor next = .ok n →
      kind (.server text) = true) : Raises kind (page value) := by
  refine (raises_items hk hs).bind_of_ok fun list hlist => ?_
  split
  · next next entries =>
    refine (raises_cursor hk next).bind_of_ok fun n hn => ?_
    refine (raises_entries hk fun text he => ?_).bind fun list => raises_ok _
    subst he
    exact hp next n text (eq_array_of_items hlist) hn
  · exact raises_error (hk _)

end Refusals

/-- The reply to a command that is sent is found wrong for its shape, or it is the server's refusal:
the whole of it, or the entries of a page. -/
theorem raises_decode_of {reply : Value} {operation : Operation} (hc : operation.check = .ok ())
    (hs : ∀ text, reply = .error text → kind (.server text) = true)
    (hp : ∀ text, operation.PageRefused reply text → kind (.server text) = true) :
    Raises kind (operation.decode reply) := by
  have hinteger : Raises kind (integer reply) :=
    (raises_accepted hs).bind (raises_asInteger hk)
  have hscore : Raises kind (score reply) :=
    (raises_accepted hs).bind (raises_scoreText hk)
  cases operation with
  | combine => cases hc
  | increment => exact hscore.map _
  | scoreOf => exact (raises_optional hs (raises_scoreText hk)).map _
  | rank => exact (raises_optional hs (raises_asInteger hk)).map _
  | range => exact (raises_listing hk hs _).map _
  | rangeByScore => exact (raises_listing hk hs _).map _
  | rangeByLex => exact (raises_members hk hs).map _
  | scan =>
    refine (raises_page hk hs fun next n text hreply hn => hp text ?_).map _
    obtain ⟨digits, ht, hn⟩ := cursor_eq_ok_iff.mp hn
    obtain ⟨hd, hlt, -⟩ := Decimal.uint64?_eq_some_iff.mp hn
    subst hreply
    exact .mk ht hd hlt
  | _ => exact hinteger.map _

end Replies

/-- The reply to a command that is sent is found wrong by an error of its own kind. -/
theorem raises_decode {operation : Operation} (hc : operation.check = .ok ()) (reply : Value) :
    Raises Error.ofReply (operation.decode reply) :=
  raises_decode_of (fun _ => rfl) hc (fun _ _ => rfl) fun _ _ => rfl

end SortedSetClient
