import SortedSetClient.Proofs.Dispatch

/-! A server that refuses a command does so in a reply, which its carrier may give as it came or as
an error of its own. Either way the operation fails alike; and no other reply looks like a refusal,
unless it is a page of a scan with a refusal in place of the entries. -/
namespace SortedSetClient
open Resp (Value)

namespace Error

/-- A reply has the wrong shape. -/
def ofShape : Error → Bool
  | unexpectedReply _ => true
  | _ => false

end Error

namespace Operation
variable {operation : Operation} {reply : Value} {text : String}

/-- Every operation that is sent takes an error reply for the server's refusal. -/
theorem decode_error (hc : operation.check = .ok ()) (text : String) :
    operation.decode (.error text) = .error (.server text) := by
  cases operation with
  | combine => cases hc
  | range direction key start stop withScores => cases withScores <;> rfl
  | rangeByScore direction key min max options =>
    obtain ⟨withScores, offset, count⟩ := options
    cases withScores <;> rfl
  | _ => rfl

theorem decode_pageRefused (h : operation.PageRefused reply text) :
    operation.decode reply = .error (.server text) := by
  cases h with
  | @mk key cursor pattern count next digits text ht hd hlt =>
    have hn : Reply.cursor next = .ok (UInt64.ofNat (Decimal.value digits)) :=
      Reply.cursor_eq_ok_iff.mpr ⟨digits, ht, Decimal.uint64?_eq_some_iff.mpr ⟨hd, hlt, rfl⟩⟩
    have hpage : Reply.page (.array [next, .error text]) =
        (do return (← Reply.cursor next, ← Reply.entries (.error text))) := rfl
    rw [decode, hpage, hn]
    rfl

/-- Any other reply is an answer or has the wrong shape. -/
theorem decode_accepted (hc : operation.check = .ok ()) (hs : ∀ text, reply ≠ .error text)
    (hp : ∀ text, ¬ operation.PageRefused reply text) :
    (∃ answer, operation.decode reply = .ok answer) ∨
      ∃ fault, operation.decode reply = .error (.unexpectedReply fault) := by
  have hr : Raises Error.ofShape (operation.decode reply) :=
    raises_decode_of (fun _ => rfl) hc (fun text he => absurd he (hs text))
      fun text he => absurd he (hp text)
  cases hd : operation.decode reply with
  | ok answer => exact .inl ⟨answer, rfl⟩
  | error error =>
    refine .inr ?_
    have hshape := hr error hd
    cases error with
    | unexpectedReply fault => exact ⟨fault, rfl⟩
    | _ => cases hshape

end Operation

section Carriers
variable {m : Type → Type} [Monad m]

/-- Do something with each command, and always give the same answer. -/
def answering (effect : Command → m Unit) (answer : Except Error Value) (command : Command) :
    m (Except Error Value) := do
  effect command
  return answer

theorem run_answering [LawfulMonad m] {operation : Operation} (h : operation.check = .ok ())
    (effect : Command → m Unit) (answer : Except Error Value) :
    operation.run (answering effect answer) =
      (do
        effect operation.toCommand
        return answer.bind operation.decode) := by
  rw [Operation.run_checked _ h, answering, map_bind]
  simp only [map_pure]

end Carriers

/-- An error reply gives the server's refusal, and so does a carrier that fails with it, after the
same command. Any other reply gives an answer or is found to have the wrong shape, but for a page
that has a valid cursor and an error reply for its entries: there the refusal is the server's. -/
theorem error_replies_surface_alike (operation : Operation) (h : operation.check = .ok ()) :
    (∀ (text : String) (answer : Except Error Value),
      answer = .ok (.error text) ∨ answer = .error (.server text) →
      ∀ {m : Type → Type} [Monad m] [LawfulMonad m] (effect : Command → m Unit),
        operation.run (answering effect answer) =
          (do
            effect operation.toCommand
            return .error (.server text))) ∧
    ∀ reply : Value, (∀ text, reply ≠ .error text) → ∃ result : Except Error Answer,
      (∀ {m : Type → Type} [Monad m] [LawfulMonad m] (effect : Command → m Unit),
        operation.run (answering effect (.ok reply)) =
          (do
            effect operation.toCommand
            return result)) ∧
      (∀ text, operation.PageRefused reply text → result = .error (.server text)) ∧
      ((∀ text, ¬ operation.PageRefused reply text) →
        (∃ answer, result = .ok answer) ∨ ∃ fault, result = .error (.unexpectedReply fault)) := by
  refine ⟨fun text answer ha m _ _ effect => ?_, fun reply hs => ?_⟩
  · rw [run_answering h]
    rcases ha with rfl | rfl
    · rw [Except.bind, Operation.decode_error h]
    · rfl
  · refine ⟨operation.decode reply, fun effect => run_answering h effect _, ?_, ?_⟩
    · intro text hp
      exact Operation.decode_pageRefused hp
    · intro hp
      exact Operation.decode_accepted h hs hp

/-- A refusal inside an array is an unexpected member to one operation and the server's own refusal
to another, that of a page behind a cursor with a leading zero. -/
theorem error_replies_surface_inside_array :
    let members : Operation := .rangeByLex [0x6b] .least .greatest (some 0) (some 2)
    let scan : Operation := .scan [0x6b] 0 (some [0x2a]) none
    let reply : Value := .array [.bulk [0x30, 0x37], .error "ERR"]
    members.check = .ok () ∧ scan.check = .ok () ∧ (∀ text, reply ≠ .error text) ∧
    members.run (answering (fun _ => (pure () : Id Unit)) (.error (.server "ERR"))) =
      .error (.server "ERR") ∧
    (∃ result, members.run (answering (fun _ => (pure () : Id Unit)) (.ok reply)) = result ∧
      ((∃ answer, result = .ok answer) ∨ ∃ fault, result = .error (.unexpectedReply fault))) ∧
    scan.run (answering (fun _ => (pure () : Id Unit)) (.ok reply)) = .error (.server "ERR") := by
  intro members scan reply
  have hs : ∀ text, reply ≠ .error text := by simp [reply]
  have hm : ∀ text, ¬ members.PageRefused reply text := by
    intro text h
    unfold members at h
    cases h
  have hp : scan.PageRefused reply "ERR" :=
    .mk rfl ⟨by decide, by decide +kernel⟩ (by decide +kernel)
  obtain ⟨result, hrun, -, hshape⟩ := (error_replies_surface_alike members rfl).2 reply hs
  obtain ⟨refused, hscan, hserver, -⟩ := (error_replies_surface_alike scan rfl).2 reply hs
  refine ⟨rfl, rfl, hs, ?_, ⟨result, hrun _, hshape hm⟩, ?_⟩
  · exact (error_replies_surface_alike members rfl).1 "ERR" _ (.inr rfl) _
  · rw [hscan, hserver "ERR" hp]
    rfl

end SortedSetClient
