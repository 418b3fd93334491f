import SortedSetClient.Score

/-! The members that a query lists, with their scores where the query asked for them. -/
namespace SortedSetClient

/-- A member and its score. -/
abbrev Entry := Bytes × Score

inductive Listing where
  | members (members : List Bytes)
  | scored (entries : List Entry)
deriving DecidableEq

namespace Listing

def size : Listing → Nat
  | members list => list.length
  | scored entries => entries.length

def isEmpty (listing : Listing) : Bool := listing.size == 0

/-- The members alone. -/
def toMembers : Listing → List Bytes
  | members list => list
  | scored entries => entries.map (·.1)

/-- The members with their scores, if the query asked for scores. -/
def toScored? : Listing → Option (List Entry)
  | members _ => none
  | scored entries => some entries

def sameEntries : List Entry → List Entry → Bool
  | [], [] => true
  | (m, s) :: rest, (m', s') :: rest' => m == m' && s.same s' && sameEntries rest rest'
  | _, _ => false

/-- Whether two listings are of one kind and agree in order, members and scores. -/
def same : Listing → Listing → Bool
  | members a, members b => a == b
  | scored a, scored b => sameEntries a b
  | _, _ => false

end Listing
end SortedSetClient
