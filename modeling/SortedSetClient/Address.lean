import SortedSetClient.Error

/-! Addresses of servers: a host, a colon and the number of a service there. -/
namespace SortedSetClient

structure Address where
  host : String
  service : UInt16
deriving DecidableEq

namespace Address

/-- Read the number of a service, which may have a plus. -/
def readService? (text : List Char) : Option UInt16 :=
  match Decimal.splitSign (Utf8.encode (String.ofList text)) with
  | (true, _) => none
  | (false, digits) =>
    (Decimal.natural? digits).bind fun n => if n < UInt16.size then some (UInt16.ofNat n) else none

/-- Read an address. The service is what follows the last colon. -/
def read (text : String) : Except Error Address :=
  match text.toList.reverse.span (· != ':') with
  | (_, []) => .error (.io "invalid socket address")
  | (service, _ :: host) =>
    match readService? service.reverse with
    | some service => .ok { host := String.ofList host.reverse, service }
    | none => .error (.io "invalid port value")

end Address
end SortedSetClient
