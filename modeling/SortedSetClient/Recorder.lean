import SortedSetClient.Operation

/-! A carrier of commands without a server: it keeps what it is given and answers from replies
prepared beforehand, and with nil when they are used up. -/
namespace SortedSetClient

structure Recorder where
  /-- The replies still to be given. -/
  replies : List (Except Error Resp.Value) := []
  /-- The commands received, the latest first. -/
  received : List Command := []

namespace Recorder

/-- The commands received, in order. -/
def sent (recorder : Recorder) : List Command := recorder.received.reverse

/-- Take a command and give the next reply. -/
def execute (command : Command) : StateM Recorder (Except Error Resp.Value) := fun recorder =>
  let received := command :: recorder.received
  match recorder.replies with
  | [] => (.ok .nilBulk, { replies := [], received })
  | reply :: replies => (reply, { replies, received })

end Recorder
end SortedSetClient
