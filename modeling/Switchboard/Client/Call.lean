import Switchboard.Fault.Call
import Switchboard.Wire.Header

/-!
# Calls

A call is one invocation of a remote method and, once it is finished, its
outcome. While it waits for its answer it is a `Pending`, which also knows what
shape the reply has and where the finished call is to be delivered.
-/

namespace Switchboard

structure Call where
  /-- The mark by which whoever made the call knows it again. -/
  ticket : Nat
  /-- The service and the method, with a point between. -/
  method : String
  args : Wire.Value
  /-- The number under which the request went out, if one did. -/
  seq : Option UInt64 := none
  /-- What the method answered, if the call succeeded. -/
  reply : Option Wire.Value := none
  /-- What went wrong, if the call failed. -/
  error : Option CallError := none

namespace Call

/-- The call with its outcome. -/
def finish (outcome : Except CallError Wire.Value) (c : Call) : Call :=
  match outcome with
  | .ok reply => { c with reply := some reply }
  | .error error => { c with error := some error }

/-- The outcome of a call: the error if there is one, else the reply. A call
with neither counts as one whose connection was shut down. -/
def result (c : Call) : Except CallError Wire.Value :=
  match c.error, c.reply with
  | some error, _ => .error error
  | none, some reply => .ok reply
  | none, none => .error .shutdown

/-- A call that had no outcome yet has exactly the one it is finished with. -/
theorem result_finish (outcome : Except CallError Wire.Value) (c : Call) (h : c.error = none) :
    (c.finish outcome).result = outcome := by
  cases outcome <;> simp [finish, result, h]

end Call

/-- A registered call that waits for its answer. -/
structure Pending where
  call : Call
  /-- The shape of the reply. -/
  shape : Wire.Shape
  /-- The mailbox to which the finished call goes. -/
  mailbox : Nat

end Switchboard
