import Switchboard.Client.Call
import Switchboard.Link.Basic

/-!
# What a client needs of a wire format

A codec reads responses and writes requests on one connection. It never waits:
each attempt gets as far as it can at the time `now`. An attempt to do
something that has not begun begins it, and an attempt that is `blocked` is to
be made again later, or cancelled. What is done in one direction does not
disturb the other.
-/

namespace Switchboard

class Codec (κ : Type) where
  /-- Read the header of the next response. -/
  readHeader (now : Nat) : κ → Poll (Except CallError Wire.Response) × κ
  /-- Read the body after a header as a value of the given shape. -/
  readBody (shape : Wire.Shape) (now : Nat) : κ → Poll (Except CallError Wire.Value) × κ
  /-- Read past the body after a header. -/
  discardBody (now : Nat) : κ → Poll (Except CallError Unit) × κ
  /-- Leave the reading that has begun. -/
  cancelRead : κ → κ
  /-- Write a request and its arguments as one unit. -/
  write (request : Wire.Request) (args : Wire.Value) (now : Nat) :
    κ → Poll (Except CallError Unit) × κ
  /-- Leave the writing that has begun. -/
  cancelWrite : κ → κ
  /-- End the writing, without waiting for the other side. -/
  close : κ → Except CallError Unit × κ
  /-- Nobody will read any more. -/
  dropReader : κ → κ
  /-- Nobody will write any more. -/
  dropWriter : κ → κ
  /-- Whether another attempt to read would now get somewhere. -/
  canRead (now : Nat) : κ → Bool
  /-- Whether another attempt to write would now get somewhere. -/
  canWrite (now : Nat) : κ → Bool
  /-- The next time at which, by itself, an attempt would get somewhere. -/
  alarm (now : Nat) : κ → Option Nat

end Switchboard
