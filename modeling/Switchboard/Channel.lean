import Switchboard.Frame.Terminal
import Switchboard.Wire.Encode
import Switchboard.Wire.Decode

/-!
# Messages over frames

A channel sends each value as one frame and reads each frame as one value. All
it adds to the frames below is the encoding: a value that has none sends
nothing, and a frame that holds no value of the expected shape is consumed all
the same, so that the next message is where it would have been.
-/

namespace Switchboard.Channel

/-- The payload of a message. -/
def payload (v : Wire.Value) : Except LinkError ByteArray :=
  (Wire.encode v).mapError .encode

/-- Queue a message. -/
def feed (v : Wire.Value) : Except LinkError Sending :=
  (payload v).map .frame

/-- Send a message and flush it. -/
def send (v : Wire.Value) : Except LinkError Sending :=
  (payload v).map fun p => .frames [p]

/-- The message that a frame holds. -/
def receive (shape : Wire.Shape) : Received → Except LinkError Wire.Value
  | .frame payload => (Wire.decode shape payload).mapError .decode
  | .skipped | .line _ => .error .connectionClosed

end Switchboard.Channel
