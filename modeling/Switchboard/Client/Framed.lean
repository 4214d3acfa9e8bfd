import Switchboard.Client.Codec
import Switchboard.Channel

/-!
# Headers and bodies as frames

The usual wire format: every header and every body is a frame of its own, and
what is in a frame is the encoding of a value. A request is encoded as a whole
before any of it is written.
-/

namespace Switchboard

/-- The near end of a connection with both its halves. -/
structure Framed (L : Type) where
  link : L
  inbound : Inbound := {}
  outbound : Outbound := {}

namespace Framed

variable {L : Type} [Link L]

/-- Go on reading a frame, or begin to. -/
def read (kind : ReadKind) (now : Nat) (f : Framed L) :
    Poll (Except LinkError Received) × Framed L :=
  match f.inbound.reading with
  | none => (.again, { f with inbound := f.inbound.start kind now })
  | some _ =>
      let (poll, inbound, link) := f.inbound.step .near now f.link
      (poll, { f with inbound, link })

/-- Read a frame and make something of it. -/
def receive {α : Type} (kind : ReadKind) (convert : Received → Except LinkError α) (now : Nat)
    (f : Framed L) : Poll (Except CallError α) × Framed L :=
  let (poll, f) := f.read kind now
  (poll.map fun result => (result.bind convert).mapError .ofLink, f)

/-- The response header in a frame. -/
def header : Received → Except LinkError Wire.Response
  | .frame payload => (Wire.Response.decode payload).mapError .decode
  | .skipped | .line _ => .error .connectionClosed

/-- The frames of a request: its header and its arguments. -/
def request (r : Wire.Request) (args : Wire.Value) : Except LinkError Sending := do
  return .frames [← Channel.payload r.value, ← Channel.payload args]

/-- Go on writing a request, or begin to. -/
def write (r : Wire.Request) (args : Wire.Value) (now : Nat) (f : Framed L) :
    Poll (Except CallError Unit) × Framed L :=
  match f.outbound.writing with
  | none =>
      match (request r args).bind (f.outbound.start ·) with
      | .ok outbound => (.again, { f with outbound })
      | .error error => (.done (.error (.ofLink error)), f)
  | some _ =>
      let (poll, outbound, link) := f.outbound.step .near now f.link
      (poll.map (·.mapError .ofLink), { f with outbound, link })

/-- End the writing; what is buffered is dropped. -/
def close (f : Framed L) : Except CallError Unit × Framed L :=
  let (result, outbound, link) := f.outbound.abort .near f.link
  (result.mapError .ofLink, { f with outbound, link })

def dropReader (f : Framed L) : Framed L := { f with link := Link.dropReader .near f.link }

def dropWriter (f : Framed L) : Framed L := { f with link := Link.dropWriter .near f.link }

/-- A read that has not begun can begin; one that has needs octets, or its time
to be over. -/
def canRead (now : Nat) (f : Framed L) : Bool :=
  f.inbound.reading.isNone || !f.inbound.buffer.isEmpty ||
    Link.readable .near now f.link || f.inbound.alarm.any (· ≤ now)

def canWrite (now : Nat) (f : Framed L) : Bool :=
  f.outbound.writing.isNone || Link.writable .near f.link || f.outbound.alarm.any (· ≤ now)

def alarm (now : Nat) (f : Framed L) : Option Nat :=
  let next (t : Option Nat) := t.filter (now < ·)
  earlier (next (Link.alarm f.link)) (earlier (next f.inbound.alarm) (next f.outbound.alarm))

instance : Codec (Framed L) where
  readHeader := receive .frame header
  readBody shape := receive .frame (Channel.receive shape)
  discardBody := receive .skip fun _ => .ok ()
  cancelRead f := { f with inbound := f.inbound.cancel }
  write := write
  cancelWrite f := { f with outbound := f.outbound.cancel }
  close := close
  dropReader := dropReader
  dropWriter := dropWriter
  canRead := canRead
  canWrite := canWrite
  alarm := alarm

end Framed

end Switchboard
