import Switchboard.Fault.Link
import Switchboard.Link.Basic
import Switchboard.Wire.Encode

/-!
# The writing half

Frames are gathered in a buffer and handed to the connection when they no
longer fit or when the caller asks for it. A stretch of octets that would not
fit into an empty buffer goes to the connection directly, after everything
that was buffered before it.

An operation is a list of parts, each with time of its own; a part is a list of
acts. It is carried out one attempt at a time, and it can be left or fail
between any two attempts: then what the connection took is gone from the buffer
and the rest of the buffer stays.
-/

namespace Switchboard

/-- How many octets the buffer holds. -/
def bufferSize : Nat := 8192

-- The comparison of payloads is named, for it to be the same one whatever is imported.
local instance (priority := 2000) decidableEqPayload : DecidableEq ByteArray :=
  ByteArray.instDecidableEq

/-- One thing to do with the buffer and the connection. -/
inductive Act where
  /-- Add octets behind everything written so far. -/
  | put (rest : Octets)
  /-- The same with a payload, which stays in one piece until it is sent. -/
  | payload (bytes : ByteArray)
  /-- Empty the buffer and flush the connection. -/
  | flush
  /-- Empty the buffer and end the writing. -/
  | shut
  deriving DecidableEq

/-- Acts that share one span of time. -/
structure Part where
  acts : List Act
  /-- Whether the writer's patience applies. -/
  timed : Bool := true
  deriving DecidableEq

/-- What can be asked of the writing half. -/
inductive Sending where
  /-- A frame, into the buffer. -/
  | frame (payload : ByteArray)
  /-- Several frames, flushed together. -/
  | frames (payloads : List ByteArray)
  /-- Octets without a frame, flushed. -/
  | raw (octets : Octets)
  | flush
  /-- Flush and end the writing. -/
  | close

/-- A length of four octets and the payload. -/
def framePart (payload : ByteArray) : Part :=
  { acts := [.put (bigEndian 4 payload.size), .payload payload] }

namespace Sending

def parts : Sending → List Part
  | .frame payload => [framePart payload]
  | .frames payloads => payloads.map framePart ++ [{ acts := [.flush] }]
  | .raw octets => [{ acts := [.put octets, .flush] }]
  | .flush => [{ acts := [.flush] }]
  | .close => [{ acts := [.shut], timed := false }]

/-- The first frame that is longer than `limit`. -/
def oversized (limit : Nat) : Sending → Option ByteArray
  | .frame payload => if limit < payload.size then some payload else none
  | .frames payloads => payloads.find? (limit < ·.size)
  | .raw _ | .flush | .close => none

end Sending

/-- An operation that has begun: the acts left of its current part, when to
give that part up, and the parts that follow. -/
structure Writing where
  acts : List Act := []
  deadline : Option Nat := none
  later : List Part
  deriving DecidableEq

/-- The writing half of a connection. -/
structure Outbound where
  buffer : Octets := []
  /-- How much of the buffer an unfinished write-out has handed over. It counts
  as buffered until the write-out ends. -/
  written : Nat := 0
  /-- The writing was given up, and the buffer with it. -/
  aborted : Bool := false
  /-- The longest payload sent. -/
  limit : Nat := maxPayload
  /-- How long a part of an operation may take. -/
  patience : Option Nat := none
  writing : Option Writing := none
  deriving DecidableEq

namespace Outbound

/-- Begin an operation, unless a frame of it is too long; then nothing is
begun. -/
def start (s : Sending) (o : Outbound) : Except LinkError Outbound :=
  match s.oversized o.limit with
  | some payload => .error (.invalidFrame (.tooLarge payload.size))
  | none => .ok { o with writing := some { later := s.parts } }

/-- Leave the operation that has begun, if one has. -/
def cancel (o : Outbound) : Outbound := { o with writing := none }

/-- What the connection took leaves the buffer. -/
def compact (o : Outbound) : Outbound :=
  { o with buffer := o.buffer.drop o.written, written := 0 }

/-- The operation fails. -/
def fail (error : LinkError) (o : Outbound) : Poll (Except LinkError Unit) × Outbound :=
  (.done (.error error), o.cancel)

/-- Nothing could be handed over; it is given up if the time is over. -/
def stall (now : Nat) (w : Writing) (o : Outbound) : Poll (Except LinkError Unit) × Outbound :=
  if w.deadline.any (· ≤ now) then o.fail (.timeout .send) else (.blocked, o)

/-- Go on with these acts. -/
def proceed (w : Writing) (acts : List Act) (o : Outbound) :
    Poll (Except LinkError Unit) × Outbound :=
  (.again, { o with writing := some { w with acts } })

variable {L : Type} [Link L]

/-- One attempt to hand over what is buffered. -/
def writeOut (side : Side) (now : Nat) (w : Writing) (o : Outbound) (link : L) :
    Poll (Except LinkError Unit) × Outbound × L :=
  let (acceptance, link) := Link.write side (o.buffer.drop o.written) link
  match acceptance with
  | .nothing =>
      let (poll, o) := o.stall now w
      (poll, o, link)
  | .failed error =>
      let (poll, o) := o.compact.fail (.io error)
      (poll, o, link)
  | .accepted 0 =>
      let (poll, o) := o.compact.fail (.io ⟨.writeZero, "failed to write the buffered data"⟩)
      (poll, o, link)
  | .accepted count =>
      let o := { o with written := o.written + count }
      (.again, if o.written < o.buffer.length then o else o.compact, link)

/-- One attempt to hand over octets past an empty buffer. -/
def writeDirect (side : Side) (now : Nat) (w : Writing) (rest : Octets) (acts : List Act)
    (o : Outbound) (link : L) : Poll (Except LinkError Unit) × Outbound × L :=
  let (acceptance, link) := Link.write side rest link
  let (poll, o) := match acceptance with
    | .nothing => o.stall now w
    | .failed error => o.fail (.io error)
    | .accepted 0 => o.fail (.io ⟨.writeZero, "write zero"⟩)
    | .accepted count => o.proceed w (.put (rest.drop count) :: acts)
  (poll, o, link)

/-- One attempt to add octets, of which `size` says how many there are. -/
def add (side : Side) (now : Nat) (w : Writing) (size : Nat) (rest : Unit → Octets)
    (acts : List Act) (o : Outbound) (link : L) : Poll (Except LinkError Unit) × Outbound × L :=
  if o.buffer.length + size ≤ bufferSize ∧ size < bufferSize then
    let (poll, o) := { o with buffer := o.buffer ++ rest () }.proceed w acts
    (poll, o, link)
  else if o.buffer.isEmpty then o.writeDirect side now w (rest ()) acts link
  else o.writeOut side now w link

/-- One step of the operation that has begun. -/
def step (side : Side) (now : Nat) (o : Outbound) (link : L) :
    Poll (Except LinkError Unit) × Outbound × L :=
  match o.writing with
  | none => (.blocked, o, link)
  | some w =>
      match w.acts with
      | [] =>
          match w.later with
          | [] => (.done (.ok ()), o.cancel, link)
          | part :: later =>
              if o.aborted then
                let (poll, o) := o.fail .connectionClosed
                (poll, o, link)
              else
                let deadline := if part.timed then o.patience.map (now + ·) else none
                (.again, { o with writing := some ⟨part.acts, deadline, later⟩ }, link)
      | .put [] :: acts =>
          let (poll, o) := o.proceed w acts
          (poll, o, link)
      | .put rest :: acts => o.add side now w rest.length (fun _ => rest) acts link
      | .payload bytes :: acts =>
          if bytes.size = 0 then
            let (poll, o) := o.proceed w acts
            (poll, o, link)
          else o.add side now w bytes.size (fun _ => bytes.octets) acts link
      | .flush :: acts =>
          if o.buffer.isEmpty then
            let (result, link) := Link.flush side link
            let (poll, o) := match result with
              | .ok () => o.proceed w acts
              | .error error => o.fail (.io error)
            (poll, o, link)
          else o.writeOut side now w link
      | .shut :: acts =>
          if o.buffer.isEmpty then
            let (result, link) := Link.shut side link
            let (poll, o) := match result with
              | .ok () => o.proceed w acts
              | .error error => o.fail (.io error)
            (poll, o, link)
          else o.writeOut side now w link

/-- End the writing at once: what is buffered is dropped, the connection is
shut and the half is let go, even if shutting fails. A second time nothing is
left to do. -/
def abort (side : Side) (o : Outbound) (link : L) : Except LinkError Unit × Outbound × L :=
  if o.aborted then (.ok (), o, link)
  else
    let (result, link) := Link.shut side link
    (result.mapError .io, { o with buffer := [], written := 0, aborted := true, writing := none },
      Link.dropWriter side link)

/-- When an operation that waits is given up. -/
def alarm (o : Outbound) : Option Nat := o.writing.bind (·.deadline)

end Outbound

end Switchboard
