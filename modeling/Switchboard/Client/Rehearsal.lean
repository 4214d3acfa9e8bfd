import Switchboard.Client.Codec
import Switchboard.Channel

/-!
# A codec without a wire

For looking at a client alone: responses come from a list of events, and what
the client writes is noted down. Particular requests can be made to fail, or to
be never done.
-/

namespace Switchboard

/-- What the next attempt to read finds. -/
inductive Cue where
  | header (response : Wire.Response)
  | body (v : Wire.Value)
  | failure (error : CallError)

/-- What a client wrote. -/
inductive Note where
  | request (request : Wire.Request) (args : ByteArray)
  | closed

structure Rehearsal where
  cues : List Cue := []
  /-- The requests that are never done. -/
  stalls : List UInt64 := []
  /-- The requests that fail. -/
  failures : List (UInt64 × CallError) := []
  closeError : Option CallError := none
  /-- What was written since the last report. -/
  notes : List Note := []
  /-- A request that is never done is being written. -/
  stalled : Bool := false

namespace Rehearsal

/-- Use up one cue, if there is one. -/
def next {α : Type} (convert : Cue → Except CallError α) (r : Rehearsal) :
    Poll (Except CallError α) × Rehearsal :=
  match r.cues with
  | [] => (.blocked, r)
  | cue :: cues => (.done (convert cue), { r with cues })

def header : Cue → Except CallError Wire.Response
  | .header response => .ok response
  | .body _ => .error (.codec "expected a header")
  | .failure error => .error error

/-- The body of a response, converted by `convert`. -/
def body {α : Type} (convert : Wire.Value → Except LinkError α) : Cue → Except CallError α
  | .header _ => .error (.codec "expected a body")
  | .body v => (convert v).mapError .ofLink
  | .failure error => .error error

/-- A value as it arrives at a reader that expects the given shape. -/
def reread (shape : Wire.Shape) (v : Wire.Value) : Except LinkError Wire.Value := do
  Channel.receive shape (.frame (← Channel.payload v))

/-- Note a request down; it fails if its arguments have no encoding. -/
def write (request : Wire.Request) (args : Wire.Value) (r : Rehearsal) :
    Poll (Except CallError Unit) × Rehearsal :=
  if r.stalled then (.blocked, r)
  else
    match Channel.payload args with
    | .error error => (.done (.error (.ofLink error)), r)
    | .ok payload =>
        let r := { r with notes := r.notes ++ [Note.request request payload] }
        if r.stalls.contains request.seq then (.blocked, { r with stalled := true })
        else
          match r.failures.lookup request.seq with
          | some error => (.done (.error error), r)
          | none => (.done (.ok ()), r)

def close (r : Rehearsal) : Except CallError Unit × Rehearsal :=
  (match r.closeError with
    | some error => .error error
    | none => .ok (),
    { r with notes := r.notes ++ [Note.closed] })

instance : Codec Rehearsal where
  readHeader _ := next header
  readBody shape _ := next (body (reread shape))
  discardBody _ := next (body fun _ => .ok ())
  cancelRead r := r
  write request args _ := write request args
  cancelWrite r := { r with stalled := false }
  close := close
  dropReader r := r
  dropWriter r := r
  canRead _ r := !r.cues.isEmpty
  canWrite _ r := !r.stalled
  alarm _ _ := none

/-- More cues at the end. -/
def cue (more : List Cue) (r : Rehearsal) : Rehearsal := { r with cues := r.cues ++ more }

end Rehearsal

end Switchboard
