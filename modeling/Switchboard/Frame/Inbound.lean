import Switchboard.Fault.Link
import Switchboard.Link.Basic
import Switchboard.Wire.Encode

/-!
# The reading half

A frame is a length of four octets, most significant first, and then that many
octets of payload. Before framing begins there may be lines of text.

What arrives is kept in a buffer until a read consumes it. A read in progress
is a value, `Progress`: it says what has been consumed and what is still
needed, and `Progress.feed` is all there is to parsing. A read that is given up
loses what it consumed and leaves the buffer as it is.
-/

namespace Switchboard

/-- The most octets that are fetched ahead of need. -/
def fetchSize : Nat := 8192

/-- The longest line, its end included. -/
def maxLine : Nat := 8192

/-- What can be read. -/
inductive ReadKind where
  | frame
  /-- A frame whose payload nobody wants. -/
  | skip
  | line
  deriving Repr, DecidableEq

/-- What was read. -/
inductive Received where
  | frame (payload : ByteArray)
  | skipped
  | line (text : String)

/-- How far a read has come. -/
inductive Progress where
  /-- Fewer than four octets of a frame's length were seen. -/
  | length (skip : Bool) (seen : Octets)
  /-- Of a payload, some octets were seen and `need` more belong to it. -/
  | payload (seen : Octets) (need : Nat)
  /-- So many octets of a payload are still to be passed over. -/
  | skipping (need : Nat)
  /-- A line was seen up to here. -/
  | line (seen : Octets)
  deriving Repr, DecidableEq

/-- What comes of giving octets to a read: it needs more, or it is finished and
leaves the rest. -/
inductive Fed where
  | more (progress : Progress)
  | done (result : Except LinkError Received) (rest : Octets)

/-- The end of a line. -/
def newline : UInt8 := 0x0A

def carriageReturn : UInt8 := 0x0D

/-- The text of a line from its octets without the line end; carriage returns
before the end belong to the end. -/
def lineText (octets : Octets) : Except LinkError Received :=
  let body := (octets.reverse.dropWhile (· == carriageReturn)).reverse
  match Utf8.decode (Octets.toBytes body) with
  | .ok text => .ok (.line text)
  | .error fault => .error (.invalidFrame (.notUtf8 fault))

namespace Progress

/-- A read that has consumed nothing. -/
def start : ReadKind → Progress
  | .frame => .length false []
  | .skip => .length true []
  | .line => .line []

def feedPayload (seen : Octets) (need : Nat) (octets : Octets) : Fed :=
  let seen := seen ++ octets.take need
  let missing := need - octets.length
  if missing = 0 then .done (.ok (.frame (Octets.toBytes seen))) (octets.drop need)
  else .more (.payload seen missing)

def feedSkipping (need : Nat) (octets : Octets) : Fed :=
  let missing := need - octets.length
  if missing = 0 then .done (.ok .skipped) (octets.drop need)
  else .more (.skipping missing)

/-- A length over `limit` is refused with nothing of the payload consumed. -/
def feedLength (limit : Nat) (skip : Bool) (seen octets : Octets) : Fed :=
  let need := 4 - seen.length
  let seen := seen ++ octets.take need
  if seen.length < 4 then .more (.length skip seen)
  else
    let rest := octets.drop need
    let length := ofBigEndian seen
    if limit < length then .done (.error (.invalidFrame (.tooLarge length))) rest
    else if skip then feedSkipping length rest
    else feedPayload [] length rest

/-- A line ends with its first line end, unless it is too long. -/
def feedLine (seen octets : Octets) : Fed :=
  let room := maxLine - seen.length
  let window := octets.take room
  let body := window.takeWhile (· != newline)
  if body.length < window.length then
    .done (lineText (seen ++ body)) (octets.drop (body.length + 1))
  else if window.length < room then .more (.line (seen ++ window))
  else .done (.error (.invalidFrame .unfinishedLine)) (octets.drop room)

/-- Give octets to a read. -/
def feed (limit : Nat) (octets : Octets) : Progress → Fed
  | .length skip seen => feedLength limit skip seen octets
  | .payload seen need => feedPayload seen need octets
  | .skipping need => feedSkipping need octets
  | .line seen => feedLine seen octets

/-- How many octets to ask the connection for when none are buffered. -/
def want : Progress → Nat
  | .payload _ need => max need fetchSize
  | _ => fetchSize

/-- What it means for a read that the stream has ended. -/
def onEnd : Progress → LinkError
  | .line (_ :: _) => .invalidFrame .unfinishedLine
  | _ => .connectionClosed

/-- What it means for a read that the connection failed. -/
def onFailure (error : IoError) : Progress → LinkError
  | .length .. | .payload .. => .ofRead error
  | .skipping _ | .line _ => .io error

end Progress

/-- A read that has begun. -/
structure Reading where
  progress : Progress
  /-- When to give up. -/
  deadline : Option Nat
  deriving Repr, DecidableEq

/-- The reading half of a connection. -/
structure Inbound where
  /-- What has arrived and is not consumed. -/
  buffer : Octets := []
  /-- The longest payload accepted. -/
  limit : Nat := maxPayload
  /-- How long a read may take. -/
  patience : Option Nat := none
  reading : Option Reading := none
  deriving Repr, DecidableEq

namespace Inbound

/-- Begin a read. -/
def start (kind : ReadKind) (now : Nat) (i : Inbound) : Inbound :=
  { i with reading := some ⟨.start kind, i.patience.map (now + ·)⟩ }

/-- Give up the read that has begun, if one has. -/
def cancel (i : Inbound) : Inbound := { i with reading := none }

/-- Give octets to the read; what it leaves is buffered. -/
def consume (r : Reading) (octets : Octets) (i : Inbound) :
    Poll (Except LinkError Received) × Inbound :=
  match r.progress.feed i.limit octets with
  | .more progress => (.again, { i with buffer := [], reading := some { r with progress } })
  | .done result rest => (.done result, { i with buffer := rest, reading := none })

/-- One step of the read that has begun. Buffered octets come first; only when
there are none is the connection asked. An attempt that was interrupted is made
again. -/
def step {L : Type} [Link L] (side : Side) (now : Nat) (i : Inbound) (link : L) :
    Poll (Except LinkError Received) × Inbound × L :=
  match i.reading with
  | none => (.blocked, i, link)
  | some r =>
      match i.buffer with
      | b :: bs =>
          let (poll, i) := i.consume r (b :: bs)
          (poll, i, link)
      | [] =>
          let (arrival, link) := Link.read side r.progress.want now link
          match arrival with
          | .data octets =>
              let (poll, i) := i.consume r octets
              (poll, i, link)
          | .ended => (.done (.error r.progress.onEnd), i.cancel, link)
          | .failed error =>
              if error.kind = .interrupted then (.again, i, link)
              else (.done (.error (r.progress.onFailure error)), i.cancel, link)
          | .nothing =>
              if r.deadline.any (· ≤ now) then
                (.done (.error (.timeout .receive)), i.cancel, link)
              else (.blocked, i, link)

/-- When a read that waits is given up. -/
def alarm (i : Inbound) : Option Nat := i.reading.bind (·.deadline)

end Inbound

end Switchboard
