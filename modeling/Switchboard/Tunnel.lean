import Switchboard.Client.Event
import Switchboard.Client.Framed
import Switchboard.Text.Blank

/-!
# Connecting through a tunnel

Before the first frame, a client can ask an HTTP server to hand the connection
over. It sends one request line and an empty line; the server agrees with a
status line, some header lines and an empty line, and what comes after that
belongs to the frames. If anything else happens the connection is closed.
-/

namespace Switchboard

namespace Tunnel

/-- The path that is asked for unless another is given. -/
def defaultPath : String := "/_goRPC_"

/-- The status with which a server agrees. -/
def connected : String := "200 Connected to Go RPC"

/-- What is sent. -/
def request (path : String) : String := "CONNECT " ++ path ++ " HTTP/1.0\n\n"

/-- The part of a line before its first space and the part after it. -/
def splitAtSpace (line : String) : Option (String × String) :=
  let cs := line.toList
  match cs.dropWhile (· != ' ') with
  | [] => none
  | _ :: rest => some (.ofList (cs.takeWhile (· != ' ')), .ofList rest)

/-- The status in a status line, without blanks around it; empty if the line is
none. -/
def status (line : String) : String :=
  match splitAtSpace line with
  | some (protocol, rest) => if protocol.startsWith "HTTP/" then Text.trim rest else ""
  | none => ""

/-- Whether a status line agrees. A line without a status is reported whole,
another status by itself. -/
def judge (line : String) : Except CallError Unit :=
  let status := status line
  if status.isEmpty then .error (.unexpectedHttpResponse line)
  else if status ≠ connected then .error (.unexpectedHttpResponse status)
  else .ok ()

end Tunnel

/-- What a handshake is doing. -/
inductive HandshakePhase where
  | start
  | sending
  | status
  | headers
  deriving Repr, DecidableEq

/-- A handshake on the way. -/
structure Handshake (L : Type) where
  path : String
  wire : Framed L
  phase : HandshakePhase := .start
  /-- What there is to report, oldest first. -/
  events : List Event := []

namespace Handshake

variable {L : Type} [Link L]

def log (e : Event) (h : Handshake L) : Handshake L := { h with events := h.events ++ [e] }

/-- The handshake failed: the connection is closed, and if that fails too the
first failure is the one that counts. -/
def fail (error : CallError) (h : Handshake L) : Poll (Except CallError Unit) × Handshake L :=
  let (result, outbound, link) := h.wire.outbound.abort .near h.wire.link
  let wire := ({ h.wire with outbound, link }.dropReader).dropWriter
  let h := { h with wire }
  match result with
  | .ok () => (.done (.error error), h)
  | .error closing => (.done (.error error), h.log (.closingFailed closing))

/-- Go on to read a line. -/
def awaitLine (phase : HandshakePhase) (now : Nat) (h : Handshake L) :
    Poll (Except CallError Unit) × Handshake L :=
  (.again, { h with phase, wire.inbound := h.wire.inbound.start .line now })

/-- One step of a handshake. -/
def step (now : Nat) (h : Handshake L) : Poll (Except CallError Unit) × Handshake L :=
  match h.phase with
  | .start =>
      let h := h.log (.connecting h.path)
      match h.wire.outbound.start (.raw (Tunnel.request h.path).toByteArray.octets) with
      | .ok outbound => (.again, { h with phase := .sending, wire.outbound := outbound })
      | .error error => h.fail (.ofLink error)
  | .sending =>
      let (poll, outbound, link) := h.wire.outbound.step .near now h.wire.link
      let h := { h with wire := { h.wire with outbound, link } }
      match poll with
      | .again => (.again, h)
      | .blocked => (.blocked, h)
      | .done (.ok ()) => h.awaitLine .status now
      | .done (.error error) => h.fail (.ofLink error)
  | .status | .headers =>
      let (poll, inbound, link) := h.wire.inbound.step .near now h.wire.link
      let h := { h with wire := { h.wire with inbound, link } }
      match poll with
      | .again => (.again, h)
      | .blocked => (.blocked, h)
      | .done (.error error) => h.fail (.ofLink error)
      | .done (.ok (.line line)) =>
          if h.phase = .status then
            match Tunnel.judge line with
            | .ok () => h.awaitLine .headers now
            | .error error => h.fail error
          else if line.isEmpty then (.done (.ok ()), h.log (.tunnelEstablished h.path))
          else h.awaitLine .headers now
      | .done (.ok _) => h.fail .eof

/-- Whether a step would get somewhere. -/
def isReady (now : Nat) (h : Handshake L) : Bool :=
  match h.phase with
  | .start => true
  | .sending => h.wire.canWrite now
  | .status | .headers => h.wire.canRead now

end Handshake

end Switchboard
