import Switchboard.Endpoint.Address
import Switchboard.Endpoint.Settings
import Switchboard.Endpoint.SocketPath
import Switchboard.Fault.Call

/-!
# Scenes before a connection

Connecting, listening, and what the system says to it: on one path of the file
system that is absent at first, and on a network where nobody listens.
-/

namespace Switchboard.Scenario

/-- A step of a scene. -/
inductive EndpointStep where
  | connectAddress (s : Settings Address)
  /-- Connect a client to an address; through a tunnel or not, it gets no
  further than connecting. -/
  | dialAddress (a : Address)
  | bindAddress (a : Address)
  /-- Bind an address at which somebody listens. -/
  | bindTaken (a : Address)
  | closeAddress
  /-- Wait for somebody to connect; nobody does. -/
  | accept
  | localAddress
  | peerAddress
  | connectPath (s : Settings Unit)
  | dialPath
  | touch
  | makeDirectory
  | unlink
  | exists
  | bindPath
  | bindMissingDirectory
  | closePath
  | dropPath

inductive EndpointAnswer where
  | done
  | flag (b : Bool)
  | pending
  | address (a : Address)
  | failed (error : LinkError)
  | callFailed (error : CallError)

namespace EndpointStep

def ofLink : Except LinkError (Inbound × Outbound) → EndpointAnswer
  | .ok _ => .done
  | .error error => .failed error

def ofDial : Except LinkError (Inbound × Outbound) → EndpointAnswer
  | .ok _ => .done
  | .error error => .callFailed (.ofLink error)

/-- The answer to a change of the path, and the path from here on. -/
def ofChange (p : SocketPath) : Except IoError SocketPath → EndpointAnswer × SocketPath
  | .ok p => (.done, p)
  | .error error => (.failed (.io error), p)

def connectAddressWith (s : Settings Address) : Except LinkError (Inbound × Outbound) :=
  s.connect "Address not set" fun _ => .error Address.refused

def connectPathWith (s : Settings Unit) (p : SocketPath) : Except LinkError (Inbound × Outbound) :=
  s.connect "Path not set" fun _ => p.connect

/-- Take one step. -/
def take (step : EndpointStep) (p : SocketPath) : EndpointAnswer × SocketPath :=
  let bound : Except IoError Address → EndpointAnswer
    | .ok a => .address a
    | .error error => .failed (.io error)
  match step with
  | .connectAddress s => (ofLink (connectAddressWith s), p)
  | .dialAddress a => (ofDial (connectAddressWith { target := some a }), p)
  | .bindAddress a => (bound (a.bind []), p)
  | .bindTaken a => (bound (a.bind [a]), p)
  | .closeAddress => (.done, p)
  | .accept => (.pending, p)
  | .localAddress => (.address .unbound, p)
  | .peerAddress => (.failed (.io Address.notConnected), p)
  | .connectPath s => (ofLink (connectPathWith s p), p)
  | .dialPath => (ofDial (connectPathWith { target := some () } p), p)
  | .touch => ofChange p p.touch
  | .makeDirectory => ofChange p p.makeDirectory
  | .unlink => ofChange p p.remove
  | .exists => (.flag p.isPresent, p)
  | .bindPath =>
      match p.bind with
      | .ok p => (.flag true, p)
      | .error error => (.failed (.io error), p)
  | .bindMissingDirectory => (.failed (.io SocketPath.notFound), p)
  | .closePath => ofChange p p.remove
  | .dropPath => (.done, p.dropListener)

/-- Take the steps in turn. -/
def play : List EndpointStep → SocketPath → List EndpointAnswer
  | [], _ => []
  | step :: steps, p =>
      let (answer, p) := step.take p
      answer :: play steps p

end EndpointStep

end Switchboard.Scenario
