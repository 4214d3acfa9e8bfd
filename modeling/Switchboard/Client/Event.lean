import Switchboard.Client.Mailbox

/-!
# What a client reports about itself

Events in the order in which they happen, for whoever keeps a log. Every call
that is finished is among them, with what became of it, so the log of a client
that runs for long says of each call how it ended.
-/

namespace Switchboard

inductive Level where
  | trace | debug | warn
  deriving Repr, DecidableEq

inductive Event where
  /-- A call was finished and put into the mailbox at a place. -/
  | finished (place : Nat) (call : Call) (delivery : Delivery)
  /-- An answer came with a number that no waiting call has. -/
  | unknownResponse (seq : UInt64)
  /-- The client is of no more use, and nobody had asked for that. -/
  | protocolError (error : CallError)
  /-- A finished call found its mailbox full. -/
  | overflow (seq : Option UInt64) (method : String)
  /-- A handshake begins. -/
  | connecting (path : String)
  | tunnelEstablished (path : String)
  /-- After a handshake that failed, closing the connection failed as well. -/
  | closingFailed (error : LinkError)

namespace Event

def level : Event → Level
  | .finished .. => .trace
  | .protocolError _ => .warn
  | _ => .debug

def message : Event → String
  | .finished .. => "call finished"
  | .unknownResponse _ => "response for unknown call"
  | .protocolError _ => "rpc client protocol error"
  | .overflow .. => "completion channel full, dropping call"
  | .connecting _ => "sending CONNECT"
  | .tunnelEstablished _ => "tunnel established"
  | .closingFailed _ => "closing connection after failed handshake"

/-- A number that may be missing, as it is shown. -/
def showOptional : Option UInt64 → String
  | none => "None"
  | some n => s!"Some({n})"

/-- What an event says besides its message: names and texts. -/
def fields : Event → List (String × String)
  | .finished _ call _ => [("seq", showOptional call.seq), ("service_method", call.method)]
  | .unknownResponse seq => [("seq", toString seq)]
  | .protocolError error => [("error", error.message)]
  | .overflow seq method => [("seq", showOptional seq), ("service_method", method)]
  | .connecting path | .tunnelEstablished path => [("path", path)]
  | .closingFailed error => [("error", error.message)]

end Event

end Switchboard
