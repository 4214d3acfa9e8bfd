import Switchboard.Fault.Link

/-!
# Failures of a call

What the caller of a remote method can be told. Some failures concern one call
and leave the connection as it was, which is what `CallError.isCallLocal`
says; the others mean that the connection is of no more use.
-/

namespace Switchboard

inductive CallError where
  /-- The connection is dead, or its owner closed it. -/
  | shutdown
  /-- The other side answered this call with an error text. -/
  | server (text : String)
  /-- The reply to this call could not be read. -/
  | readingBody (cause : CallError)
  /-- What followed the header of an error answer could not be read past. -/
  | readingErrorBody (cause : CallError)
  /-- The stream ended between answers. -/
  | eof
  /-- The stream ended and nobody had asked for that. -/
  | unexpectedEof
  /-- A completion channel without room for any call was asked for. -/
  | unbufferedDone
  | unexpectedHttpResponse (text : String)
  /-- Connecting to `address` through a tunnel failed. -/
  | dialHttp (address : String) (cause : CallError)
  /-- A codec failed in a way of its own. -/
  | codec (text : String)
  | transport (error : LinkError)
  deriving Repr, DecidableEq

namespace CallError

/-- The text shown for a failure. -/
def message : CallError → String
  | .shutdown => "connection is shut down"
  | .server text => text
  | .readingBody cause => "reading body: " ++ cause.message
  | .readingErrorBody cause => "reading error body: " ++ cause.message
  | .eof => "EOF"
  | .unexpectedEof => "unexpected EOF"
  | .unbufferedDone => "completion channel must be buffered"
  | .unexpectedHttpResponse text => "unexpected HTTP response: " ++ text
  | .dialHttp address cause => "dial-http " ++ address ++ ": " ++ cause.message
  | .codec text => "codec error: " ++ text
  | .transport error => error.message

/-- The texts of the failures behind a failure, nearest first. A failure of
the connection stands for itself, so what is behind it is what is behind the
connection's own failure. -/
def sources : CallError → List String
  | .readingBody cause | .readingErrorBody cause | .dialHttp _ cause =>
      cause.message :: cause.sources
  | .transport error => error.sources
  | _ => []

/-- Whether a failure is confined to one call. -/
def isCallLocal : CallError → Bool
  | .server _ | .readingBody _ => true
  | _ => false

/-- How a failure of the connection is told to a caller: a connection that was
closed is the end of the stream, everything else is passed on. -/
def ofLink : LinkError → CallError
  | .connectionClosed => .eof
  | error => .transport error

end CallError

end Switchboard
