import Switchboard.Fault.Io
import Switchboard.Text.Utf8

/-!
# Failures of a framed connection

One type for everything that can go wrong between a value and the connection
that carries it, with a cause inside each failure that has several. The wording
is derived from the cause in one place, `LinkError.message`.
-/

namespace Switchboard

/-- Why a value has no encoding. -/
inductive EncodeFault where
  /-- The encoding would be longer than a payload may be. -/
  | tooLong
  /-- A sequence does not say how many items it has. -/
  | unknownLength
  /-- Some part of the value refuses to be written, or the failure was made
  up elsewhere. -/
  | custom (text : String)
  deriving Repr, DecidableEq

/-- The requests for a value that only a self-describing format could meet. -/
inductive Guess where
  | anything | ignored | identifier
  deriving Repr, DecidableEq

/-- Why octets are not the encoding of a value of the expected shape. -/
inductive DecodeFault where
  /-- The octets end inside a number, a tag, a length or an item. -/
  | endOfInput
  /-- The octets end inside a string. -/
  | shortString
  | notUtf8 (fault : Utf8.Fault)
  | badBool (found : Nat)
  | badTag (found : Nat)
  | badChar
  /-- The alternative `found` is not one of the `count` there are. -/
  | badVariant (found count : Nat)
  /-- The value is complete but octets remain. -/
  | trailing
  | guess (asked : Guess)
  | custom (text : String)
  deriving Repr, DecidableEq

/-- Why what arrived, or was to be sent, is no frame or line. -/
inductive FrameFault where
  /-- A payload of `length` octets is over the limit. -/
  | tooLarge (length : Nat)
  /-- No line end came within the longest line, or before the stream ended. -/
  | unfinishedLine
  | notUtf8 (fault : Utf8.Fault)
  | custom (text : String)
  deriving Repr, DecidableEq

/-- What took too long. -/
inductive Operation where
  | receive | send | connect
  | named (name : String)
  deriving Repr, DecidableEq

/-- Everything that can fail on a framed connection. -/
inductive LinkError where
  | io (error : IoError)
  | encode (fault : EncodeFault)
  | decode (fault : DecodeFault)
  | connectionClosed
  | invalidFrame (fault : FrameFault)
  | timeout (operation : Operation)
  | custom (text : String)
  deriving Repr, DecidableEq

/-! ## Wording -/

def EncodeFault.message : EncodeFault → String
  | .tooLong => "the size limit has been reached"
  | .unknownLength =>
      "Bincode can only encode sequences and maps that have a knowable size ahead of time"
  | .custom text => text

def Guess.message : Guess → String
  | .anything => "Bincode does not support the serde::Deserializer::deserialize_any method"
  | .ignored => "Bincode does not support Deserializer::deserialize_ignored_any"
  | .identifier => "Bincode does not support Deserializer::deserialize_identifier"

def DecodeFault.message : DecodeFault → String
  | .endOfInput => "io error: unexpected end of file"
  | .shortString => "io error: "
  | .notUtf8 fault => "string is not valid utf8: " ++ fault.message
  | .badBool found => s!"invalid u8 while decoding bool, expected 0 or 1, found {found}"
  | .badTag found => s!"tag for enum is not valid, found {found}"
  | .badChar => "char is not valid"
  | .badVariant found count =>
      s!"invalid value: integer `{found}`, expected variant index 0 <= i < {count}"
  | .trailing => "Slice had bytes remaining after deserialization"
  | .guess asked => asked.message
  | .custom text => text

def FrameFault.message : FrameFault → String
  | .tooLarge length => s!"Message too large: {length} bytes"
  | .unfinishedLine => "Line too long or truncated"
  | .notUtf8 fault => fault.message
  | .custom text => text

def Operation.name : Operation → String
  | .receive => "Receive"
  | .send => "Send"
  | .connect => "Connect"
  | .named name => name

namespace LinkError

/-- The text shown for a failure. -/
def message : LinkError → String
  | .io error => "IO error: " ++ error.text
  | .encode fault => "Encode error: " ++ fault.message
  | .decode fault => "Decode error: " ++ fault.message
  | .connectionClosed => "Connection closed"
  | .invalidFrame fault => "Invalid frame: " ++ fault.message
  | .timeout operation => operation.name ++ " timeout exceeded"
  | .custom text => text

/-- The texts of the failures behind a failure, nearest first. -/
def sources : LinkError → List String
  | .io error => [error.text]
  | _ => []

/-- How a failed read of a frame is reported: a stream that ended early is a
closed connection, whether the end was met or reported. -/
def ofRead (error : IoError) : LinkError :=
  if error.kind = .unexpectedEof then .connectionClosed else .io error

end LinkError

end Switchboard
