import Switchboard.Wire.Encode
import Switchboard.Wire.Decode

/-!
# Request and response headers

Every request and every response is a header followed by one body. Headers are
values like any other; this module says which.
-/

namespace Switchboard.Wire

/-- What goes before the arguments of a call. -/
structure Request where
  /-- The service and the method, with a point between. -/
  method : String
  /-- The number by which the answer refers to this call. -/
  seq : UInt64
  deriving Repr, DecidableEq

/-- What comes before the reply to a call. -/
structure Response where
  /-- The method that was asked for; answers are not told apart by it. -/
  method : String
  /-- The number of the call that is answered. -/
  seq : UInt64
  /-- The error text, empty if the call succeeded. -/
  error : String
  deriving Repr, DecidableEq

namespace Request

def value (r : Request) : Value :=
  .tuple [.string r.method, .number .u64 r.seq.toBitVec]

def shape : Shape := .tuple [.string, .number .u64]

def ofValue? : Value → Option Request
  | .tuple [.string method, .number .u64 seq] => some ⟨method, .ofBitVec seq⟩
  | _ => none

end Request

namespace Response

def value (r : Response) : Value :=
  .tuple [.string r.method, .number .u64 r.seq.toBitVec, .string r.error]

def shape : Shape := .tuple [.string, .number .u64, .string]

def ofValue? : Value → Option Response
  | .tuple [.string method, .number .u64 seq, .string error] =>
      some ⟨method, .ofBitVec seq, error⟩
  | _ => none

/-- The error that the other side reports, if it reports one. -/
def remoteError (r : Response) : Option String :=
  if r.error.isEmpty then none else some r.error

/-- The response header that a payload holds. A payload of the right shape is
always a header, so the second failure does not arise. -/
def decode (b : ByteArray) : Except DecodeFault Response := do
  match ofValue? (← Wire.decode shape b) with
  | some r => .ok r
  | none => .error .endOfInput

@[simp] theorem ofValue?_value (r : Response) : ofValue? r.value = some r := rfl

end Response

end Switchboard.Wire
