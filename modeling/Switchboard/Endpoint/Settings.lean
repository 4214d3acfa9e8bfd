import Switchboard.Frame.Inbound
import Switchboard.Frame.Outbound

/-!
# Settings of a connection

What one can choose before connecting. The target has to be chosen; everything
else has a default. The choices about time and length end up in the two halves
of the connection.
-/

namespace Switchboard

/-- The choices made so far, for targets of type `α`. -/
structure Settings (α : Type) where
  target : Option α := none
  /-- How long connecting may take. -/
  connectTimeout : Option Nat := none
  sendTimeout : Option Nat := none
  receiveTimeout : Option Nat := none
  /-- The longest frame either side accepts. -/
  limit : Nat := maxPayload
  deriving Repr

namespace Settings

variable {α : Type}

/-- The reading half of a connection with these settings. -/
def inbound (s : Settings α) : Inbound := { limit := s.limit, patience := s.receiveTimeout }

/-- The writing half of a connection with these settings. -/
def outbound (s : Settings α) : Outbound := { limit := s.limit, patience := s.sendTimeout }

/-- Connect to the target that was chosen, where `reach` says whether it can be
reached; `missing` is the complaint if none was chosen. -/
def connect (missing : String) (reach : α → Except IoError Unit) (s : Settings α) :
    Except LinkError (Inbound × Outbound) :=
  match s.target with
  | none => .error (.custom missing)
  | some target =>
      match reach target with
      | .ok () => .ok (s.inbound, s.outbound)
      | .error error => .error (.io error)

end Settings

end Switchboard
