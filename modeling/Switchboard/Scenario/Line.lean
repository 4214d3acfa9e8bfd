import Switchboard.Client.Framed
import Switchboard.Client.Rehearsal
import Switchboard.Link.Connection

/-!
# The lines a client can be put on

A codec that is either frames on some connection or a rehearsal, for scripts
that say which.
-/

namespace Switchboard.Scenario

inductive Line where
  | framed (f : Framed Connection)
  | rehearsed (r : Rehearsal)

namespace Line

/-- Do the same with either. -/
def both {α : Type} (f : {κ : Type} → [Codec κ] → κ → α × κ) : Line → α × Line
  | .framed l => let (a, l) := f l; (a, .framed l)
  | .rehearsed l => let (a, l) := f l; (a, .rehearsed l)

/-- Change either in the same way. -/
def change (f : {κ : Type} → [Codec κ] → κ → κ) : Line → Line
  | .framed l => .framed (f l)
  | .rehearsed l => .rehearsed (f l)

/-- Ask either the same. -/
def ask {α : Type} (f : {κ : Type} → [Codec κ] → κ → α) : Line → α
  | .framed l => f l
  | .rehearsed l => f l

instance : Codec Line where
  readHeader now := both (Codec.readHeader now)
  readBody shape now := both (Codec.readBody shape now)
  discardBody now := both (Codec.discardBody now)
  cancelRead := change Codec.cancelRead
  write request args now := both (Codec.write request args now)
  cancelWrite := change Codec.cancelWrite
  close := both Codec.close
  dropReader := change Codec.dropReader
  dropWriter := change Codec.dropWriter
  canRead now := ask (Codec.canRead now)
  canWrite now := ask (Codec.canWrite now)
  alarm now := ask (Codec.alarm now)

/-- What was noted down since the last report; a wire notes nothing. -/
def report : Line → Option (List Note) × Line
  | .framed f => (none, .framed f)
  | .rehearsed r => (some r.notes, .rehearsed { r with notes := [] })

end Line

end Switchboard.Scenario
