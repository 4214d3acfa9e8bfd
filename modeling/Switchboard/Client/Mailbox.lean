import Switchboard.Client.Call

/-!
# Completion channels

Finished calls are put into a mailbox, from which their owner takes them in the
order in which they finished. Putting never waits: a call that finds the
mailbox full, or nobody listening, is lost.

A mailbox has handles, one for each call that will be put there and one for an
owner who may still make such calls. When there is none left and the mailbox is
empty, nothing more can come.
-/

namespace Switchboard

/-- How many finished calls the mailbox of a single call can hold. -/
def defaultCapacity : Nat := 10

structure Mailbox where
  capacity : Nat
  /-- The finished calls that nobody has taken yet, oldest first. -/
  held : List Call := []
  /-- Whether the receiving end still exists. -/
  listening : Bool := true
  /-- How many handles there are for putting calls here. -/
  handles : Nat

/-- What became of a call that was put into a mailbox. -/
inductive Delivery where
  | delivered
  | overflow
  | unheard
  deriving Repr, DecidableEq

namespace Mailbox

/-- Put a finished call into the mailbox. -/
def put (c : Call) (m : Mailbox) : Delivery × Mailbox :=
  if !m.listening then (.unheard, m)
  else if m.held.length < m.capacity then (.delivered, { m with held := m.held ++ [c] })
  else (.overflow, m)

/-- One more handle. -/
def addHandle (m : Mailbox) : Mailbox := { m with handles := m.handles + 1 }

/-- One handle less. -/
def dropHandle (m : Mailbox) : Mailbox := { m with handles := m.handles - 1 }

/-- The receiving end goes away, with what was not taken. -/
def deafen (m : Mailbox) : Mailbox := { m with held := [], listening := false }

/-- Take the oldest finished call. -/
def take (m : Mailbox) : Option (Call × Mailbox) :=
  match m.held with
  | [] => none
  | c :: held => some (c, { m with held })

/-- Whether nothing more can come. -/
def isClosed (m : Mailbox) : Bool := m.held.isEmpty && m.handles == 0

end Mailbox

end Switchboard
