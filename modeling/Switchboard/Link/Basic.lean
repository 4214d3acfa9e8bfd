import Switchboard.Bytes
import Switchboard.Fault.Io

/-!
# Connections

A connection has two ends, and each end can read, write, flush, and shut its
writing down. An attempt never waits: it either gets somewhere or reports that
there is nothing to be had for now, and whoever made it decides what to do with
the time. `Link` is all that the rest of the library knows of a connection, so
what is proved of it holds over every connection.
-/

namespace Switchboard

/-- The ends of a connection. -/
inductive Side where
  | near | far
  deriving Repr, DecidableEq

def Side.other : Side → Side
  | .near => .far
  | .far => .near

/-- What an attempt to read gives. -/
inductive Arrival where
  /-- Some octets, at least one and at most as many as were asked for. -/
  | data (front : Octets)
  /-- The end of the stream. -/
  | ended
  | failed (error : IoError)
  /-- Nothing for now. -/
  | nothing
  deriving Repr, DecidableEq

/-- What an attempt to write gives. -/
inductive Acceptance where
  /-- So many octets from the front were taken. -/
  | accepted (count : Nat)
  | failed (error : IoError)
  /-- Nothing can be taken for now. -/
  | nothing
  deriving Repr, DecidableEq

/-- Whether something can go on at once, has to wait, or is finished. -/
inductive Poll (α : Type) where
  | again
  | blocked
  | done (result : α)
  deriving Repr

def Poll.map {α β : Type} (f : α → β) : Poll α → Poll β
  | .again => .again
  | .blocked => .blocked
  | .done a => .done (f a)

/-- What can be done with a connection. Times are in milliseconds. -/
class Link (L : Type) where
  /-- Read at most `want` octets at the time `now`. -/
  read : Side → (want now : Nat) → L → Arrival × L
  /-- Offer octets, at least one. -/
  write : Side → Octets → L → Acceptance × L
  flush : Side → L → Except IoError Unit × L
  /-- End the writing of a side. -/
  shut : Side → L → Except IoError Unit × L
  /-- The reading half of a side is no longer there. -/
  dropReader : Side → L → L
  /-- The writing half of a side is no longer there. -/
  dropWriter : Side → L → L
  /-- Whether an attempt to read would now get somewhere. -/
  readable : Side → (now : Nat) → L → Bool
  /-- Whether an attempt to write would now get somewhere. -/
  writable : Side → L → Bool
  /-- The time at which, by itself, something new arrives. -/
  alarm : L → Option Nat

/-- The earlier of two times that may never come. -/
def earlier : Option Nat → Option Nat → Option Nat
  | none, t | t, none => t
  | some s, some t => some (min s t)

end Switchboard
