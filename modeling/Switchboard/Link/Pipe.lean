import Switchboard.Link.Basic

/-!
# A connection in memory

Two ways, one for each direction, each holding the octets that are written and
not yet read. Once a way is closed, writing to it fails and reading from it
gives what is left and then the end of the stream. `PipeKind` says what
distinguishes one make of pipe from another.
-/

namespace Switchboard

/-- One direction of a pipe. -/
structure Way where
  held : Octets := []
  closed : Bool := false
  deriving Repr, DecidableEq

/-- Which halves of an end are still there. -/
structure Halves where
  reader : Bool := true
  writer : Bool := true
  deriving Repr, DecidableEq

structure PipeKind where
  /-- How many octets a way holds; any number if absent. -/
  capacity : Option Nat
  /-- Whether a writing half that goes away ends the writing of its side. -/
  dropEndsWriting : Bool
  /-- The text with which writing to a closed way fails. -/
  brokenText : String
  deriving Repr, DecidableEq

/-- A pipe of limited capacity, whose ends go away as a whole. -/
def PipeKind.bounded (capacity : Nat) : PipeKind := ⟨some capacity, false, "broken pipe"⟩

/-- A pair of connected sockets. -/
def PipeKind.socket : PipeKind := ⟨none, true, "Broken pipe (os error 32)"⟩

structure Pipe where
  kind : PipeKind
  /-- What the near side wrote. -/
  outward : Way := {}
  /-- What the far side wrote. -/
  inward : Way := {}
  near : Halves := {}
  far : Halves := {}
  deriving Repr, DecidableEq

namespace Pipe

/-- The way on which a side writes. -/
def writingWay (p : Pipe) : Side → Way
  | .near => p.outward
  | .far => p.inward

def setWritingWay (side : Side) (way : Way) (p : Pipe) : Pipe :=
  match side with
  | .near => { p with outward := way }
  | .far => { p with inward := way }

def halves (p : Pipe) : Side → Halves
  | .near => p.near
  | .far => p.far

def setHalves (side : Side) (halves : Halves) (p : Pipe) : Pipe :=
  match side with
  | .near => { p with near := halves }
  | .far => { p with far := halves }

/-- How many more octets a way can hold, at most `count`. -/
def room (p : Pipe) (way : Way) (count : Nat) : Nat :=
  match p.kind.capacity with
  | none => count
  | some capacity => min (capacity - way.held.length) count

/-- The way on which a side writes is closed. -/
def close (side : Side) (p : Pipe) : Pipe :=
  p.setWritingWay side { p.writingWay side with closed := true }

/-- An end both of whose halves are gone closes both ways. -/
def settle (side : Side) (p : Pipe) : Pipe :=
  if (p.halves side).reader || (p.halves side).writer then p
  else (p.close side).close side.other

instance : Link Pipe where
  read side want _ p :=
    let way := p.writingWay side.other
    match way.held with
    | [] => (if way.closed then .ended else .nothing, p)
    | _ :: _ =>
        (.data (way.held.take want),
          p.setWritingWay side.other { way with held := way.held.drop want })
  write side octets p :=
    let way := p.writingWay side
    if way.closed then (.failed ⟨.brokenPipe, p.kind.brokenText⟩, p)
    else
      let count := p.room way octets.length
      if count = 0 then (.nothing, p)
      else
        (.accepted count,
          p.setWritingWay side { way with held := way.held ++ octets.take count })
  flush _ p := (.ok (), p)
  shut side p := (.ok (), p.close side)
  dropReader side p :=
    (p.setHalves side { p.halves side with reader := false }).settle side
  dropWriter side p :=
    let p := p.setHalves side { p.halves side with writer := false }
    (if p.kind.dropEndsWriting then p.close side else p).settle side
  readable side _ p :=
    let way := p.writingWay side.other
    !way.held.isEmpty || way.closed
  writable side p :=
    let way := p.writingWay side
    way.closed || p.room way 1 != 0
  alarm _ := none

end Pipe

end Switchboard
