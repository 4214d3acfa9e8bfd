import Switchboard.Fault.Io

/-!
# A path at which somebody may listen

A listener makes a socket at a path of the file system. The path and the
listener are separate things: what is at the path can be removed or replaced
while the listener lives, and whoever connects goes by what is at the path.
-/

namespace Switchboard

/-- What is at a path. -/
inductive Node where
  | absent
  | file
  | directory
  /-- A socket that was made by the listener with this number. -/
  | socket (listener : Nat)
  deriving Repr, DecidableEq

structure SocketPath where
  node : Node := .absent
  /-- The listener that is alive. -/
  listener : Option Nat := none
  /-- How many listeners there were so far. -/
  count : Nat := 0
  deriving Repr, DecidableEq

namespace SocketPath

/-! ## Complaints of the system -/

def notFound : IoError := ⟨.notFound, "No such file or directory (os error 2)"⟩

def noDevice : IoError := ⟨.uncategorized, "No such device or address (os error 6)"⟩

def alreadyExists : IoError := ⟨.alreadyExists, "File exists (os error 17)"⟩

def isDirectory : IoError := ⟨.isADirectory, "Is a directory (os error 21)"⟩

def connectionRefused : IoError := ⟨.connectionRefused, "Connection refused (os error 111)"⟩

/-! ## The file system -/

def isPresent (p : SocketPath) : Bool := p.node != .absent

/-- Remove what is at the path, unless it is a directory. -/
def remove (p : SocketPath) : Except IoError SocketPath :=
  match p.node with
  | .absent => .error notFound
  | .directory => .error isDirectory
  | .file | .socket _ => .ok { p with node := .absent }

/-- Make a plain file at the path, or empty the one that is there. -/
def touch (p : SocketPath) : Except IoError SocketPath :=
  match p.node with
  | .absent | .file => .ok { p with node := .file }
  | .directory => .error isDirectory
  | .socket _ => .error noDevice

/-- Make a directory at the path. -/
def makeDirectory (p : SocketPath) : Except IoError SocketPath :=
  match p.node with
  | .absent => .ok { p with node := .directory }
  | .file | .directory | .socket _ => .error alreadyExists

/-! ## Listening and connecting -/

/-- The listener goes away and takes with it what is at the path, if it can. -/
def dropListener (p : SocketPath) : SocketPath :=
  match p.listener with
  | none => p
  | some _ =>
      match p.remove with
      | .ok q => { q with listener := none }
      | .error _ => { p with listener := none }

/-- Listen at the path. What is there is taken for left over and removed. A
listener that was there before goes away afterwards, and so it takes the new
socket with it. -/
def bind (p : SocketPath) : Except IoError SocketPath := do
  let cleared ← if p.isPresent then p.remove else .ok p
  let bound := { cleared with node := .socket p.count, count := p.count + 1 }
  return { bound.dropListener with listener := some p.count }

/-- Whether somebody answers at the path. -/
def connect (p : SocketPath) : Except IoError Unit :=
  match p.node with
  | .absent => .error notFound
  | .file | .directory => .error connectionRefused
  | .socket listener => if p.listener = some listener then .ok () else .error connectionRefused

end SocketPath

end Switchboard
