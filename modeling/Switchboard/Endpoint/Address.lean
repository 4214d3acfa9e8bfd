import Switchboard.Fault.Io

/-!
# Network addresses

What the system answers to whoever binds a network address or asks for one, on
a machine that is reachable by itself alone.
-/

namespace Switchboard

structure Address where
  ip : String
  port : Nat
  deriving Repr, DecidableEq

namespace Address

/-- The address of this machine for itself, at a port where nobody listens. -/
def nobody : Address := ⟨"127.0.0.1", 1⟩

/-- The first of the ports that the system hands out. -/
def firstFreePort : Nat := 49152

/-- Whether an address belongs to this machine. -/
def isLocal (a : Address) : Bool :=
  a.ip.startsWith "127." || a.ip == "0.0.0.0" || a.ip == "::1" || a.ip == "::"

def refused : IoError := ⟨.connectionRefused, "Connection refused (os error 111)"⟩

def inUse : IoError := ⟨.addrInUse, "Address already in use (os error 98)"⟩

def notAvailable : IoError := ⟨.addrNotAvailable, "Cannot assign requested address (os error 99)"⟩

def notConnected : IoError := ⟨.notConnected, "Transport endpoint is not connected (os error 107)"⟩

/-- Listen at an address, among others at those that are `taken`. If no port is
asked for, the system picks one. -/
def bind (taken : List Address) (a : Address) : Except IoError Address :=
  if !a.isLocal then .error notAvailable
  else if taken.contains a then .error inUse
  else .ok { a with port := if a.port = 0 then firstFreePort else a.port }

/-- The own address of a socket that was neither bound nor connected. -/
def unbound : Address := ⟨"0.0.0.0", 0⟩

end Address

end Switchboard
