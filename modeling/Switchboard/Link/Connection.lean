import Switchboard.Link.Script
import Switchboard.Link.Pipe

/-!
# The connections there are

A connection that is either a script or a pipe, for programs that decide while
running which one to talk over.
-/

namespace Switchboard

inductive Connection where
  | script (s : Script)
  | pipe (p : Pipe)

namespace Connection

instance : Link Connection where
  read side want now
    | .script s => let (a, s) := Link.read side want now s; (a, .script s)
    | .pipe p => let (a, p) := Link.read side want now p; (a, .pipe p)
  write side octets
    | .script s => let (a, s) := Link.write side octets s; (a, .script s)
    | .pipe p => let (a, p) := Link.write side octets p; (a, .pipe p)
  flush side
    | .script s => let (r, s) := Link.flush side s; (r, .script s)
    | .pipe p => let (r, p) := Link.flush side p; (r, .pipe p)
  shut side
    | .script s => let (r, s) := Link.shut side s; (r, .script s)
    | .pipe p => let (r, p) := Link.shut side p; (r, .pipe p)
  dropReader side
    | .script s => .script (Link.dropReader side s)
    | .pipe p => .pipe (Link.dropReader side p)
  dropWriter side
    | .script s => .script (Link.dropWriter side s)
    | .pipe p => .pipe (Link.dropWriter side p)
  readable side now
    | .script s => Link.readable side now s
    | .pipe p => Link.readable side now p
  writable side
    | .script s => Link.writable side s
    | .pipe p => Link.writable side p
  alarm
    | .script s => Link.alarm s
    | .pipe p => Link.alarm p

/-- Change a script; a pipe has none. -/
def onScript (f : Script → Script) : Connection → Connection
  | .script s => .script (f s)
  | .pipe p => .pipe p

end Connection

end Switchboard
