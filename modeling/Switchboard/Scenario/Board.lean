import Switchboard.Client.Session
import Switchboard.Scenario.Exchange
import Switchboard.Scenario.Line
import Switchboard.Tunnel

/-!
# A client and its surroundings

A board is a client on some line, or a handshake that is to become one, with
the other end of the connection, a clock, and the activities that can go on.
Activities run in the order in which they became able to, each until it is
blocked. When the clock moves is decided by whoever waits for something to
happen on the board.
-/

namespace Switchboard.Scenario

/-- What goes on by itself. -/
inductive Activity where
  | handshake
  | session (task : Session.Task)
  deriving DecidableEq

inductive Desk where
  | dialing (h : Handshake Connection)
  /-- The handshake failed. -/
  | refused (error : CallError) (wire : Framed Connection)
  | connected (session : Session Line)

structure Board where
  now : Nat := 0
  desk : Desk
  /-- The client to be, which so far has nothing but mailboxes. -/
  early : Client := {}
  /-- The other end of the connection. -/
  far : Terminal := {}
  /-- How long a script waits for a finished call. -/
  patience : Nat := 1
  /-- How long anything may take before it is called off. -/
  longestWait : Nat := 3600000
  /-- The script learned how the handshake ended. -/
  dialed : Bool := false
  /-- The script let the client go. -/
  released : Bool := false
  ready : List Activity := []
  /-- What is reported of the handshake. -/
  events : List Event := []
  /-- The mailboxes by name, latest first. -/
  mailboxes : List (String × Nat) := []
  /-- The handles that the script has on mailboxes, by name. -/
  handles : List (String × Nat) := []
  /-- Those who make calls and wait, by name, with the mark of the call; who
  has answered is no longer here. -/
  callers : List (String × Nat × Nat) := []

namespace Board

def session? (b : Board) : Option (Session Line) :=
  match b.desk with
  | .connected s => some s
  | _ => none

/-- Change the session, if there is one. -/
def onSession (f : Session Line → Session Line) (b : Board) : Board :=
  match b.desk with
  | .connected s => { b with desk := .connected (f s) }
  | _ => b

/-- The client, or the one to be. -/
def client (b : Board) : Client :=
  match b.desk with
  | .connected s => s.client
  | .dialing _ | .refused .. => b.early

def onClient (f : Client → Client) (b : Board) : Board :=
  match b.desk with
  | .connected s => { b with desk := .connected { s with client := f s.client } }
  | .dialing _ | .refused .. => { b with early := f b.early }

/-- Do something with the connection, if there is one. -/
def onConnection {α : Type} (f : Connection → α × Connection) (b : Board) : Option α × Board :=
  match b.desk with
  | .dialing h =>
      let (a, link) := f h.wire.link
      (some a, { b with desk := .dialing { h with wire.link := link } })
  | .refused error wire =>
      let (a, link) := f wire.link
      (some a, { b with desk := .refused error { wire with link } })
  | .connected s =>
      match s.codec with
      | .framed wire =>
          let (a, link) := f wire.link
          (some a, { b with desk := .connected { s with codec := .framed { wire with link } } })
      | .rehearsed _ => (none, b)

/-- The next time at which, by itself, something new happens. -/
def alarm (b : Board) : Option Nat :=
  let near := match b.desk with
    | .dialing h => h.wire.alarm b.now
    | .refused .. => none
    | .connected s => Codec.alarm b.now s.codec
  earlier near (b.far.alarm.filter (b.now < ·))

/-! ## Activities -/

/-- A client that nobody has and that does nothing lets its line go. -/
def tidy (b : Board) : Board :=
  if b.released then
    b.onSession fun s => if s.isIdle then { s with codec := Codec.dropWriter s.codec } else s
  else b

/-- One step of an activity. -/
def step (a : Activity) (b : Board) : Poll Unit × Board :=
  match a, b.desk with
  | .handshake, .dialing h =>
      let (poll, h) := h.step b.now
      match poll with
      | .again => (.again, { b with desk := .dialing h })
      | .blocked => (.blocked, { b with desk := .dialing h })
      | .done result =>
          let desk := match result with
            | .ok () => .connected { client := b.early, codec := .framed h.wire }
            | .error error => .refused error h.wire
          (.done (), { b with desk, events := b.events ++ h.events })
  | .session task, .connected s =>
      let (poll, s) := s.step task b.now
      (poll, ({ b with desk := .connected s }).tidy)
  | _, _ => (.done (), b)

/-- The activities that can go on. -/
def able (b : Board) : List Activity :=
  match b.desk with
  | .dialing h => if h.isReady b.now then [.handshake] else []
  | .refused .. => []
  | .connected s => (s.readyTasks b.now).map .session

/-- Queue the activities that have become able to go on, besides the one that
is running. -/
def wake (running : Option Activity) (b : Board) : Board :=
  { b with ready := b.ready ++
      b.able.filter fun a => some a != running && !b.ready.contains a }

/-- Run activities until none can go on, each until it is blocked. -/
def runReady : (fuel : Nat) → Board → Board
  | 0, b => b
  | fuel + 1, b =>
      match b.ready with
      | [] => b
      | a :: ready =>
          let (poll, b) := { b with ready }.step a
          let b := b.wake (some a)
          match poll with
          | .again => runReady fuel { b with ready := a :: b.ready }
          | .blocked | .done () => runReady fuel b

/-- The clock moves on to the next time at which something can go on, at most
to `latest`. -/
def advance (latest : Nat) (b : Board) : Board :=
  { b with now := (b.alarm.map (min · latest)).getD latest }

end Board

end Switchboard.Scenario
