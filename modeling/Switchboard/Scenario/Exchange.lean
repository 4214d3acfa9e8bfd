import Switchboard.Channel
import Switchboard.Link.Connection

/-!
# Scenes on a bare connection

A scene is a connection, its two ends and a clock. Errands are run one after
the other, and the clock moves only when the errand of the moment can do
nothing else: to the next time at which something happens by itself, or to the
time at which the errand is called off.
-/

namespace Switchboard.Scenario

/-- How many steps a scene may take for one errand. Every errand ends long
before that. -/
def stepLimit : Nat := 10000000

structure Scene where
  now : Nat := 0
  /-- How long an errand may take before it is called off. -/
  longestWait : Nat := 3600000
  link : Connection
  near : Terminal := {}
  far : Terminal := {}

namespace Scene

def terminal (s : Scene) : Side → Terminal
  | .near => s.near
  | .far => s.far

def setTerminal (side : Side) (t : Terminal) (s : Scene) : Scene :=
  match side with
  | .near => { s with near := t }
  | .far => { s with far := t }

/-- Apply what a terminal does to the scene. -/
def apply {α : Type} (side : Side) (s : Scene) (f : Terminal → Connection → α × Terminal × Connection) :
    α × Scene :=
  let (a, t, link) := f (s.terminal side) s.link
  (a, { s.setTerminal side t with link })

/-- The next time at which something happens by itself, at most `latest`. -/
def nextTime (side : Side) (latest : Nat) (s : Scene) : Nat :=
  let later (t : Option Nat) : Nat := match t with
    | some t => if s.now < t then min t latest else latest
    | none => latest
  min (later (s.terminal side).alarm) (later (Link.alarm s.link))

/-- Step an errand until it is done, or call it off at the time `latest`. -/
def await (side : Side) (errand : Errand) (latest : Nat) : (fuel : Nat) → Scene →
    Option Outcome × Scene
  | 0, s => (none, s)
  | fuel + 1, s =>
      let (poll, s) := s.apply side fun t link => t.step side s.now errand link
      match poll with
      | .done outcome => (some outcome, s)
      | .again => await side errand latest fuel s
      | .blocked =>
          if latest ≤ s.now then (none, s.setTerminal side (s.terminal side).cancel)
          else await side errand latest fuel { s with now := s.nextTime side latest }

/-- Run an errand: what comes of it, or nothing if it was called off. -/
def run (side : Side) (errand : Errand) (s : Scene) : Option Outcome × Scene :=
  let (poll, s) := s.apply side fun t link => t.start side s.now errand link
  match poll with
  | .done outcome => (some outcome, s)
  | .again | .blocked => await side errand (s.now + s.longestWait) stepLimit s

end Scene

/-! ## Steps that any script can take -/

/-- What changes about a scripted connection from outside. -/
inductive LinkStep where
  | feed (more : List Incoming)
  /-- New credit, and new failures where given. -/
  | grant (credit : Option Nat) (whenFull : Option WhenFull) (flushError : Option (Option IoError))

def LinkStep.apply : LinkStep → Connection → Connection
  | .feed more => .onScript (.feed more)
  | .grant credit whenFull flushError => .onScript fun s =>
      { s with
        credit := credit
        whenFull := whenFull.getD s.whenFull
        flushError := flushError.getD s.flushError }

/-- What became visible on a scripted connection since the last report. -/
structure Traffic where
  taken : Octets
  shut : Bool
  readerGone : Bool
  writerGone : Bool
  deriving Repr

/-- What there is to see of a connection, and the connection from here on. -/
def sight : Connection → Option Traffic × Connection
  | .script s =>
      let (taken, s) := s.report
      (some ⟨taken, s.shut, s.readerGone, s.writerGone⟩, .script s)
  | .pipe p => (none, .pipe p)

/-! ## Frames and channels -/

/-- What a script does at one end. -/
inductive Deed where
  /-- Run an errand on the halves. -/
  | errand (errand : Errand)
  /-- Send a message and flush it. -/
  | send (v : Wire.Value)
  /-- Queue a message. -/
  | feed (v : Wire.Value)
  | encode (v : Wire.Value)
  | receive (shape : Wire.Shape)
  | close
  /-- Take a channel apart. -/
  | split
  /-- Let a channel go, or what is left of it. -/
  | drop

/-- A step of a scene. -/
inductive Step where
  | link (step : LinkStep)
  | sleep (duration : Nat)
  | deed (side : Side) (deed : Deed)

/-- What a step answers. -/
inductive Answer where
  | done
  | gone
  | blocked
  | failed (error : LinkError)
  | frame (payload : ByteArray)
  | line (text : String)
  | value (v : Wire.Value)
  deriving Inhabited

def Answer.ofOutcome : Option Outcome → Answer
  | none => .blocked
  | some (.got (.frame payload)) => .frame payload
  | some (.got .skipped) => .done
  | some (.got (.line text)) => .line text
  | some .done => .done
  | some .gone => .gone
  | some (.failed error) => .failed error

/-- What has become of the channel at one end. -/
inductive ChannelState where
  /-- It is one thing, which can send, receive and be closed. -/
  | whole
  /-- There are halves, each to be used and let go by itself. -/
  | apart
  /-- It was closed while it was whole, or let go. -/
  | gone
  deriving Repr, DecidableEq

/-- A scene in which the ends may be channels. -/
structure Stage where
  scene : Scene
  near : ChannelState := .apart
  far : ChannelState := .apart

namespace Stage

def channel (s : Stage) : Side → ChannelState
  | .near => s.near
  | .far => s.far

def setChannel (side : Side) (state : ChannelState) (s : Stage) : Stage :=
  match side with
  | .near => { s with near := state }
  | .far => { s with far := state }

def run (side : Side) (errand : Errand) (s : Stage) : Answer × Stage :=
  let (outcome, scene) := s.scene.run side errand
  (.ofOutcome outcome, { s with scene })

/-- Let both halves of an end go, and the channel with them. -/
def drop (side : Side) (s : Stage) : Stage :=
  { s with scene := (s.scene.apply side fun t link => ((), t.drop side link)).2 }.setChannel
    side .gone

/-- Run the errand that sends a message, if the message can be encoded and the
writing half is there. -/
def sendMessage (side : Side) (sending : Except LinkError Sending) (s : Stage) : Answer × Stage :=
  if (s.scene.terminal side).outbound.isNone then (.gone, s)
  else
    match sending with
    | .ok sending => s.run side (.send sending)
    | .error error => (.failed error, s)

/-- Do something at an end whose channel is not gone. What a whole channel
cannot do takes it apart first. -/
def perform (side : Side) (deed : Deed) (s : Stage) : Answer × Stage :=
  let apart := s.setChannel side .apart
  match deed with
  | .errand errand => apart.run side errand
  | .send v => s.sendMessage side (Channel.send v)
  | .feed v => apart.sendMessage side (Channel.feed v)
  | .encode v =>
      if (s.scene.terminal side).outbound.isNone then (.gone, apart)
      else
        match Channel.payload v with
        | .ok payload => (.frame payload, apart)
        | .error error => (.failed error, apart)
  | .receive shape =>
      let (outcome, scene) := s.scene.run side (.read .frame)
      let s := { s with scene }
      match outcome with
      | some (.got received) =>
          match Channel.receive shape received with
          | .ok v => (.value v, s)
          | .error error => (.failed error, s)
      | outcome => (.ofOutcome outcome, s)
  | .close =>
      let (answer, t) := s.run side (.send .close)
      if s.channel side = .whole then (answer, t.drop side) else (answer, t)
  | .split => (.done, apart)
  | .drop => (.done, s.drop side)

/-- Take one step. -/
def take (step : Step) (s : Stage) : Answer × Stage :=
  match step with
  | .link step => (.done, { s with scene.link := step.apply s.scene.link })
  | .sleep duration => (.done, { s with scene.now := s.scene.now + duration })
  | .deed side deed =>
      if s.channel side = .gone then (.gone, s) else s.perform side deed

/-- Take the steps in turn, with what became visible after each. -/
def play : List Step → Stage → List (Answer × Option Traffic)
  | [], _ => []
  | step :: steps, s =>
      let (answer, s) := s.take step
      let (traffic, link) := sight s.scene.link
      (answer, traffic) :: play steps { s with scene.link := link }

end Stage

end Switchboard.Scenario
