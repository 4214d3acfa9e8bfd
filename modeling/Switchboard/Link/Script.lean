import Switchboard.Link.Basic

/-!
# A connection that follows a script

The near end talks to nobody: what it reads is a list of events laid out
beforehand, and what it writes is taken as far as a credit goes. The script
remembers what it took since it was last asked, which is how one sees what
would have gone over the wire.
-/

namespace Switchboard

/-- An event on the reading side. -/
inductive Incoming where
  | data (octets : Octets)
  /-- Silence for a while, counted from the first attempt to read past it. -/
  | wait (duration : Nat)
  /-- A silence that has begun. -/
  | silentUntil (time : Nat)
  /-- One attempt to read fails. -/
  | failure (error : IoError)
  /-- The end of the stream, from here on. -/
  | ended
  deriving Repr, DecidableEq

/-- What an attempt to write gives when the credit is used up. -/
inductive WhenFull where
  | wait
  /-- Nothing is taken, as if that were a success. -/
  | takeNothing
  | fail (error : IoError)
  deriving Repr, DecidableEq

structure Script where
  incoming : List Incoming := []
  /-- How many more octets are taken; without limit if absent. -/
  credit : Option Nat := none
  whenFull : WhenFull := .wait
  shutError : Option IoError := none
  flushError : Option IoError := none
  /-- What was taken since the last report. -/
  taken : Octets := []
  shut : Bool := false
  readerGone : Bool := false
  writerGone : Bool := false
  deriving Repr

namespace Script

/-- Read from a list of events: what is there, and the events that are left.
Stretches without octets are passed over. -/
def readFrom (want now : Nat) : List Incoming → Arrival × List Incoming
  | [] => (.nothing, [])
  | .data [] :: rest => readFrom want now rest
  | .data (x :: xs) :: rest =>
      let octets := x :: xs
      let left := octets.drop want
      (.data (octets.take want), if left.isEmpty then rest else .data left :: rest)
  | .wait 0 :: rest => readFrom want now rest
  | .wait duration :: rest => (.nothing, .silentUntil (now + duration) :: rest)
  | .silentUntil time :: rest =>
      if time ≤ now then readFrom want now rest else (.nothing, .silentUntil time :: rest)
  | .failure error :: rest => (.failed error, rest)
  | .ended :: rest => (.ended, .ended :: rest)

/-- Whether an attempt to read would now find something, or begin a silence. -/
def readableFrom (now : Nat) : List Incoming → Bool
  | [] => false
  | .data [] :: rest => readableFrom now rest
  | .silentUntil time :: rest => time ≤ now && readableFrom now rest
  | _ => true

/-- The end of the silence that is going on. -/
def alarmOf : List Incoming → Option Nat
  | .silentUntil time :: _ => some time
  | .data [] :: rest => alarmOf rest
  | _ => none

/-- Take octets on credit. -/
def accept (octets : Octets) (s : Script) : Acceptance × Script :=
  let count := match s.credit with
    | none => octets.length
    | some credit => min credit octets.length
  if count = 0 then
    match s.whenFull with
    | .wait => (.nothing, s)
    | .takeNothing => (.accepted 0, s)
    | .fail error => (.failed error, s)
  else
    (.accepted count,
      { s with credit := s.credit.map (· - count), taken := s.taken ++ octets.take count })

/-- Success, or the failure that is planned. -/
def planned : Option IoError → Except IoError Unit
  | none => .ok ()
  | some error => .error error

instance : Link Script where
  read _ want now s :=
    let (arrival, incoming) := readFrom want now s.incoming
    (arrival, { s with incoming })
  write _ octets s := s.accept octets
  flush _ s := (planned s.flushError, s)
  shut _ s := (planned s.shutError, { s with shut := true })
  dropReader _ s := { s with readerGone := true }
  dropWriter _ s := { s with writerGone := true }
  readable _ now s := readableFrom now s.incoming
  writable _ s := s.credit != some 0 || s.whenFull != .wait
  alarm s := alarmOf s.incoming

/-- More events at the end of the script. -/
def feed (more : List Incoming) (s : Script) : Script :=
  { s with incoming := s.incoming ++ more }

/-- What was taken since the last report, and the script from here on. -/
def report (s : Script) : Octets × Script := (s.taken, { s with taken := [] })

end Script

end Switchboard
