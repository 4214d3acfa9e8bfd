import Switchboard.Frame.Inbound
import Switchboard.Frame.Outbound

/-!
# One end of a connection

The two halves of an end, each as long as its owner keeps it, and the errands
that can be run on them. An errand is begun once and then stepped until it is
done; whoever runs it may stop in between and cancel it.
-/

namespace Switchboard

/-- What can be done with one end. -/
inductive Errand where
  | read (kind : ReadKind)
  | send (sending : Sending)
  | abort
  | drop
  | dropReader
  | dropWriter

/-- What comes of an errand. -/
inductive Outcome where
  | got (received : Received)
  /-- There is nothing to report but success. -/
  | done
  /-- The half that was needed is gone. -/
  | gone
  | failed (error : LinkError)

structure Terminal where
  inbound : Option Inbound := some {}
  outbound : Option Outbound := some {}
  deriving DecidableEq

namespace Terminal

variable {L : Type} [Link L]

/-- Let the reading half go. -/
def dropReader (side : Side) (t : Terminal) (link : L) : Terminal × L :=
  if t.inbound.isSome then ({ t with inbound := none }, Link.dropReader side link)
  else (t, link)

/-- Let the writing half go, and with it what is buffered. -/
def dropWriter (side : Side) (t : Terminal) (link : L) : Terminal × L :=
  if t.outbound.isSome then ({ t with outbound := none }, Link.dropWriter side link)
  else (t, link)

/-- Let both halves go. -/
def drop (side : Side) (t : Terminal) (link : L) : Terminal × L :=
  let (t, link) := t.dropReader side link
  t.dropWriter side link

/-- Begin an errand. The short ones are done at once. -/
def start (side : Side) (now : Nat) (errand : Errand) (t : Terminal) (link : L) :
    Poll Outcome × Terminal × L :=
  match errand, t.inbound, t.outbound with
  | .read _, none, _ | .send _, _, none | .abort, _, none => (.done .gone, t, link)
  | .read kind, some i, _ => (.again, { t with inbound := some (i.start kind now) }, link)
  | .send sending, _, some o =>
      match o.start sending with
      | .ok o => (.again, { t with outbound := some o }, link)
      | .error error => (.done (.failed error), t, link)
  | .abort, _, some o =>
      let (result, o, link) := o.abort side link
      let t := { t with outbound := some o }
      match result with
      | .ok () => (.done .done, t, link)
      | .error error => (.done (.failed error), t, link)
  | .dropReader, _, _ => let (t, link) := t.dropReader side link; (.done .done, t, link)
  | .dropWriter, _, _ => let (t, link) := t.dropWriter side link; (.done .done, t, link)
  | .drop, _, _ => let (t, link) := t.drop side link; (.done .done, t, link)

/-- One step of an errand that has begun. -/
def step (side : Side) (now : Nat) (errand : Errand) (t : Terminal) (link : L) :
    Poll Outcome × Terminal × L :=
  match errand, t.inbound, t.outbound with
  | .read _, some i, _ =>
      let (poll, i, link) := i.step side now link
      let outcome : Except LinkError Received → Outcome
        | .ok received => .got received
        | .error error => .failed error
      (poll.map outcome, { t with inbound := some i }, link)
  | .send _, _, some o =>
      let (poll, o, link) := o.step side now link
      let outcome : Except LinkError Unit → Outcome
        | .ok () => .done
        | .error error => .failed error
      (poll.map outcome, { t with outbound := some o }, link)
  | _, _, _ => (.done .gone, t, link)

/-- Stop whatever errand has begun. -/
def cancel (t : Terminal) : Terminal :=
  { t with inbound := t.inbound.map (·.cancel), outbound := t.outbound.map (·.cancel) }

/-- When an errand that waits gives up by itself. -/
def alarm (t : Terminal) : Option Nat :=
  earlier (t.inbound.bind (·.alarm)) (t.outbound.bind (·.alarm))

end Terminal

end Switchboard
