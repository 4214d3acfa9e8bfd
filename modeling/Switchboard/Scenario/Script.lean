import Switchboard.Client.Basic
import Switchboard.Client.Rehearsal
import Switchboard.Scenario.Exchange

/-!
# Scripts for a client

What a script can do with a client, and what each thing answers. Mailboxes and waiting callers are known by names that the script
chooses.
-/

namespace Switchboard.Scenario

/-- Changes to a finished call before its outcome is taken. -/
inductive Tamper where
  /-- Neither reply nor error is left. -/
  | clear
  | fail
  /-- The error is gone. -/
  | forgive
  deriving DecidableEq

def Tamper.apply : Tamper → Call → Call
  | .clear, c => { c with reply := none, error := none }
  | .fail, c => { c with error := some (.codec "tampered") }
  | .forgive, c => { c with error := none }

/-- The answer to whoever takes a finished call: the call as it was delivered,
and its outcome after the change. -/
def Tamper.result (tamper : Option Tamper) (c : Call) : Except CallError Wire.Value :=
  ((tamper.map (·.apply c)).getD c).result

/-- What a step of the script answers. -/
inductive Result where
  | done
  | flag (b : Bool)
  | capacity (n : Nat)
  | failed (error : CallError)
  | pending
  | absent
  | closed
  /-- A finished call and its outcome. -/
  | call (c : Call) (outcome : Except CallError Wire.Value)
  /-- The outcome of the call with this mark. -/
  | outcome (ticket : Nat) (outcome : Except CallError Wire.Value)
  /-- Finished calls by number, and whether no more can come. -/
  | calls (cs : List Call) (closed : Bool)
  /-- How often each outcome came, and whether no more can come. -/
  | counts (cs : List (String × Nat)) (closed : Bool)
  | answer (a : Answer)
  /-- What several steps in a row answered. -/
  | several (results : List Result)

/-- One thing that a script does. -/
inductive Move where
  | link (step : LinkStep)
  | cue (more : List Cue)
  | sleep (duration : Nat)
  | go (name : String) (call : Call) (shape : Wire.Shape)
  | call (name : String) (call : Call) (shape : Wire.Shape)
  | completion (name : String) (capacity : Nat)
  | goWith (name : String) (call : Call) (shape : Wire.Shape)
  | dropDone (name : String)
  | dropCompletions (name : String)
  | result (name : String)
  | receive (name : String) (tamper : Option Tamper)
  | tryReceive (name : String) (tamper : Option Tamper)
  | drain (name : String)
  | tally (name : String)
  | close
  | isShutdown
  | dropClient
  | dialed
  | peer (errand : Errand)

/-- A step of a script. -/
inductive Turn where
  | move (m : Move)
  /-- Several steps without a rest in between. -/
  | burst (turns : List Turn)

/-- What a script waits for. -/
inductive Wait where
  | rest
  /-- The outcome of the call that the caller with this name makes. -/
  | result (name : String)
  | receive (mailbox : Nat) (tamper : Option Tamper)
  /-- All finished calls; those here are received, latest first. -/
  | drain (mailbox : Nat) (finish : List Call → Bool → Result) (received : List Call)
  | close
  | dialed
  | peer (errand : Errand)

/-- Calls by number; those that never had one come first. -/
def byNumber (cs : List Call) : List Call :=
  let rank (c : Call) : Nat := match c.seq with
    | none => 0
    | some seq => seq.toNat + 1
  cs.mergeSort fun a b => rank a ≤ rank b

/-- How often each outcome came, by its text. -/
def tallied (cs : List Call) : List (String × Nat) :=
  cs.foldl (fun counts c =>
    let text := match c.result with
      | .ok _ => "ok"
      | .error error => error.message
    match counts.lookup text with
    | none => counts ++ [(text, 1)]
    | some n => counts.map fun (t, m) => if t = text then (t, n + 1) else (t, m)) []

end Switchboard.Scenario
