import Switchboard.Scenario.Board
import Switchboard.Scenario.Script

/-!
# Scenes with a client

A script does one thing at a time. While it has nothing to wait for, no activity
runs; when it waits, the activities run; and when neither the script nor any
activity can go on, the clock moves to the next time at which one can.
-/

namespace Switchboard.Scenario

/-- What can be seen after a step. -/
structure Report where
  result : Result
  traffic : Option Traffic
  /-- Whether the client is shut down, if the script has one. -/
  down : Option Bool
  events : List Event
  notes : Option (List Note)

namespace Board

/-! ## Moves -/

/-- Give a name to a mailbox. The one that had it before is let go. -/
def nameMailbox (name : String) (mailbox : Nat) (b : Board) : Board :=
  let b := match b.mailboxes.lookup name with
    | some old => b.onClient (·.updateMailbox old (·.deafen))
    | none => b
  { b with mailboxes := (name, mailbox) :: b.mailboxes.filter (·.1 != name) }

/-- Give a name to the handle on a mailbox. The one that had it before is let
go. -/
def nameHandle (name : String) (mailbox : Nat) (b : Board) : Board :=
  let b := match b.handles.lookup name with
    | some old => b.onClient (·.updateMailbox old (·.dropHandle))
    | none => b
  { b with handles := (name, mailbox) :: b.handles.filter (·.1 != name) }

/-- The outcome of the call that somebody waits for; it can be had once. -/
def takeResult (name : String) (b : Board) : Result × Board :=
  match b.callers.lookup name, b.session? with
  | some (place, ticket), some s =>
      match s.callers[place]? with
      | some (.finished outcome) =>
          (.outcome ticket outcome, { b with callers := b.callers.filter (·.1 != name) })
      | _ => (.pending, b)
  | _, _ => (.absent, b)

/-- Begin one thing of the script: it answers at once, or it has to wait, until
the given time at most. -/
def start (m : Move) (b : Board) : (Result ⊕ Wait × Nat) × Board :=
  let wait (w : Wait) (patience : Nat) (b : Board) : (Result ⊕ Wait × Nat) × Board :=
    (.inr (w, b.now + patience), b)
  let mailbox (name : String) (f : Nat → (Result ⊕ Wait × Nat) × Board) :=
    match b.mailboxes.lookup name with
    | none => (.inl .absent, b)
    | some mailbox => f mailbox
  match m with
  | .link step => (.inl .done, (b.onConnection fun link => ((), step.apply link)).2)
  | .cue more =>
      (.inl .done, b.onSession fun s =>
        match s.codec with
        | .rehearsed r => { s with codec := .rehearsed (r.cue more) }
        | .framed _ => s)
  | .sleep duration => wait .rest duration b
  | .go name call shape =>
      match b.session? with
      | none => (.inl .absent, b)
      | some s =>
          let (mailbox, s) := s.go call shape
          (.inl .done, { b with desk := .connected s }.nameMailbox name mailbox)
  | .call name call shape =>
      match b.session? with
      | none => (.inl .absent, b)
      | some s =>
          let (place, s) := s.addCaller call shape
          (.inl .done, { b with
            desk := .connected s
            callers := (name, place, call.ticket) :: b.callers.filter (·.1 != name) })
  | .completion name capacity =>
      match b.client.completion capacity with
      | .error error => (.inl (.failed error), b)
      | .ok (mailbox, client) =>
          (.inl (.capacity capacity),
            ((b.onClient fun _ => client).nameMailbox name mailbox).nameHandle name mailbox)
  | .goWith name call shape =>
      match b.handles.lookup name with
      | none => (.inl .absent, b)
      | some mailbox => (.inl .done, b.onSession (·.issue call shape mailbox))
  | .dropDone name =>
      match b.handles.lookup name with
      | none => (.inl .done, b)
      | some mailbox =>
          (.inl .done, { b with handles := b.handles.filter (·.1 != name) }.onClient
            (·.updateMailbox mailbox (·.dropHandle)))
  | .dropCompletions name =>
      match b.mailboxes.lookup name with
      | none => (.inl .done, b)
      | some mailbox =>
          (.inl .done, { b with mailboxes := b.mailboxes.filter (·.1 != name) }.onClient
            (·.updateMailbox mailbox (·.deafen)))
  | .result name => wait (.result name) b.patience b
  | .receive name tamper => mailbox name fun place => wait (.receive place tamper) b.patience b
  | .tryReceive name tamper =>
      mailbox name fun place =>
        match b.client.takeCall place with
        | none => (.inl .absent, b)
        | some (call, client) =>
            (.inl (.call call (Tamper.result tamper call)), b.onClient fun _ => client)
  | .drain name =>
      mailbox name fun place =>
        wait (.drain place (fun cs closed => .calls (byNumber cs) closed) []) b.patience b
  | .tally name =>
      mailbox name fun place =>
        wait (.drain place (fun cs closed => .counts (tallied cs) closed) []) b.patience b
  | .close =>
      match b.session? with
      | none => (.inl .absent, b)
      | some s =>
          match s.beginClose with
          | .error error => (.inl (.failed error), b)
          | .ok s => wait .close b.longestWait { b with desk := .connected s }
  | .isShutdown =>
      match b.session? with
      | none => (.inl .absent, b)
      | some s => (.inl (.flag s.client.shutdown), b)
  | .dropClient => (.inl .done, if b.dialed then { b with released := true }.tidy else b)
  | .dialed => if b.dialed then (.inl .absent, b) else wait .dialed b.patience b
  | .peer errand =>
      let (answer, b) := b.onConnection fun link =>
        let (poll, far, link) := b.far.start .far b.now errand link
        ((poll, far), link)
      match answer with
      | none => (.inl .absent, b)
      | some (poll, far) =>
          let b := { b with far }
          match poll with
          | .done outcome => (.inl (.answer (.ofOutcome outcome)), b)
          | .again | .blocked => wait (.peer errand) b.longestWait b

/-! ## Waiting -/

/-- Look whether what the script waits for has come, until the given time. -/
def poll (w : Wait) (latest : Nat) (b : Board) : Poll Result × (Wait × Nat) × Board :=
  let late := latest ≤ b.now
  match w with
  | .rest => (if late then .done .done else .blocked, (w, latest), b)
  | .receive mailbox tamper =>
      match b.client.takeCall mailbox with
      | some (call, client) =>
          (.done (.call call (Tamper.result tamper call)), (w, latest), b.onClient fun _ => client)
      | none =>
          (if b.client.isClosed mailbox then .done .closed
            else if late then .done .pending else .blocked, (w, latest), b)
  | .drain mailbox finish received =>
      match b.client.takeCall mailbox with
      | some (call, client) =>
          (.again, (.drain mailbox finish (call :: received), b.now + b.patience),
            b.onClient fun _ => client)
      | none =>
          (if b.client.isClosed mailbox then .done (finish received.reverse true)
            else if late then .done (finish received.reverse false) else .blocked,
            (w, latest), b)
  | .result name =>
      match b.takeResult name with
      | (.pending, b) => (if late then .done .pending else .blocked, (w, latest), b)
      | (r, b) => (.done r, (w, latest), b)
  | .close =>
      match b.session? with
      | none => (.done .absent, (w, latest), b)
      | some s =>
          let (poll, s) := s.stepClose
          let result : Poll Result := match poll with
            | .again => .again
            | .done (.ok ()) => .done .done
            | .done (.error error) => .done (.failed error)
            | .blocked => if late then .done (.answer .blocked) else .blocked
          (result, (w, latest), { b with desk := .connected s })
  | .dialed =>
      match b.desk with
      | .dialing _ => (if late then .done .pending else .blocked, (w, latest), b)
      | .refused error _ => (.done (.failed error), (w, latest), { b with dialed := true })
      | .connected _ => (.done .done, (w, latest), { b with dialed := true })
  | .peer errand =>
      let (answer, b) := b.onConnection fun link =>
        let (poll, far, link) := b.far.step .far b.now errand link
        ((poll, far), link)
      match answer with
      | none => (.done .absent, (w, latest), b)
      | some (poll, far) =>
          match poll with
          | .done outcome => (.done (.answer (.ofOutcome outcome)), (w, latest), { b with far })
          | .again => (.again, (w, latest), { b with far })
          | .blocked =>
              if late then (.done (.answer .blocked), (w, latest), { b with far := far.cancel })
              else (.blocked, (w, latest), { b with far })

/-- Wait. What the script waits for is looked at first; if it has not come, the
activities run; if none can, the clock moves. -/
def await : (fuel : Nat) → Wait → (latest : Nat) → Board → Result × Board
  | 0, _, _, b => (.answer .blocked, b)
  | fuel + 1, w, latest, b =>
      let (poll, (w, latest), b) := b.poll w latest
      let b := b.wake none
      match poll with
      | .done result => (result, b)
      | .again => await fuel w latest b
      | .blocked =>
          if b.ready.isEmpty then await fuel w latest (b.advance latest)
          else await fuel w latest (b.runReady stepLimit)

/-- Do one thing of the script, and nothing more. -/
def perform (m : Move) (b : Board) : Result × Board :=
  match b.start m with
  | (.inl result, b) => (result, b.wake none)
  | (.inr (w, latest), b) => b.await stepLimit w latest

mutual

/-- Take a step of the script. -/
def take : Turn → Board → Result × Board
  | .move m, b => b.perform m
  | .burst turns, b =>
      let (results, b) := takeAll turns b
      (.several results, b)

/-- Take several steps without a rest in between. -/
def takeAll : List Turn → Board → List Result × Board
  | [], b => ([], b)
  | turn :: turns, b =>
      let (result, b) := take turn b
      let (results, b) := takeAll turns b
      (result :: results, b)

end

/-! ## Reports -/

/-- What can be seen now, and the board from here on. -/
def report (result : Result) (b : Board) : Report × Board :=
  let (traffic, b) := b.onConnection sight
  let (events, notes, b) := match b.desk with
    | .dialing h => (h.events, none, { b with desk := .dialing { h with events := [] } })
    | .refused .. => ([], none, b)
    | .connected s =>
        let (notes, codec) := s.codec.report
        (s.client.events, notes,
          { b with desk := .connected { s with codec, client.events := [] } })
  let down := if b.dialed && !b.released then b.session?.map (·.client.shutdown) else none
  ({ result, traffic := traffic.join, down, events := b.events ++ events, notes },
    { b with events := [] })

/-- A script: after each step the board rests for a moment. -/
def play : List Turn → Board → List Report
  | [], _ => []
  | turn :: script, b =>
      let (result, b) := take turn b
      let (_, b) := b.await stepLimit .rest (b.now + 1)
      let (report, b) := b.report result
      report :: play script b

end Board

end Switchboard.Scenario
