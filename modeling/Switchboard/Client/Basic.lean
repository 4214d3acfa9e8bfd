import Switchboard.Client.Event
import Switchboard.Client.Mailbox

/-!
# The calls of a client

A client makes many calls over one connection. Each gets a number of its own,
and a table keeps the calls that wait for their answer under that number. This
module is the bookkeeping alone: what is registered, what is taken out, how a
call is finished and delivered, and how everything that still waits is failed
when the connection is given up. What happens on the connection, and when, is
decided elsewhere.
-/

namespace Switchboard

structure Client where
  /-- The calls that wait for their answer, by number, oldest first. -/
  table : List (UInt64 × Pending) := []
  /-- The number of the next call. -/
  nextSeq : UInt64 := 0
  /-- The connection is dead, and nothing is registered any more. -/
  shutdown : Bool := false
  /-- The owner asked for the end. -/
  closing : Bool := false
  mailboxes : List Mailbox := []
  /-- What there is to report, oldest first. -/
  events : List Event := []

namespace Client

/-- Whether no call is accepted any more. -/
def isOver (c : Client) : Bool := c.shutdown || c.closing

def log (e : Event) (c : Client) : Client := { c with events := c.events ++ [e] }

/-! ## Mailboxes -/

/-- A new mailbox and its place. -/
def addMailbox (m : Mailbox) (c : Client) : Nat × Client :=
  (c.mailboxes.length, { c with mailboxes := c.mailboxes ++ [m] })

def updateMailbox (place : Nat) (f : Mailbox → Mailbox) (c : Client) : Client :=
  { c with mailboxes := c.mailboxes.modify place f }

/-- A mailbox for many calls, with a handle for its owner. One that holds
nothing would lose every call, so it is refused. -/
def completion (capacity : Nat) (c : Client) : Except CallError (Nat × Client) :=
  if capacity = 0 then .error .unbufferedDone
  else .ok (c.addMailbox { capacity, handles := 1 })

/-- Take the oldest finished call from a mailbox. -/
def takeCall (place : Nat) (c : Client) : Option (Call × Client) :=
  match c.mailboxes[place]? with
  | none => none
  | some m => m.take.map fun (call, m) => (call, { c with mailboxes := c.mailboxes.set place m })

/-- Whether nothing more can come to a mailbox. -/
def isClosed (place : Nat) (c : Client) : Bool := c.mailboxes[place]?.all (·.isClosed)

/-! ## Finishing calls -/

/-- Finish a call: deliver it with its outcome and let its handle go. -/
def finish (p : Pending) (outcome : Except CallError Wire.Value) (c : Client) : Client :=
  let call := p.call.finish outcome
  match c.mailboxes[p.mailbox]? with
  | none => c
  | some m =>
      let (delivery, m) := m.put call
      let c := { c with mailboxes := c.mailboxes.set p.mailbox m.dropHandle }.log
        (.finished p.mailbox call delivery)
      match delivery with
      | .overflow => c.log (.overflow call.seq call.method)
      | .delivered | .unheard => c

/-- Make a call that will be delivered to a mailbox. It is registered and its
request returned, unless the client is over: then it fails at once. -/
def issue (call : Call) (shape : Wire.Shape) (mailbox : Nat) (c : Client) :
    Option Wire.Request × Client :=
  let c := c.updateMailbox mailbox (·.addHandle)
  if c.isOver then (none, c.finish ⟨call, shape, mailbox⟩ (.error .shutdown))
  else
    let seq := c.nextSeq
    let call := { call with seq := some seq }
    (some ⟨call.method, seq⟩,
      { c with nextSeq := seq + 1, table := c.table ++ [(seq, ⟨call, shape, mailbox⟩)] })

/-- Take the call with a number out of the table. -/
def remove (seq : UInt64) (c : Client) : Option (Pending × Client) :=
  (c.table.lookup seq).map fun p => (p, { c with table := c.table.filter (·.1 != seq) })

/-- The request with a number could not be written. Its call fails, unless it
is finished already or its answer is being read. -/
def writeFailed (seq : UInt64) (error : CallError) (c : Client) : Client :=
  match c.remove seq with
  | none => c
  | some (p, c) => c.finish p (.error error)

/-! ## The end -/

/-- The owner asks for the end, which can be done once and only while the
connection lives. -/
def beginClose (c : Client) : Except CallError Client :=
  if c.isOver then .error .shutdown else .ok { c with closing := true }

/-- What the waiting calls are told when reading ends with `error`: an end of
the stream that the owner asked for is a shutdown, any other is unexpected. -/
def verdict (closing : Bool) : CallError → CallError
  | .eof => if closing then .shutdown else .unexpectedEof
  | error => error

/-- Whether the owner asked for the end that `error` brings. -/
def isExpected (closing : Bool) : CallError → Bool
  | .eof => closing
  | _ => false

/-- Reading ended with `error`: every waiting call fails, and none can be
registered any more. -/
def stop (error : CallError) (c : Client) : Client :=
  let told := verdict c.closing error
  let drained := c.table.foldl (fun c (_, p) => c.finish p (.error told))
    { c with shutdown := true, table := [] }
  if isExpected c.closing error then drained else drained.log (.protocolError told)

end Client

end Switchboard
