import Switchboard.Client.Basic
import Switchboard.Client.Codec

/-!
# A client at work

Several activities share one connection. One receiver reads the responses and
finishes the calls they answer. Each request is written by an activity of its
own, and a lock lets one of them write at a time, in the order in which they
asked for it. Callers who wait for their reply, and the owner who closes the
client, are activities too.

Every activity advances by small steps, each of which either gets somewhere, or
is blocked and changes nothing. In which order the steps come is not decided
here: whatever holds after every sequence of steps holds for every schedule.
-/

namespace Switchboard

/-! ## The write lock -/

/-- Who may hold the write lock. -/
inductive Party where
  /-- The activity that writes the request with this number. -/
  | writer (seq : UInt64)
  /-- The owner who closes the client. -/
  | closer
  deriving Repr, DecidableEq

structure Lock where
  holder : Option Party := none
  /-- Those who asked for the lock and do not have it, first come first. -/
  waiting : List Party := []
  deriving Repr, DecidableEq

namespace Lock

/-- Ask for the lock, which is given at once if nobody has it. -/
def ask (p : Party) (l : Lock) : Lock :=
  match l.holder with
  | none => { l with holder := some p }
  | some _ => { l with waiting := l.waiting ++ [p] }

/-- Give the lock back; the next in the queue has it. -/
def release (l : Lock) : Lock := ⟨l.waiting.head?, l.waiting.tail⟩

end Lock

/-! ## Activities -/

/-- What the receiver is doing. -/
inductive Receiver where
  /-- It waits for the header of a response. -/
  | header
  /-- It reads the reply to a call. -/
  | body (p : Pending)
  /-- It reads past the body of a response that no call waits for. -/
  | unknown
  /-- It reads past what follows an error answer to a call. -/
  | errorBody (p : Pending) (text : String)
  | ended

/-- The writing of one request. -/
structure Writer where
  request : Wire.Request
  args : Wire.Value
  /-- Whether the lock was asked for. -/
  queued : Bool := false
  /-- Whether, with the lock, the client was still found to be open. -/
  begun : Bool := false

/-- Somebody who makes a call and waits for the reply. -/
inductive Caller where
  | fresh (call : Call) (shape : Wire.Shape)
  | waiting (mailbox : Nat)
  | finished (result : Except CallError Wire.Value)

structure Session (κ : Type) where
  client : Client := {}
  codec : κ
  receiver : Receiver := .header
  /-- The requests that are not finished, oldest first. -/
  writers : List Writer := []
  lock : Lock := {}
  callers : List Caller := []

namespace Session

variable {κ : Type} [Codec κ]

/-! ## Making calls -/

/-- Make a call that is delivered to a mailbox; its request is written by a new
activity. -/
def issue (call : Call) (shape : Wire.Shape) (mailbox : Nat) (s : Session κ) : Session κ :=
  let (request, client) := s.client.issue call shape mailbox
  match request with
  | none => { s with client }
  | some request => { s with client, writers := s.writers ++ [{ request, args := call.args }] }

/-- Make a call that is delivered to a mailbox of its own. -/
def go (call : Call) (shape : Wire.Shape) (s : Session κ) : Nat × Session κ :=
  let (mailbox, client) := s.client.addMailbox { capacity := defaultCapacity, handles := 0 }
  (mailbox, { s with client }.issue call shape mailbox)

/-- Somebody new will make a call and wait for the reply. -/
def addCaller (call : Call) (shape : Wire.Shape) (s : Session κ) : Nat × Session κ :=
  (s.callers.length, { s with callers := s.callers ++ [.fresh call shape] })

/-- One step of a caller. -/
def stepCaller (place : Nat) (s : Session κ) : Poll Unit × Session κ :=
  let become (caller : Caller) (s : Session κ) : Session κ :=
    { s with callers := s.callers.set place caller }
  match s.callers[place]? with
  | some (.fresh call shape) =>
      if s.client.isOver then (.done (), become (.finished (.error .shutdown)) s)
      else
        let (mailbox, client) := s.client.addMailbox { capacity := 1, handles := 0 }
        (.again, become (.waiting mailbox) ({ s with client }.issue call shape mailbox))
  | some (.waiting mailbox) =>
      match s.client.takeCall mailbox with
      | some (call, client) => (.done (), become (.finished call.result) { s with client })
      | none =>
          if s.client.isClosed mailbox then (.done (), become (.finished (.error .shutdown)) s)
          else (.blocked, s)
  | some (.finished _) | none => (.done (), s)

/-! ## Reading responses -/

/-- Reading is over, and with it the client. -/
def endReceiver (error : CallError) (s : Session κ) : Poll Unit × Session κ :=
  (.done (), { s with
    client := s.client.stop error
    codec := Codec.dropReader s.codec
    receiver := .ended })

/-- A header has arrived: see which call it answers, and how. -/
def route (response : Wire.Response) (s : Session κ) : Session κ :=
  match s.client.remove response.seq with
  | none =>
      { s with client := s.client.log (.unknownResponse response.seq), receiver := .unknown }
  | some (p, client) =>
      match response.remoteError with
      | none => { s with client, receiver := .body p }
      | some text => { s with client, receiver := .errorBody p text }

/-- One step of the receiver. Only the wait for a header ends when the owner
closes the client. -/
def stepReceiver (now : Nat) (s : Session κ) : Poll Unit × Session κ :=
  match s.receiver with
  | .ended => (.done (), s)
  | .header =>
      if s.client.closing then { s with codec := Codec.cancelRead s.codec }.endReceiver .eof
      else
        let (poll, codec) := Codec.readHeader now s.codec
        let s := { s with codec }
        match poll with
        | .again => (.again, s)
        | .blocked => (.blocked, s)
        | .done (.ok response) => (.again, s.route response)
        | .done (.error error) => s.endReceiver error
  | .body p =>
      let (poll, codec) := Codec.readBody p.shape now s.codec
      let s := { s with codec }
      match poll with
      | .again => (.again, s)
      | .blocked => (.blocked, s)
      | .done result =>
          (.again, { s with
            client := s.client.finish p (result.mapError .readingBody)
            receiver := .header })
  | .unknown =>
      let (poll, codec) := Codec.discardBody now s.codec
      let s := { s with codec }
      match poll with
      | .again => (.again, s)
      | .blocked => (.blocked, s)
      | .done (.ok ()) => (.again, { s with receiver := .header })
      | .done (.error error) => s.endReceiver error
  | .errorBody p text =>
      let (poll, codec) := Codec.discardBody now s.codec
      let s := { s with codec }
      match poll with
      | .again => (.again, s)
      | .blocked => (.blocked, s)
      | .done result =>
          let s := { s with client := s.client.finish p (.error (.server text)) }
          match result with
          | .ok () => (.again, { s with receiver := .header })
          | .error error => s.endReceiver (.readingErrorBody error)

/-! ## Writing requests -/

def updateWriter (seq : UInt64) (f : Writer → Writer) (s : Session κ) : Session κ :=
  { s with writers := s.writers.map fun w => if w.request.seq = seq then f w else w }

/-- The writing of a request is over. The lock goes to the next before a
failure is told. -/
def endWriter (seq : UInt64) (result : Except CallError Unit) (s : Session κ) :
    Poll Unit × Session κ :=
  let s := { s with
    lock := s.lock.release
    writers := s.writers.filter (·.request.seq != seq) }
  match result with
  | .ok () => (.done (), s)
  | .error error => (.done (), { s with client := s.client.writeFailed seq error })

/-- One step of the writing of a request. With the lock, a request is only
begun while the client is open, and left as soon as the owner closes it. -/
def stepWriter (seq : UInt64) (now : Nat) (s : Session κ) : Poll Unit × Session κ :=
  match s.writers.find? (·.request.seq = seq) with
  | none => (.done (), s)
  | some w =>
      if !w.queued then
        (.again, { s with lock := s.lock.ask (.writer seq) }.updateWriter seq
          ({ · with queued := true }))
      else if s.lock.holder ≠ some (.writer seq) then (.blocked, s)
      else if !w.begun then
        if s.client.isOver then s.endWriter seq (.error .shutdown)
        else (.again, s.updateWriter seq ({ · with begun := true }))
      else if s.client.closing then
        { s with codec := Codec.cancelWrite s.codec }.endWriter seq (.error .shutdown)
      else
        let (poll, codec) := Codec.write w.request w.args now s.codec
        let s := { s with codec }
        match poll with
        | .again => (.again, s)
        | .blocked => (.blocked, s)
        | .done result => s.endWriter seq result

/-! ## Closing -/

/-- The owner closes the client: from here on nothing is written, and as soon
as the lock is free the connection is closed. -/
def beginClose (s : Session κ) : Except CallError (Session κ) := do
  return { s with client := ← s.client.beginClose, lock := s.lock.ask .closer }

/-- One step of closing. -/
def stepClose (s : Session κ) : Poll (Except CallError Unit) × Session κ :=
  if s.lock.holder ≠ some .closer then (.blocked, s)
  else
    let (result, codec) := Codec.close s.codec
    (.done result, { s with codec, lock := s.lock.release })

/-! ## Schedules -/

/-- The activities that go on by themselves. -/
inductive Task where
  | receiver
  | writer (seq : UInt64)
  | caller (place : Nat)
  deriving Repr, DecidableEq

/-- One step of a task. -/
def step (t : Task) (now : Nat) (s : Session κ) : Poll Unit × Session κ :=
  match t with
  | .receiver => s.stepReceiver now
  | .writer seq => s.stepWriter seq now
  | .caller place => s.stepCaller place

/-- Whether a step of the receiver would get somewhere. -/
def receiverReady (now : Nat) (s : Session κ) : Bool :=
  match s.receiver with
  | .ended => false
  | .header => s.client.closing || Codec.canRead now s.codec
  | .body _ | .unknown | .errorBody .. => Codec.canRead now s.codec

/-- Whether a step of a writer would get somewhere. -/
def writerReady (now : Nat) (s : Session κ) (w : Writer) : Bool :=
  !w.queued || (s.lock.holder == some (.writer w.request.seq) &&
    (!w.begun || s.client.closing || Codec.canWrite now s.codec))

/-- Whether a step of a caller would get somewhere. -/
def callerReady (s : Session κ) : Caller → Bool
  | .fresh .. => true
  | .waiting mailbox =>
      s.client.isClosed mailbox || s.client.mailboxes[mailbox]?.any (!·.held.isEmpty)
  | .finished _ => false

/-- The tasks that would get somewhere. -/
def readyTasks (now : Nat) (s : Session κ) : List Task :=
  (if s.receiverReady now then [.receiver] else []) ++
    (s.writers.filter (s.writerReady now)).map (.writer ·.request.seq) ++
    ((List.range s.callers.length).filter fun i => s.callers[i]?.any s.callerReady).map .caller

/-- Whether no task is left that could use the connection. -/
def isIdle (s : Session κ) : Bool :=
  (match s.receiver with
    | .ended => true
    | _ => false) &&
  s.writers.isEmpty &&
  s.callers.all fun
    | .finished _ => true
    | _ => false

end Session

end Switchboard
