import Mathlib
import Switchboard.Client.Session
import Switchboard.Client.Rehearsal

/-!
# What can happen to a client

The life of a client is a list of deeds: calls are made, finished calls are
taken from their mailboxes, tasks take steps, the owner closes, the connection
changes from outside. In which order the deeds come is not decided here and a
deed that cannot be done when it comes changes nothing, so whatever holds after
every list of deeds holds for every schedule, every other side and every
behaviour of the callers.

A `History` is a session together with what an onlooker noted down on the way.
The notes have no influence on the session (`session_run`). They are what a
statement about a whole life refers to: which calls were ever registered, in
which order, and how often the receiver had finished a read by then.
-/

namespace Switchboard

/-- A call as it is asked for: without a number and without an outcome. -/
structure Ask where
  /-- The mark by which whoever makes the call knows it again. -/
  ticket : Nat
  method : String
  args : Wire.Value
  /-- The shape of the reply. -/
  shape : Wire.Shape

def Ask.call (a : Ask) : Call := { ticket := a.ticket, method := a.method, args := a.args }

/-- The call that is asked for, to be delivered to a mailbox. -/
def Ask.pending (a : Ask) (mailbox : Nat) : Pending := ⟨a.call, a.shape, mailbox⟩

/-- How events outside of a client change what its codec works on. -/
class Surroundings (ω κ : Type) where
  act : ω → κ → κ

/-- A rehearsal is given more cues. -/
instance : Surroundings (List Cue) Rehearsal := ⟨Rehearsal.cue⟩

namespace Session

inductive Deed (ω : Type) where
  /-- Make a call with a mailbox of its own. -/
  | go (a : Ask)
  /-- Make a call that is delivered to a mailbox there already is. -/
  | goWith (a : Ask) (mailbox : Nat)
  /-- Somebody new will make a call and wait for the reply. -/
  | call (a : Ask)
  /-- Open a mailbox for many calls. -/
  | completion (capacity : Nat)
  /-- Take the oldest finished call from a mailbox. -/
  | take (mailbox : Nat)
  /-- Let a handle on a mailbox go. -/
  | dropHandle (mailbox : Nat)
  /-- Let the receiving end of a mailbox go. -/
  | deafen (mailbox : Nat)
  /-- One step of a task. -/
  | task (t : Task) (now : Nat)
  /-- The owner asks for the end. -/
  | close
  /-- One step of closing the connection. -/
  | hangUp
  | outside (event : ω)

variable {ω κ : Type} [Codec κ] [Surroundings ω κ]

def perform : Deed ω → Session κ → Session κ
  | .go a, s => (s.go a.call a.shape).2
  | .goWith a mailbox, s =>
      if mailbox < s.client.mailboxes.length then s.issue a.call a.shape mailbox else s
  | .call a, s => (s.addCaller a.call a.shape).2
  | .completion capacity, s =>
      match s.client.completion capacity with
      | .ok (_, client) => { s with client }
      | .error _ => s
  | .take mailbox, s =>
      match s.client.takeCall mailbox with
      | some (_, client) => { s with client }
      | none => s
  | .dropHandle mailbox, s => { s with client := s.client.updateMailbox mailbox (·.dropHandle) }
  | .deafen mailbox, s => { s with client := s.client.updateMailbox mailbox (·.deafen) }
  | .task t now, s => (s.step t now).2
  | .close, s =>
      match s.beginClose with
      | .ok s => s
      | .error _ => s
  | .hangUp, s => s.stepClose.2
  | .outside event, s => { s with codec := Surroundings.act event s.codec }

/-! ## What is noted down -/

inductive Notice where
  /-- A call was registered, under the number that it has. -/
  | registered (p : Pending)
  /-- A call was handed to a client that was over. -/
  | refused (p : Pending)
  /-- The caller at a place found the client over and made no call at all. -/
  | turnedAway (place : Nat)
  /-- The writing of a request ended with a failure. -/
  | unsent (seq : UInt64) (error : CallError)
  /-- The receiver finished a read, with a failure if there is one. -/
  | read (failure : Option CallError)

namespace Notice

@[simp] def registered? : Notice → Option Pending
  | .registered p => some p
  | _ => none

@[simp] def refused? : Notice → Option Pending
  | .refused p => some p
  | _ => none

@[simp] def turnedAway? : Notice → Option Nat
  | .turnedAway place => some place
  | _ => none

end Notice

/-- A call that reaches a client: it is registered unless the client is over. -/
def noteCall (p : Pending) (c : Client) : Notice :=
  if c.isOver then .refused p
  else .registered { p with call := { p.call with seq := some c.nextSeq } }

/-- How an attempt that is over failed, if it failed. -/
def ending {α : Type} : Poll (Except CallError α) → Option (Option CallError)
  | .done (.ok _) => some none
  | .done (.error error) => some (some error)
  | .again | .blocked => none

/-- How the next step of the receiver ends a read, if it ends one. -/
def readEnding (now : Nat) (s : Session κ) : Option (Option CallError) :=
  match s.receiver with
  | .ended => none
  | .header => if s.client.closing then none else ending (Codec.readHeader now s.codec).1
  | .body p => ending (Codec.readBody p.shape now s.codec).1
  | .unknown | .errorBody .. => ending (Codec.discardBody now s.codec).1

/-- The failure with which the next step of a writer ends, if it ends so. -/
def writeFailure (seq : UInt64) (now : Nat) (s : Session κ) : Option CallError :=
  match s.writers.find? (·.request.seq = seq) with
  | none => none
  | some w =>
      if !w.queued || s.lock.holder ≠ some (.writer seq) then none
      else if !w.begun then if s.client.isOver then some .shutdown else none
      else if s.client.closing then some .shutdown
      else (ending (Codec.write w.request w.args now s.codec).1).join

def noteStep (now : Nat) (s : Session κ) : Task → List Notice
  | .receiver => ((s.readEnding now).map .read).toList
  | .writer seq => ((s.writeFailure seq now).map (.unsent seq)).toList
  | .caller place =>
      match s.callers[place]? with
      | some (.fresh call shape) =>
          [if s.client.isOver then .turnedAway place
            else noteCall ⟨call, shape, s.client.mailboxes.length⟩ s.client]
      | _ => []

/-- What is noted down of a deed. -/
def notices : Deed ω → Session κ → List Notice
  | .go a, s => [noteCall (a.pending s.client.mailboxes.length) s.client]
  | .goWith a mailbox, s =>
      if mailbox < s.client.mailboxes.length then [noteCall (a.pending mailbox) s.client] else []
  | .task t now, s => s.noteStep now t
  | _, _ => []

end Session

open Session (Deed Notice)

structure History (κ : Type) where
  session : Session κ
  /-- Oldest first. -/
  notices : List Notice := []

namespace History

variable {ω κ : Type} [Codec κ] [Surroundings ω κ]

def perform (h : History κ) (d : Deed ω) : History κ where
  session := h.session.perform d
  notices := h.notices ++ h.session.notices d

/-- The life of a new client up to some point. -/
def run (codec : κ) (deeds : List (Deed ω)) : History κ :=
  deeds.foldl perform { session := { codec } }

@[simp] theorem run_nil (codec : κ) :
    run codec ([] : List (Deed ω)) = { session := { codec } } := rfl

@[simp] theorem run_append_singleton (codec : κ) (deeds : List (Deed ω)) (d : Deed ω) :
    run codec (deeds ++ [d]) = (run codec deeds).perform d := by
  simp [run]

/-- The notes have no influence on the session. -/
theorem session_run (codec : κ) (deeds : List (Deed ω)) :
    (run codec deeds).session = deeds.foldl (fun s d => s.perform d) { codec } := by
  induction deeds using List.reverseRecOn with
  | nil => rfl
  | append_singleton deeds d ih => simp [perform, ih]

/-- What every deed preserves holds after every life. -/
theorem run_induction {motive : History κ → Prop} (codec : κ)
    (start : motive { session := { codec } })
    (step : ∀ (h : History κ) (d : Deed ω), motive h → motive (h.perform d))
    (deeds : List (Deed ω)) : motive (run codec deeds) := by
  induction deeds using List.reverseRecOn with
  | nil => exact start
  | append_singleton deeds d ih =>
      rw [run_append_singleton]
      exact step _ d ih

/-! ## Steps of the receiver -/

theorem session_receiver (codec : κ) (deeds : List (Deed ω)) (now : Nat) :
    (run codec (deeds ++ [.task .receiver now])).session =
      ((run codec deeds).session.stepReceiver now).2 := by
  rw [run_append_singleton]
  rfl

theorem notices_receiver (codec : κ) (deeds : List (Deed ω)) (now : Nat) :
    (run codec (deeds ++ [.task .receiver now])).notices =
      (run codec deeds).notices ++
        (((run codec deeds).session.readEnding now).map Notice.read).toList := by
  rw [run_append_singleton]
  rfl

/-- What every step of the receiver preserves holds however many it takes. -/
theorem receiver_induction {motive : History κ → Prop} (codec : κ) (deeds : List (Deed ω))
    (start : motive (run codec deeds))
    (step : ∀ (h : History κ) (now : Nat), motive h →
      motive (h.perform (.task .receiver now : Deed ω))) (nows : List Nat) :
    motive (run codec (deeds ++ nows.map (.task .receiver ·))) := by
  induction nows using List.reverseRecOn with
  | nil =>
      rw [List.map_nil, List.append_nil]
      exact start
  | append_singleton nows now ih =>
      rw [List.map_append, ← List.append_assoc, List.map_singleton, run_append_singleton]
      exact step _ now ih

/-! ## Calls by what became of them -/

/-- The calls that were registered, in the order of their numbers. -/
def registered (h : History κ) : List Pending := h.notices.filterMap Notice.registered?

/-- The calls that were handed to a client that was over. -/
def refused (h : History κ) : List Pending := h.notices.filterMap Notice.refused?

/-- The places of the callers who found the client over. -/
def turnedAway (h : History κ) : List Nat := h.notices.filterMap Notice.turnedAway?

@[simp] theorem registered_perform (h : History κ) (d : Deed ω) :
    (h.perform d).registered =
      h.registered ++ (h.session.notices d).filterMap Notice.registered? := by
  simp [registered, perform]

@[simp] theorem refused_perform (h : History κ) (d : Deed ω) :
    (h.perform d).refused = h.refused ++ (h.session.notices d).filterMap Notice.refused? := by
  simp [refused, perform]

@[simp] theorem turnedAway_perform (h : History κ) (d : Deed ω) :
    (h.perform d).turnedAway =
      h.turnedAway ++ (h.session.notices d).filterMap Notice.turnedAway? := by
  simp [turnedAway, perform]

/-- As long as there are few registered calls, there were few before. -/
theorem few_of_perform {h : History κ} {d : Deed ω} {bound : Nat}
    (few : (h.perform d).registered.length < bound) : h.registered.length < bound := by
  rw [registered_perform, List.length_append] at few
  omega

theorem few_of_later {codec : κ} {deeds more : List (Deed ω)} {bound : Nat}
    (few : (run codec (deeds ++ more)).registered.length < bound) :
    (run codec deeds).registered.length < bound := by
  induction more using List.reverseRecOn with
  | nil => rwa [List.append_nil] at few
  | append_singleton more d ih =>
      rw [← List.append_assoc, run_append_singleton] at few
      exact ih (few_of_perform few)

end History

end Switchboard
