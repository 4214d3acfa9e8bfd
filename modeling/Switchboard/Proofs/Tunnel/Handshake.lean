import Switchboard.Proofs.Tunnel.Hearing
import Switchboard.Proofs.Tunnel.Sending

/-!
# One attempt to get on with a handshake

Over any connection, and whatever happens to it: as long as a handshake goes on
(`Course.Going`), an attempt to get on with it asks the connection for one thing at most, and
what it comes to is said by what was asked and answered (`Course.Turn`). A line goes on with
what was buffered or with what comes, and says whether the answer goes on behind it, agrees or
refuses; a contact that failed or a deadline that passed ends the handshake (`Course.Fault`),
which then closes the connection.
-/

namespace Switchboard

open Tunnel (Answers Decides Headers LeadsOn Undecided requestOctets)

/-- The connection is asked to end the writing, once and whatever comes of it, and
then both halves let it go. -/
def Closes (contacts : List Contact) : Prop :=
  ∃ result rest, contacts = .shut result :: rest ∧ .dropReader ∈ rest ∧ .dropWriter ∈ rest ∧
    ∀ c ∈ rest, c = .dropReader ∨ c = .dropWriter

/-- The contact belongs to the closing of a connection. -/
inductive Contact.IsClosing : Contact → Prop where
  | shut (result : Except IoError Unit) : IsClosing (.shut result)
  | dropReader : IsClosing .dropReader
  | dropWriter : IsClosing .dropWriter

theorem Closes.isClosing {contacts : List Contact} (h : Closes contacts) :
    ∀ c ∈ contacts, c.IsClosing := by
  obtain ⟨result, rest, rfl, -, -, hrest⟩ := h
  refine List.forall_mem_cons.mpr ⟨.shut result, fun c hc => ?_⟩
  rcases hrest c hc with rfl | rfl
  · exact .dropReader
  · exact .dropWriter

namespace Course

variable {L : Type} [Link L] (c : Course L)

/-! ## What ends a handshake -/

/-- In attempt `n` the connection was asked for this, and gave this answer. -/
def Asks (n : Nat) (contact : Contact) : Prop := c.contacts n ++ [contact] <+: c.contacts (n + 1)

/-- What comes of attempt `n` to go on with a read. -/
def reading (n : Nat) : Poll (Except LinkError Received) :=
  ((c.before n).wire.inbound.step .near (c.clock n) (c.before n).wire.link).1

/-- The line that is under way in attempt `n` was begun in attempt `m`. -/
structure ReadsSince (m n : Nat) : Prop where
  earlier : m < n
  begun : ∃ i : Inbound, (c.notes (m + 1)).wire.inbound = i.start .line (c.clock m)
  unfinished : ∀ k, m < k → k < n →
    (c.notes k).wire.inbound.reading.isSome ∧ ∀ result, c.reading k ≠ .done result

/-- Nothing came of the contact, and the time of the operation was over. The request has its
time from the second attempt on, in which sending it begins. -/
inductive Late (n : Nat) : Contact → Operation → Prop where
  | send {offered : Octets} {patience : Nat}
      (hpatience : c.start.outbound.patience = some patience)
      (hdue : c.clock 1 + patience ≤ c.clock n) : Late n (.write offered .nothing) .send
  | receive {m patience : Nat} (hsince : c.ReadsSince m n)
      (hpatience : c.start.inbound.patience = some patience)
      (hdue : c.clock m + patience ≤ c.clock n) : Late n (.read .nothing) .receive

/-- Why a handshake ends with a contact. -/
inductive Fault (n : Nat) : Contact → CallError → Prop where
  | broken {contact : Contact} {error : IoError} (hbreaks : contact.Breaks error) :
      Fault n contact (.transport (.io error))
  | late {contact : Contact} {operation : Operation} (hlate : c.Late n contact operation) :
      Fault n contact (.transport (.timeout operation))
  /-- Nothing comes any more, and what was heard is no answer. -/
  | ended {error : CallError} {rest : Octets} (hanswers : Answers (c.heard n) (.error error) rest) :
      Fault n (.read .ended) error

variable {c} {m n : Nat} {contact : Contact} {error : CallError}

theorem Fault.unique {error' : CallError} (h : c.Fault n contact error)
    (h' : c.Fault n contact error') : error = error' := by
  cases h with
  | broken hbreaks =>
      cases h' with
      | broken hbreaks' => rw [hbreaks.unique hbreaks']
      | late hlate => cases hlate <;> cases hbreaks
      | ended => cases hbreaks
  | late hlate =>
      cases h' with
      | broken hbreaks => cases hlate <;> cases hbreaks
      | late hlate' => cases hlate <;> cases hlate' <;> rfl
      | ended => cases hlate
  | ended hanswers =>
      cases h' with
      | broken hbreaks => cases hbreaks
      | late hlate => cases hlate
      | ended hanswers' => exact Except.error.inj (hanswers.unique hanswers').1

/-- A contact with which a handshake ends brings nothing. -/
theorem Fault.quiet (h : c.Fault n contact error) :
    contact.sent = [] ∧ contact.heard = [] ∧ contact ≠ .flush (.ok ()) ∧ ¬ contact.IsClosing := by
  cases h with
  | broken hbreaks => cases hbreaks <;> exact ⟨rfl, rfl, by simp, nofun⟩
  | late hlate => cases hlate <;> exact ⟨rfl, rfl, by simp, nofun⟩
  | ended => exact ⟨rfl, rfl, by simp, nofun⟩

theorem Fault.not_gains (h : c.Fault n contact error) : ¬ contact.Gains := by
  intro hgains
  cases h with
  | broken hbreaks => cases hgains <;> cases hbreaks
  | late hlate => cases hgains <;> cases hlate
  | ended => cases hgains

theorem Fault.not_data (h : c.Fault n contact error) (octets : Octets) :
    contact ≠ .read (.data octets) := by
  rintro rfl
  cases h with
  | broken hbreaks => cases hbreaks
  | late hlate => cases hlate

/-- The end of a stream and a failure end a handshake whatever the time is. -/
theorem Fault.late_of_waits (h : c.Fault n contact error) (hwaits : contact.Waits) :
    ∃ operation, c.Late n contact operation := by
  cases h with
  | broken hbreaks =>
      cases hwaits with
      | notTaken | noData => cases hbreaks
      | interrupted _ hkind =>
          cases hbreaks with
          | read _ hother => exact absurd hkind hother
  | late hlate => exact ⟨_, hlate⟩
  | ended => cases hwaits

/-! ## How far a handshake has come -/

section Stage

variable (c)

/-- The line that is under way in attempt `n` has to be there at this time. -/
structure Timed (n : Nat) (deadline : Option Nat) : Prop where
  since : ∃ m, c.ReadsSince m n
  deadline : ∀ m, c.ReadsSince m n → deadline = c.start.inbound.patience.map (c.clock m + ·)

/-- The whole request is out, and nothing is left of it in the writing half. -/
structure Told (contacts : List Contact) (outbound : Outbound) : Prop where
  sent : sentIn contacts = requestOctets c.path
  flushed : .flush (.ok ()) ∈ contacts
  talk : ∀ contact ∈ contacts, ¬ contact.IsClosing
  outbound : outbound = c.start.outbound

/-- How far a handshake has come when attempt `n` begins. -/
inductive Stage (n : Nat) (h : Handshake (Noted L)) : Prop where
  | opening (hn : n = 0) (hphase : h.phase = .start) (hpath : h.path = c.path)
      (hcontacts : h.wire.link.contacts = []) (hinbound : h.wire.inbound = c.start.inbound)
      (houtbound : h.wire.outbound = c.start.outbound)
  | called (hn : n = 1) (hphase : h.phase = .sending) (hcontacts : h.wire.link.contacts = [])
      (hinbound : h.wire.inbound = c.start.inbound)
      (houtbound : h.wire.outbound = c.start.outbound.carrying (requestOctets c.path))
  | sending (hphase : h.phase = .sending) (hinbound : h.wire.inbound = c.start.inbound)
      (hposts : c.start.outbound.Posts (requestOctets c.path)
        (c.start.outbound.patience.map (c.clock 1 + ·)) h.wire.link.contacts h.wire.outbound)
  | hearing {deadline : Option Nat} (hawaits : h.Awaits) (htold : c.Told h.wire.link.contacts h.wire.outbound)
      (htimed : c.Timed n deadline)
      (hhears : c.start.inbound.Hears h.phase deadline h.wire.link.contacts h.wire.inbound)

/-- The handshake goes on, and has come so far. -/
structure Going (n : Nat) : Prop where
  result : (c.notes n).result = none
  stage : c.Stage n (c.notes n).handshake

/-- What is left to do before the connection is asked for something new. -/
def todo (n : Nat) : Nat :=
  (if (c.notes n).handshake.phase = .start then 2 * (requestOctets c.path).length + 5
    else (c.notes n).wire.outbound.burden) + (c.notes n).wire.inbound.buffer.length

/-- The answer is not complete yet. -/
def Open (n : Nat) : Prop := .flush (.ok ()) ∈ c.contacts n → Undecided (c.heard n)

/-- The connection was asked for nothing, or for more of an answer that was not complete. -/
inductive Fetches (n : Nat) : List Contact → Prop where
  | nothing : Fetches n []
  | octets (hopen : c.Open n) (octets : Octets) : Fetches n [.read (.data octets)]

/-- Why attempt `n` ends the handshake with an error, having asked for this. -/
inductive Cause (n : Nat) : List Contact → CallError → Prop where
  | refused {asked : List Contact} {error : CallError} {rest : Octets} (hasked : c.Fetches n asked)
      (hflushed : .flush (.ok ()) ∈ c.contacts n)
      (hdecides : Decides (c.heard n ++ heardIn asked) (.error error) rest) : Cause n asked error
  | faulty {contact : Contact} {error : CallError} (hopen : c.Open n)
      (hfault : c.Fault n contact error)
      (hearly : .flush (.ok ()) ∈ c.contacts n ∨
        contact.IsOutgoing ∧ (c.notes (n + 1)).wire.inbound = c.start.inbound) :
      Cause n [contact] error

/-- In attempt `n` the connection keeps the handshake waiting, and there is still time. What
is offered in vain is all that is left of the request. -/
structure Stalls (n : Nat) (contact : Contact) : Prop where
  contacts : c.contacts (n + 1) = c.contacts n ++ [contact]
  waits : contact.Waits
  early : ∀ operation, ¬ c.Late n contact operation
  offered : ∀ offered, contact = .write offered .nothing →
    offered ≠ [] ∧ sentIn (c.contacts n) ++ offered = requestOctets c.path

/-- What attempt `n` comes to. -/
inductive Turn (n : Nat) : Prop where
  /-- The connection is asked for nothing. -/
  | apart (hgoing : c.Going (n + 1)) (hcontacts : c.contacts (n + 1) = c.contacts n)
      (hless : c.todo (n + 1) < c.todo n)
  | gains {contact : Contact} (hgoing : c.Going (n + 1)) (hopen : c.Open n)
      (hcontacts : c.contacts (n + 1) = c.contacts n ++ [contact]) (hgains : contact.Gains)
      (hless : c.todo (n + 1) < c.todo n)
  | gets {octets : Octets} (hgoing : c.Going (n + 1)) (hopen : c.Open n)
      (hcontacts : c.contacts (n + 1) = c.contacts n ++ [.read (.data octets)])
  | waits {contact : Contact} (hgoing : c.Going (n + 1)) (hopen : c.Open n)
      (hstalls : c.Stalls n contact) (hsame : c.todo (n + 1) = c.todo n)
  | agreed {asked : List Contact} (hasked : c.Fetches n asked) (hflushed : .flush (.ok ()) ∈ c.contacts n)
      (hcontacts : c.contacts (n + 1) = c.contacts n ++ asked)
      (hresult : (c.notes (n + 1)).result = some (.ok ()))
      (hdecides : Decides (c.heard (n + 1)) (.ok ()) (c.notes (n + 1)).wire.inbound.buffer)
      (hinbound : (c.notes (n + 1)).wire.inbound =
        { c.start.inbound with buffer := (c.notes (n + 1)).wire.inbound.buffer })
      (houtbound : (c.notes (n + 1)).wire.outbound = c.start.outbound)
  | failed {asked closing : List Contact} {error : CallError} (hcause : c.Cause n asked error)
      (hcontacts : c.contacts (n + 1) = c.contacts n ++ asked ++ closing)
      (hcloses : Closes closing)
      (hresult : (c.notes (n + 1)).result = some (.error error))
      (houtbound : (c.notes (n + 1)).wire.outbound = { c.start.outbound with aborted := true })

end Stage

/-! ## The time of a line -/

section Timed

variable {deadline : Option Nat}

/-- A line that is begun has its time from then on. -/
theorem timed_begun {i : Inbound}
    (hbegun : (c.notes (n + 1)).wire.inbound = i.start .line (c.clock n))
    (hbefore : (c.notes n).wire.inbound.reading = none ∨ ∃ result, c.reading n = .done result) :
    c.Timed (n + 1) (c.start.inbound.patience.map (c.clock n + ·)) where
  since := ⟨n, Nat.lt_succ_self n, ⟨i, hbegun⟩, fun k hn hk => absurd hk (by omega)⟩
  deadline := by
    intro m hsince
    obtain rfl | hm := Nat.eq_or_lt_of_le (Nat.le_of_lt_succ hsince.earlier)
    · rfl
    · obtain ⟨hbusy, hunfinished⟩ := hsince.unfinished n hm (Nat.lt_succ_self n)
      rcases hbefore with hidle | ⟨result, hdone⟩
      · rw [hidle] at hbusy
        cases hbusy
      · exact absurd hdone (hunfinished result)

/-- A line that goes on keeps its time. -/
theorem Timed.still (h : c.Timed n deadline) {r : Reading}
    (hbusy : (c.notes n).wire.inbound.reading.isSome) (hpoll : ∀ result, c.reading n ≠ .done result)
    (hreading : (c.notes (n + 1)).wire.inbound.reading = some r) (hdeadline : r.deadline = deadline)
    (hpatience : (c.notes (n + 1)).wire.inbound.patience = c.start.inbound.patience) :
    c.Timed (n + 1) deadline where
  since := by
    obtain ⟨m, hearlier, hbegun, hunfinished⟩ := h.since
    refine ⟨m, Nat.lt_succ_of_lt hearlier, hbegun, fun k hm hk => ?_⟩
    obtain rfl | hk := Nat.eq_or_lt_of_le (Nat.le_of_lt_succ hk)
    · exact ⟨hbusy, hpoll⟩
    · exact hunfinished k hm hk
  deadline := by
    intro m hsince
    obtain ⟨hearlier, ⟨i, hbegun⟩, hunfinished⟩ := hsince
    obtain rfl | hm := Nat.eq_or_lt_of_le (Nat.le_of_lt_succ hearlier)
    · rw [hbegun] at hreading hpatience
      obtain rfl := Option.some.inj hreading
      rw [← hpatience, ← hdeadline]
      rfl
    · exact h.deadline m ⟨hm, ⟨i, hbegun⟩, fun k hm hk => hunfinished k hm (Nat.lt_succ_of_lt hk)⟩

theorem Timed.late {time : Nat} (h : c.Timed n (some time)) (hdue : time ≤ c.clock n) :
    c.Late n (.read .nothing) .receive := by
  obtain ⟨m, hsince⟩ := h.since
  obtain ⟨patience, hpatience, rfl⟩ := Option.map_eq_some_iff.mp (h.deadline m hsince).symm
  exact .receive hsince hpatience hdue

theorem Timed.not_late (h : c.Timed n deadline)
    (hearly : ∀ time, deadline = some time → c.clock n < time) (operation : Operation) :
    ¬ c.Late n (.read .nothing) operation := by
  rintro ⟨⟩
  rename_i m patience hsince hpatience hdue
  have hdeadline := h.deadline m hsince
  rw [hpatience] at hdeadline
  exact absurd (hearly _ hdeadline) (Nat.not_lt.mpr hdue)

end Timed

/-! ## One attempt -/

theorem going_begin : c.Going 0 := ⟨rfl, .opening rfl rfl rfl rfl rfl rfl⟩

/-- What happens to the connection by itself makes no difference to what was asked of it. -/
theorem Going.before (h : c.Going n) : c.Stage n (c.before n) := by
  cases h.stage with
  | opening hn hphase hpath hcontacts hinbound houtbound =>
      exact .opening hn hphase hpath hcontacts hinbound houtbound
  | called hn hphase hcontacts hinbound houtbound =>
      exact .called hn hphase hcontacts hinbound houtbound
  | sending hphase hinbound hposts => exact .sending hphase hinbound hposts
  | hearing hawaits htold htimed hhears =>
      exact .hearing hawaits htold htimed hhears

theorem todo_of_begun (h : (c.notes n).handshake.phase ≠ .start) :
    c.todo n = (c.notes n).wire.outbound.burden + (c.notes n).wire.inbound.buffer.length := by
  rw [todo, if_neg h]

section Next

variable {h' : Handshake (Noted L)} {result : Option (Except CallError Unit)}

theorem next_of_step (h : c.Going n) {poll : Poll (Except CallError Unit)}
    (hstep : (c.before n).step (c.clock n) = (poll, h')) : c.notes (n + 1) = .after (poll, h') := by
  rw [notes_succ h.result, hstep]

theorem contacts_of_next (h : c.notes (n + 1) = ⟨h', result⟩) :
    c.contacts (n + 1) = h'.wire.link.contacts := by
  rw [contacts, h]
  rfl

theorem going_of_next (h : c.notes (n + 1) = ⟨h', none⟩) (hstage : c.Stage (n + 1) h') :
    c.Going (n + 1) := by
  refine ⟨by rw [h], ?_⟩
  rw [h]
  exact hstage

theorem todo_of_next (h : c.notes (n + 1) = ⟨h', result⟩) (hphase : h'.phase ≠ .start) :
    c.todo (n + 1) = h'.wire.outbound.burden + h'.wire.inbound.buffer.length := by
  rw [todo, h, if_neg hphase]
  rfl

end Next

/-- The request is put together. -/
theorem turn_of_opening (h : c.Going n) (hn : n = 0) (hphase : (c.before n).phase = .start)
    (hpath : (c.before n).path = c.path) (hcontacts : (c.before n).wire.link.contacts = [])
    (hinbound : (c.before n).wire.inbound = c.start.inbound)
    (houtbound : (c.before n).wire.outbound = c.start.outbound) : c.Turn n := by
  obtain ⟨h', hstep, hphase', hlink, hinbound', houtbound'⟩ : ∃ h',
      (c.before n).step (c.clock n) = (.again, h') ∧ h'.phase = .sending ∧
      h'.wire.link = (c.before n).wire.link ∧ h'.wire.inbound = (c.before n).wire.inbound ∧
      h'.wire.outbound = (c.before n).wire.outbound.carrying (requestOctets (c.before n).path) := by
    simp only [Handshake.step, hphase, Outbound.start, Sending.oversized, Handshake.log]
    exact ⟨_, rfl, rfl, rfl, rfl, rfl⟩
  have hnext := next_of_step h hstep
  have hbegun : h'.phase ≠ .start := by simp [hphase']
  rw [hpath, houtbound] at houtbound'
  refine .apart (going_of_next hnext ?_) ?_ ?_
  · exact .called (by rw [hn]) hphase' (hlink ▸ hcontacts) (hinbound'.trans hinbound) houtbound'
  · rw [contacts_of_next hnext, hlink]
    rfl
  · have hbefore : c.todo n =
        2 * (requestOctets c.path).length + 5 + (c.before n).wire.inbound.buffer.length := by
      rw [todo, if_pos (show (c.notes n).handshake.phase = .start from hphase)]
      rfl
    rw [todo_of_next hnext hbegun, hbefore, houtbound', hinbound', Outbound.burden_carrying,
      Outbound.unsent_of_empty c.fresh.buffer, List.length_nil]
    omega

/-- Sending begins, and its time. -/
theorem turn_of_called (h : c.Going n) (hn : n = 1) (hphase : (c.before n).phase = .sending)
    (hcontacts : (c.before n).wire.link.contacts = [])
    (hinbound : (c.before n).wire.inbound = c.start.inbound)
    (houtbound : (c.before n).wire.outbound = c.start.outbound.carrying (requestOctets c.path)) :
    c.Turn n := by
  obtain ⟨hreading, -, haborted, hbuffer, hwritten⟩ := c.fresh
  have hbegins : (c.before n).wire.outbound.step .near (c.clock n) (c.before n).wire.link =
      (.again, { c.start.outbound with
        writing := some ⟨[.put (requestOctets c.path), .flush],
          c.start.outbound.patience.map (c.clock n + ·), []⟩ }, (c.before n).wire.link) := by
    simp [houtbound, Outbound.step, Outbound.carrying, Sending.parts, haborted]
  have hless : Outbound.burden { c.start.outbound with
      writing := some ⟨[.put (requestOctets c.path), .flush],
        c.start.outbound.patience.map (c.clock n + ·), []⟩ } <
      (c.before n).wire.outbound.burden := by
    have hw : (c.before n).wire.outbound.writing =
        some { later := Sending.parts (.raw (requestOctets c.path)) } := by
      rw [houtbound]
      rfl
    have hstep := Outbound.step_cases .near (c.clock n) hw (c.before n).wire.link
    rw [hbegins] at hstep
    refine hstep.burden_lt (.inl ?_) hw
    rw [houtbound]
    exact hwritten
  have hstep : (c.before n).step (c.clock n) = (.again, { c.before n with
      wire.outbound := { c.start.outbound with
        writing := some ⟨[.put (requestOctets c.path), .flush],
          c.start.outbound.patience.map (c.clock n + ·), []⟩ } }) := by
    simp only [Handshake.step, hphase, hbegins]
  have hnext := next_of_step h hstep
  refine .apart (going_of_next hnext ?_) ?_ ?_
  · refine .sending hphase hinbound ⟨⟨rfl, rfl, rfl⟩, ?_, ?_⟩
    · rw [hcontacts]
      simp
    · rw [hcontacts, hn]
      exact .putting (List.nil_append _) hbuffer hwritten rfl (by simp)
  · rw [contacts_of_next hnext]
    rfl
  · have hbegun : (c.notes n).handshake.phase ≠ .start := by
      rw [show (c.notes n).handshake.phase = .sending from hphase]
      simp
    rw [todo_of_next hnext (by simp [hphase]), todo_of_begun hbegun]
    exact Nat.add_lt_add_right hless _

/-- A handshake that fails closes the connection, and reports the failure that it had
before, whatever comes of the closing. -/
theorem exists_fail {start : Outbound} (hidle : start.writing = none) (hbuffer : start.buffer = [])
    (hwritten : start.written = 0) (hupright : start.aborted = false) (error : CallError)
    {h : Handshake (Noted L)} (hsettings : start.Resembles h.wire.outbound) :
    ∃ h' closing, h.fail error = (.done (.error error), h') ∧ Closes closing ∧
      h'.wire.link.contacts = h.wire.link.contacts ++ closing ∧
      h'.wire.inbound = h.wire.inbound ∧ h'.wire.outbound = { start with aborted := true } := by
  obtain ⟨haborted, hlimit, hpatience⟩ := hsettings
  have hclosed : { h.wire.outbound with
      buffer := [], written := 0, aborted := true, writing := none } =
        { start with aborted := true } := by
    simp only [hlimit, hpatience, hidle, hbuffer, hwritten]
  have hfour (a b c d : Contact) : h.wire.link.contacts ++ [a] ++ [b] ++ [c] ++ [d] =
      h.wire.link.contacts ++ [a, b, c, d] := by
    simp only [List.append_assoc, List.cons_append, List.nil_append]
  simp only [Handshake.fail, Outbound.abort, haborted, hupright, Link.shut]
  rcases Link.shut .near h.wire.link.link with ⟨closing | _, link'⟩
  · exact ⟨_, _, rfl, ⟨.error closing, _, rfl, by simp, by simp, by simp⟩, hfour _ _ _ _, rfl,
      hclosed⟩
  · exact ⟨_, _, rfl, ⟨.ok (), _, rfl, by simp, by simp, by simp⟩, hfour _ _ _ _, rfl, hclosed⟩

theorem turn_of_fail (h : c.Going n) {h₁ : Handshake (Noted L)} {asked : List Contact}
    (hstep : (c.before n).step (c.clock n) = h₁.fail error)
    (hcontacts : h₁.wire.link.contacts = c.contacts n ++ asked)
    (hsettings : c.start.outbound.Resembles h₁.wire.outbound)
    (hcause : (c.notes (n + 1)).wire.inbound = h₁.wire.inbound → c.Cause n asked error) :
    c.Turn n := by
  obtain ⟨h', closing, hfail, hcloses, hcontacts', hinbound, houtbound⟩ :=
    exists_fail c.fresh.writing c.fresh.buffer c.fresh.written c.fresh.aborted error hsettings
  have hnext := next_of_step h (hstep.trans hfail)
  have hwire : (c.notes (n + 1)).wire = h'.wire := by
    rw [hnext]
    rfl
  refine .failed (hcause ?_) ?_ hcloses ?_ ?_
  · rw [hwire, hinbound]
  · rw [contacts, hwire, hcontacts', hcontacts]
  · rw [hnext]
    rfl
  · rw [hwire, houtbound]

/-- Where there is something to read in front of an answer, a handshake waits for a line. -/
theorem next_of_await {h₁ : Handshake (Noted L)} {phase : HandshakePhase} (h : c.Going n)
    (hstep : (c.before n).step (c.clock n) = h₁.awaitLine phase (c.clock n)) :
    c.notes (n + 1) =
      ⟨{ h₁ with phase, wire.inbound := h₁.wire.inbound.start .line (c.clock n) }, none⟩ :=
  next_of_step h hstep

/-- The handshake waits for a line in front of what is buffered. -/
theorem going_of_await {h₁ : Handshake (Noted L)} {phase : HandshakePhase}
    (hnext : c.notes (n + 1) =
      ⟨{ h₁ with phase, wire.inbound := h₁.wire.inbound.start .line (c.clock n) }, none⟩)
    (hphase : phase = .status ∨ phase = .headers)
    (htold : c.Told h₁.wire.link.contacts h₁.wire.outbound)
    (hbefore : (c.notes n).wire.inbound.reading = none ∨ ∃ result, c.reading n = .done result)
    (hsettings : h₁.wire.inbound = { c.start.inbound with buffer := h₁.wire.inbound.buffer })
    (hleads : LeadsOn phase h₁.wire.inbound.buffer
      (c.start.inbound.buffer ++ heardIn h₁.wire.link.contacts)) : c.Going (n + 1) := by
  have hbegun : (c.notes (n + 1)).wire.inbound = h₁.wire.inbound.start .line (c.clock n) := by
    rw [hnext]
    rfl
  exact going_of_next hnext (.hearing hphase htold (timed_begun hbegun hbefore)
    (Inbound.hears_start hsettings hleads (c.clock n)))

section Sending

variable (h : c.Going n) (hphase : (c.before n).phase = .sending)
  (hinbound : (c.before n).wire.inbound = c.start.inbound) {outbound : Outbound} {link : Noted L}

include h hphase hinbound

/-- Sending goes on, with these in the place of what there was. -/
theorem going_of_posts {poll : Poll (Except CallError Unit)}
    (hpoll : poll = .again ∨ poll = .blocked)
    (hstep : (c.before n).step (c.clock n) = (poll, (c.before n).wrote outbound link))
    (hposts : c.start.outbound.Posts (requestOctets c.path)
      (c.start.outbound.patience.map (c.clock 1 + ·)) link.contacts outbound) :
    c.Going (n + 1) ∧ c.contacts (n + 1) = link.contacts ∧
      c.todo (n + 1) + (c.before n).wire.outbound.burden = c.todo n + outbound.burden := by
  have hnext : c.notes (n + 1) = ⟨(c.before n).wrote outbound link, none⟩ := by
    rw [next_of_step h hstep]
    rcases hpoll with rfl | rfl
    · rfl
    · rfl
  have hbegun : ((c.before n).wrote outbound link).phase ≠ .start := by
    rw [show ((c.before n).wrote outbound link).phase = .sending from hphase]
    simp
  refine ⟨going_of_next hnext (.sending hphase hinbound hposts), contacts_of_next hnext, ?_⟩
  rw [todo_of_next hnext hbegun, todo_of_begun (show (c.notes n).handshake.phase ≠ .start from hbegun)]
  show outbound.burden + (c.before n).wire.inbound.buffer.length +
    (c.before n).wire.outbound.burden = (c.before n).wire.outbound.burden +
      (c.before n).wire.inbound.buffer.length + outbound.burden
  omega

/-- The request is out. -/
theorem turn_of_sent (hstep : (c.before n).step (c.clock n) =
      ((c.before n).wrote outbound (c.before n).wire.link).awaitLine .status (c.clock n))
    (hbusy : (c.before n).wire.outbound.writing.isSome)
    (houtgoing : ∀ contact ∈ (c.before n).wire.link.contacts, contact.IsOutgoing)
    (hsent : sentIn (c.before n).wire.link.contacts = requestOctets c.path)
    (hflushed : .flush (.ok ()) ∈ (c.before n).wire.link.contacts)
    (houtbound : outbound = c.start.outbound) : c.Turn n := by
  have hnext := next_of_await h hstep
  have hidle : (c.notes n).wire.inbound.reading = none := by
    rw [show (c.notes n).wire.inbound = c.start.inbound from hinbound]
    exact c.fresh.reading
  have htold : c.Told (c.before n).wire.link.contacts outbound := by
    refine ⟨hsent, hflushed, fun contact hmem hclosing => ?_, houtbound⟩
    cases houtgoing contact hmem <;> cases hclosing
  refine .apart (going_of_await hnext (.inl rfl) htold (.inl hidle) ?_ ?_) ?_ ?_
  · show (c.before n).wire.inbound = { c.start.inbound with buffer := (c.before n).wire.inbound.buffer }
    rw [hinbound]
  · show LeadsOn .status (c.before n).wire.inbound.buffer
      (c.start.inbound.buffer ++ heardIn (c.before n).wire.link.contacts)
    rw [hinbound, heardIn_outgoing houtgoing, List.append_nil]
    exact .refl (by simp) _
  · rw [contacts_of_next hnext]
    rfl
  · have hbegun : (c.notes n).handshake.phase ≠ .start := by
      rw [show (c.notes n).handshake.phase = .sending from hphase]
      simp
    obtain ⟨w, hw⟩ := Option.isSome_iff_exists.mp hbusy
    have hburden : 0 < (c.notes n).wire.outbound.burden := by
      rw [Outbound.burden_of_some (show (c.notes n).wire.outbound.writing = some w from hw)]
      exact Nat.succ_pos _
    rw [todo_of_next hnext (by simp), todo_of_begun hbegun]
    refine Nat.add_lt_add_right ?_ _
    show outbound.burden < _
    rwa [houtbound, Outbound.burden_of_none c.fresh.writing]

/-- Sending goes on, or comes to its end. -/
theorem turn_of_sending (hposts : c.start.outbound.Posts (requestOctets c.path)
      (c.start.outbound.patience.map (c.clock 1 + ·)) (c.before n).wire.link.contacts
      (c.before n).wire.outbound) : c.Turn n := by
  have hattempt := hposts.step (c.clock n)
  have hstep := Handshake.step_sending hphase (c.clock n)
  have hbusy := hposts.posting.busy
  have houtgoing := hposts.outgoing
  generalize (c.before n).wire.outbound.step .near (c.clock n) (c.before n).wire.link = attempt
    at hattempt hstep
  obtain ⟨poll, outbound, link⟩ := attempt
  dsimp only at hattempt hstep
  cases hattempt with
  | apart hposts hless =>
      obtain ⟨hgoing, hcontacts, htodo⟩ := going_of_posts h hphase hinbound (.inl rfl) hstep hposts
      exact .apart hgoing hcontacts (by omega)
  | gains hopen hcontacts hgains hposts hless =>
      obtain ⟨hgoing, hasked, htodo⟩ := going_of_posts h hphase hinbound (.inl rfl) hstep hposts
      exact .gains hgoing (fun hflushed => absurd hflushed hopen) (hasked.trans hcontacts) hgains
        (by omega)
  | @waits offered _ hopen hcontacts hoffered hearly hposts =>
      obtain ⟨hgoing, hasked, htodo⟩ := going_of_posts h hphase hinbound (.inr rfl) hstep hposts
      refine .waits hgoing (fun hflushed => absurd hflushed hopen)
        ⟨hasked.trans hcontacts, .notTaken offered, ?_, ?_⟩ (by omega)
      · rintro _ ⟨⟩
        rename_i patience hpatience hdue
        refine absurd (hearly (c.clock 1 + patience) ?_) (Nat.not_lt.mpr hdue)
        rw [hpatience]
        rfl
      · rintro _ ⟨⟩
        exact hoffered
  | sent hsent hflushed hsettings hidle hbuffer hwritten =>
      refine turn_of_sent h hphase hinbound hstep hbusy houtgoing hsent hflushed ?_
      exact hsettings.eq hidle hbuffer hwritten c.fresh.writing c.fresh.buffer c.fresh.written
  | broken hopen hcontacts houtgoing hbreaks hsettings =>
      refine turn_of_fail h hstep hcontacts hsettings fun hsame => ?_
      exact .faulty (fun hflushed => absurd hflushed hopen) (.broken hbreaks)
        (.inr ⟨houtgoing, hsame.trans hinbound⟩)
  | late hopen hcontacts hdeadline hdue hsettings =>
      refine turn_of_fail h hstep hcontacts hsettings fun hsame => ?_
      obtain ⟨patience, hpatience, rfl⟩ := Option.map_eq_some_iff.mp hdeadline
      exact .faulty (fun hflushed => absurd hflushed hopen) (.late (.send hpatience hdue))
        (.inr ⟨.write _ _, hsame.trans hinbound⟩)

end Sending

section Hearing

variable {deadline : Option Nat} {inbound : Inbound} {link : Noted L} {asked : List Contact}

omit [Link L] in
/-- Attempts to read are no closing, and nothing is sent with them. -/
theorem Told.read {contacts more : List Contact} {outbound : Outbound}
    (h : c.Told contacts outbound) (hmore : more = contacts ++ asked)
    (hasked : ∀ contact ∈ asked, ∃ arrival, contact = .read arrival) : c.Told more outbound := by
  subst hmore
  refine ⟨?_, List.mem_append_left _ h.flushed, ?_, h.outbound⟩
  · have hnone : sentIn asked = [] := by
      refine List.flatMap_eq_nil_iff.mpr fun contact hmem => ?_
      obtain ⟨arrival, rfl⟩ := hasked contact hmem
      rfl
    rw [sentIn_append, hnone, List.append_nil, h.sent]
  · refine List.forall_mem_append.mpr ⟨h.talk, fun contact hmem hclosing => ?_⟩
    obtain ⟨arrival, rfl⟩ := hasked contact hmem
    cases hclosing

omit [Link L] in
theorem Told.resembles {contacts : List Contact} {outbound : Outbound}
    (h : c.Told contacts outbound) : c.start.outbound.Resembles outbound := by
  rw [h.outbound]
  exact ⟨rfl, rfl, rfl⟩

omit [Link L] in
theorem phase_of_awaits {h : Handshake L} (hawaits : h.Awaits) : h.phase ≠ .start := by
  rcases hawaits with hphase | hphase <;> simp [hphase]

/-- With the request out, what is left to do is what is buffered. -/
theorem todo_of_told (hphase : (c.notes n).handshake.phase ≠ .start)
    (htold : c.Told (c.notes n).wire.link.contacts (c.notes n).wire.outbound) :
    c.todo n = (c.notes n).wire.inbound.buffer.length := by
  rw [todo_of_begun hphase, htold.outbound, Outbound.burden_of_none c.fresh.writing, Nat.zero_add]

variable (h : c.Going n)
  (htold : c.Told (c.before n).wire.link.contacts (c.before n).wire.outbound)
  (hcontacts : link.contacts = c.contacts n ++ asked)
  (hasked : ∀ contact ∈ asked, ∃ arrival, contact = .read arrival)

include h htold hcontacts hasked

/-- The line goes on. -/
theorem going_of_hears (hawaits : (c.before n).Awaits) (htimed : c.Timed n deadline)
    {poll : Poll (Except CallError Unit)} (hpoll : poll = .again ∨ poll = .blocked)
    (hstep : (c.before n).step (c.clock n) = (poll, (c.before n).read inbound link))
    (hbusy : (c.before n).wire.inbound.reading.isSome)
    (hunfinished : ∀ result, c.reading n ≠ .done result)
    (hhears : c.start.inbound.Hears (c.before n).phase deadline link.contacts inbound) :
    c.Going (n + 1) ∧ c.contacts (n + 1) = c.contacts n ++ asked ∧
      c.todo (n + 1) = inbound.buffer.length := by
  have hnext : c.notes (n + 1) = ⟨(c.before n).read inbound link, none⟩ := by
    rw [next_of_step h hstep]
    rcases hpoll with rfl | rfl
    · rfl
    · rfl
  have hinbound : (c.notes (n + 1)).wire.inbound = inbound := by
    rw [hnext]
    rfl
  obtain ⟨taken, r, hreading, hdeadline, -⟩ := hhears.line
  have htimed' : c.Timed (n + 1) deadline := htimed.still hbusy hunfinished
    (hinbound ▸ hreading) hdeadline (hinbound ▸ hhears.patience)
  have htold' := htold.read hcontacts hasked
  refine ⟨going_of_next hnext (.hearing hawaits htold' htimed' hhears), ?_, ?_⟩
  · rw [contacts_of_next hnext]
    exact hcontacts
  · rw [todo_of_told, hinbound]
    · rw [hnext]
      exact phase_of_awaits hawaits
    · rw [hnext]
      exact htold'

/-- Another line is to be read, behind the one that came. -/
theorem going_of_line {result : Except LinkError Received} (hdone : c.reading n = .done result)
    (hstep : (c.before n).step (c.clock n) =
      ((c.before n).read inbound link).awaitLine .headers (c.clock n))
    (hsettings : inbound = { c.start.inbound with buffer := inbound.buffer })
    (hleads : LeadsOn .headers inbound.buffer (c.start.inbound.buffer ++ heardIn link.contacts)) :
    c.Going (n + 1) ∧ c.contacts (n + 1) = c.contacts n ++ asked ∧
      c.todo (n + 1) = inbound.buffer.length := by
  have hnext := next_of_await h hstep
  have htold' := htold.read hcontacts hasked
  refine ⟨going_of_await hnext (.inr rfl) htold' (.inr ⟨_, hdone⟩) hsettings hleads, ?_, ?_⟩
  · rw [contacts_of_next hnext]
    exact hcontacts
  · rw [todo_of_told]
    · rw [hnext]
      rfl
    · rw [hnext]
      simp
    · rw [hnext]
      exact htold'

end Hearing

section Got

variable {octets : Octets} {inbound : Inbound} {link : Noted L}

/-- What a line goes on with was there, or was fetched. -/
theorem fetches_of_got
    (hgot : c.start.inbound.Got (c.before n).wire.link (c.before n).wire.inbound octets link) :
    ∃ asked, link.contacts = c.contacts n ++ asked ∧ c.Fetches n asked ∧
      ∀ contact ∈ asked, ∃ arrival, contact = .read arrival := by
  cases hgot with
  | buffered => exact ⟨[], (List.append_nil _).symm, .nothing, by simp⟩
  | @arrived octets _ hopen _ hcontacts =>
      exact ⟨_, hcontacts, .octets (fun _ => hopen) octets, by simp⟩

/-- Octets are consumed that were buffered, or octets come. -/
theorem turn_of_got (inbound : Inbound)
    (hgot : c.start.inbound.Got (c.before n).wire.link (c.before n).wire.inbound octets link)
    (hless : octets ≠ [] → inbound.buffer.length < octets.length)
    (hgoing : ∀ asked, link.contacts = c.contacts n ++ asked →
      (∀ contact ∈ asked, ∃ arrival, contact = .read arrival) →
      c.Going (n + 1) ∧ c.contacts (n + 1) = c.contacts n ++ asked ∧
        c.todo (n + 1) = inbound.buffer.length)
    (htodo : c.todo n = (c.before n).wire.inbound.buffer.length) : c.Turn n := by
  cases hgot with
  | buffered hbuffer =>
      obtain ⟨hgoing', hcontacts, htodo'⟩ := hgoing [] (List.append_nil _).symm (by simp)
      rw [List.append_nil] at hcontacts
      have hfewer := hless hbuffer
      exact .apart hgoing' hcontacts (by omega)
  | arrived hopen _ hlink =>
      obtain ⟨hgoing', hcontacts, -⟩ := hgoing _ hlink (by simp)
      exact .gets hgoing' (fun _ => hopen) hcontacts

/-- An empty line behind the headers ends the answer. -/
theorem turn_of_blank (h : c.Going n)
    (htold : c.Told (c.before n).wire.link.contacts (c.before n).wire.outbound)
    (hphase : (c.before n).phase = .headers) {asked : List Contact}
    (hlink : link.contacts = c.contacts n ++ asked) (hfetches : c.Fetches n asked)
    (hstep : (c.before n).step (c.clock n) =
      ((c.before n).read inbound link).takeLine (c.clock n) "")
    (hsettings : inbound = { c.start.inbound with buffer := inbound.buffer })
    (hdecides : Decides (c.start.inbound.buffer ++ heardIn link.contacts) (.ok ())
      inbound.buffer) : c.Turn n := by
  have hheaders : ((c.before n).read inbound link).phase ≠ .status := by
    rw [show ((c.before n).read inbound link).phase = (c.before n).phase from rfl, hphase]
    decide
  rw [Handshake.takeLine, if_neg hheaders] at hstep
  have hnext := next_of_step h hstep
  have hinbound : (c.notes (n + 1)).wire.inbound = inbound := by
    rw [hnext]
    rfl
  have hcontacts := contacts_of_next hnext
  refine .agreed hfetches htold.flushed (hcontacts.trans hlink) ?_ ?_ (hinbound ▸ hsettings) ?_
  · rw [hnext]
    rfl
  · rw [hinbound, heard, hcontacts]
    exact hdecides
  · rw [hnext]
    exact htold.outbound

/-- A line came: the answer goes on behind it, or is over. -/
theorem turn_of_line (h : c.Going n) (hawaits : (c.before n).Awaits)
    (htold : c.Told (c.before n).wire.link.contacts (c.before n).wire.outbound) {text : String}
    (hdone : c.reading n = .done (.ok (.line text)))
    (hstep : (c.before n).step (c.clock n) =
      ((c.before n).read inbound link).takeLine (c.clock n) text) {seen : Octets}
    (hgot : c.start.inbound.Got (c.before n).wire.link (c.before n).wire.inbound octets link)
    (hsettings : inbound = { c.start.inbound with buffer := inbound.buffer })
    (hless : inbound.buffer.length < octets.length)
    (hline : ∀ more, ParsesLine (seen ++ more) (.ok (.line text)) (inbound.buffer ++ more))
    (hleads : LeadsOn (c.before n).phase seen (c.start.inbound.buffer ++ heardIn link.contacts)) :
    c.Turn n := by
  have htodo : c.todo n = (c.before n).wire.inbound.buffer.length :=
    todo_of_told (phase_of_awaits hawaits) htold
  obtain ⟨asked, hlink, hfetches, hreads⟩ := fetches_of_got hgot
  have hheard : c.heard n ++ heardIn asked = c.start.inbound.buffer ++ heardIn link.contacts := by
    rw [hlink, heardIn_append, ← List.append_assoc]
    rfl
  have hsame : ((c.before n).read inbound link).phase = (c.before n).phase := rfl
  have hmore (hstep : (c.before n).step (c.clock n) =
      ((c.before n).read inbound link).awaitLine .headers (c.clock n))
      (hleads : LeadsOn .headers inbound.buffer (c.start.inbound.buffer ++ heardIn link.contacts)) :
      c.Turn n :=
    turn_of_got inbound hgot (fun _ => hless) (fun asked hlink hreads =>
      going_of_line h htold hlink hreads hdone hstep hsettings hleads) htodo
  rcases hawaits with hphase | hphase
  · rw [hphase] at hleads
    rw [Handshake.takeLine, if_pos (hsame.trans hphase)] at hstep
    cases hjudge : Tunnel.judge text with
    | ok =>
        rw [hjudge] at hstep
        refine hmore hstep fun more verdict rest hheaders => hleads more verdict rest ?_
        exact Answers.agreed (hline more) (Tunnel.judge_eq_iff.mp hjudge) hheaders
    | error error =>
        rw [hjudge] at hstep
        have hdecides : Decides (c.heard n ++ heardIn asked) (.error error) inbound.buffer := by
          rw [hheard]
          exact fun more => hleads more _ _
            (Answers.refused (hline more) (Tunnel.judge_eq_iff.mp hjudge))
        exact turn_of_fail h hstep hlink htold.resembles fun _ =>
          .refused hfetches htold.flushed hdecides
  · rw [hphase] at hleads
    by_cases hblank : text = ""
    · subst hblank
      exact turn_of_blank h htold hphase hlink hfetches hstep hsettings fun more =>
        hleads more _ _ (Headers.finished (hline more))
    · rw [Handshake.takeLine, if_neg (by rw [hsame, hphase]; decide)] at hstep
      rw [if_neg (by simpa using hblank)] at hstep
      refine hmore hstep fun more verdict rest hheaders => hleads more verdict rest ?_
      exact Headers.header (hline more) hblank hheaders

end Got

/-- The answer goes on, or comes to its end. -/
theorem turn_of_hearing {deadline : Option Nat} (h : c.Going n) (hawaits : (c.before n).Awaits)
    (htold : c.Told (c.before n).wire.link.contacts (c.before n).wire.outbound)
    (htimed : c.Timed n deadline)
    (hhears : c.start.inbound.Hears (c.before n).phase deadline (c.before n).wire.link.contacts
      (c.before n).wire.inbound) : c.Turn n := by
  have hattempt := hhears.step c.fresh.reading (c.clock n)
  have hstep := Handshake.step_awaits hawaits (c.clock n)
  have htodo : c.todo n = (c.before n).wire.inbound.buffer.length :=
    todo_of_told (phase_of_awaits hawaits) htold
  have hbusy : (c.before n).wire.inbound.reading.isSome := by
    obtain ⟨taken, r, hreading, -⟩ := hhears.line
    rw [hreading]
    rfl
  have hreading : c.reading n = ((c.before n).wire.inbound.step .near (c.clock n)
    (c.before n).wire.link).1 := rfl
  generalize (c.before n).wire.inbound.step .near (c.clock n) (c.before n).wire.link = attempt
    at hattempt hstep hreading
  obtain ⟨poll, inbound, link⟩ := attempt
  dsimp only at hattempt hstep hreading
  cases hattempt with
  | goes hgot hhears' hbuffer =>
      refine turn_of_got inbound hgot (fun hsome => ?_) (fun asked hlink hreads => ?_) htodo
      · rw [hbuffer]
        exact List.length_pos_iff.mpr hsome
      · exact going_of_hears h htold hlink hreads hawaits htimed (.inl rfl) hstep hbusy
          (by simp [hreading]) hhears'
  | line hgot hsettings hless hline hleads =>
      exact turn_of_line h hawaits htold hreading hstep hgot hsettings hless hline hleads
  | broken hgot hdecides =>
      obtain ⟨asked, hlink, hfetches, -⟩ := fetches_of_got hgot
      refine turn_of_fail h hstep hlink htold.resembles fun _ => ?_
      rw [hlink, heardIn_append, ← List.append_assoc] at hdecides
      exact .refused hfetches htold.flushed hdecides
  | ended hopen hlink hanswers =>
      exact turn_of_fail h hstep hlink htold.resembles fun _ =>
        .faulty (fun _ => hopen) (.ended hanswers) (.inl htold.flushed)
  | failed hopen hlink hkind =>
      exact turn_of_fail h hstep hlink htold.resembles fun _ =>
        .faulty (fun _ => hopen) (.broken (.read _ hkind)) (.inl htold.flushed)
  | late hopen hlink hdeadline hdue =>
      subst hdeadline
      exact turn_of_fail h hstep hlink htold.resembles fun _ =>
        .faulty (fun _ => hopen) (.late (htimed.late hdue)) (.inl htold.flushed)
  | @waits contact _ _ hpoll hopen hlink hwaits hread hearly hhears' =>
      obtain ⟨arrival, rfl⟩ := hread
      have hunfinished (result : Except LinkError Received) : c.reading n ≠ .done result := by
        rw [hreading]
        rcases hpoll with rfl | rfl <;> simp
      obtain ⟨poll', hpoll', hstep'⟩ : ∃ poll', (poll' = .again ∨ poll' = .blocked) ∧
          (c.before n).step (c.clock n) = (poll', (c.before n).read (c.before n).wire.inbound link) := by
        rcases hpoll with rfl | rfl
        · exact ⟨_, .inl rfl, hstep⟩
        · exact ⟨_, .inr rfl, hstep⟩
      obtain ⟨hgoing, hcontacts, htodo'⟩ := going_of_hears h htold hlink (by simp) hawaits htimed
        hpoll' hstep' hbusy hunfinished hhears'
      refine .waits hgoing (fun _ => hopen) ⟨hcontacts, hwaits, ?_, nofun⟩ (htodo'.trans htodo.symm)
      rintro operation hlate
      cases hwaits with
      | noData => exact htimed.not_late (hearly rfl) operation hlate
      | interrupted => cases hlate

/-- Every attempt of a handshake that goes on comes to one of these. -/
theorem Going.turn (h : c.Going n) : c.Turn n := by
  cases h.before with
  | opening hn hphase hpath hcontacts hinbound houtbound =>
      exact turn_of_opening h hn hphase hpath hcontacts hinbound houtbound
  | called hn hphase hcontacts hinbound houtbound =>
      exact turn_of_called h hn hphase hcontacts hinbound houtbound
  | sending hphase hinbound hposts => exact turn_of_sending h hphase hinbound hposts
  | hearing hawaits htold htimed hhears => exact turn_of_hearing h hawaits htold htimed hhears

end Course

end Switchboard
