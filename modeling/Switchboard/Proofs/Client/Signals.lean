import Switchboard.Client.Basic

/-!
# Who was told what

A finished call is signalled once, at the moment it is put into its mailbox,
and the log keeps every signal with the call as it was put there. What became
of it in the mailbox is another matter. For each operation on a client this
module says what it does to the signals and to the table of waiting calls; the
rest of the theory only uses these laws and never opens the operations again.
-/

namespace Switchboard

/-- The mailbox and the finished call, if the event is a signal. -/
def Event.signal? : Event → Option (Nat × Call)
  | .finished place call _ => some (place, call)
  | _ => none

/-- What is put where when a call finishes with an outcome. -/
def Pending.signal (p : Pending) (outcome : Except CallError Wire.Value) : Nat × Call :=
  (p.mailbox, p.call.finish outcome)

/-- A call that has no outcome yet. -/
def Call.IsOpen (c : Call) : Prop := c.reply = none ∧ c.error = none

@[simp] theorem Call.seq_finish (c : Call) (outcome : Except CallError Wire.Value) :
    (c.finish outcome).seq = c.seq := by
  cases outcome <;> rfl

@[simp] theorem Pending.seq_signal (p : Pending) (outcome : Except CallError Wire.Value) :
    (p.signal outcome).2.seq = p.call.seq := by
  simp [Pending.signal]

/-- A finished call has a reply or an error and not both. -/
theorem Call.IsOpen.finish {c : Call} (h : c.IsOpen) (outcome : Except CallError Wire.Value) :
    (c.finish outcome).reply.isSome = !(c.finish outcome).error.isSome := by
  obtain ⟨hreply, herror⟩ := h
  cases outcome <;> simp [Call.finish, hreply, herror]

namespace Client

/-- Everything that was signalled, oldest first. -/
def signals (c : Client) : List (Nat × Call) := c.events.filterMap Event.signal?

/-- The signals of the calls with a number, or of those without one. -/
def signalsOf (seq : Option UInt64) (c : Client) : List (Nat × Call) :=
  c.signals.filter (·.2.seq = seq)

/-- The signals of all calls with a number. -/
def numberedSignals (c : Client) : List (Nat × Call) := c.signals.filter (·.2.seq.isSome)

/-- When the signals finish these calls, those with one number finish the calls
with that number. -/
theorem signalsOf_of_numbered {told : List (Pending × Except CallError Wire.Value)} {c : Client}
    (h : c.numberedSignals = told.map fun t => t.1.signal t.2) (seq : UInt64) :
    c.signalsOf (some seq) =
      (told.filter (·.1.call.seq = some seq)).map fun t => t.1.signal t.2 := by
  have hsplit : c.signalsOf (some seq) = c.numberedSignals.filter (·.2.seq = some seq) := by
    rw [signalsOf, numberedSignals, List.filter_filter]
    refine List.filter_congr fun signal _ => ?_
    by_cases hseq : signal.2.seq = some seq <;> simp [hseq]
  rw [hsplit, h, List.filter_map]
  simp [Function.comp_def]

/-- Two clients that differ at most in what is in the mailboxes, and in new
mailboxes. -/
structure Alike (c c' : Client) : Prop where
  table : c'.table = c.table
  nextSeq : c'.nextSeq = c.nextSeq
  shutdown : c'.shutdown = c.shutdown
  closing : c'.closing = c.closing
  signals : c'.signals = c.signals
  mailboxes : c.mailboxes.length ≤ c'.mailboxes.length

namespace Alike

@[refl] theorem refl (c : Client) : Alike c c := ⟨rfl, rfl, rfl, rfl, rfl, Nat.le_refl _⟩

theorem isOver {c c' : Client} (h : Alike c c') : c'.isOver = c.isOver := by
  rw [Client.isOver, Client.isOver, h.shutdown, h.closing]

theorem addMailbox (m : Mailbox) (c : Client) : Alike c (c.addMailbox m).2 :=
  ⟨rfl, rfl, rfl, rfl, rfl, by simp [Client.addMailbox]⟩

theorem updateMailbox (place : Nat) (f : Mailbox → Mailbox) (c : Client) :
    Alike c (c.updateMailbox place f) :=
  ⟨rfl, rfl, rfl, rfl, rfl, by simp [Client.updateMailbox]⟩

theorem completion {capacity place : Nat} {c c' : Client}
    (h : c.completion capacity = .ok (place, c')) : Alike c c' := by
  unfold Client.completion at h
  split at h
  · cases h
  · cases h
    exact addMailbox _ c

theorem takeCall {place : Nat} {call : Call} {c c' : Client}
    (h : c.takeCall place = some (call, c')) : Alike c c' := by
  unfold Client.takeCall at h
  split at h
  · cases h
  · obtain ⟨⟨_, m⟩, _, heq⟩ := Option.map_eq_some_iff.mp h
    cases heq
    exact ⟨rfl, rfl, rfl, rfl, rfl, by simp⟩

end Alike

/-! ## Reports that are no signals -/

@[simp] theorem table_log (e : Event) (c : Client) : (c.log e).table = c.table := rfl

@[simp] theorem nextSeq_log (e : Event) (c : Client) : (c.log e).nextSeq = c.nextSeq := rfl

@[simp] theorem shutdown_log (e : Event) (c : Client) : (c.log e).shutdown = c.shutdown := rfl

@[simp] theorem closing_log (e : Event) (c : Client) : (c.log e).closing = c.closing := rfl

@[simp] theorem mailboxes_log (e : Event) (c : Client) : (c.log e).mailboxes = c.mailboxes := rfl

@[simp] theorem signals_log (e : Event) (c : Client) :
    (c.log e).signals = c.signals ++ e.signal?.toList := by
  cases h : e.signal? <;> simp [log, signals, h]

theorem Alike.log {e : Event} (h : e.signal? = none) (c : Client) : Alike c (c.log e) :=
  ⟨rfl, rfl, rfl, rfl, by simp [h], Nat.le_refl _⟩

/-! ## Finishing a call -/

section Finish

variable (p : Pending) (outcome : Except CallError Wire.Value) (c : Client)

/-- Finishing a call leaves all but the mailboxes' contents and the log as it
was. -/
@[simp] theorem frame_finish :
    (c.finish p outcome).table = c.table ∧ (c.finish p outcome).nextSeq = c.nextSeq ∧
      (c.finish p outcome).shutdown = c.shutdown ∧ (c.finish p outcome).closing = c.closing ∧
      (c.finish p outcome).mailboxes.length = c.mailboxes.length := by
  unfold finish
  split
  · exact ⟨rfl, rfl, rfl, rfl, rfl⟩
  · dsimp only
    split <;> exact ⟨rfl, rfl, rfl, rfl, by simp⟩

/-- A call whose mailbox exists is signalled exactly once when it finishes. -/
theorem signals_finish {p : Pending} {c : Client} (h : p.mailbox < c.mailboxes.length) :
    (c.finish p outcome).signals = c.signals ++ [p.signal outcome] := by
  unfold finish
  rw [List.getElem?_eq_getElem h]
  dsimp only
  split <;> simp [signals, log, Event.signal?, Pending.signal]

end Finish

/-! ## Registering -/

/-- A call made when the client is over is told so at once. -/
theorem issue_over {c : Client} (h : c.isOver = true) (call : Call) (shape : Wire.Shape)
    (mailbox : Nat) :
    (c.issue call shape mailbox).2 =
      (c.updateMailbox mailbox (·.addHandle)).finish ⟨call, shape, mailbox⟩ (.error .shutdown) := by
  have hover : (c.updateMailbox mailbox (·.addHandle)).isOver = true := h
  simp [issue, hover]

/-- Any other call waits in the table under the next number. -/
theorem issue_open {c : Client} (h : c.isOver = false) (call : Call) (shape : Wire.Shape)
    (mailbox : Nat) :
    (c.issue call shape mailbox).2 =
      { c.updateMailbox mailbox (·.addHandle) with
        nextSeq := c.nextSeq + 1
        table := c.table ++
          [(c.nextSeq, ⟨{ call with seq := some c.nextSeq }, shape, mailbox⟩)] } := by
  have hopen : (c.updateMailbox mailbox (·.addHandle)).isOver = false := h
  simp [issue, hopen]
  exact ⟨rfl, rfl⟩

/-- A request is written for exactly the calls that are registered. -/
theorem issue_request (c : Client) (call : Call) (shape : Wire.Shape) (mailbox : Nat) :
    (c.issue call shape mailbox).1 =
      if c.isOver then none else some ⟨call.method, c.nextSeq⟩ := by
  cases h : c.isOver with
  | true =>
      have hover : (c.updateMailbox mailbox (·.addHandle)).isOver = true := h
      simp [issue, hover]
  | false =>
      have hopen : (c.updateMailbox mailbox (·.addHandle)).isOver = false := h
      simp [issue, hopen]
      rfl

theorem length_issue (c : Client) (call : Call) (shape : Wire.Shape) (mailbox : Nat) :
    (c.issue call shape mailbox).2.mailboxes.length = c.mailboxes.length := by
  cases hover : c.isOver with
  | true => simp [issue_over hover, updateMailbox]
  | false => simp [issue_open hover, updateMailbox]

/-! ## Taking out -/

theorem remove_eq_some_iff {seq : UInt64} {p : Pending} {c c' : Client} :
    c.remove seq = some (p, c') ↔
      c.table.lookup seq = some p ∧ c' = { c with table := c.table.filter (·.1 != seq) } := by
  unfold remove
  constructor
  · intro h
    obtain ⟨_, hp, heq⟩ := Option.map_eq_some_iff.mp h
    cases heq
    exact ⟨hp, rfl⟩
  · rintro ⟨hp, rfl⟩
    simp [hp]

theorem remove_eq_none_iff {seq : UInt64} {c : Client} :
    c.remove seq = none ↔ c.table.lookup seq = none := by
  simp [remove]

/-- Where nobody waits for the number nothing happens, and otherwise who waits is told. -/
theorem writeFailed_cases (seq : UInt64) (error : CallError) (c : Client) :
    c.table.lookup seq = none ∧ c.writeFailed seq error = c ∨
      ∃ p, c.table.lookup seq = some p ∧ c.writeFailed seq error =
        ({ c with table := c.table.filter (·.1 != seq) } : Client).finish p (.error error) := by
  unfold writeFailed
  cases hlookup : c.table.lookup seq with
  | none =>
      rw [remove_eq_none_iff.mpr hlookup]
      exact .inl ⟨rfl, rfl⟩
  | some p =>
      rw [remove_eq_some_iff.mpr ⟨hlookup, rfl⟩]
      exact .inr ⟨p, rfl, rfl⟩

/-- Whoever waits for the number is taken out of the table, and nothing else changes but
the mailboxes' contents and the log. -/
@[simp] theorem frame_writeFailed (seq : UInt64) (error : CallError) (c : Client) :
    (c.writeFailed seq error).table = c.table.filter (·.1 != seq) ∧
      (c.writeFailed seq error).nextSeq = c.nextSeq ∧
      (c.writeFailed seq error).shutdown = c.shutdown ∧
      (c.writeFailed seq error).closing = c.closing ∧
      (c.writeFailed seq error).mailboxes.length = c.mailboxes.length := by
  rcases c.writeFailed_cases seq error with ⟨hlookup, heq⟩ | ⟨p, -, heq⟩
  · have hnone := List.lookup_eq_none_iff.mp hlookup
    rw [heq, List.filter_eq_self.mpr fun entry hentry => ?_]
    · exact ⟨rfl, rfl, rfl, rfl, rfl⟩
    · rw [bne_comm]
      exact hnone entry hentry
  · rw [heq]
    exact frame_finish p (.error error) _

/-! ## The end -/

/-- Every entry is finished with the same failure. -/
def drain (told : CallError) (entries : List (UInt64 × Pending)) (c : Client) : Client :=
  entries.foldl (fun c entry => c.finish entry.2 (.error told)) c

@[simp] theorem frame_drain (told : CallError) (entries : List (UInt64 × Pending))
    (c : Client) :
    (c.drain told entries).table = c.table ∧ (c.drain told entries).nextSeq = c.nextSeq ∧
      (c.drain told entries).shutdown = c.shutdown ∧
      (c.drain told entries).closing = c.closing ∧
      (c.drain told entries).mailboxes.length = c.mailboxes.length := by
  induction entries generalizing c with
  | nil => exact ⟨rfl, rfl, rfl, rfl, rfl⟩
  | cons entry entries ih => simpa [drain] using ih (c.finish entry.2 (.error told))

/-- Draining tells every entry once. -/
theorem signals_drain (told : CallError) {entries : List (UInt64 × Pending)} {c : Client}
    (h : ∀ entry ∈ entries, entry.2.mailbox < c.mailboxes.length) :
    (c.drain told entries).signals =
      c.signals ++ entries.map fun entry => entry.2.signal (.error told) := by
  induction entries generalizing c with
  | nil => simp [drain]
  | cons entry entries ih =>
      have hfirst := signals_finish (.error told) (h entry List.mem_cons_self)
      have hrest := ih (c := c.finish entry.2 (.error told)) fun e he => by
        simpa using h e (List.mem_cons_of_mem _ he)
      simpa [drain, hfirst] using hrest

/-- Reading ends: the table is emptied, and a report may follow. -/
theorem stop_eq (error : CallError) (c : Client) :
    c.stop error =
      (if isExpected c.closing error then id else log (.protocolError (verdict c.closing error)))
        ({ c with shutdown := true, table := [] }.drain (verdict c.closing error) c.table) := by
  unfold stop drain
  split <;> rfl

section Stop

variable (error : CallError) (c : Client)

@[simp] theorem frame_stop :
    (c.stop error).table = [] ∧ (c.stop error).nextSeq = c.nextSeq ∧
      (c.stop error).shutdown = true ∧ (c.stop error).closing = c.closing ∧
      (c.stop error).mailboxes.length = c.mailboxes.length := by
  rw [stop_eq]
  split <;> simp

/-- At the end every call that waits is told once. -/
theorem signals_stop {c : Client}
    (h : ∀ entry ∈ c.table, entry.2.mailbox < c.mailboxes.length) :
    (c.stop error).signals = c.signals ++
      c.table.map fun entry => entry.2.signal (.error (verdict c.closing error)) := by
  have hdrain := signals_drain (verdict c.closing error)
    (c := { c with shutdown := true, table := [] }) h
  have hsame : ({ c with shutdown := true, table := [] } : Client).signals = c.signals := rfl
  rw [hsame] at hdrain
  rw [stop_eq]
  split <;> simp [hdrain, Event.signal?]

end Stop

end Client

end Switchboard
