import Switchboard.Proofs.Client.WriteLock

/-!
# What closing leaves behind

When the owner has closed and nothing moves any more, no writer is left and the
lock is free, whatever stood in the queue and whether or not the other side
accepts anything. Whether the calls were all told depends on the receiver
alone. The wait for a header is left when the owner closes, but not the reading
of what follows a header: if the other side falls silent there, the receiver
waits on, and with it every call in the table.
-/

namespace Switchboard

open Session (Deed)

/-- The header of a response was read, and what follows it was not yet. -/
def Receiver.InResponse : Receiver → Prop
  | .body _ | .unknown | .errorBody .. => True
  | .header | .ended => False

namespace Session

variable {ω κ : Type} [Codec κ] [Surroundings ω κ]

/-! ## The end of reading -/

/-- Reading is over exactly when the client is shut down, and then nobody waits
in the table. -/
structure IsSettled (c : Client) (r : Receiver) : Prop where
  ended : r = .ended ↔ c.shutdown = true
  empty : c.shutdown = true → c.table = []

namespace IsSettled

variable {c c' : Client} {r r' : Receiver}

/-- Both the flag and the table are as they were. -/
theorem congr (h : IsSettled c r) (hshutdown : c'.shutdown = c.shutdown)
    (htable : c'.table = c.table) : IsSettled c' r := by
  constructor
  · rw [hshutdown]
    exact h.ended
  · rw [hshutdown, htable]
    exact h.empty

/-- While the client is not shut down there is nothing to settle. -/
theorem of_reading (h : IsSettled c r) (hr : r ≠ .ended) (hr' : r' ≠ .ended)
    (hshutdown : c'.shutdown = c.shutdown) : IsSettled c' r' := by
  have hdown : c'.shutdown ≠ true := by
    rw [hshutdown]
    exact fun hdown => hr (h.ended.mpr hdown)
  exact ⟨⟨fun hended => absurd hended hr', fun hd => absurd hd hdown⟩, fun hd => absurd hd hdown⟩

theorem stop (error : CallError) (c : Client) : IsSettled (c.stop error) .ended := by
  constructor
  · simp
  · intro _
    exact (c.frame_stop error).1

theorem writeFailed (h : IsSettled c r) (seq : UInt64) (error : CallError) :
    IsSettled (c.writeFailed seq error) r := by
  rcases c.writeFailed_cases seq error with ⟨-, heq⟩ | ⟨p, hlookup, heq⟩
  · rw [heq]
    exact h
  · rw [heq]
    -- Somebody still waits, so this is not the end.
    have hup : c.shutdown ≠ true := by
      intro hdown
      rw [h.empty hdown] at hlookup
      cases hlookup
    have hr : r ≠ .ended := fun hended => hup (h.ended.mp hended)
    exact h.of_reading hr hr (by simp)

theorem change {ns : List Notice} (h : IsSettled c r) (hchange : Change ns (c, r) (c', r')) :
    IsSettled c' r' := by
  cases hchange with
  | mailboxes _ halike => exact h.congr halike.shutdown halike.table
  | turnedAway => exact h
  | @issued _ client _ p halike =>
      have hclient := h.congr halike.shutdown halike.table
      cases hover : client.isOver with
      | true =>
          rw [Client.issue_over hover]
          exact hclient.congr (by simp [Client.updateMailbox]) (by simp [Client.updateMailbox])
      | false =>
          have hup : client.shutdown ≠ true := by
            intro hdown
            simp [Client.isOver, hdown] at hover
          have hr : r ≠ .ended := fun hended => hup (hclient.ended.mp hended)
          rw [Client.issue_open hover]
          exact hclient.of_reading hr hr rfl
  | unsent _ _ seq error => exact h.writeFailed seq error
  | closed => exact h.congr rfl rfl
  | cancelled => exact .stop _ _
  | noHeader => exact .stop _ _
  | unmatched => exact h.of_reading (by simp) (by simp) rfl
  | matched response p _ hsome =>
      obtain ⟨_, rfl⟩ := Client.remove_eq_some_iff.mp hsome
      exact h.of_reading (by simp) (Receiver.answering_ne p response (by simp) (by simp)) rfl
  | replied => exact h.of_reading (by simp) (by simp) (by simp)
  | passed => exact h.of_reading (by simp) (by simp) rfl
  | notPassed => exact .stop _ _
  | refuted => exact h.of_reading (by simp) (by simp) (by simp)
  | refutedLast => exact .stop _ _

end IsSettled

/-! ## Rest -/

/-- Neither the receiver nor a writer nor the owner gets anywhere by another
attempt. -/
structure AtRest (now : Nat) (s : Session κ) : Prop where
  receiver : s.receiver = .ended ∨ (s.stepReceiver now).1 = .blocked
  writers : ∀ w ∈ s.writers, (s.stepWriter w.request.seq now).1 = .blocked
  closer : s.stepClose.1 = .blocked

/-- When the owner has closed, rest means that the receiver is done or in the
middle of a response. -/
theorem AtRest.ended_iff {now : Nat} {s : Session κ} (h : s.AtRest now)
    (hclosing : s.client.closing = true) :
    s.receiver = .ended ↔ ¬ s.receiver.InResponse := by
  cases hreceiver : s.receiver with
  | ended => simp [Receiver.InResponse]
  | header =>
      rcases h.receiver with hended | hblocked
      · rw [hreceiver] at hended
        cases hended
      · simp [stepReceiver, hreceiver, hclosing, endReceiver] at hblocked
  | body p => simp [Receiver.InResponse]
  | unknown => simp [Receiver.InResponse]
  | errorBody p text => simp [Receiver.InResponse]

/-- When the owner has closed, whoever has the lock can go on. -/
theorem AtRest.holder {now : Nat} {s : Session κ} (h : s.AtRest now) (horderly : s.IsOrderly)
    (hclosing : s.client.closing = true) : s.lock.holder = none := by
  cases hholder : s.lock.holder with
  | none => rfl
  | some p =>
      cases p with
      | closer =>
          have hblocked := h.closer
          simp [stepClose, hholder] at hblocked
      | writer seq =>
          have hmem : Party.writer seq ∈ s.lock.queue := by simp [Lock.queue, hholder]
          obtain ⟨w, hw, rfl, hqueued⟩ := (horderly.queued seq).mp hmem
          have hfind := horderly.find hw
          have hblocked := h.writers w hw
          have hover : s.client.isOver = true := by simp [Client.isOver, hclosing]
          cases hbegun : w.begun with
          | false =>
              simp [stepWriter, hfind, hqueued, hholder, hbegun, hover, endWriter] at hblocked
          | true =>
              simp [stepWriter, hfind, hqueued, hholder, hbegun, hclosing, endWriter] at hblocked

/-- With a free lock nobody waits for it, so nobody is left who writes. -/
theorem AtRest.free {now : Nat} {s : Session κ} (h : s.AtRest now) (horderly : s.IsOrderly)
    (hclosing : s.client.closing = true) : s.writers = [] ∧ s.lock = {} := by
  have hholder := h.holder horderly hclosing
  have hwaiting := horderly.free hholder
  refine ⟨List.eq_nil_iff_forall_not_mem.mpr fun w hw => ?_, ?_⟩
  · -- Whoever has not asked for the lock yet can do so.
    have hqueued : w.queued = false := by
      by_contra hqueued
      have hmem := (horderly.queued w.request.seq).mpr ⟨w, hw, rfl, by simpa using hqueued⟩
      simp [Lock.queue, hholder, hwaiting] at hmem
    have hblocked := h.writers w hw
    simp [stepWriter, horderly.find hw, hqueued] at hblocked
  · exact congrArg₂ Lock.mk hholder hwaiting

end Session

namespace History

variable {ω κ : Type} [Codec κ] [Surroundings ω κ]

theorem isSettled_run (codec : κ) (deeds : List (Deed ω)) :
    Session.IsSettled (run codec deeds).session.client (run codec deeds).session.receiver := by
  induction deeds using List.reverseRecOn with
  | nil => exact ⟨by simp, by simp⟩
  | append_singleton deeds d ih =>
      rw [run_append_singleton]
      exact ih.change (Session.change_of_perform (isHonest_run codec deeds) d)

/-- When reading is over, every call has been told what became of it. -/
theorem told_of_ended (codec : κ) (deeds : List (Deed ω))
    (few : (run codec deeds).registered.length < 2 ^ 64)
    (hended : (run codec deeds).session.receiver = .ended) {seq : UInt64} {p : Pending}
    (hp : (run codec deeds).registered[seq.toNat]? = some p) :
    ∃ outcome, (run codec deeds).session.client.signalsOf (some seq) = [p.signal outcome] := by
  have hsettled := isSettled_run codec deeds
  have hplace := (books_run codec deeds few).whereabouts (Nat.le_of_lt few) hp
  rw [hsettled.empty (hsettled.ended.mp hended), hended] at hplace
  generalize (run codec deeds).session.client.signalsOf (some seq) = signals at hplace
  cases hplace with
  | completed outcome => exact ⟨outcome, rfl⟩

/-- After the owner has closed and everything has come to rest, no writer is
left and the lock is free. Reading is over, with the table empty and every call
told, exactly when the receiver is not in the middle of a response. -/
theorem closed_iff_not_inResponse (codec : κ) (deeds : List (Deed ω)) {now : Nat}
    (hclosing : (run codec deeds).session.client.closing = true)
    (hrest : (run codec deeds).session.AtRest now) :
    let h := run codec deeds
    (h.registered.length < 2 ^ 64 → h.session.writers = [] ∧ h.session.lock = {}) ∧
      ((h.session.receiver = .ended ∧ h.session.client.shutdown = true ∧
          h.session.client.table = [] ∧
          (h.registered.length < 2 ^ 64 → ∀ seq p, h.registered[seq.toNat]? = some p →
            ∃ outcome, h.session.client.signalsOf (some seq) = [p.signal outcome])) ↔
        ¬ h.session.receiver.InResponse) := by
  intro h
  have hsettled := isSettled_run codec deeds
  refine ⟨fun few => hrest.free (orderly_run codec deeds few) hclosing, ?_⟩
  constructor
  · rintro ⟨hended, _⟩
    exact (hrest.ended_iff hclosing).mp hended
  · intro hout
    have hended := (hrest.ended_iff hclosing).mpr hout
    have hdown := hsettled.ended.mp hended
    exact ⟨hended, hdown, hsettled.empty hdown,
      fun few seq p hp => told_of_ended codec deeds few hended hp⟩

/-- Two calls of which the first is being written, without end, when the owner
closes; everybody goes as far as they can. -/
def closedInWriting : History Rehearsal :=
  let ask : Ask := ⟨0, "Arith.Multiply", .unit, .unit⟩
  run { stalls := [0] } ([.go ask, .go ask, .task (.writer 0) 0, .task (.writer 1) 0,
    .task (.writer 0) 0, .task (.writer 0) 0, .close, .task .receiver 0, .task (.writer 0) 0,
    .task (.writer 1) 0, .hangUp] : List (Deed (List Cue)))

theorem closed_in_writing :
    closedInWriting.session.client.closing = true ∧ closedInWriting.session.AtRest 0 ∧
      closedInWriting.session.client.table = [] := by
  have hclosing : closedInWriting.session.client.closing = true := by rfl
  have hended : closedInWriting.session.receiver = .ended := by rfl
  have hwriters : closedInWriting.session.writers = [] := by rfl
  have hcloser : closedInWriting.session.stepClose.1 = .blocked := by rfl
  have hrest : closedInWriting.session.AtRest 0 := ⟨.inl hended, by simp [hwriters], hcloser⟩
  have hout : ¬ closedInWriting.session.receiver.InResponse := by
    rw [hended]
    exact not_false
  exact ⟨hclosing, hrest, ((closed_iff_not_inResponse _ _ hclosing hrest).2.mpr hout).2.2.1⟩

/-- Two calls that were written. The first is answered, but its reply never
comes; then the owner closes. -/
def closedInReply : History Rehearsal :=
  let ask : Ask := ⟨0, "Arith.Multiply", .unit, .unit⟩
  run {} ([.go ask, .go ask, .task (.writer 0) 0, .task (.writer 0) 0, .task (.writer 0) 0,
    .task (.writer 1) 0, .task (.writer 1) 0, .task (.writer 1) 0,
    .outside [.header ⟨"Arith.Multiply", 0, ""⟩], .task .receiver 0, .close, .hangUp] :
    List (Deed (List Cue)))

/-- At no time does anybody get anywhere again, and neither call is told. -/
theorem waiting_after_close :
    closedInReply.session.client.closing = true ∧ (∀ now, closedInReply.session.AtRest now) ∧
      closedInReply.session.client.shutdown = false ∧
      closedInReply.session.client.table.map Prod.fst = [1] ∧
      closedInReply.session.client.signals = [] := by
  have hread (now : Nat) : (closedInReply.session.stepReceiver now).1 = .blocked := by rfl
  have hwriters : closedInReply.session.writers = [] := by rfl
  refine ⟨by rfl, ?_, by rfl, by rfl, by rfl⟩
  intro now
  exact ⟨.inr (hread now), by simp [hwriters], by rfl⟩

end History

end Switchboard
