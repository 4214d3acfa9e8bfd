import Switchboard.Proofs.Client.Closing
import Switchboard.Proofs.Client.Turns

/-!
# A client that is over takes nothing on

Once the owner has closed, or reading is over, the client is over for good. From
then on it only dwindles: no number is given out, nobody enters the table and
nobody new writes, while the writers that are still at work may go on. Whoever
makes a call is told at once that the client is shut down. So the table that the
end of reading leaves empty stays empty, and nobody is registered behind it.
-/

namespace Switchboard

open Session (Deed Notice)

namespace Session

variable {ω κ : Type} [Codec κ] [Surroundings ω κ]

/-! ## Dwindling -/

/-- From one moment to the other nobody came in: whoever waits or writes did so
before, and no number was given out. -/
structure Dwindles (s s' : Session κ) : Prop where
  isOver : s'.client.isOver = true
  nextSeq : s'.client.nextSeq = s.client.nextSeq
  table : s'.client.table.Sublist s.client.table
  writers : (s'.writers.map (·.request)).Sublist (s.writers.map (·.request))

namespace Dwindles

variable {s s' s'' : Session κ}

omit [Codec κ] in
theorem refl (h : s.client.isOver = true) : Dwindles s s :=
  ⟨h, rfl, List.Sublist.refl _, List.Sublist.refl _⟩

omit [Codec κ] in
theorem trans (h : Dwindles s s') (h' : Dwindles s' s'') : Dwindles s s'' where
  isOver := h'.isOver
  nextSeq := h'.nextSeq.trans h.nextSeq
  table := h'.table.trans h.table
  writers := h'.writers.trans h.writers

end Dwindles

omit [Codec κ] in
/-- Nobody writes for a call that comes too late. -/
theorem issue_of_over {s : Session κ} (h : s.client.isOver = true) (call : Call)
    (shape : Wire.Shape) (mailbox : Nat) :
    s.issue call shape mailbox =
      { s with client := (s.client.issue call shape mailbox).2 } := by
  have hrequest : (s.client.issue call shape mailbox).1 = none := by
    rw [s.client.issue_request call shape mailbox, h]
    rfl
  simp only [issue, hrequest]

omit [Surroundings ω κ] in
/-- Nobody is registered by a client that is over. -/
theorem registered_notices {s : Session κ} (h : s.client.isOver = true) (d : Deed ω) :
    (s.notices d).filterMap Notice.registered? = [] := by
  cases d with
  | go a => simp [notices, noteCall, h]
  | goWith a mailbox =>
      by_cases hmailbox : mailbox < s.client.mailboxes.length <;>
        simp [notices, noteCall, hmailbox, h]
  | task t now =>
      cases t with
      | receiver => cases hread : s.readEnding now <;> simp [notices, noteStep, hread]
      | writer seq => cases hwrite : s.writeFailure seq now <;> simp [notices, noteStep, hwrite]
      | caller place =>
          simp only [notices, noteStep]
          split
          · simp [h]
          · rfl
  | call | completion | take | dropHandle | deafen | close | hangUp | outside => rfl

/-- Whoever writes already goes on, and nobody else begins. -/
theorem requests_perform {s : Session κ} (htidy : IsTidy s.writers s.lock.holder)
    (h : s.client.isOver = true) (d : Deed ω) :
    ((s.perform d).writers.map (·.request)).Sublist (s.writers.map (·.request)) := by
  by_cases hd : ∀ seq now, d ≠ .task (.writer seq) now
  · obtain ⟨more, hmore, hstands⟩ := s.bystands_perform hd
    rw [registered_notices h] at hmore
    obtain rfl := List.map_eq_nil_iff.mp hmore
    rw [hstands.writers, List.append_nil]
  · simp only [ne_eq, not_forall, not_not] at hd
    obtain ⟨seq, now, rfl⟩ := hd
    have hparcels := (parcels_stepWriter htidy seq now).map Parcel.request
    rwa [List.map_map, List.map_map] at hparcels

/-- Whatever is done to a client that is over, it dwindles. -/
theorem dwindles_perform {s : Session κ} (hhonest : ∀ caller ∈ s.callers, caller.IsHonest)
    (htidy : IsTidy s.writers s.lock.holder) (h : s.client.isOver = true) (d : Deed ω) :
    Dwindles s (s.perform d) := by
  have honward := Onward.change (change_of_perform hhonest d)
  exact ⟨honward.isOver h, honward.nextSeq h, honward.table h, requests_perform htidy h d⟩

/-! ## Being told so -/

/-- The call that a deed hands to a client, with the mailbox that it is for. -/
def Deed.handsOver (s : Session κ) : Deed ω → Option Pending
  | .go a => some (a.pending s.client.mailboxes.length)
  | .goWith a mailbox =>
      if mailbox < s.client.mailboxes.length then some (a.pending mailbox) else none
  | _ => none

/-- A call is told that the client is shut down. It has no number, and nothing
is different but the mailboxes. -/
structure TurnsDown (p : Pending) (s s' : Session κ) : Prop where
  told : s'.client.signals = s.client.signals ++ [p.signal (.error .shutdown)]
  unnumbered : p.call.seq = none
  same : s'.client.nextSeq = s.client.nextSeq ∧ s'.client.table = s.client.table
  flags : s'.client.shutdown = s.client.shutdown ∧ s'.client.closing = s.client.closing
  aside : { s' with client := s.client } = s

omit [Codec κ] in
theorem turnsDown_issue {s : Session κ} {c : Client} (h : s.client.isOver = true)
    (hc : s.client.Alike c) (a : Ask) {mailbox : Nat} (hmailbox : mailbox < c.mailboxes.length) :
    TurnsDown (a.pending mailbox) s ({ s with client := c }.issue a.call a.shape mailbox) := by
  have hover : c.isOver = true := hc.isOver.trans h
  have hsession := issue_of_over (s := { s with client := c }) hover a.call a.shape mailbox
  rw [hsession, Client.issue_over hover]
  have hframe := (c.updateMailbox mailbox (·.addHandle)).frame_finish
    ⟨a.call, a.shape, mailbox⟩ (.error .shutdown)
  obtain ⟨htable, hnext, hshutdown, hclosing, _⟩ := hframe
  refine ⟨?_, rfl, ⟨hnext.trans hc.nextSeq, htable.trans hc.table⟩,
    ⟨hshutdown.trans hc.shutdown, hclosing.trans hc.closing⟩, rfl⟩
  rw [Client.signals_finish _ (by simpa [Client.updateMailbox] using hmailbox), ← hc.signals]
  rfl

/-- Whoever hands a call to a client that is over is turned down. -/
theorem turnsDown_perform {s : Session κ} (h : s.client.isOver = true) {d : Deed ω} {p : Pending}
    (hp : d.handsOver s = some p) : TurnsDown p s (s.perform d) := by
  cases d with
  | go a =>
      obtain rfl : a.pending s.client.mailboxes.length = p := Option.some.inj hp
      exact turnsDown_issue h (.addMailbox { capacity := defaultCapacity, handles := 0 } s.client) a
        (by simp [Client.addMailbox])
  | goWith a mailbox =>
      simp only [Deed.handsOver] at hp
      split at hp
      · rename_i hmailbox
        obtain rfl : a.pending mailbox = p := Option.some.inj hp
        simp only [perform, if_pos hmailbox]
        exact turnsDown_issue h (.refl s.client) a hmailbox
      · cases hp
  | call | completion | take | dropHandle | deafen | task | close | hangUp | outside => cases hp

omit [Codec κ] in
/-- A caller finds the client over and makes no call at all. -/
theorem stepCaller_of_over {s : Session κ} (h : s.client.isOver = true) {place : Nat}
    {call : Call} {shape : Wire.Shape} (hcaller : s.callers[place]? = some (.fresh call shape)) :
    (s.stepCaller place).2 =
      { s with callers := s.callers.set place (.finished (.error .shutdown)) } := by
  simp [stepCaller, hcaller, h]

end Session

namespace History

variable {ω κ : Type} [Codec κ] [Surroundings ω κ]

/-- The two flags of a client are not taken back. -/
theorem onward_run (codec : κ) (deeds more : List (Deed ω)) :
    Session.Onward (run codec deeds).session.client (run codec (deeds ++ more)).session.client := by
  induction more using List.reverseRecOn with
  | nil =>
      rw [List.append_nil]
      exact .alike (.refl _)
  | append_singleton more d ih =>
      rw [← List.append_assoc, run_append_singleton]
      exact ih.trans (.change (Session.change_of_perform (isHonest_run codec _) d))

/-- From the moment a client is over it dwindles, and nobody is registered. -/
theorem dwindles_run {codec : κ} {deeds : List (Deed ω)}
    (h : (run codec deeds).session.client.isOver = true) (more : List (Deed ω)) :
    Session.Dwindles (run codec deeds).session (run codec (deeds ++ more)).session ∧
      (run codec (deeds ++ more)).registered = (run codec deeds).registered := by
  induction more using List.reverseRecOn with
  | nil =>
      rw [List.append_nil]
      exact ⟨.refl h, rfl⟩
  | append_singleton more d ih =>
      obtain ⟨hdwindles, hregistered⟩ := ih
      rw [← List.append_assoc, run_append_singleton, registered_perform,
        Session.registered_notices hdwindles.isOver, List.append_nil]
      refine ⟨hdwindles.trans ?_, hregistered⟩
      exact Session.dwindles_perform (isHonest_run codec _) (isTidy_run codec _) hdwindles.isOver d

/-- What holds of a client at some moment, and from then on to a later one. -/
structure Final (ω : Type) [Surroundings ω κ] (h later : History κ) : Prop where
  /-- A client that is shut down has nobody in its table. -/
  drained : h.session.client.shutdown = true → h.session.client.table = []
  /-- When reading is over, every call was told once what became of it. -/
  completed : h.session.receiver = .ended →
    h.session.client.shutdown = true ∧
      (h.registered.length < 2 ^ 64 → ∀ (seq : UInt64) (p : Pending),
        h.registered[seq.toNat]? = some p →
          ∃ outcome, h.session.client.signalsOf (some seq) = [p.signal outcome])
  /-- Neither flag is taken back. -/
  flags : (h.session.client.shutdown = true → later.session.client.shutdown = true) ∧
    (h.session.client.closing = true → later.session.client.closing = true)
  /-- With either flag, nobody is registered and nobody new writes. -/
  dwindles : h.session.client.isOver = true →
    Session.Dwindles h.session later.session ∧ later.registered = h.registered
  /-- With either flag, whoever makes a call is told so. -/
  turnsDown : h.session.client.isOver = true → ∀ (d : Deed ω) (p : Pending),
    d.handsOver later.session = some p →
      Session.TurnsDown p later.session (later.session.perform d)
  turnsAway : h.session.client.isOver = true →
    ∀ (place now : Nat) (call : Call) (shape : Wire.Shape),
      later.session.callers[place]? = some (.fresh call shape) →
        later.session.perform (.task (.caller place) now : Deed ω) =
          { later.session with
            callers := later.session.callers.set place (.finished (.error .shutdown)) }

/-- However the deeds of a client follow each other and whatever codec it
speaks, nobody is registered behind the end of its reading, or behind its owner
who closed it, and nobody is left waiting there. -/
theorem final_run (codec : κ) (deeds more : List (Deed ω)) :
    Final ω (run codec deeds) (run codec (deeds ++ more)) := by
  have hsettled := isSettled_run codec deeds
  have honward := onward_run codec deeds more
  refine ⟨hsettled.empty, ?_, ⟨honward.shutdown, honward.closing⟩, ?_, ?_, ?_⟩
  · intro hended
    exact ⟨hsettled.ended.mp hended, fun few seq p hp => told_of_ended codec deeds few hended hp⟩
  · intro hover
    exact dwindles_run hover more
  · intro hover d p hp
    exact Session.turnsDown_perform (honward.isOver hover) hp
  · intro hover place now call shape hcaller
    exact Session.stepCaller_of_over (honward.isOver hover) hcaller

/-- Two calls, of which the first is being written, without end, when reading
fails. -/
def failedReading : List (Deed (List Cue)) :=
  let ask : Ask := ⟨0, "Arith.Multiply", .unit, .unit⟩
  [.go ask, .go ask, .task (.writer 0) 0, .task (.writer 0) 0, .task (.writer 0) 0,
    .task .receiver 0]

/-- Then a third call is made, somebody wants to make a fourth, and the writer of
the second call asks for the lock. -/
def lateCalls : List (Deed (List Cue)) :=
  let ask : Ask := ⟨0, "Arith.Multiply", .unit, .unit⟩
  [.go ask, .call ask, .task (.caller 0) 0, .task (.writer 1) 0]

def failingCodec : Rehearsal := { stalls := [0], cues := [.failure .eof] }

theorem final_of_late_calls :
    (run failingCodec failedReading).session.receiver = .ended ∧
      (run failingCodec (failedReading ++ lateCalls)).refused.length = 1 ∧
      (run failingCodec (failedReading ++ lateCalls)).session.writers.length = 2 ∧
      Final (List Cue) (run failingCodec failedReading)
        (run failingCodec (failedReading ++ lateCalls)) := by
  exact ⟨by rfl, by rfl, by rfl, final_run failingCodec failedReading lateCalls⟩

end History

end Switchboard
