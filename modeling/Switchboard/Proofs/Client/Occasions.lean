import Switchboard.Proofs.Client.Parting

/-!
# On what occasion a call is told

A call is told what became of it on one of five occasions: it came too late, its
request cannot be written, its reply was read, the other side refuted it, or the
receiver leaves. `Occasion` lists them with what was found on the way, which is
what the failures depend on that are told, and `occasion_perform` says that with
every deed it is one of them or nobody is told anything.

The receiver leaves once, and `leaves` says for which failure. What happens then
happens at no other time: the table is emptied, the client is shut down, and the
failure may be reported.
-/

namespace Switchboard

open Session (Deed Notice)

/-- What a receiver that leaves tells the call that it has in hand. -/
def Receiver.lastTold : Receiver → List (Pending × Except CallError Wire.Value)
  | .errorBody p text => [(p, .error (.server text))]
  | .header | .body _ | .unknown | .ended => []

namespace Client

/-- What those who wait are told when reading ends. -/
def drained (error : CallError) (c : Client) : List (Pending × Except CallError Wire.Value) :=
  c.table.map fun entry => (entry.2, .error (verdict c.closing error))

/-- Whoever waits in the table can be told. -/
theorem Sound.awaits {held : List Pending} {c : Client} (h : Sound held c) {seq : UInt64}
    {p : Pending} (hp : c.table.lookup seq = some p) : c.Awaits p := by
  obtain ⟨before, after, htable, _⟩ := List.lookup_eq_some_iff.mp hp
  exact h.waiting (seq, p) (by simp [htable])

/-- The connection is as it was, and so is whoever waits, but perhaps for the
call with one number. -/
structure Spares (seq : Option UInt64) (c c' : Client) : Prop where
  table : c'.table = c.table.filter (some ·.1 != seq)
  nextSeq : c'.nextSeq = c.nextSeq
  shutdown : c'.shutdown = c.shutdown
  closing : c'.closing = c.closing
  alarms : c'.alarms = c.alarms

namespace Spares

variable {seq : Option UInt64} {c c' : Client}

theorem of_same (htable : c'.table = c.table) (hnext : c'.nextSeq = c.nextSeq)
    (hshutdown : c'.shutdown = c.shutdown) (hclosing : c'.closing = c.closing)
    (halarms : c'.alarms = c.alarms) : Spares none c c' :=
  ⟨by rw [htable, List.filter_eq_self.mpr (by simp)], hnext, hshutdown, hclosing, halarms⟩

theorem finish (p : Pending) (outcome : Except CallError Wire.Value) (c : Client) :
    Spares none c (c.finish p outcome) := by
  obtain ⟨htable, hnext, hshutdown, hclosing, _⟩ := c.frame_finish p outcome
  exact of_same htable hnext hshutdown hclosing (c.alarms_finish p outcome)

/-- Whoever waits under another number waits on. -/
theorem mem_table (h : Spares seq c c') {entry : UInt64 × Pending} (hentry : entry ∈ c.table)
    (hother : some entry.1 ≠ seq) : entry ∈ c'.table := by
  rw [h.table, List.mem_filter]
  exact ⟨hentry, by simpa using hother⟩

theorem writeFailed (seq : UInt64) (error : CallError) (c : Client) :
    Spares (some seq) c (c.writeFailed seq error) := by
  have hfilter : c.table.filter (·.1 != seq) = c.table.filter (some ·.1 != some seq) :=
    List.filter_congr fun entry _ => by by_cases hentry : entry.1 = seq <;> simp [hentry, bne]
  obtain ⟨htable, hnext, hshutdown, hclosing, -⟩ := frame_writeFailed seq error c
  exact ⟨htable.trans hfilter, hnext, hshutdown, hclosing, alarms_writeFailed seq error c⟩

end Spares

end Client

namespace Session

variable {ω κ : Type} [Codec κ]

/-- For which failure the receiver leaves with its next step, if it does. The
wait for a header is left for the end of the stream when the owner has closed. -/
def lastWord (now : Nat) (s : Session κ) : Option CallError :=
  match s.receiver with
  | .header =>
      if s.client.closing then some .eof else (ending (Codec.readHeader now s.codec).1).join
  | .unknown => (ending (Codec.discardBody now s.codec).1).join
  | .errorBody .. => (ending (Codec.discardBody now s.codec).1).join.map .readingErrorBody
  | .body _ | .ended => none

/-- For which failure the receiver leaves with a deed, if it does. -/
def leaves (s : Session κ) : Deed ω → Option CallError
  | .task .receiver now => s.lastWord now
  | _ => none

/-- Whom a deed tells what, and the client and its receiver after it. -/
inductive Occasion (d : Deed ω) (s : Session κ) :
    List (Pending × Except CallError Wire.Value) → Client × Receiver → Prop where
  | nobody {c : Client} {r : Receiver} (hstays : s.leaves d = none)
      (hshutdown : c.shutdown = s.client.shutdown) (halarms : c.alarms = s.client.alarms)
      (hended : r = .ended → s.receiver = .ended) : Occasion d s [] (c, r)
  /-- The client was over when the call was made. -/
  | late {c : Client} (p : Pending) (hstays : s.leaves d = none)
      (hover : s.client.isOver = true) (hspares : s.client.Spares none c) :
      Occasion d s [(p, .error .shutdown)] (c, s.receiver)
  | unsent {c : Client} {seq : UInt64} {now : Nat} {error : CallError}
      (hd : d = .task (.writer seq) now) (herror : s.writeFailure seq now = some error)
      (hspares : s.client.Spares (some seq) c) :
      Occasion d s ((s.client.table.lookup seq).toList.map fun p => (p, .error error))
        (c, s.receiver)
  | replied {c : Client} {now : Nat} {p : Pending} {result : Except CallError Wire.Value}
      (hd : d = .task .receiver now) (hreceiver : s.receiver = .body p)
      (hread : (Codec.readBody p.shape now s.codec).1 = .done result)
      (hspares : s.client.Spares none c) :
      Occasion d s [(p, result.mapError .readingBody)] (c, .header)
  | refuted {c : Client} {now : Nat} {p : Pending} {text : String}
      (hd : d = .task .receiver now) (hreceiver : s.receiver = .errorBody p text)
      (hread : (Codec.discardBody now s.codec).1 = .done (.ok ()))
      (hspares : s.client.Spares none c) :
      Occasion d s [(p, .error (.server text))] (c, .header)
  | left {c : Client} {error : CallError} (hleaves : s.leaves d = some error)
      (htable : c.table = []) (hshutdown : c.shutdown = true)
      (hclosing : c.closing = s.client.closing)
      (halarms : c.alarms = s.client.alarms ++
        if Client.isExpected s.client.closing error then []
        else [Client.verdict s.client.closing error]) :
      Occasion d s (s.receiver.lastTold ++ s.client.drained error) (c, .ended)

/-- A deed tells some calls on some occasion, each of which has no outcome yet. -/
def Announces (s : Session κ) (d : Deed ω) (told : List (Pending × Except CallError Wire.Value))
    (c : Client) (r : Receiver) : Prop :=
  s.Occasion d told (c, r) ∧ s.client.Tells told c ∧ ∀ t ∈ told, t.1.call.IsOpen

namespace Occasion

variable {s : Session κ} {d : Deed ω} {told : List (Pending × Except CallError Wire.Value)}
  {c : Client} {r : Receiver}

/-- Unless the receiver leaves, the client is not shut down and nothing is
reported. -/
theorem of_stays (h : s.Occasion d told (c, r)) (hstays : s.leaves d = none) :
    c.shutdown = s.client.shutdown ∧ c.alarms = s.client.alarms := by
  cases h with
  | nobody _ hshutdown halarms => exact ⟨hshutdown, halarms⟩
  | late _ _ _ hspares => exact ⟨hspares.shutdown, hspares.alarms⟩
  | unsent _ _ hspares => exact ⟨hspares.shutdown, hspares.alarms⟩
  | replied _ _ _ hspares => exact ⟨hspares.shutdown, hspares.alarms⟩
  | refuted _ _ _ hspares => exact ⟨hspares.shutdown, hspares.alarms⟩
  | left hleaves => cases hstays.symm.trans hleaves

/-- A receiver that leaves tells whoever waits, and nobody waits after that. -/
theorem of_leaves (h : s.Occasion d told (c, r)) {error : CallError}
    (hleaves : s.leaves d = some error) :
    told = s.receiver.lastTold ++ s.client.drained error ∧ r = .ended ∧ c.table = [] ∧
      c.shutdown = true ∧ c.alarms = s.client.alarms ++
        if Client.isExpected s.client.closing error then []
        else [Client.verdict s.client.closing error] := by
  cases h with
  | nobody hstays => cases hstays.symm.trans hleaves
  | late _ hstays => cases hstays.symm.trans hleaves
  | unsent hd =>
      rw [hd] at hleaves
      cases hleaves
  | replied hd hreceiver =>
      rw [hd, leaves, lastWord, hreceiver] at hleaves
      cases hleaves
  | refuted hd hreceiver hread =>
      rw [hd, leaves, lastWord, hreceiver] at hleaves
      simp [hread, ending] at hleaves
  | left hleft htable hshutdown _ halarms =>
      cases hleft.symm.trans hleaves
      exact ⟨rfl, rfl, htable, hshutdown, halarms⟩

end Occasion

/-! ## Every deed is one -/

/-- Whoever has left does not leave again. -/
theorem leaves_of_ended {s : Session κ} (h : s.receiver = .ended) (d : Deed ω) :
    s.leaves d = none := by
  unfold leaves
  split
  · rw [lastWord, h]
  · rfl

theorem leaves_of_ne {s : Session κ} {d : Deed ω} (hd : ∀ now, d ≠ .task .receiver now) :
    s.leaves d = none := by
  unfold leaves
  split
  · exact absurd rfl (hd _)
  · rfl

section Announcing

variable {s : Session κ} {d : Deed ω}

/-- A change beside the receiver's tells calls that come too late or are not
sent. -/
theorem announces_of_change {ns : List Notice} {c : Client} {r : Receiver}
    (hchange : Change ns (s.client, s.receiver) (c, r)) (hreceiver : r = s.receiver)
    (hsound : s.client.Sound s.receiver.held) (hstays : s.leaves d = none)
    (halarms : c.alarms = s.client.alarms)
    (hunsent : ∀ seq error, .unsent seq error ∈ ns →
      ∃ now, d = .task (.writer seq) now ∧ s.writeFailure seq now = some error) :
    ∃ told, s.Announces d told c r := by
  have hnobody (hshutdown : c.shutdown = s.client.shutdown)
      (hsignals : c.signals = s.client.signals) : ∃ told, s.Announces d told c r :=
    ⟨[], .nobody hstays hshutdown halarms (by rw [hreceiver]; exact id),
      hsignals.trans (List.append_nil _).symm, by simp⟩
  obtain ⟨client, codec, receiver, writers, lock, callers⟩ := s
  cases hchange with
  | mailboxes _ halike => exact hnobody halike.shutdown halike.signals
  | turnedAway => exact hnobody rfl rfl
  | @issued _ client' _ p halike hopen hseq hmailbox =>
      cases hover : client'.isOver with
      | true =>
          have hspares : client.Spares none (client'.issue p.call p.shape p.mailbox).2 := by
            obtain ⟨htable, hnext, hshutdown, hclosing, _⟩ :=
              Client.frame_finish p (.error .shutdown)
                (client'.updateMailbox p.mailbox (·.addHandle))
            rw [Client.issue_over hover] at halarms ⊢
            exact .of_same (htable.trans halike.table) (hnext.trans halike.nextSeq)
              (hshutdown.trans halike.shutdown) (hclosing.trans halike.closing) halarms
          refine ⟨_, .late p hstays (halike.isOver ▸ hover) hspares, ?_, by simpa using hopen⟩
          rw [Client.Tells, ← halike.signals]
          exact ((hsound.alike halike).refuse hmailbox hover).2
      | false =>
          rw [Client.issue_open hover] at hnobody ⊢
          exact hnobody halike.shutdown halike.signals
  | unsent _ _ seq error =>
      obtain ⟨now, hd, herror⟩ := hunsent seq error List.mem_cons_self
      refine ⟨_, .unsent hd herror (.writeFailed seq error client),
        (hsound.writeFailed seq error).2, ?_⟩
      intro t ht
      obtain ⟨p, hp, rfl⟩ := List.mem_map.mp ht
      exact (hsound.awaits (Option.mem_toList.mp hp)).fresh
  | closed => exact hnobody rfl rfl
  | matched response p =>
      exact absurd hreceiver (Receiver.answering_ne p response (by simp) (by simp))
  | cancelled | noHeader | unmatched | replied | passed | notPassed | refuted | refutedLast =>
      cases hreceiver

/-- A receiver that leaves tells the call that it has in hand, then the others. -/
theorem announces_of_leaving {c : Client} {held : List Pending} {error : CallError}
    (hleaves : s.leaves d = some error) (hspares : s.client.Spares none c) (hsound : c.Sound held)
    (hlast : s.client.Tells s.receiver.lastTold c)
    (hopen : ∀ t ∈ s.receiver.lastTold, t.1.call.IsOpen) :
    ∃ told, s.Announces d told (c.stop error) .ended := by
  obtain ⟨htable, _, hshutdown, hclosing, _⟩ := c.frame_stop error
  have hsame : c.table = s.client.table := by
    rw [hspares.table, List.filter_eq_self.mpr (by simp)]
  have hdrained := (hsound.stop error).2
  have halarms := c.alarms_stop error
  rw [hspares.closing] at hclosing hdrained halarms
  rw [hspares.alarms] at halarms
  rw [hsame] at hdrained
  refine ⟨_, .left hleaves htable hshutdown hclosing halarms, hlast.trans hdrained, ?_⟩
  intro t ht
  rcases List.mem_append.mp ht with hinHand | hwaiting
  · exact hopen t hinHand
  · obtain ⟨entry, hentry, rfl⟩ := List.mem_map.mp hwaiting
    exact (hsound.waiting entry (hsame ▸ hentry)).fresh

/-- A header that was read tells nobody anything. -/
theorem announces_route (response : Wire.Response) (codec : κ) (hstays : s.leaves d = none) :
    ∃ told, s.Announces d told ({ s with codec }.route response).client
      ({ s with codec }.route response).receiver := by
  refine ⟨[], ?_, ?_, by simp⟩
  · unfold route
    split
    · exact .nobody hstays rfl (by simp [Event.alarm?]) (by simp)
    · rename_i hremove
      obtain ⟨_, rfl⟩ := Client.remove_eq_some_iff.mp hremove
      split <;> exact .nobody hstays rfl rfl (by simp)
  · unfold route
    split
    · simp [Client.Tells, Event.signal?]
    · rename_i hremove
      obtain ⟨_, rfl⟩ := Client.remove_eq_some_iff.mp hremove
      split <;> exact (List.append_nil _).symm

theorem announces_stepReceiver (hsound : s.client.Sound s.receiver.held) (now : Nat) :
    ∃ told, s.Announces (.task .receiver now : Deed ω) told (s.stepReceiver now).2.client
      (s.stepReceiver now).2.receiver := by
  have hstep := s.stepReceiver_cases now
  have hsame : s.client.Spares none s.client := .of_same rfl rfl rfl rfl rfl
  have hnothing : s.client.Tells [] s.client := (List.append_nil _).symm
  have hstays (h : s.lastWord now = none) {r : Receiver} (hr : r = .ended → s.receiver = .ended) :
      ∃ told, s.Announces (.task .receiver now : Deed ω) told s.client r :=
    ⟨[], .nobody h rfl rfl hr, hnothing, by simp⟩
  have hleaves {error : CallError} (h : s.lastWord now = some error)
      (hlast : s.receiver.lastTold = []) :
      ∃ told, s.Announces (.task .receiver now : Deed ω) told (s.client.stop error) .ended :=
    announces_of_leaving h hsame hsound (hlast ▸ hnothing) (by simp [hlast])
  generalize s.readEnding now = failure at hstep
  generalize (s.stepReceiver now).2 = s' at hstep ⊢
  cases hstep with
  | ended hreceiver => exact hstays (by simp [lastWord, hreceiver]) id
  | cancelled hreceiver hclosing =>
      exact hleaves (by simp [lastWord, hreceiver, hclosing]) (by rw [hreceiver]; rfl)
  | headerAwaited hreceiver hclosing hread hpoll =>
      exact hstays (by simp [lastWord, hreceiver, hclosing, hread, hpoll]) id
  | @header response codec hreceiver hclosing hread =>
      refine announces_route response codec ?_
      simp [leaves, lastWord, hreceiver, hclosing, hread, ending]
  | noHeader hreceiver hclosing hread =>
      exact hleaves (by simp [lastWord, hreceiver, hclosing, hread, ending])
        (by rw [hreceiver]; rfl)
  | bodyAwaited hreceiver => exact hstays (by simp [lastWord, hreceiver]) id
  | @body p result codec hreceiver hread =>
      rw [hreceiver] at hsound
      refine ⟨_, .replied rfl hreceiver (congrArg Prod.fst hread) (.finish _ _ _),
        (hsound.finish _).2, ?_⟩
      intro t ht
      rw [List.mem_singleton.mp ht]
      exact (hsound.inHand p List.mem_cons_self).fresh
  | discardAwaited hreceiver hread hpoll =>
      rcases hreceiver with hreceiver | ⟨p, text, hreceiver⟩
      · exact hstays (by simp [lastWord, hreceiver, hread, hpoll]) id
      · exact hstays (by simp [lastWord, hreceiver, hread, hpoll]) id
  | passed hreceiver hread => exact hstays (by simp [lastWord, hreceiver, hread, ending]) nofun
  | notPassed hreceiver hread =>
      exact hleaves (by simp [lastWord, hreceiver, hread, ending]) (by rw [hreceiver]; rfl)
  | @refuted p text codec hreceiver hread =>
      rw [hreceiver] at hsound
      refine ⟨_, .refuted rfl hreceiver (congrArg Prod.fst hread) (.finish _ _ _),
        (hsound.finish _).2, ?_⟩
      intro t ht
      rw [List.mem_singleton.mp ht]
      exact (hsound.inHand p List.mem_cons_self).fresh
  | @refutedLast p text error codec hreceiver hread =>
      rw [hreceiver] at hsound
      obtain ⟨hfinished, htold⟩ := hsound.finish (.error (.server text))
      have hword : s.leaves (.task .receiver now : Deed ω) = some (.readingErrorBody error) := by
        simp [leaves, lastWord, hreceiver, hread, ending]
      refine announces_of_leaving hword (.finish p _ s.client) hfinished (hreceiver ▸ htold) ?_
      rw [hreceiver]
      intro t ht
      rw [List.mem_singleton.mp ht]
      exact (hsound.inHand p List.mem_cons_self).fresh

end Announcing

section Perform

variable [Surroundings ω κ] {s : Session κ}

theorem announces_perform (hhonest : ∀ caller ∈ s.callers, caller.IsHonest)
    (hsound : s.client.Sound s.receiver.held) (d : Deed ω) :
    ∃ told, s.Announces d told (s.perform d).client (s.perform d).receiver := by
  by_cases hd : ∀ now, d ≠ .task .receiver now
  · obtain ⟨hreceiver, halarms⟩ := apart_perform (s := s) hd
    exact announces_of_change (change_of_perform hhonest d) hreceiver hsound (s.leaves_of_ne hd)
      halarms fun seq error => exists_writer_of_unsent
  · push Not at hd
    obtain ⟨now, rfl⟩ := hd
    exact announces_stepReceiver hsound now

end Perform

end Session

namespace History

variable {ω κ : Type} [Codec κ] [Surroundings ω κ]

theorem announces_run (codec : κ) (deeds : List (Deed ω)) (d : Deed ω) :
    ∃ told, (run codec deeds).session.Announces d told
      (run codec (deeds ++ [d])).session.client (run codec (deeds ++ [d])).session.receiver := by
  rw [run_append_singleton]
  exact Session.announces_perform (isHonest_run codec deeds) (sound_run codec deeds) d

end History

/-! ## Over frames -/

namespace Framed

/-- What a read fails with is a failure of the connection. -/
theorem error_of_receive {α : Type} {kind : ReadKind} {convert : Received → Except LinkError α}
    {now : Nat} {f : Framed Script} {error : CallError}
    (h : (f.receive kind convert now).1 = .done (.error error)) :
    ∃ cause, error = .ofLink cause := by
  have hread : (f.read kind now).1.map (fun result => (result.bind convert).mapError .ofLink) =
      .done (.error error) := h
  generalize (f.read kind now).1 = poll at hread
  rcases poll with _ | _ | result
  · cases hread
  · cases hread
  · rw [Poll.map] at hread
    cases hresult : result.bind convert with
    | ok value =>
        rw [hresult] at hread
        cases hread
    | error cause =>
        rw [hresult] at hread
        cases hread
        exact ⟨cause, rfl⟩

end Framed

namespace Session

theorem eq_done_of_join {α : Type} {poll : Poll (Except CallError α)} {error : CallError}
    (h : (ending poll).join = some error) : poll = .done (.error error) := by
  rcases poll with _ | _ | other | value
  · cases h
  · cases h
  · rw [Option.some.inj h]
  · cases h

/-- A receiver of frames leaves at the end of the stream, or because a read
failed. -/
theorem leaves_cases {s : Session (Framed Script)} {d : Deed Script.Twist} {error : CallError}
    (h : s.leaves d = some error) :
    error = .eof ∨ (∃ cause, error = .ofLink cause) ∨ ∃ cause, error = .readingErrorBody cause := by
  unfold leaves at h
  split at h
  · unfold lastWord at h
    split at h
    · split at h
      · exact Or.inl (Option.some.inj h).symm
      · exact Or.inr (Or.inl (Framed.error_of_receive (eq_done_of_join h)))
    · exact Or.inr (Or.inl (Framed.error_of_receive (eq_done_of_join h)))
    · obtain ⟨cause, _, rfl⟩ := Option.map_eq_some_iff.mp h
      exact Or.inr (Or.inr ⟨cause, rfl⟩)
    · cases h
    · cases h
  · cases h

end Session

end Switchboard
