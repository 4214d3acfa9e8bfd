import Switchboard.Proofs.Client.Signals
import Switchboard.Proofs.Client.Steps

/-!
# What a deed can do to a client

Whatever is done, and whatever codec the client speaks, the client and the
occupation of its receiver change in one of few ways. `Change` lists them with
what is noted down of each, and `change_of_perform` says that the list is
complete. Invariants of a whole life are proved by going through the list once.
-/

namespace Switchboard

open Session (Deed Notice)

/-- The call that the receiver has taken out of the table and not finished. -/
@[simp] def Receiver.held : Receiver → List Pending
  | .body p | .errorBody p _ => [p]
  | .header | .unknown | .ended => []

/-- What the receiver reads after the header of an answer to a call. -/
def Receiver.answering (p : Pending) (response : Wire.Response) : Receiver :=
  match response.remoteError with
  | none => .body p
  | some text => .errorBody p text

@[simp] theorem Receiver.held_answering (p : Pending) (response : Wire.Response) :
    (Receiver.answering p response).held = [p] := by
  unfold answering
  split <;> rfl

/-- Behind such a header the receiver reads a reply or what stands for one. -/
theorem Receiver.answering_ne (p : Pending) (response : Wire.Response) {r : Receiver}
    (hbody : Receiver.body p ≠ r) (herror : ∀ text, Receiver.errorBody p text ≠ r) :
    Receiver.answering p response ≠ r := by
  unfold answering
  split
  · exact hbody
  · exact herror _

/-- Whoever is yet to make a call has one without a number and an outcome. -/
def Caller.IsHonest : Caller → Prop
  | .fresh call _ => call.IsOpen ∧ call.seq = none
  | .waiting _ | .finished _ => True

namespace Session

inductive Change : List Notice → Client × Receiver → Client × Receiver → Prop where
  /-- Nothing but the contents of mailboxes. -/
  | mailboxes {c c' : Client} (r : Receiver) (h : c.Alike c') : Change [] (c, r) (c', r)
  | turnedAway {c : Client} (r : Receiver) (place : Nat) (h : c.isOver = true) :
      Change [.turnedAway place] (c, r) (c, r)
  | issued {c c' : Client} (r : Receiver) (p : Pending) (h : c.Alike c')
      (hopen : p.call.IsOpen) (hseq : p.call.seq = none)
      (hmailbox : p.mailbox < c'.mailboxes.length) :
      Change [noteCall p c] (c, r) ((c'.issue p.call p.shape p.mailbox).2, r)
  | unsent (c : Client) (r : Receiver) (seq : UInt64) (error : CallError) :
      Change [.unsent seq error] (c, r) (c.writeFailed seq error, r)
  | closed {c : Client} (r : Receiver) (h : c.isOver = false) :
      Change [] (c, r) ({ c with closing := true }, r)
  /-- The wait for a header is over because the owner closed. -/
  | cancelled {c : Client} (h : c.closing = true) :
      Change [] (c, .header) (c.stop .eof, .ended)
  | noHeader {c : Client} (error : CallError) (h : c.closing = false) :
      Change [.read (some error)] (c, .header) (c.stop error, .ended)
  | unmatched {c : Client} (response : Wire.Response) (h : c.closing = false)
      (hnone : c.remove response.seq = none) :
      Change [.read none] (c, .header) (c.log (.unknownResponse response.seq), .unknown)
  | matched {c c' : Client} (response : Wire.Response) (p : Pending) (h : c.closing = false)
      (hsome : c.remove response.seq = some (p, c')) :
      Change [.read none] (c, .header) (c', .answering p response)
  | replied {c : Client} (p : Pending) (result : Except CallError Wire.Value)
      (failure : Option CallError) :
      Change [.read failure] (c, .body p) (c.finish p (result.mapError .readingBody), .header)
  | passed (c : Client) : Change [.read none] (c, .unknown) (c, .header)
  | notPassed (c : Client) (error : CallError) :
      Change [.read (some error)] (c, .unknown) (c.stop error, .ended)
  | refuted (c : Client) (p : Pending) (text : String) :
      Change [.read none] (c, .errorBody p text) (c.finish p (.error (.server text)), .header)
  | refutedLast (c : Client) (p : Pending) (text : String) (error : CallError) :
      Change [.read (some error)] (c, .errorBody p text)
        ((c.finish p (.error (.server text))).stop (.readingErrorBody error), .ended)

variable {ω κ : Type} [Codec κ] [Surroundings ω κ]

theorem change_of_stepCaller {s : Session κ} (hhonest : ∀ caller ∈ s.callers, caller.IsHonest)
    (place now : Nat) :
    Change (s.noteStep now (.caller place)) (s.client, s.receiver)
      ((s.stepCaller place).2.client, (s.stepCaller place).2.receiver) := by
  have hstep := s.stepCaller_cases place
  generalize (s.stepCaller place).2 = s' at hstep
  cases hstep with
  | absent hcaller => simpa [noteStep, hcaller] using .mailboxes _ (.refl _)
  | turnedAway hcaller hover => simpa [noteStep, hcaller, hover] using .turnedAway _ _ hover
  | made hcaller hopen =>
      obtain ⟨hfresh, hseq⟩ := hhonest _ (List.mem_of_getElem? hcaller)
      simpa [noteStep, hcaller, hopen] using
        Change.issued s.receiver ⟨_, _, s.client.mailboxes.length⟩
          (.addMailbox { capacity := 1, handles := 0 } s.client) hfresh hseq
          (by simp [Client.addMailbox])
  | taken hcaller htake => simpa [noteStep, hcaller] using .mailboxes _ (.takeCall htake)
  | bereft hcaller => simpa [noteStep, hcaller] using .mailboxes _ (.refl _)
  | awaited hcaller => simpa [noteStep, hcaller] using .mailboxes _ (.refl _)
  | finished hcaller => simpa [noteStep, hcaller] using .mailboxes _ (.refl _)

omit [Codec κ] in
theorem change_of_route (response : Wire.Response) {s : Session κ}
    (h : s.client.closing = false) :
    Change [.read none] (s.client, .header)
      ((s.route response).client, (s.route response).receiver) := by
  unfold route
  cases hremove : s.client.remove response.seq with
  | none => exact .unmatched response h hremove
  | some found =>
      have hmatched := Change.matched response found.1 h hremove
      unfold Receiver.answering at hmatched
      cases hremote : response.remoteError with
      | none => simpa [hremote] using hmatched
      | some text => simpa [hremote] using hmatched

theorem change_of_stepReceiver (now : Nat) (s : Session κ) :
    Change ((s.readEnding now).map .read).toList (s.client, s.receiver)
      ((s.stepReceiver now).2.client, (s.stepReceiver now).2.receiver) := by
  have hstep := s.stepReceiver_cases now
  generalize s.readEnding now = failure at hstep ⊢
  generalize (s.stepReceiver now).2 = s' at hstep
  cases hstep with
  | ended => exact .mailboxes _ (.refl _)
  | cancelled hreceiver hclosing => exact hreceiver ▸ .cancelled hclosing
  | headerAwaited => exact .mailboxes _ (.refl _)
  | @header response codec hreceiver hclosing =>
      rw [hreceiver]
      exact change_of_route response (s := { s with codec }) hclosing
  | noHeader hreceiver hclosing => exact hreceiver ▸ .noHeader _ hclosing
  | bodyAwaited => exact .mailboxes _ (.refl _)
  | @body p result _ hreceiver =>
      rw [hreceiver]
      cases result <;> exact .replied p _ _
  | discardAwaited => exact .mailboxes _ (.refl _)
  | passed hreceiver => exact hreceiver ▸ .passed _
  | notPassed hreceiver => exact hreceiver ▸ .notPassed _ _
  | refuted hreceiver => exact hreceiver ▸ .refuted _ _ _
  | refutedLast hreceiver => exact hreceiver ▸ .refutedLast _ _ _ _

theorem change_of_stepWriter (seq : UInt64) (now : Nat) (s : Session κ) :
    Change ((s.writeFailure seq now).map (.unsent seq)).toList (s.client, s.receiver)
      ((s.stepWriter seq now).2.client, (s.stepWriter seq now).2.receiver) := by
  have hstep := s.stepWriter_cases seq now
  generalize s.writeFailure seq now = failure at hstep ⊢
  generalize (s.stepWriter seq now).2 = s' at hstep
  cases hstep with
  | absent => exact .mailboxes _ (.refl _)
  | asked => exact .mailboxes _ (.refl _)
  | queued => exact .mailboxes _ (.refl _)
  | refused => exact .unsent _ _ _ _
  | begun => exact .mailboxes _ (.refl _)
  | cancelled => exact .unsent _ _ _ _
  | awaited => exact .mailboxes _ (.refl _)
  | @written w result =>
      cases result with
      | ok => exact .mailboxes _ (.refl _)
      | error error => exact .unsent _ _ _ _

theorem change_of_perform {s : Session κ} (hhonest : ∀ caller ∈ s.callers, caller.IsHonest)
    (d : Deed ω) :
    Change (s.notices d) (s.client, s.receiver) ((s.perform d).client, (s.perform d).receiver) := by
  cases d with
  | go a =>
      simpa [notices, perform, go, Ask.pending, Client.addMailbox] using
        Change.issued s.receiver (a.pending s.client.mailboxes.length)
          (.addMailbox { capacity := defaultCapacity, handles := 0 } s.client)
          ⟨rfl, rfl⟩ rfl (by simp [Client.addMailbox, Ask.pending])
  | goWith a mailbox =>
      by_cases hmailbox : mailbox < s.client.mailboxes.length
      · simpa [notices, perform, hmailbox, Ask.pending] using
          Change.issued s.receiver (a.pending mailbox) (.refl s.client) ⟨rfl, rfl⟩ rfl hmailbox
      · simpa [notices, perform, hmailbox] using .mailboxes _ (.refl _)
  | call a => exact .mailboxes _ (.refl _)
  | completion capacity =>
      cases hopened : s.client.completion capacity with
      | error error => simpa [notices, perform, hopened] using .mailboxes _ (.refl _)
      | ok opened => simpa [notices, perform, hopened] using .mailboxes _ (.completion hopened)
  | take mailbox =>
      cases htaken : s.client.takeCall mailbox with
      | none => simpa [notices, perform, htaken] using .mailboxes _ (.refl _)
      | some taken => simpa [notices, perform, htaken] using .mailboxes _ (.takeCall htaken)
  | dropHandle mailbox => exact .mailboxes _ (.updateMailbox mailbox _ _)
  | deafen mailbox => exact .mailboxes _ (.updateMailbox mailbox _ _)
  | task t now =>
      cases t with
      | receiver => exact change_of_stepReceiver now s
      | writer seq => exact change_of_stepWriter seq now s
      | caller place => exact change_of_stepCaller hhonest place now
  | close =>
      cases hover : s.client.isOver with
      | true => simpa [notices, perform, beginClose, Client.beginClose, hover] using
          .mailboxes _ (.refl _)
      | false => simpa [notices, perform, beginClose, Client.beginClose, hover] using
          .closed _ hover
  | hangUp =>
      simp only [perform, stepClose]
      split <;> exact .mailboxes _ (.refl _)
  | outside event => exact .mailboxes _ (.refl _)

/-! ## What is not taken back -/

/-- Whatever was set stays, and a client that is over takes nothing on. -/
structure Onward (c c' : Client) : Prop where
  shutdown : c.shutdown = true → c'.shutdown = true
  closing : c.closing = true → c'.closing = true
  nextSeq : c.isOver = true → c'.nextSeq = c.nextSeq
  table : c.isOver = true → c'.table.Sublist c.table

namespace Onward

variable {c c' c'' : Client}

/-- Nothing that counts is different, but for the two flags. -/
theorem of_same (hshutdown : c.shutdown = true → c'.shutdown = true)
    (hclosing : c.closing = true → c'.closing = true) (hnext : c'.nextSeq = c.nextSeq)
    (htable : c'.table.Sublist c.table) : Onward c c' :=
  ⟨hshutdown, hclosing, fun _ => hnext, fun _ => htable⟩

theorem isOver (h : Onward c c') (hover : c.isOver = true) : c'.isOver = true := by
  rw [Client.isOver, Bool.or_eq_true] at hover ⊢
  exact hover.imp h.shutdown h.closing

theorem trans (h : Onward c c') (h' : Onward c' c'') : Onward c c'' where
  shutdown hshutdown := h'.shutdown (h.shutdown hshutdown)
  closing hclosing := h'.closing (h.closing hclosing)
  nextSeq hover := (h'.nextSeq (h.isOver hover)).trans (h.nextSeq hover)
  table hover := (h'.table (h.isOver hover)).trans (h.table hover)

theorem alike (h : c.Alike c') : Onward c c' := by
  refine of_same ?_ ?_ h.nextSeq (by rw [h.table])
  · rw [h.shutdown]
    exact id
  · rw [h.closing]
    exact id

theorem finish (p : Pending) (outcome : Except CallError Wire.Value) (c : Client) :
    Onward c (c.finish p outcome) := by
  obtain ⟨htable, hnext, hshutdown, hclosing, _⟩ := c.frame_finish p outcome
  refine of_same ?_ ?_ hnext (by rw [htable])
  · rw [hshutdown]
    exact id
  · rw [hclosing]
    exact id

theorem stop (error : CallError) (c : Client) : Onward c (c.stop error) := by
  obtain ⟨htable, hnext, hshutdown, hclosing, _⟩ := c.frame_stop error
  refine of_same (fun _ => hshutdown) ?_ hnext (by rw [htable]; exact List.nil_sublist _)
  rw [hclosing]
  exact id

theorem remove {seq : UInt64} {p : Pending} (h : c.remove seq = some (p, c')) : Onward c c' := by
  obtain ⟨_, rfl⟩ := Client.remove_eq_some_iff.mp h
  exact of_same id id rfl List.filter_sublist

theorem writeFailed (seq : UInt64) (error : CallError) (c : Client) :
    Onward c (c.writeFailed seq error) := by
  unfold Client.writeFailed
  cases hremove : c.remove seq with
  | none => exact .alike (.refl c)
  | some found => exact (remove hremove).trans (finish _ _ _)

theorem issue (call : Call) (shape : Wire.Shape) (mailbox : Nat) (c : Client) :
    Onward c (c.issue call shape mailbox).2 := by
  cases hover : c.isOver with
  | true =>
      rw [Client.issue_over hover]
      exact (alike (.updateMailbox mailbox _ c)).trans (finish _ _ _)
  | false =>
      -- The call is registered, which a client that is not over may do.
      rw [Client.issue_open hover]
      refine ⟨id, id, fun h => ?_, fun h => ?_⟩
      · rw [hover] at h
        cases h
      · rw [hover] at h
        cases h

theorem change {ns : List Notice} {r r' : Receiver} (h : Change ns (c, r) (c', r')) :
    Onward c c' := by
  cases h with
  | mailboxes _ halike => exact alike halike
  | turnedAway => exact alike (.refl c)
  | issued _ p halike => exact (alike halike).trans (issue _ _ _ _)
  | unsent _ _ seq error => exact writeFailed seq error c
  | closed => exact of_same id (fun _ => rfl) rfl (List.Sublist.refl _)
  | cancelled => exact stop .eof c
  | noHeader error => exact stop error c
  | unmatched response => exact alike (.log (e := .unknownResponse response.seq) rfl c)
  | matched _ _ _ hsome => exact remove hsome
  | replied p result => exact finish p _ c
  | passed => exact alike (.refl c)
  | notPassed _ error => exact stop error c
  | refuted _ p text => exact finish p _ c
  | refutedLast _ p text error => exact (finish p _ c).trans (stop _ _)

end Onward

omit [Surroundings ω κ] in
/-- The receiver does not close. -/
theorem closing_stepReceiver (now : Nat) (s : Session κ) :
    (s.stepReceiver now).2.client.closing = s.client.closing := by
  have hstep := s.stepReceiver_cases now
  generalize s.readEnding now = failure at hstep
  generalize (s.stepReceiver now).2 = s' at hstep ⊢
  cases hstep with
  | @header response =>
      simp only [route]
      cases hremove : s.client.remove response.seq with
      | none => rfl
      | some found =>
          obtain ⟨p, c⟩ := found
          obtain ⟨_, rfl⟩ := Client.remove_eq_some_iff.mp hremove
          dsimp only
          split <;> rfl
  | ended | headerAwaited | bodyAwaited | discardAwaited | passed => rfl
  | cancelled | noHeader | notPassed | refutedLast => simp [endReceiver]
  | body | refuted => simp

/-! ## Callers -/

/-- Only a new caller and the steps of a caller touch the callers, a caller that
comes to wait does so at a new mailbox, and a caller that is finished stays so. -/
theorem callers_perform (d : Deed ω) (s : Session κ) :
    (s.perform d).callers = s.callers ∨
      (∃ a : Ask, (s.perform d).callers = s.callers ++ [.fresh a.call a.shape]) ∨
      ∃ place caller, (s.perform d).callers = s.callers.set place caller ∧ caller.IsHonest ∧
        (∀ mailbox, caller = .waiting mailbox → s.client.mailboxes.length ≤ mailbox ∧
          mailbox < (s.perform d).client.mailboxes.length) ∧
        ∀ result, s.callers[place]? ≠ some (.finished result) := by
  cases d with
  | go a => exact .inl (by simp [perform, go])
  | goWith a mailbox =>
      refine .inl ?_
      simp only [perform]
      split <;> simp
  | call a => exact .inr (.inl ⟨a, rfl⟩)
  | completion capacity =>
      refine .inl ?_
      simp only [perform]
      split <;> rfl
  | take mailbox =>
      refine .inl ?_
      simp only [perform]
      split <;> rfl
  | dropHandle mailbox => exact .inl rfl
  | deafen mailbox => exact .inl rfl
  | task t now =>
      cases t with
      | receiver =>
          have hstep := s.stepReceiver_cases now
          simp only [perform, step]
          generalize s.readEnding now = failure at hstep
          generalize (s.stepReceiver now).2 = s' at hstep ⊢
          cases hstep with
          | header =>
              refine .inl ?_
              simp only [route]
              split
              · rfl
              · split <;> rfl
          | _ => exact .inl rfl
      | writer seq =>
          have hstep := s.stepWriter_cases seq now
          simp only [perform, step]
          generalize s.writeFailure seq now = failure at hstep
          generalize (s.stepWriter seq now).2 = s' at hstep ⊢
          cases hstep with
          | @written w result => cases result <;> exact .inl rfl
          | _ => exact .inl rfl
      | caller place =>
          have hstep := s.stepCaller_cases place
          simp only [perform, step]
          generalize (s.stepCaller place).2 = s' at hstep ⊢
          cases hstep with
          | turnedAway hcaller =>
              exact .inr (.inr ⟨place, _, rfl, trivial, by simp, by simp [hcaller]⟩)
          | made hcaller =>
              refine .inr (.inr ⟨place, _, rfl, trivial, ?_, by simp [hcaller]⟩)
              rintro mailbox ⟨⟩
              rw [(frame_issue ..).1, Client.length_issue]
              simp [Client.addMailbox]
          | taken hcaller => exact .inr (.inr ⟨place, _, rfl, trivial, by simp, by simp [hcaller]⟩)
          | bereft hcaller => exact .inr (.inr ⟨place, _, rfl, trivial, by simp, by simp [hcaller]⟩)
          | _ => exact .inl rfl
  | close =>
      refine .inl ?_
      cases hover : s.client.isOver <;>
        simp [perform, beginClose, Client.beginClose, hover]
  | hangUp =>
      refine .inl ?_
      simp only [perform, stepClose]
      split <;> rfl
  | outside event => exact .inl rfl

/-- Callers make the calls they asked for. -/
theorem isHonest_perform {s : Session κ} (h : ∀ caller ∈ s.callers, caller.IsHonest)
    (d : Deed ω) : ∀ caller ∈ (s.perform d).callers, caller.IsHonest := by
  intro caller hcaller
  rcases s.callers_perform d with heq | ⟨a, heq⟩ | ⟨place, new, heq, hnew, _⟩
  · rw [heq] at hcaller
    exact h caller hcaller
  · rw [heq, List.mem_append, List.mem_singleton] at hcaller
    rcases hcaller with hold | rfl
    · exact h caller hold
    · exact ⟨⟨rfl, rfl⟩, rfl⟩
  · rw [heq] at hcaller
    rcases List.mem_or_eq_of_mem_set hcaller with hold | rfl
    · exact h caller hold
    · exact hnew

/-- What a caller was told stays. -/
theorem finished_perform {s : Session κ} {place : Nat} {result : Except CallError Wire.Value}
    (h : s.callers[place]? = some (.finished result)) (d : Deed ω) :
    (s.perform d).callers[place]? = some (.finished result) := by
  rcases s.callers_perform d with heq | ⟨a, heq⟩ | ⟨other, new, heq, _, _, hother⟩
  · rw [heq, h]
  · obtain ⟨hlt, _⟩ := List.getElem?_eq_some_iff.mp h
    rw [heq, List.getElem?_append_left hlt, h]
  · -- A caller that is finished takes no step, so it is another one's place.
    have hne : other ≠ place := by
      rintro rfl
      exact hother result h
    rw [heq, List.getElem?_set_ne hne, h]

/-- Whoever is turned away is told that the client is shut down. -/
theorem turnedAway_perform {s : Session κ} {d : Deed ω} {place : Nat}
    (h : place ∈ (s.notices d).filterMap Notice.turnedAway?) :
    (s.perform d).callers[place]? = some (.finished (.error .shutdown)) := by
  cases d with
  | go a => cases hover : s.client.isOver <;> simp [notices, noteCall, hover] at h
  | goWith a mailbox =>
      by_cases hmailbox : mailbox < s.client.mailboxes.length <;>
        cases hover : s.client.isOver <;> simp [notices, noteCall, hmailbox, hover] at h
  | task t now =>
      cases t with
      | receiver => cases hread : s.readEnding now <;> simp [notices, noteStep, hread] at h
      | writer seq =>
          cases hwrite : s.writeFailure seq now <;> simp [notices, noteStep, hwrite] at h
      | caller other =>
          have hstep := s.stepCaller_cases other
          simp only [perform, step]
          generalize (s.stepCaller other).2 = s' at hstep ⊢
          cases hstep with
          | turnedAway hcaller hover =>
              obtain ⟨hlt, _⟩ := List.getElem?_eq_some_iff.mp hcaller
              simp only [notices, noteStep, hcaller, hover, if_true] at h
              obtain rfl : place = other := by simpa using h
              simp [hlt]
          | made hcaller hopen => simp [notices, noteStep, noteCall, hcaller, hopen] at h
          | absent hcaller => simp [notices, noteStep, hcaller] at h
          | taken hcaller => simp [notices, noteStep, hcaller] at h
          | bereft hcaller => simp [notices, noteStep, hcaller] at h
          | awaited hcaller => simp [notices, noteStep, hcaller] at h
          | finished hcaller => simp [notices, noteStep, hcaller] at h
  | call | completion | take | dropHandle | deafen | close | hangUp | outside =>
      simp [notices] at h

end Session

namespace History

variable {ω κ : Type} [Codec κ] [Surroundings ω κ]

theorem isHonest_run (codec : κ) (deeds : List (Deed ω)) :
    ∀ caller ∈ (run codec deeds).session.callers, caller.IsHonest := by
  refine run_induction
    (motive := fun h => ∀ caller ∈ h.session.callers, caller.IsHonest) codec ?_ ?_ deeds
  · intro caller hcaller
    cases hcaller
  · intro h d hhonest
    exact Session.isHonest_perform hhonest d

theorem turnedAway_run (codec : κ) (deeds : List (Deed ω)) :
    ∀ place ∈ (run codec deeds).turnedAway,
      (run codec deeds).session.callers[place]? = some (.finished (.error .shutdown)) := by
  refine run_induction
    (motive := fun h => ∀ place ∈ h.turnedAway,
      h.session.callers[place]? = some (.finished (.error .shutdown))) codec ?_ ?_ deeds
  · intro place hplace
    cases hplace
  · intro h d ih place hplace
    rw [History.turnedAway_perform, List.mem_append] at hplace
    rcases hplace with hold | hnew
    · exact Session.finished_perform (ih place hold) d
    · exact Session.turnedAway_perform hnew

end History

end Switchboard
