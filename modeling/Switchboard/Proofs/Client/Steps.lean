import Switchboard.Proofs.Client.History

/-!
# What each task can do in one step

The steps of the receiver and of a writer have many branches. Here each is said
once, as a list of what the step can be, with everything that was found on the
way: what the codec answered, what the flags said, who had the lock. Proofs
about steps go through these lists and do not open the steps themselves.
-/

namespace Switchboard.Session

variable {ω κ : Type} [Codec κ] [Surroundings ω κ]

/-! ## The receiver -/

omit [Codec κ] in
/-- Where an answer goes is a matter of the client and the receiver. -/
theorem frame_route (response : Wire.Response) (s : Session κ) :
    (s.route response).codec = s.codec ∧ (s.route response).writers = s.writers ∧
      (s.route response).lock = s.lock ∧ (s.route response).callers = s.callers := by
  unfold route
  split
  · exact ⟨rfl, rfl, rfl, rfl⟩
  · split <;> exact ⟨rfl, rfl, rfl, rfl⟩

/-- One step of the receiver, with the failure of the read that it ends if it
ends one. -/
inductive ReceiverStep (now : Nat) (s : Session κ) :
    Option (Option CallError) → Session κ → Prop where
  | ended (hreceiver : s.receiver = .ended) : ReceiverStep now s none s
  /-- The wait for a header is over because the owner closed. -/
  | cancelled (hreceiver : s.receiver = .header) (hclosing : s.client.closing = true) :
      ReceiverStep now s none ({ s with codec := Codec.cancelRead s.codec }.endReceiver .eof).2
  | headerAwaited {poll : Poll (Except CallError Wire.Response)} {codec : κ}
      (hreceiver : s.receiver = .header) (hclosing : s.client.closing = false)
      (hread : Codec.readHeader now s.codec = (poll, codec)) (hpoll : ending poll = none) :
      ReceiverStep now s none { s with codec }
  | header {response : Wire.Response} {codec : κ}
      (hreceiver : s.receiver = .header) (hclosing : s.client.closing = false)
      (hread : Codec.readHeader now s.codec = (.done (.ok response), codec)) :
      ReceiverStep now s (some none) ({ s with codec }.route response)
  | noHeader {error : CallError} {codec : κ}
      (hreceiver : s.receiver = .header) (hclosing : s.client.closing = false)
      (hread : Codec.readHeader now s.codec = (.done (.error error), codec)) :
      ReceiverStep now s (some (some error)) ({ s with codec }.endReceiver error).2
  | bodyAwaited {p : Pending} {poll : Poll (Except CallError Wire.Value)} {codec : κ}
      (hreceiver : s.receiver = .body p)
      (hread : Codec.readBody p.shape now s.codec = (poll, codec)) (hpoll : ending poll = none) :
      ReceiverStep now s none { s with codec }
  | body {p : Pending} {result : Except CallError Wire.Value} {codec : κ}
      (hreceiver : s.receiver = .body p)
      (hread : Codec.readBody p.shape now s.codec = (.done result, codec)) :
      ReceiverStep now s (ending (.done result))
        { s with codec, client := s.client.finish p (result.mapError .readingBody)
                 receiver := .header }
  | discardAwaited {poll : Poll (Except CallError Unit)} {codec : κ}
      (hreceiver : s.receiver = .unknown ∨ ∃ p text, s.receiver = .errorBody p text)
      (hread : Codec.discardBody now s.codec = (poll, codec)) (hpoll : ending poll = none) :
      ReceiverStep now s none { s with codec }
  | passed {codec : κ} (hreceiver : s.receiver = .unknown)
      (hread : Codec.discardBody now s.codec = (.done (.ok ()), codec)) :
      ReceiverStep now s (some none) { s with codec, receiver := .header }
  | notPassed {error : CallError} {codec : κ} (hreceiver : s.receiver = .unknown)
      (hread : Codec.discardBody now s.codec = (.done (.error error), codec)) :
      ReceiverStep now s (some (some error)) ({ s with codec }.endReceiver error).2
  | refuted {p : Pending} {text : String} {codec : κ} (hreceiver : s.receiver = .errorBody p text)
      (hread : Codec.discardBody now s.codec = (.done (.ok ()), codec)) :
      ReceiverStep now s (some none)
        { s with codec, client := s.client.finish p (.error (.server text)), receiver := .header }
  | refutedLast {p : Pending} {text : String} {error : CallError} {codec : κ}
      (hreceiver : s.receiver = .errorBody p text)
      (hread : Codec.discardBody now s.codec = (.done (.error error), codec)) :
      ReceiverStep now s (some (some error))
        ({ s with codec, client := s.client.finish p (.error (.server text)) }.endReceiver
          (.readingErrorBody error)).2

theorem stepReceiver_cases (now : Nat) (s : Session κ) :
    ReceiverStep now s (s.readEnding now) (s.stepReceiver now).2 := by
  obtain ⟨client, codec, receiver, writers, lock, callers⟩ := s
  cases receiver with
  | ended => exact .ended rfl
  | header =>
      cases hclosing : client.closing with
      | true => simpa [readEnding, stepReceiver, hclosing] using .cancelled rfl hclosing
      | false =>
          rcases hread : Codec.readHeader now codec with ⟨_ | _ | error | response, codec'⟩
          · simpa [readEnding, stepReceiver, hclosing, hread] using
              .headerAwaited rfl hclosing hread rfl
          · simpa [readEnding, stepReceiver, hclosing, hread] using
              .headerAwaited rfl hclosing hread rfl
          · simpa [readEnding, stepReceiver, hclosing, hread] using .noHeader rfl hclosing hread
          · simpa [readEnding, stepReceiver, hclosing, hread] using .header rfl hclosing hread
  | body p =>
      rcases hread : Codec.readBody p.shape now codec with ⟨_ | _ | result, codec'⟩
      · simpa [readEnding, stepReceiver, hread] using .bodyAwaited rfl hread rfl
      · simpa [readEnding, stepReceiver, hread] using .bodyAwaited rfl hread rfl
      · simpa [readEnding, stepReceiver, hread] using .body rfl hread
  | unknown =>
      rcases hread : Codec.discardBody now codec with ⟨_ | _ | error | _, codec'⟩
      · simpa [readEnding, stepReceiver, hread] using .discardAwaited (.inl rfl) hread rfl
      · simpa [readEnding, stepReceiver, hread] using .discardAwaited (.inl rfl) hread rfl
      · simpa [readEnding, stepReceiver, hread] using .notPassed rfl hread
      · simpa [readEnding, stepReceiver, hread] using .passed rfl hread
  | errorBody p text =>
      rcases hread : Codec.discardBody now codec with ⟨_ | _ | error | _, codec'⟩
      · simpa [readEnding, stepReceiver, hread] using
          .discardAwaited (.inr ⟨p, text, rfl⟩) hread rfl
      · simpa [readEnding, stepReceiver, hread] using
          .discardAwaited (.inr ⟨p, text, rfl⟩) hread rfl
      · simpa [readEnding, stepReceiver, hread] using .refutedLast rfl hread
      · simpa [readEnding, stepReceiver, hread] using .refuted rfl hread

/-- When reading is over, the receiver does nothing. -/
theorem stepReceiver_ended {s : Session κ} (h : s.receiver = .ended) (now : Nat) :
    s.readEnding now = none ∧ (s.stepReceiver now).2 = s := by
  rw [readEnding, stepReceiver, h]
  exact ⟨rfl, rfl⟩

/-! ## A writer -/

/-- One step of the writer of a request, with the failure with which it ends the
writing if it ends it so. -/
inductive WriterStep (seq : UInt64) (now : Nat) (s : Session κ) :
    Option CallError → Session κ → Prop where
  | absent (hfind : s.writers.find? (·.request.seq = seq) = none) : WriterStep seq now s none s
  | asked {w : Writer} (hfind : s.writers.find? (·.request.seq = seq) = some w)
      (hqueued : w.queued = false) :
      WriterStep seq now s none
        ({ s with lock := s.lock.ask (.writer seq) }.updateWriter seq ({ · with queued := true }))
  | queued {w : Writer} (hfind : s.writers.find? (·.request.seq = seq) = some w)
      (hqueued : w.queued = true) (hholder : s.lock.holder ≠ some (.writer seq)) :
      WriterStep seq now s none s
  /-- With the lock, the client was found to be over. -/
  | refused {w : Writer} (hfind : s.writers.find? (·.request.seq = seq) = some w)
      (hqueued : w.queued = true) (hholder : s.lock.holder = some (.writer seq))
      (hbegun : w.begun = false) (hover : s.client.isOver = true) :
      WriterStep seq now s (some .shutdown) (s.endWriter seq (.error .shutdown)).2
  | begun {w : Writer} (hfind : s.writers.find? (·.request.seq = seq) = some w)
      (hqueued : w.queued = true) (hholder : s.lock.holder = some (.writer seq))
      (hbegun : w.begun = false) (hopen : s.client.isOver = false) :
      WriterStep seq now s none (s.updateWriter seq ({ · with begun := true }))
  /-- The owner closed while the request was being written. -/
  | cancelled {w : Writer} (hfind : s.writers.find? (·.request.seq = seq) = some w)
      (hqueued : w.queued = true) (hholder : s.lock.holder = some (.writer seq))
      (hbegun : w.begun = true) (hclosing : s.client.closing = true) :
      WriterStep seq now s (some .shutdown)
        ({ s with codec := Codec.cancelWrite s.codec }.endWriter seq (.error .shutdown)).2
  | awaited {w : Writer} {poll : Poll (Except CallError Unit)} {codec : κ}
      (hfind : s.writers.find? (·.request.seq = seq) = some w)
      (hqueued : w.queued = true) (hholder : s.lock.holder = some (.writer seq))
      (hbegun : w.begun = true) (hclosing : s.client.closing = false)
      (hwrite : Codec.write w.request w.args now s.codec = (poll, codec))
      (hpoll : ending poll = none) :
      WriterStep seq now s none { s with codec }
  | written {w : Writer} {result : Except CallError Unit} {codec : κ}
      (hfind : s.writers.find? (·.request.seq = seq) = some w)
      (hqueued : w.queued = true) (hholder : s.lock.holder = some (.writer seq))
      (hbegun : w.begun = true) (hclosing : s.client.closing = false)
      (hwrite : Codec.write w.request w.args now s.codec = (.done result, codec)) :
      WriterStep seq now s (ending (.done result)).join ({ s with codec }.endWriter seq result).2

theorem stepWriter_cases (seq : UInt64) (now : Nat) (s : Session κ) :
    WriterStep seq now s (s.writeFailure seq now) (s.stepWriter seq now).2 := by
  cases hfind : s.writers.find? (·.request.seq = seq) with
  | none => simpa [writeFailure, stepWriter, hfind] using .absent hfind
  | some w =>
      cases hqueued : w.queued with
      | false => simpa [writeFailure, stepWriter, hfind, hqueued] using .asked hfind hqueued
      | true =>
          by_cases hholder : s.lock.holder = some (.writer seq)
          · cases hbegun : w.begun with
            | false =>
                cases hover : s.client.isOver with
                | true =>
                    simpa [writeFailure, stepWriter, hfind, hqueued, hholder, hbegun, hover] using
                      .refused hfind hqueued hholder hbegun hover
                | false =>
                    simpa [writeFailure, stepWriter, hfind, hqueued, hholder, hbegun, hover] using
                      .begun hfind hqueued hholder hbegun hover
            | true =>
                cases hclosing : s.client.closing with
                | true =>
                    simpa [writeFailure, stepWriter, hfind, hqueued, hholder, hbegun, hclosing]
                      using .cancelled hfind hqueued hholder hbegun hclosing
                | false =>
                    rcases hwrite : Codec.write w.request w.args now s.codec with
                      ⟨_ | _ | result, codec⟩
                    · simpa [writeFailure, stepWriter, hfind, hqueued, hholder, hbegun, hclosing,
                        hwrite] using .awaited hfind hqueued hholder hbegun hclosing hwrite rfl
                    · simpa [writeFailure, stepWriter, hfind, hqueued, hholder, hbegun, hclosing,
                        hwrite] using .awaited hfind hqueued hholder hbegun hclosing hwrite rfl
                    · simpa [writeFailure, stepWriter, hfind, hqueued, hholder, hbegun, hclosing,
                        hwrite] using .written hfind hqueued hholder hbegun hclosing hwrite
          · simpa [writeFailure, stepWriter, hfind, hqueued, hholder] using
              .queued hfind hqueued hholder

omit [Surroundings ω κ] in
/-- Only a writer reports that a request is not written. -/
theorem exists_writer_of_unsent {s : Session κ} {d : Deed ω} {seq : UInt64} {error : CallError}
    (h : .unsent seq error ∈ s.notices d) :
    ∃ now, d = .task (.writer seq) now ∧ s.writeFailure seq now = some error := by
  have hcall (p : Pending) (c : Client) : .unsent seq error ≠ noteCall p c := by
    unfold noteCall
    split <;> exact nofun
  cases d with
  | go a => exact absurd (List.mem_singleton.mp h) (hcall _ _)
  | goWith a mailbox =>
      simp only [notices] at h
      split at h
      · exact absurd (List.mem_singleton.mp h) (hcall _ _)
      · cases h
  | task t now =>
      cases t with
      | receiver => cases hread : s.readEnding now <;> simp [notices, noteStep, hread] at h
      | writer other =>
          simp only [notices, noteStep, Option.mem_toList, Option.map_eq_some_iff] at h
          obtain ⟨_, hfailure, heq⟩ := h
          cases heq
          exact ⟨now, rfl, hfailure⟩
      | caller place =>
          simp only [notices, noteStep] at h
          split at h
          · split at h
            · cases List.mem_singleton.mp h
            · exact absurd (List.mem_singleton.mp h) (hcall _ _)
          · cases h
  | call | completion | take | dropHandle | deafen | close | hangUp | outside => cases h

/-! ## A caller -/

/-- One step of the caller at a place. -/
inductive CallerStep (place : Nat) (s : Session κ) : Session κ → Prop where
  | absent (hcaller : s.callers[place]? = none) : CallerStep place s s
  | turnedAway {call : Call} {shape : Wire.Shape}
      (hcaller : s.callers[place]? = some (.fresh call shape)) (hover : s.client.isOver = true) :
      CallerStep place s { s with callers := s.callers.set place (.finished (.error .shutdown)) }
  | made {call : Call} {shape : Wire.Shape}
      (hcaller : s.callers[place]? = some (.fresh call shape)) (hopen : s.client.isOver = false) :
      CallerStep place s
        { { s with client := (s.client.addMailbox { capacity := 1, handles := 0 }).2 }.issue
            call shape s.client.mailboxes.length with
          callers := s.callers.set place (.waiting s.client.mailboxes.length) }
  | taken {mailbox : Nat} {call : Call} {client : Client}
      (hcaller : s.callers[place]? = some (.waiting mailbox))
      (htake : s.client.takeCall mailbox = some (call, client)) :
      CallerStep place s
        { s with client, callers := s.callers.set place (.finished call.result) }
  /-- Nothing more can come to the mailbox. -/
  | bereft {mailbox : Nat} (hcaller : s.callers[place]? = some (.waiting mailbox))
      (htake : s.client.takeCall mailbox = none)
      (hclosed : s.client.isClosed mailbox = true) :
      CallerStep place s { s with callers := s.callers.set place (.finished (.error .shutdown)) }
  | awaited {mailbox : Nat} (hcaller : s.callers[place]? = some (.waiting mailbox))
      (htake : s.client.takeCall mailbox = none)
      (hclosed : s.client.isClosed mailbox = false) : CallerStep place s s
  | finished {result : Except CallError Wire.Value}
      (hcaller : s.callers[place]? = some (.finished result)) : CallerStep place s s

omit [Codec κ] in
@[simp] theorem frame_issue (call : Call) (shape : Wire.Shape) (mailbox : Nat) (s : Session κ) :
    (s.issue call shape mailbox).client = (s.client.issue call shape mailbox).2 ∧
      (s.issue call shape mailbox).codec = s.codec ∧
      (s.issue call shape mailbox).receiver = s.receiver ∧
      (s.issue call shape mailbox).lock = s.lock ∧
      (s.issue call shape mailbox).callers = s.callers := by
  unfold issue
  dsimp only
  split <;> exact ⟨rfl, rfl, rfl, rfl, rfl⟩

omit [Codec κ] in
theorem stepCaller_cases (place : Nat) (s : Session κ) :
    CallerStep place s (s.stepCaller place).2 := by
  cases hcaller : s.callers[place]? with
  | none => simpa [stepCaller, hcaller] using .absent hcaller
  | some caller =>
      cases caller with
      | fresh call shape =>
          cases hover : s.client.isOver with
          | true => simpa [stepCaller, hcaller, hover] using .turnedAway hcaller hover
          | false =>
              simpa [stepCaller, hcaller, hover, Client.addMailbox] using
                CallerStep.made hcaller hover
      | waiting mailbox =>
          cases htake : s.client.takeCall mailbox with
          | some taken =>
              obtain ⟨call, client⟩ := taken
              simpa [stepCaller, hcaller, htake] using .taken hcaller htake
          | none =>
              cases hclosed : s.client.isClosed mailbox with
              | true =>
                  simpa [stepCaller, hcaller, htake, hclosed] using .bereft hcaller htake hclosed
              | false =>
                  simpa [stepCaller, hcaller, htake, hclosed] using .awaited hcaller htake hclosed
      | finished result => simpa [stepCaller, hcaller] using .finished hcaller

end Switchboard.Session
