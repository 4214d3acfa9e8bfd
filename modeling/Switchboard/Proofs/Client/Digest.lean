import Switchboard.Proofs.Client.Closing
import Switchboard.Proofs.Frame.Arrival

/-!
# Frame by frame

A client that speaks in frames over a scripted connection. Whatever the pieces
in which octets arrive and whenever its receiver is given a turn, what becomes
of its calls is decided by whole frames alone: `digest` says what one frame does
and `breakOff` what a failure does in place of a frame. Every step of the
receiver is one of the two, or it is on its way to one and changes nothing but
how far the read has come (`receiverReads`).
-/

namespace Switchboard

open Session (Deed Notice)

/-! ## What happens outside -/

/-- What can happen to a scripted connection while a client works on it. -/
inductive Script.Twist where
  /-- More comes behind what there is to read. -/
  | arrive (more : List Incoming)
  /-- The other side changes how much it takes. -/
  | accept (credit : Option Nat) (whenFull : WhenFull)
  /-- Flushing and ending the writing fail from here on, or do not. -/
  | plan (flushError shutError : Option IoError)

def Script.Twist.apply : Script.Twist → Script → Script
  | .arrive more, link => link.feed more
  | .accept credit whenFull, link => { link with credit, whenFull }
  | .plan flushError shutError, link => { link with flushError, shutError }

instance : Surroundings Script.Twist (Framed Script) where
  act twist f := { f with link := twist.apply f.link }

/-- What comes behind what there is to read. -/
def Session.Deed.arrivals : Deed Script.Twist → List Incoming
  | .outside (.arrive more) => more
  | _ => []

/-! ## What a frame does -/

/-- A frame was read. -/
def digest (payload : ByteArray) : Client × Receiver → Client × Receiver
  | (c, .header) =>
      match Wire.Response.decode payload with
      | .error fault => (c.stop (.transport (.decode fault)), .ended)
      | .ok response =>
          match c.remove response.seq with
          | none => (c.log (.unknownResponse response.seq), .unknown)
          | some (p, c) => (c, .answering p response)
  | (c, .body p) =>
      (c.finish p ((Wire.decode p.shape payload).mapError
        (.readingBody <| .transport <| .decode ·)), .header)
  | (c, .unknown) => (c, .header)
  | (c, .errorBody p text) => (c.finish p (.error (.server text)), .header)
  | (c, .ended) => (c, .ended)

/-- A frame was not read. -/
def breakOff (error : CallError) : Client × Receiver → Client × Receiver
  | (c, .header) => (c.stop error, .ended)
  | (c, .body p) => (c.finish p (.error (.readingBody error)), .header)
  | (c, .unknown) => (c.stop error, .ended)
  | (c, .errorBody p text) =>
      ((c.finish p (.error (.server text))).stop (.readingErrorBody error), .ended)
  | (c, .ended) => (c, .ended)

/-- Only when a reply is not read does the receiver go on. -/
theorem receiver_breakOff (error : CallError) (c : Client) {r : Receiver}
    (hr : ∀ p, r ≠ .body p) : (breakOff error (c, r)).2 = .ended := by
  cases r with
  | body p => exact absurd rfl (hr p)
  | header | unknown | errorBody | ended => rfl

/-- Whether the receiver skips the frame that it reads. -/
def Receiver.skips : Receiver → Bool
  | .unknown | .errorBody .. => true
  | .header | .body _ | .ended => false

section Decoded

variable {β : Type} {decoded : Except DecodeFault β}

/-- A read gives the value that its payload was decoded to. -/
theorem ok_of_decoded {value : β}
    (h : .ok value = (decoded.mapError LinkError.decode).mapError CallError.ofLink) :
    decoded = .ok value := by
  cases decoded with
  | error fault => cases h
  | ok found =>
      cases h
      rfl

theorem error_of_decoded {error : CallError}
    (h : .error error = (decoded.mapError LinkError.decode).mapError CallError.ofLink) :
    ∃ fault, decoded = .error fault ∧ error = .transport (.decode fault) := by
  cases decoded with
  | error fault =>
      cases h
      exact ⟨fault, rfl, rfl⟩
  | ok found => cases h

end Decoded

namespace Session

variable {s : Session (Framed Script)} {limit : Nat} {taken : Octets}

/-- One step of a receiver whose read has taken some octets. -/
inductive ReceiverReads (limit : Nat) (taken : Octets) (s : Session (Framed Script)) :
    Option (Option CallError) → Session (Framed Script) → Prop where
  | ended (hreceiver : s.receiver = .ended) : ReceiverReads limit taken s none s
  /-- The wait for a header is over because the owner closed. -/
  | cancelled {s' : Session (Framed Script)} (hreceiver : s.receiver = .header)
      (hclosing : s.client.closing = true) (htook : s.codec.Took [] s'.codec)
      (hclient : (s'.client, s'.receiver) = (s.client.stop .eof, .ended)) :
      ReceiverReads limit taken s none s'
  | awaited {s' : Session (Framed Script)} (got : Octets)
      (hopen : s.receiver = .header → s.client.closing = false)
      (htook : s.codec.Took got s'.codec)
      (hreads : s'.codec.Reads limit s.receiver.skips (taken ++ got))
      (hmoves : Incoming.Delivered s.codec.link.incoming →
        0 < got.length ∨ s.codec.inbound.reading = none ∧ s'.codec.inbound.reading ≠ none)
      (hclient : (s'.client, s'.receiver) = (s.client, s.receiver)) :
      ReceiverReads limit taken s none s'
  | frame {s' : Session (Framed Script)} (got : Octets) (payload : ByteArray)
      (failure : Option CallError)
      (hfailure : ∀ error, failure = some error → ∃ fault, error = .transport (.decode fault))
      (hopen : s.receiver = .header → s.client.closing = false)
      (hwhole : s.codec.Completes limit taken got payload s'.codec)
      (hclient : (s'.client, s'.receiver) = digest payload (s.client, s.receiver)) :
      ReceiverReads limit taken s (some failure) s'
  | broken {s' : Session (Framed Script)} {codec : Framed Script} (error : LinkError)
      (hopen : s.receiver = .header → s.client.closing = false)
      (hread : Framed.ReadStep limit s.receiver.skips taken s.codec (.done (.error error)) codec)
      (hcodec : codec.SameInbound s'.codec) (hidle : s'.codec.IsIdle limit)
      (hclient : (s'.client, s'.receiver) = breakOff (.ofLink error) (s.client, s.receiver)) :
      ReceiverReads limit taken s (some (some (.ofLink error))) s'

/-- A read of a frame, and what is made of it. -/
theorem receive_cases {α : Type} {skip : Bool} {f f' : Framed Script} {now : Nat}
    {convert : Received → Except LinkError α} {poll : Poll (Except CallError α)}
    (h : f.Reads limit skip taken) (hread : f.receive (.ofSkip skip) convert now = (poll, f')) :
    (ending poll = none ∧ ∃ got, f.Took got f' ∧ f'.Reads limit skip (taken ++ got) ∧
        (Incoming.Delivered f.link.incoming →
          0 < got.length ∨ f.inbound.reading = none ∧ f'.inbound.reading ≠ none)) ∨
      (∃ got payload, f.Completes limit taken got payload f' ∧
        poll = .done ((convert (.ofPayload skip payload)).mapError .ofLink)) ∨
      ∃ error, Framed.ReadStep limit skip taken f (.done (.error error)) f' ∧
        f'.IsIdle limit ∧ poll = .done (.error (.ofLink error)) := by
  have hstep := Framed.read_cases h now
  have hsplit : poll = (f.read (.ofSkip skip) now).1.map
      (fun result => (result.bind convert).mapError .ofLink) ∧
      f' = (f.read (.ofSkip skip) now).2 := by
    simp only [Framed.receive] at hread
    exact ⟨(congrArg Prod.fst hread).symm, (congrArg Prod.snd hread).symm⟩
  obtain ⟨rfl, rfl⟩ := hsplit
  generalize hf' : (f.read (.ofSkip skip) now).2 = f' at hstep
  generalize (f.read (.ofSkip skip) now).1 = poll at hstep
  cases hstep with
  | awaited got hpoll htook hreads hmoves =>
      left
      refine ⟨?_, got, htook, hreads, hmoves⟩
      rcases hpoll with rfl | rfl <;> rfl
  | whole got payload hwhole => exact .inr (.inl ⟨got, payload, hwhole, rfl⟩)
  | tooLarge got length hgot htook hfed hidle =>
      exact .inr (.inr ⟨_, .tooLarge got length hgot htook hfed hidle, hidle, rfl⟩)
  | ended p htook hfed hend hreading hidle =>
      exact .inr (.inr ⟨_, .ended p htook hfed hend hreading hidle, hidle, rfl⟩)
  | failed p error hfailure htook hfed hidle =>
      exact .inr (.inr ⟨_, .failed p error hfailure htook hfed hidle, hidle, rfl⟩)
  | timeout p hsilent htook hfed hidle =>
      exact .inr (.inr ⟨_, .timeout p hsilent htook hfed hidle, hidle, rfl⟩)

theorem ending_done {α : Type} (result : Except CallError α) :
    ∃ failure, ending (.done result) = some failure := by
  cases result with
  | error error => exact ⟨some error, rfl⟩
  | ok value => exact ⟨none, rfl⟩

/-- An attempt that is not over leaves the read on its way. -/
theorem reads_of_awaited {α : Type} {skip : Bool} {f f' : Framed Script} {now : Nat}
    {convert : Received → Except LinkError α} {poll : Poll (Except CallError α)}
    (h : f.Reads limit skip taken) (hread : f.receive (.ofSkip skip) convert now = (poll, f'))
    (hpoll : ending poll = none) :
    ∃ got, f.Took got f' ∧ f'.Reads limit skip (taken ++ got) ∧
      (Incoming.Delivered f.link.incoming →
        0 < got.length ∨ f.inbound.reading = none ∧ f'.inbound.reading ≠ none) := by
  rcases receive_cases h hread with ⟨_, hgot⟩ | ⟨_, _, _, rfl⟩ | ⟨_, _, _, rfl⟩
  · exact hgot
  · obtain ⟨failure, hending⟩ := ending_done _
    rw [hending] at hpoll
    cases hpoll
  · cases hpoll

/-- An attempt that is over has read a whole frame, or none. -/
theorem reads_of_done {α : Type} {skip : Bool} {f f' : Framed Script} {now : Nat}
    {convert : Received → Except LinkError α} {result : Except CallError α}
    (h : f.Reads limit skip taken)
    (hread : f.receive (.ofSkip skip) convert now = (.done result, f')) :
    (∃ got payload, f.Completes limit taken got payload f' ∧
      result = (convert (.ofPayload skip payload)).mapError .ofLink) ∨
    ∃ error, Framed.ReadStep limit skip taken f (.done (.error error)) f' ∧
      f'.IsIdle limit ∧ result = .error (.ofLink error) := by
  rcases receive_cases h hread with ⟨hpoll, _⟩ | ⟨got, payload, hwhole, hpoll⟩ |
    ⟨error, hstep, hidle, hpoll⟩
  · obtain ⟨failure, hending⟩ := ending_done result
    rw [hending] at hpoll
    cases hpoll
  · exact .inl ⟨got, payload, hwhole, Poll.done.inj hpoll⟩
  · exact .inr ⟨error, hstep, hidle, Poll.done.inj hpoll⟩

theorem digest_of_response {payload : ByteArray} {response : Wire.Response}
    (h : Wire.Response.decode payload = .ok response) (s : Session (Framed Script)) :
    ((s.route response).client, (s.route response).receiver) =
      digest payload (s.client, .header) := by
  simp only [digest, h, route, Receiver.answering]
  cases s.client.remove response.seq with
  | none => rfl
  | some found => cases response.remoteError <;> rfl

namespace ReceiverReads

variable {α : Type} {convert : Received → Except LinkError α} {r : Receiver} {now : Nat}

/-- A read that is not over leaves everything else as it was. -/
theorem of_awaited {poll : Poll (Except CallError α)} {codec : Framed Script}
    (h : s.receiver ≠ .ended → s.codec.Reads limit s.receiver.skips taken)
    (hreceiver : s.receiver = r) (hr : r ≠ .ended)
    (hopen : r = .header → s.client.closing = false)
    (hread : s.codec.receive (.ofSkip r.skips) convert now = (poll, codec))
    (hpoll : ending poll = none) : ReceiverReads limit taken s none { s with codec } := by
  subst hreceiver
  obtain ⟨got, htook, hreads, hmoves⟩ := reads_of_awaited (h hr) hread hpoll
  exact .awaited got hopen htook hreads hmoves rfl

/-- A read that is over has found a frame, of which only the conversion of its
payload is left, or it has failed as the connection did. -/
theorem of_done {result : Except CallError α} {codec : Framed Script}
    {s' : Session (Framed Script)} {failure : Option CallError}
    (h : s.receiver ≠ .ended → s.codec.Reads limit s.receiver.skips taken)
    (hreceiver : s.receiver = r) (hr : r ≠ .ended)
    (hopen : r = .header → s.client.closing = false)
    (hread : s.codec.receive (.ofSkip r.skips) convert now = (.done result, codec))
    (hcodec : codec.SameInbound s'.codec)
    (hframe : ∀ payload, result = (convert (.ofPayload r.skips payload)).mapError .ofLink →
      (∀ error, failure = some error → ∃ fault, error = .transport (.decode fault)) ∧
        (s'.client, s'.receiver) = digest payload (s.client, r))
    (hbroken : ∀ error, result = .error (.ofLink error) →
      failure = some (.ofLink error) ∧
        (s'.client, s'.receiver) = breakOff (.ofLink error) (s.client, r)) :
    ReceiverReads limit taken s (some failure) s' := by
  subst hreceiver
  rcases reads_of_done (h hr) hread with ⟨got, payload, hwhole, hresult⟩ |
    ⟨error, hstep, hidle, hresult⟩
  · obtain ⟨hfailure, hclient⟩ := hframe payload hresult
    exact .frame got payload failure hfailure hopen (hwhole.trans_same hcodec) hclient
  · obtain ⟨rfl, hclient⟩ := hbroken error hresult
    exact .broken error hopen hstep hcodec (hidle.of_same hcodec) hclient

end ReceiverReads

/-- A payload of the wrong form is a failure of its decoding. -/
theorem exists_fault {fault : DecodeFault} {failure : CallError}
    (h : some (.transport (.decode fault)) = some failure) :
    ∃ fault, failure = .transport (.decode fault) :=
  ⟨fault, (Option.some.inj h).symm⟩

/-- Every step of the receiver is on the way to a frame, or it digests one, or
it breaks off. -/
theorem receiverReads (h : s.receiver ≠ .ended → s.codec.Reads limit s.receiver.skips taken)
    (now : Nat) : ReceiverReads limit taken s (s.readEnding now) (s.stepReceiver now).2 := by
  have hstep := s.stepReceiver_cases now
  generalize s.readEnding now = failure at hstep
  generalize (s.stepReceiver now).2 = s' at hstep ⊢
  cases hstep with
  | ended hreceiver => exact .ended hreceiver
  | cancelled hreceiver hclosing =>
      exact .cancelled hreceiver hclosing (.of_same rfl rfl) rfl
  | headerAwaited hreceiver hclosing hread hpoll =>
      exact .of_awaited h hreceiver (by simp) (fun _ => hclosing) hread hpoll
  | @header response codec hreceiver hclosing hread =>
      refine .of_done h hreceiver (by simp) (fun _ => hclosing) hread ?_ ?_ ?_
      · rw [(frame_route _ _).1]
        exact ⟨rfl, rfl⟩
      · intro payload hresult
        have hdecode : Wire.Response.decode payload = .ok response := ok_of_decoded hresult
        exact ⟨by simp, digest_of_response hdecode { s with codec }⟩
      · intro error hresult
        cases hresult
  | @noHeader error codec hreceiver hclosing hread =>
      refine .of_done h hreceiver (by simp) (fun _ => hclosing) hread ⟨rfl, rfl⟩ ?_ ?_
      · intro payload hresult
        obtain ⟨fault, hdecode, rfl⟩ :
            ∃ fault, Wire.Response.decode payload = .error fault ∧
              error = .transport (.decode fault) := error_of_decoded hresult
        rw [digest, hdecode]
        exact ⟨fun _ => exists_fault, rfl⟩
      · intro fault hresult
        cases hresult
        exact ⟨rfl, rfl⟩
  | bodyAwaited hreceiver hread hpoll =>
      exact .of_awaited h hreceiver (by simp) (by simp) hread hpoll
  | @body p result codec hreceiver hread =>
      cases result with
      | ok value =>
          refine .of_done h hreceiver (by simp) (by simp) hread ⟨rfl, rfl⟩ ?_ ?_
          · intro payload hresult
            have hdecode : Wire.decode p.shape payload = .ok value := ok_of_decoded hresult
            rw [digest, hdecode]
            exact ⟨by simp, rfl⟩
          · intro fault hresult
            cases hresult
      | error error =>
          refine .of_done h hreceiver (by simp) (by simp) hread ⟨rfl, rfl⟩ ?_ ?_
          · intro payload hresult
            obtain ⟨fault, hdecode, rfl⟩ :
                ∃ fault, Wire.decode p.shape payload = .error fault ∧
                  error = .transport (.decode fault) := error_of_decoded hresult
            rw [digest, hdecode]
            exact ⟨fun _ => exists_fault, rfl⟩
          · intro fault hresult
            cases hresult
            exact ⟨rfl, rfl⟩
  | discardAwaited hreceiver hread hpoll =>
      -- Two occupations of the receiver are read away in the same way.
      rcases hreceiver with hreceiver | ⟨p, text, hreceiver⟩
      · exact .of_awaited h hreceiver (by simp) (by simp) hread hpoll
      · exact .of_awaited h hreceiver (by simp) (by simp) hread hpoll
  | passed hreceiver hread =>
      refine .of_done h hreceiver (by simp) (by simp) hread ⟨rfl, rfl⟩ ?_ ?_
      · intro payload _
        exact ⟨by simp, rfl⟩
      · intro fault hresult
        cases hresult
  | notPassed hreceiver hread =>
      refine .of_done h hreceiver (by simp) (by simp) hread ⟨rfl, rfl⟩ ?_ ?_
      · intro payload hresult
        cases hresult
      · intro fault hresult
        cases hresult
        exact ⟨rfl, rfl⟩
  | refuted hreceiver hread =>
      refine .of_done h hreceiver (by simp) (by simp) hread ⟨rfl, rfl⟩ ?_ ?_
      · intro payload _
        exact ⟨by simp, rfl⟩
      · intro fault hresult
        cases hresult
  | refutedLast hreceiver hread =>
      refine .of_done h hreceiver (by simp) (by simp) hread ⟨rfl, rfl⟩ ?_ ?_
      · intro payload hresult
        cases hresult
      · intro fault hresult
        cases hresult
        exact ⟨rfl, rfl⟩

/-! ## What the others do -/

/-- The reading goes on as it was, except that more may have arrived. -/
structure Beside (d : Deed Script.Twist) (s s' : Session (Framed Script)) : Prop where
  receiver : s'.receiver = s.receiver
  inbound : s'.codec.inbound = s.codec.inbound
  incoming : s'.codec.link.incoming = s.codec.link.incoming ++ d.arrivals

theorem Beside.of_same {d : Deed Script.Twist} {s s' : Session (Framed Script)}
    (hd : d.arrivals = []) (hreceiver : s'.receiver = s.receiver)
    (hcodec : s.codec.SameInbound s'.codec) : Beside d s s' :=
  ⟨hreceiver, hcodec.1, by rw [hd, List.append_nil, hcodec.2]⟩

theorem beside_stepWriter (seq : UInt64) (now : Nat) (s : Session (Framed Script)) :
    (s.stepWriter seq now).2.receiver = s.receiver ∧
      s.codec.SameInbound (s.stepWriter seq now).2.codec := by
  have hstep := s.stepWriter_cases seq now
  generalize s.writeFailure seq now = failure at hstep
  generalize (s.stepWriter seq now).2 = s' at hstep ⊢
  cases hstep with
  | @awaited w poll codec _ _ _ _ _ hwrite =>
      have hsame := s.codec.sameInbound_write w.request w.args now
      rw [show s.codec.write w.request w.args now = (poll, codec) from hwrite] at hsame
      exact ⟨rfl, hsame⟩
  | @written w result codec _ _ _ _ _ hwrite =>
      have hsame := s.codec.sameInbound_write w.request w.args now
      rw [show s.codec.write w.request w.args now = (.done result, codec) from hwrite] at hsame
      cases result <;> exact ⟨rfl, hsame⟩
  | absent | asked | queued | refused | begun | cancelled => exact ⟨rfl, rfl, rfl⟩

theorem beside_perform {d : Deed Script.Twist} (hd : ∀ now, d ≠ .task .receiver now)
    (s : Session (Framed Script)) : Beside d s (s.perform d) := by
  cases d with
  | go a => exact .of_same rfl (by simp [perform, go]) (by simp [perform, go, Framed.SameInbound])
  | goWith a mailbox =>
      simp only [perform]
      split
      · exact .of_same rfl (by simp) (by simp [Framed.SameInbound])
      · exact .of_same rfl rfl ⟨rfl, rfl⟩
  | completion capacity =>
      simp only [perform]
      split <;> exact .of_same rfl rfl ⟨rfl, rfl⟩
  | take mailbox =>
      simp only [perform]
      split <;> exact .of_same rfl rfl ⟨rfl, rfl⟩
  | task t now =>
      cases t with
      | receiver => exact absurd rfl (hd now)
      | writer seq =>
          obtain ⟨hreceiver, hsame⟩ := beside_stepWriter seq now s
          exact .of_same rfl hreceiver hsame
      | caller place =>
          have hstep := s.stepCaller_cases place
          simp only [perform, step]
          generalize (s.stepCaller place).2 = s' at hstep ⊢
          cases hstep with
          | made => exact .of_same rfl (by simp) (by simp [Framed.SameInbound])
          | absent | turnedAway | taken | bereft | awaited | finished =>
              exact .of_same rfl rfl ⟨rfl, rfl⟩
  | close =>
      cases hover : s.client.isOver <;>
        exact .of_same rfl (by simp [perform, beginClose, Client.beginClose, hover])
          (by simp [perform, beginClose, Client.beginClose, hover, Framed.SameInbound])
  | hangUp =>
      simp only [perform, stepClose]
      split
      · exact .of_same rfl rfl ⟨rfl, rfl⟩
      · exact .of_same rfl rfl s.codec.sameInbound_close
  | outside twist =>
      cases twist with
      | arrive more => exact ⟨rfl, rfl, rfl⟩
      | accept credit whenFull => exact .of_same rfl rfl ⟨rfl, rfl⟩
      | plan flushError shutError => exact .of_same rfl rfl ⟨rfl, rfl⟩
  | call | dropHandle | deafen => exact .of_same rfl rfl ⟨rfl, rfl⟩

end Session

end Switchboard
