import Switchboard.Channel
import Switchboard.Proofs.Frame.Buffer
import Switchboard.Proofs.Wire.Linked

/-!
# What two ends are asked for

Calls are made at the sending end of a channel and reads at the receiving end. What
comes of each is settled beforehand (`Talk`): a call is refused for a message that
has no payload or one that is too long, and then none of its messages is sent; a
read gives what its type makes of the message whose turn it is, and the message
itself if it has this type (`Want.result_of_admits`).
-/

namespace Switchboard

open Wire (Value Form)

/-- The shape of a type, deep enough for what was read. -/
def Wire.Form.shapeFor (type : Form) : Received → Wire.Shape
  | .frame payload => type.unroll (payload.size + 1)
  | .skipped | .line _ => type.unroll 0

namespace Channel

/-! ## What is asked for -/

/-- What is asked of the sending end. -/
inductive Call where
  | feed (v : Value)
  | send (v : Value)
  /-- Messages that are encoded one after the other and then sent as one unit. -/
  | sendEncoded (vs : List Value)
  | flush

/-- What is asked of the receiving end. -/
inductive Want where
  | receive (type : Form)
  | skip

/-- The octets of a message. -/
def octets (v : Value) : Octets :=
  match payload v with
  | .ok payload => frameOctets payload
  | .error _ => []

/-- A message that can be sent. -/
def IsSendable (limit : Nat) (v : Value) : Prop :=
  ∃ b, payload v = .ok b ∧ b.size ≤ limit

/-! ## Payloads -/

theorem map_eq_ok {α β : Type} {x : Except LinkError α} {f : α → β} {b : β}
    (h : x.map f = .ok b) : ∃ a, x = .ok a ∧ f a = b := by
  cases x with
  | error error => cases h
  | ok a => exact ⟨a, rfl, Except.ok.inj h⟩

theorem map_eq_error {α β : Type} {x : Except LinkError α} {f : α → β} {error : LinkError}
    (h : x.map f = .error error) : x = .error error := by
  cases x with
  | error error' =>
      cases h
      rfl
  | ok a => cases h

theorem octets_of_payload {v : Value} {b : ByteArray} (h : payload v = .ok b) :
    octets v = frameOctets b := by
  rw [octets, h]

theorem octets_of_payloads {vs : List Value} {bs : List ByteArray} (h : vs.mapM payload = .ok bs) :
    bs.flatMap frameOctets = vs.flatMap octets ∧ ∀ v ∈ vs, ∃ b ∈ bs, payload v = .ok b := by
  induction vs generalizing bs with
  | nil =>
      cases h
      exact ⟨rfl, by simp⟩
  | cons v vs ih =>
      rw [List.mapM_cons] at h
      obtain ⟨b, hb, h⟩ := Wire.bind_eq_ok.mp h
      obtain ⟨bs', hbs, h⟩ := Wire.bind_eq_ok.mp h
      cases h
      obtain ⟨hoctets, hall⟩ := ih hbs
      constructor
      · rw [List.flatMap_cons, List.flatMap_cons, hoctets, octets_of_payload hb]
      · intro w hw
        rcases List.mem_cons.mp hw with rfl | hmem
        · exact ⟨b, List.mem_cons_self, hb⟩
        · obtain ⟨b', hb', hpayload⟩ := hall w hmem
          exact ⟨b', List.mem_cons_of_mem _ hb', hpayload⟩

theorem refuses_of_payloads {vs : List Value} {error : LinkError}
    (h : vs.mapM payload = .error error) : Framed.Refuses error := by
  induction vs with
  | nil => cases h
  | cons v vs ih =>
      rw [List.mapM_cons] at h
      cases hv : payload v with
      | error error' =>
          rw [hv] at h
          cases h
          exact refuses_of_payload hv
      | ok b =>
          rw [hv] at h
          cases hvs : vs.mapM payload with
          | error error' =>
              rw [hvs] at h
              cases h
              exact ih hvs
          | ok bs =>
              rw [hvs] at h
              cases h

/-! ## Calls -/

namespace Call

variable {limit : Nat} {call : Call} {s : Sending}

def sending : Call → Except LinkError Sending
  | .feed v => Channel.feed v
  | .send v => Channel.send v
  | .sendEncoded vs => (vs.mapM payload).map .frames
  | .flush => .ok .flush

/-- What the call returns if it is given all the time it needs. -/
def reply (limit : Nat) (call : Call) : Except LinkError Unit := do
  match (← call.sending).oversized limit with
  | some payload => .error (.invalidFrame (.tooLarge payload.size))
  | none => .ok ()

def values : Call → List Value
  | .feed v | .send v => [v]
  | .sendEncoded vs => vs
  | .flush => []

/-- The messages that are sent with the call: all of its own, or none. -/
def sent (limit : Nat) (call : Call) : List Value :=
  match call.reply limit with
  | .ok () => call.values
  | .error _ => []

/-- What becomes of a call when it is begun. -/
inductive Begins (call : Call) (o : Outbound) : Except LinkError Outbound → Prop where
  | refused {error : LinkError} (hreply : call.reply o.limit = .error error) :
      Begins call o (.error error)
  | begun {s : Sending} (hsending : call.sending = .ok s) (hreply : call.reply o.limit = .ok ()) :
      Begins call o (.ok { o with writing := some { later := s.parts } })

theorem begins (call : Call) (o : Outbound) :
    Begins call o (call.sending.bind (o.start ·)) := by
  cases hsending : call.sending with
  | error error =>
      refine .refused ?_
      rw [reply, hsending]
      rfl
  | ok s =>
      show Begins call o (o.start s)
      unfold Outbound.start
      cases hlarge : s.oversized o.limit with
      | some payload =>
          refine .refused ?_
          rw [reply, hsending]
          simp only [bind, Except.bind, hlarge]
      | none =>
          refine .begun hsending ?_
          rw [reply, hsending]
          simp only [bind, Except.bind, hlarge]

/-- An operation has a frame for each of the values, within the limit if it may
begin. -/
theorem frames_of_sending (limit : Nat) (hsending : call.sending = .ok s) :
    s.octets = call.values.flatMap Channel.octets ∧
      (s.oversized limit = none → ∀ v ∈ call.values, IsSendable limit v) := by
  cases call with
  | feed v =>
      obtain ⟨b, hb, rfl⟩ := map_eq_ok hsending
      constructor
      · simp [Sending.octets, values, octets_of_payload hb]
      · simp [Sending.oversized, values, IsSendable, hb]
  | send v =>
      obtain ⟨b, hb, rfl⟩ := map_eq_ok hsending
      constructor
      · simp [Sending.octets, values, octets_of_payload hb]
      · simp [Sending.oversized, values, IsSendable, hb]
  | sendEncoded vs =>
      obtain ⟨bs, hbs, rfl⟩ := map_eq_ok hsending
      obtain ⟨hoctets, hall⟩ := octets_of_payloads hbs
      refine ⟨hoctets, ?_⟩
      intro hfits v hv
      obtain ⟨b, hb, hpayload⟩ := hall v hv
      have hsmall := List.find?_eq_none.mp hfits b hb
      exact ⟨b, hpayload, by simpa using hsmall⟩
  | flush =>
      cases hsending
      exact ⟨rfl, by simp [values]⟩

theorem reply_eq_ok_iff :
    call.reply limit = .ok () ↔ ∃ s, call.sending = .ok s ∧ s.oversized limit = none := by
  rw [reply, Wire.bind_eq_ok]
  refine exists_congr fun s => and_congr_right fun _ => ?_
  split <;> simp_all

theorem sent_of_ok (hreply : call.reply limit = .ok ()) : call.sent limit = call.values := by
  rw [sent, hreply]

theorem sent_of_error {error : LinkError} (hreply : call.reply limit = .error error) :
    call.sent limit = [] := by
  rw [sent, hreply]

/-- The octets of an operation are those of its messages. -/
theorem octets_of_sending (hsending : call.sending = .ok s) (hreply : call.reply limit = .ok ()) :
    s.octets = (call.sent limit).flatMap Channel.octets := by
  rw [(frames_of_sending limit hsending).1, sent_of_ok hreply]

theorem sendable_of_sent {v : Value} (hv : v ∈ call.sent limit) : IsSendable limit v := by
  cases hreply : call.reply limit with
  | error error =>
      rw [sent_of_error hreply] at hv
      cases hv
  | ok _ =>
      obtain ⟨s, hsending, hfits⟩ := reply_eq_ok_iff.mp hreply
      rw [sent_of_ok hreply] at hv
      exact (frames_of_sending limit hsending).2 hfits v hv

/-- A call fails only for what it should send. -/
theorem refuses_of_reply {error : LinkError} (hreply : call.reply limit = .error error) :
    Framed.Refuses error := by
  unfold reply at hreply
  cases hsending : call.sending with
  | error error' =>
      rw [hsending] at hreply
      cases hreply
      cases call with
      | feed v => exact refuses_of_payload (map_eq_error hsending)
      | send v => exact refuses_of_payload (map_eq_error hsending)
      | sendEncoded vs => exact refuses_of_payloads (map_eq_error hsending)
      | flush => cases hsending
  | ok s =>
      rw [hsending] at hreply
      simp only [bind, Except.bind] at hreply
      split at hreply
      · cases hreply
        exact .tooLarge _
      · cases hreply

/-- No call ends the writing. -/
theorem noShut_of_sending (hsending : call.sending = .ok s) :
    .shut ∉ s.parts.flatMap (·.acts) := by
  cases call with
  | feed v =>
      obtain ⟨b, -, rfl⟩ := map_eq_ok hsending
      simp [Sending.parts, framePart]
  | send v =>
      obtain ⟨b, -, rfl⟩ := map_eq_ok hsending
      simp [Sending.parts, framePart]
  | sendEncoded vs =>
      obtain ⟨bs, -, rfl⟩ := map_eq_ok hsending
      simp [Sending.parts, framePart]
  | flush =>
      cases hsending
      simp [Sending.parts]

/-- An upper bound for the steps that the call takes. -/
def cost (call : Call) : Nat :=
  match call.sending with
  | .ok s => 2 * s.octets.length + (s.parts.flatMap (·.acts)).length + s.parts.length + 2
  | .error _ => 1

theorem cost_pos (call : Call) : 0 < call.cost := by
  unfold cost
  split
  · exact Nat.succ_pos _
  · exact Nat.one_pos

end Call

/-! ## Reads -/

namespace Want

def skips : Want → Bool
  | .receive _ => false
  | .skip => true

/-- What comes of what was read. -/
def make : Want → Received → Except LinkError (Option Value)
  | .receive type, received => (Channel.receive (type.shapeFor received) received).map some
  | .skip, _ => .ok none

/-- What comes of a message that was sent. -/
def result (want : Want) (v : Value) : Except LinkError (Option Value) := do
  want.make (.ofPayload want.skips (← payload v))

variable {limit : Nat} {v : Value}

theorem result_of_payload (want : Want) {b : ByteArray} (hb : payload v = .ok b) :
    want.result v = want.make (.ofPayload want.skips b) := by
  rw [result, hb]
  rfl

/-- A read of a message fails only for what the message is. -/
theorem decode_of_result {want : Want} (hv : IsSendable limit v) {error : LinkError}
    (hresult : want.result v = .error error) : ∃ fault, error = .decode fault := by
  obtain ⟨b, hb, -⟩ := hv
  rw [want.result_of_payload hb] at hresult
  cases want with
  | skip => cases hresult
  | receive type =>
      have hreceive := map_eq_error hresult
      show ∃ fault, error = .decode fault
      unfold Channel.receive at hreceive
      dsimp only [Received.ofPayload, skips] at hreceive
      cases hdecode : Wire.decode (type.shapeFor (.frame b)) b with
      | error fault =>
          simp only [hdecode, Except.mapError, if_neg Bool.false_ne_true] at hreceive
          cases hreceive
          exact ⟨fault, rfl⟩
      | ok v' =>
          simp only [hdecode, Except.mapError, if_neg Bool.false_ne_true] at hreceive
          cases hreceive

/-- A message that is received as what it is comes back. -/
theorem result_of_admits {type : Form} (htype : type.Admits v) (hv : IsSendable limit v) :
    (Want.receive type).result v = .ok (some v) := by
  obtain ⟨b, hb, -⟩ := hv
  have hencode : Wire.encode v = .ok b := by
    unfold payload at hb
    cases hencode : Wire.encode v with
    | error fault =>
        rw [hencode] at hb
        cases hb
    | ok b' =>
        rw [hencode] at hb
        cases hb
        rfl
  have hdecode := (Form.decode_eq_ok_iff.mpr ⟨htype, hencode⟩).2
  rw [result_of_payload _ hb]
  show (Channel.receive (type.shapeFor (.frame b)) (.frame b)).map some = _
  rw [Channel.receive]
  show (((type.decode b).mapError .decode).map some : Except LinkError (Option Value)) = _
  rw [hdecode]
  rfl

end Want

/-! ## Both ends -/

/-- What two ends are asked for, and their settings. -/
structure Talk where
  limit : Nat
  sendWithin : Option Nat := none
  readWithin : Option Nat := none
  calls : List Call
  wants : List Want

namespace Talk

/-- The messages of the calls that succeed. -/
def messages (t : Talk) : List Value := t.calls.flatMap (·.sent t.limit)

def replies (t : Talk) : List (Except LinkError Unit) := t.calls.map (·.reply t.limit)

/-- Every read gets the message whose turn it is, and what comes of it is a matter
of this message and this read alone. -/
def results (t : Talk) : List (Except LinkError (Option Value)) :=
  List.zipWith Want.result t.wants t.messages

end Talk

end Channel

end Switchboard
