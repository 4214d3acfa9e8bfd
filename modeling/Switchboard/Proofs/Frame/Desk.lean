import Switchboard.Proofs.Frame.Buffer
import Switchboard.Proofs.Frame.Headway

/-!
# A writing half at work

A writing half is given one order after the other, by the client or by whoever owns
it. Some are refused before anything is done, some are done, some fail in the middle
or are left, and at any moment anything may happen to the connection. A `Desk`
carries the orders out and writes down what came of each. What one attempt to get on
with an order comes to is said once (`Desk.Attempt`), and what every attempt keeps,
every run keeps (`Desk.move_keeps`, `Desk.outbound_run`).
-/

namespace Switchboard

/-! ## Orders -/

/-- What a writing half can be asked to send. -/
inductive Order where
  | request (r : Wire.Request) (args : Wire.Value)
  /-- A message, flushed. -/
  | message (v : Wire.Value)
  /-- A message, into the buffer. -/
  | queued (v : Wire.Value)
  /-- What is encoded already. -/
  | encoded (s : Sending)

/-- What an order answers: a request to the client, anything else to the owner of
the writing half. -/
inductive Reply where
  | request (result : Except CallError Unit)
  | sending (result : Except LinkError Unit)

namespace Order

def sending : Order → Except LinkError Sending
  | .request r args => Framed.request r args
  | .message v => Channel.send v
  | .queued v => Channel.feed v
  | .encoded s => .ok s

/-- The frames of an order, unless one of its values has no encoding. -/
def payloads : Order → Except LinkError (List ByteArray)
  | .request r args => do return [← Channel.payload r.value, ← Channel.payload args]
  | .message v | .queued v => do return [← Channel.payload v]
  | .encoded (.frame payload) => .ok [payload]
  | .encoded (.frames payloads) => .ok payloads
  | .encoded (.raw _) | .encoded .flush | .encoded .close => .ok []

/-- Why an order is refused, if it is: for the first of its values that has no
encoding, and if all have one, for the first of its frames that is too long. -/
def refusal (limit : Nat) (order : Order) : Option LinkError :=
  match order.payloads with
  | .error error => some error
  | .ok payloads =>
      (payloads.find? (limit < ·.size)).map fun payload =>
        .invalidFrame (.tooLarge payload.size)

def reply : Order → Except LinkError Unit → Reply
  | .request .. => fun result => .request (result.mapError .ofLink)
  | .message _ | .queued _ | .encoded _ => .sending

/-- The frames of an order are those of what is sent for it. -/
theorem payloads_eq (order : Order) : order.payloads = order.sending.map Sending.payloads := by
  cases order with
  | request r args =>
      show (do return [← Channel.payload r.value, ← Channel.payload args]) =
        (Framed.request r args).map Sending.payloads
      unfold Framed.request
      cases Channel.payload r.value with
      | error error => rfl
      | ok header => cases Channel.payload args <;> rfl
  | message v =>
      show (do return [← Channel.payload v]) = (Channel.send v).map Sending.payloads
      unfold Channel.send
      cases Channel.payload v <;> rfl
  | queued v =>
      show (do return [← Channel.payload v]) = (Channel.feed v).map Sending.payloads
      unfold Channel.feed
      cases Channel.payload v <;> rfl
  | encoded s => cases s <;> rfl

variable {order : Order} {s : Sending} {limit : Nat}

/-- What is not encoded yet is sent in frames. -/
theorem sending_cases (hsending : order.sending = .ok s) :
    order = .encoded s ∨ (∃ payload, s = .frame payload) ∨ ∃ payloads, s = .frames payloads := by
  cases order with
  | request r args =>
      have hrequest : Framed.request r args = .ok s := hsending
      unfold Framed.request at hrequest
      cases hheader : Channel.payload r.value with
      | error error =>
          rw [hheader] at hrequest
          cases hrequest
      | ok header =>
          rw [hheader] at hrequest
          cases hargs : Channel.payload args with
          | error error =>
              rw [hargs] at hrequest
              cases hrequest
          | ok body =>
              rw [hargs] at hrequest
              exact .inr (.inr ⟨[header, body], (Except.ok.inj hrequest).symm⟩)
  | message v =>
      have hmessage : (Channel.payload v).map (fun p => .frames [p]) = .ok s := hsending
      cases hpayload : Channel.payload v with
      | error error => cases hpayload ▸ hmessage
      | ok payload => exact .inr (.inr ⟨[payload], (Except.ok.inj (hpayload ▸ hmessage)).symm⟩)
  | queued v =>
      have hqueued : (Channel.payload v).map .frame = .ok s := hsending
      cases hpayload : Channel.payload v with
      | error error => cases hpayload ▸ hqueued
      | ok payload => exact .inr (.inl ⟨payload, (Except.ok.inj (hpayload ▸ hqueued)).symm⟩)
  | encoded s => exact .inl (congrArg encoded (Except.ok.inj hsending))

/-- What can be encoded is refused only for its frames. -/
theorem refusal_eq_none_iff (hsending : order.sending = .ok s) :
    order.refusal limit = none ↔ ∀ payload ∈ s.payloads, payload.size ≤ limit := by
  simp only [refusal, payloads_eq, hsending, Except.map, Option.map_eq_none_iff,
    List.find?_eq_none, decide_eq_true_eq, Nat.not_lt]

/-- What cannot be encoded is refused. -/
theorem sending_of_refusal (hrefusal : order.refusal limit = none) :
    ∃ s, order.sending = .ok s := by
  cases hsending : order.sending with
  | error error => simp [refusal, payloads_eq, hsending, Except.map] at hrefusal
  | ok s => exact ⟨s, rfl⟩

/-- An order is begun if nothing of it is refused, and only then. -/
theorem start_sending (order : Order) (o : Outbound) :
    (∃ error, order.refusal o.limit = some error ∧
      order.sending.bind (o.start ·) = .error error) ∨
    ∃ s, order.refusal o.limit = none ∧ order.sending = .ok s ∧
      order.sending.bind (o.start ·) = .ok { o with writing := some { later := s.parts } } := by
  have hpayloads := order.payloads_eq
  cases hsending : order.sending with
  | error error =>
      rw [hsending] at hpayloads
      exact .inl ⟨error, by simp only [refusal, hpayloads, Except.map], rfl⟩
  | ok s =>
      rw [hsending] at hpayloads
      show (∃ error, _ ∧ o.start s = .error error) ∨ ∃ s', _ ∧ _ ∧ o.start s = _
      unfold Outbound.start
      rw [s.oversized_eq]
      cases hfind : s.payloads.find? (o.limit < ·.size) with
      | some payload =>
          refine .inl ⟨.invalidFrame (.tooLarge payload.size), ?_, rfl⟩
          simp only [refusal, hpayloads, Except.map, hfind, Option.map_some]
      | none =>
          refine .inr ⟨s, ?_, rfl, rfl⟩
          simp only [refusal, hpayloads, Except.map, hfind, Option.map_none]

end Order

/-! ## Carrying an order out -/

section Work

variable {L : Type} [Link L]

namespace Framed

/-- Go on sending, or begin to. -/
def send (sending : Except LinkError Sending) (now : Nat) (f : Framed L) :
    Poll (Except LinkError Unit) × Framed L :=
  match f.outbound.writing with
  | none =>
      match sending.bind (f.outbound.start ·) with
      | .ok outbound => (.again, { f with outbound })
      | .error error => (.done (.error error), f)
  | some _ =>
      let (poll, outbound, link) := f.outbound.step .near now f.link
      (poll, { f with outbound, link })

/-- Go on with an order, or begin to. -/
def carryOut (order : Order) (now : Nat) (f : Framed L) : Poll Reply × Framed L :=
  match order with
  | .request r args =>
      let (poll, f) := f.write r args now
      (poll.map .request, f)
  | .message _ | .queued _ | .encoded _ =>
      let (poll, f) := f.send order.sending now
      (poll.map .sending, f)

/-- A request is written as anything else is sent. -/
theorem write_eq (r : Wire.Request) (args : Wire.Value) (now : Nat) (f : Framed L) :
    f.write r args now =
      ((f.send (request r args) now).1.map (·.mapError .ofLink),
        (f.send (request r args) now).2) := by
  unfold write send
  cases f.outbound.writing with
  | none =>
      dsimp only
      cases (request r args).bind (f.outbound.start ·) <;> rfl
  | some w => rfl

theorem carryOut_eq (order : Order) (now : Nat) (f : Framed L) :
    f.carryOut order now =
      ((f.send order.sending now).1.map order.reply, (f.send order.sending now).2) := by
  cases order with
  | request r args =>
      simp only [carryOut, write_eq]
      show (Poll.map _ (Poll.map _ (f.send (request r args) now).1), _) =
        (Poll.map _ (f.send (request r args) now).1, _)
      cases (f.send (request r args) now).1 <;> rfl
  | message | queued | encoded => rfl

end Framed

/-! ## One order after the other -/

/-- An order that is over, and what was answered; nothing if it was left. -/
structure Entry where
  order : Order
  reply : Option Reply

/-- A writing half at work, and what was written down of it. -/
structure Desk (L : Type) where
  framed : Framed L
  /-- The order that is under way. -/
  current : Option Order := none
  /-- The orders that are over, oldest first. -/
  entries : List Entry := []
  /-- What was answered when the writing was given up. -/
  aborts : List (Except CallError Unit) := []

/-- What can be done with a writing half, and what can happen to its connection. -/
inductive Desk.Move (L : Type) where
  /-- Give an order. One that is under way is left. -/
  | call (order : Order) (now : Nat)
  /-- One attempt to get on with the order. -/
  | step (now : Nat)
  | leave
  /-- Give the writing up at once, and what is buffered. -/
  | abort
  | outside (act : L → L)

namespace Desk

def attempt (order : Order) (now : Nat) (d : Desk L) : Desk L :=
  let (poll, framed) := d.framed.carryOut order now
  match poll with
  | .again | .blocked => { d with framed, current := some order }
  | .done reply =>
      { d with framed, current := none, entries := d.entries ++ [⟨order, some reply⟩] }

def leave (d : Desk L) : Desk L :=
  { d with
    framed.outbound := d.framed.outbound.cancel
    current := none
    entries := d.entries ++ (d.current.map fun order => ⟨order, none⟩).toList }

def abort (d : Desk L) : Desk L :=
  let (result, framed) := d.framed.close
  { d with framed, aborts := d.aborts ++ [result] }

def move (d : Desk L) : Move L → Desk L
  | .call order now => d.leave.attempt order now
  | .step now =>
      match d.current with
      | none => d
      | some order => d.attempt order now
  | .leave => d.leave
  | .abort => d.leave.abort
  | .outside act => { d with framed.link := act d.framed.link }

def run (d : Desk L) (moves : List (Move L)) : Desk L := moves.foldl move d

@[simp] theorem run_nil (d : Desk L) : d.run [] = d := rfl

@[simp] theorem run_cons (d : Desk L) (m : Move L) (moves : List (Move L)) :
    d.run (m :: moves) = (d.move m).run moves :=
  rfl

theorem run_append (d : Desk L) (moves more : List (Move L)) :
    d.run (moves ++ more) = (d.run moves).run more :=
  List.foldl_append

theorem move_step {d : Desk L} {order : Order} (h : d.current = some order) (now : Nat) :
    d.move (.step now) = d.attempt order now := by
  simp only [move, h]

theorem move_step_idle {d : Desk L} (h : d.current = none) (now : Nat) :
    d.move (.step now) = d := by
  simp only [move, h]

omit [Link L] in
/-- Where nothing is under way, nothing is left. -/
theorem leave_idle {d : Desk L} (hcurrent : d.current = none)
    (hidle : d.framed.outbound.writing = none) : d.leave = d := by
  obtain ⟨⟨link, inbound, outbound⟩, current, entries, aborts⟩ := d
  obtain rfl : current = none := hcurrent
  have hcancel : outbound.cancel = outbound := by
    rw [Outbound.cancel, ← hidle]
  simp [leave, hcancel]

/-! ## What an attempt comes to -/

/-- An attempt begins the order, or refuses it, where no operation has begun, and
otherwise is a step of the operation. -/
inductive Attempt (order : Order) (now : Nat) (d : Desk L) : Desk L → Prop where
  | refused {error : LinkError} (hidle : d.framed.outbound.writing = none)
      (hrefusal : order.refusal d.framed.outbound.limit = some error) :
      Attempt order now d { d with
        current := none
        entries := d.entries ++ [⟨order, some (order.reply (.error error))⟩] }
  | begun {s : Sending} (hidle : d.framed.outbound.writing = none)
      (hrefusal : order.refusal d.framed.outbound.limit = none)
      (hsending : order.sending = .ok s) :
      Attempt order now d { d with
        framed.outbound.writing := some { later := s.parts }
        current := some order }
  | going {w : Writing} {poll : Poll (Except LinkError Unit)} {outbound : Outbound} {link : L}
      (hw : d.framed.outbound.writing = some w)
      (hstep : d.framed.outbound.step .near now d.framed.link = (poll, outbound, link))
      (hpoll : poll = .again ∨ poll = .blocked) :
      Attempt order now d { d with
        framed := { d.framed with outbound, link }
        current := some order }
  | ended {w : Writing} {result : Except LinkError Unit} {outbound : Outbound} {link : L}
      (hw : d.framed.outbound.writing = some w)
      (hstep : d.framed.outbound.step .near now d.framed.link = (.done result, outbound, link)) :
      Attempt order now d { d with
        framed := { d.framed with outbound, link }
        current := none
        entries := d.entries ++ [⟨order, some (order.reply result)⟩] }

theorem attempt_cases (order : Order) (now : Nat) (d : Desk L) :
    Attempt order now d (d.attempt order now) := by
  simp only [attempt, Framed.carryOut_eq, Framed.send]
  cases hw : d.framed.outbound.writing with
  | none =>
      rcases order.start_sending d.framed.outbound with
        ⟨error, hrefusal, hstart⟩ | ⟨s, hrefusal, hsending, hstart⟩
      · rw [hstart]
        exact .refused hw hrefusal
      · rw [hstart]
        exact .begun hw hrefusal hsending
  | some w =>
      rcases hstep : d.framed.outbound.step .near now d.framed.link with ⟨poll, outbound, link⟩
      cases poll with
      | again => exact .going hw hstep (.inl rfl)
      | blocked => exact .going hw hstep (.inr rfl)
      | done result => exact .ended hw hstep

/-- A refused order answers why, and nothing else is done. -/
theorem call_refused {d : Desk L} {order : Order} {error : LinkError}
    (hrefusal : order.refusal d.framed.outbound.limit = some error) (now : Nat) :
    d.move (.call order now) =
      { d.leave with
        entries := d.leave.entries ++ [⟨order, some (order.reply (.error error))⟩] } := by
  have hattempt := d.leave.attempt_cases order now
  show d.leave.attempt order now = _
  generalize d.leave.attempt order now = d' at hattempt
  cases hattempt with
  | refused _ hother =>
      obtain rfl := Option.some.inj (hrefusal.symm.trans hother)
      rfl
  | begun _ hnone =>
      have hsome : order.refusal d.framed.outbound.limit = none := hnone
      rw [hrefusal] at hsome
      cases hsome
  | going hw | ended hw => cases hw

/-- An order of which nothing is refused is begun. -/
theorem call_begun {d : Desk L} {order : Order}
    (hrefusal : order.refusal d.framed.outbound.limit = none) (now : Nat) :
    ∃ s, order.sending = .ok s ∧ d.move (.call order now) =
      { d.leave with
        framed.outbound.writing := some { later := s.parts }
        current := some order } := by
  have hattempt := d.leave.attempt_cases order now
  show ∃ s, _ ∧ d.leave.attempt order now = _
  generalize d.leave.attempt order now = d' at hattempt
  cases hattempt with
  | refused _ hsome =>
      have hnone : order.refusal d.framed.outbound.limit = some _ := hsome
      rw [hrefusal] at hnone
      cases hnone
  | @begun s _ _ hsending => exact ⟨s, hsending, rfl⟩
  | going hw | ended hw => cases hw

/-! ## What every move keeps -/

/-- An order is taken up where none is under way, and gone on with where it is. -/
def Takes (order : Order) (d : Desk L) : Prop :=
  d.current = some order ∨ d.current = none ∧ d.framed.outbound.writing = none

variable {d : Desk L} {P : Desk L → Prop}

theorem move_keeps {m : Move L} (hleave : ∀ d, P d → P d.leave)
    (hattempt : ∀ d order now, P d → d.Takes order → P (d.attempt order now))
    (habort : m = .abort → ∀ d, P d → d.current = none → d.framed.outbound.writing = none →
      P d.abort)
    (houtside : ∀ act, m = .outside act → ∀ d, P d → P (d.move (.outside act)))
    (h : P d) : P (d.move m) := by
  cases m with
  | call order now => exact hattempt d.leave order now (hleave d h) (.inr ⟨rfl, rfl⟩)
  | step now =>
      cases hcurrent : d.current with
      | none =>
          rw [move_step_idle hcurrent]
          exact h
      | some order =>
          rw [move_step hcurrent]
          exact hattempt d order now h (.inl hcurrent)
  | leave => exact hleave d h
  | abort => exact habort rfl d.leave (hleave d h) rfl rfl
  | outside act => exact houtside act rfl d h

/-- What beginning, steps and giving up keep of the writing half, every run keeps. -/
theorem outbound_run {P : Outbound → Prop} {moves : List (Move L)}
    (hwriting : ∀ o writing, P o → P { o with writing })
    (hstep : ∀ o now (link : L), P o → P (o.step .near now link).2.1)
    (habort : .abort ∈ moves → ∀ o (link : L), P o → P (o.abort .near link).2.1)
    (h : P d.framed.outbound) : P (d.run moves).framed.outbound := by
  refine List.foldlRecOn moves move (motive := fun d => P d.framed.outbound) h
    fun d h m hm => move_keeps (P := fun d => P d.framed.outbound) ?_ ?_ ?_ ?_ h
  · exact fun d h => hwriting _ none h
  · intro d order now h _
    have hattempt := d.attempt_cases order now
    generalize d.attempt order now = d' at hattempt
    cases hattempt with
    | refused => exact h
    | begun => exact hwriting _ _ h
    | going hw hmoved | ended hw hmoved =>
        have hkept := hstep _ now d.framed.link h
        rw [hmoved] at hkept
        exact hkept
  · rintro rfl d h - -
    exact habort hm _ _ h
  · exact fun act _ d h => h

theorem isTight_run (h : d.framed.outbound.IsTight) (moves : List (Move L)) :
    (d.run moves).framed.outbound.IsTight := by
  refine outbound_run (fun o writing h => h) (fun o now link h => h.step .near now link)
    (fun _ o link h => ?_) h
  unfold Outbound.abort
  split
  · exact h
  · exact .inl rfl

theorem patience_run (d : Desk L) (moves : List (Move L)) :
    (d.run moves).framed.outbound.patience = d.framed.outbound.patience := by
  refine outbound_run (P := fun o => o.patience = d.framed.outbound.patience)
    (fun o writing h => h) (fun o now link h => ?_) (fun _ o link h => ?_) rfl
  · exact (o.settings_step .near now link).2.2.trans h
  · unfold Outbound.abort
    split <;> exact h

/-- Only giving up makes the writing given up. -/
theorem aborted_run {moves : List (Move L)} (hmoves : .abort ∉ moves) :
    (d.run moves).framed.outbound.aborted = d.framed.outbound.aborted := by
  refine outbound_run (P := fun o => o.aborted = d.framed.outbound.aborted)
    (fun o writing h => h) (fun o now link h => ?_) (fun habort => absurd habort hmoves) rfl
  exact (o.settings_step .near now link).1.trans h

end Desk

end Work

end Switchboard
