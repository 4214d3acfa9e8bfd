import Switchboard.Proofs.Tunnel.Outcome
import Switchboard.Scenario.Board

/-!
# A handshake that fails

When a handshake fails it asks the connection to end the writing, once and whatever comes of
this, drops what is buffered and lets both halves go; the failure that is reported is the
one from before (`Course.Refused`). There is no client then, and none will be
(`Scenario.Board.IsRefused`). `refused_iff` says this together with what ends a handshake,
and when.
-/

namespace Switchboard

open Tunnel (Decides)

/-! ## No client -/

namespace Scenario.Board

/-- What a board has come to after some activities. -/
def stepAll (b : Board) (activities : List Activity) : Board :=
  activities.foldl (fun b a => (b.step a).2) b

/-- After a handshake that failed there is no session, nothing can go on, and this
remains so. -/
structure IsRefused (error : CallError) (wire : Framed Connection) (b : Board) : Prop where
  desk : b.desk = .refused error wire
  session : b.session? = none
  able : b.able = []

variable {error : CallError} {wire : Framed Connection} {b : Board}

theorem isRefused_of_desk (h : b.desk = .refused error wire) : b.IsRefused error wire := by
  refine ⟨h, ?_, ?_⟩
  · rw [session?, h]
  · rw [able, h]

theorem IsRefused.stepAll (h : b.IsRefused error wire) (activities : List Activity) :
    (b.stepAll activities).IsRefused error wire := by
  induction activities generalizing b with
  | nil => exact h
  | cons a activities ih =>
      refine ih (isRefused_of_desk ?_)
      have hstep : (b.step a).2 = b := by
        cases a <;> simp only [step, h.desk]
      show (b.step a).2.desk = _
      rw [hstep]
      exact h.desk

theorem isRefused_of_step {h h' : Handshake Connection} (hdesk : b.desk = .dialing h)
    (hstep : h.step b.now = (.done (.error error), h')) :
    (b.step .handshake).2.IsRefused error h'.wire := by
  refine isRefused_of_desk ?_
  simp only [step, hdesk, hstep]

end Scenario.Board

namespace Course

variable {L : Type} [Link L] {c : Course L} {n : Nat} {error : CallError}

/-- Seen through a connection that behaves alike, the last attempt ends with the error. -/
theorem step_of_error {view : L → Connection} (hview : Link.Hom view)
    (hgoing : (c.dial n).result = none) (hended : (c.dial (n + 1)).result = some (.error error)) :
    (((c.dial n).ready (c.acts n)).map view).step (c.clock n) =
      (.done (.error error), (c.dial (n + 1)).handshake.map view) := by
  have hnext : c.dial (n + 1) = .after (((c.dial n).ready (c.acts n)).step (c.clock n)) :=
    Dialing.attempt_of_none hgoing _ _
  rw [Handshake.step_map hview]
  rw [hnext] at hended ⊢
  generalize ((c.dial n).ready (c.acts n)).step (c.clock n) = step at hended ⊢
  obtain ⟨_ | _ | result, h'⟩ := step
  · cases hended
  · cases hended
  · obtain rfl := Option.some.inj hended
    rfl

/-- Whatever a connection answers and whatever happens to it: the handshake sends the request
and nothing else, and reads only behind it. A contact that failed, a deadline that passed, the
end of the stream and an answer that refuses end it with just that error, an answer that agrees
ends it with success, and otherwise it is the connection that keeps it waiting. With an error
the connection was closed, once and whatever came of this; what is buffered is dropped and both
halves are gone. Where a board has the handshake at its desk there is no client then, and
nothing goes on. -/
theorem refused_iff (c : Course L) :
    (∀ n, (c.notes n).unnoted = c.dial n ∧ c.Minds n) ∧
      (∀ n contact, c.Asks n contact → c.GoesOn n contact ∨ contact.IsClosing ∨
        ∃ error, c.Fault n contact error ∧ (c.dial (n + 1)).result = some (.error error)) ∧
      (∀ error, (∃ n, (c.dial n).result = some (.error error)) ↔ ∃ n, c.FailsAt n error) ∧
      ((∃ n, (c.dial n).result = some (.ok ())) ↔
        ∃ n rest, .flush (.ok ()) ∈ c.contacts n ∧ Decides (c.heard n) (.ok ()) rest) ∧
      ((∀ n, (c.dial n).result = none) → c.KeptWaiting) ∧
      ∀ n error, (c.dial n).result = some (.error error) → c.Refused n ∧
        ∃ m < n, (c.dial m).result = none ∧
          ∀ view : L → Connection, Link.Hom view → ∀ b : Scenario.Board, b.now = c.clock m →
            b.desk = .dialing (((c.dial m).ready (c.acts m)).map view) → ∀ activities,
              ((b.step .handshake).2.stepAll activities).IsRefused error
                ((c.dial n).wire.map view) := by
  refine ⟨fun n => ⟨c.notes_unnoted n, c.minds n⟩, fun n contact hasks => hasks.cases,
    c.error_iff, c.agreed_iff, keptWaiting_of_endless, fun n error hresult => ?_⟩
  refine ⟨refused_of_error hresult, ?_⟩
  have hnoted := hresult
  rw [← c.result_notes] at hnoted
  obtain ⟨m, hm, hgoing, hended, hlast⟩ := exists_last hnoted
  rw [c.result_notes] at hgoing hended
  have hdial : c.dial n = c.dial (m + 1) := by rw [← c.notes_unnoted, hlast, c.notes_unnoted]
  refine ⟨m, hm, hgoing, fun view hview b hnow hdesk activities => ?_⟩
  have hstep := step_of_error hview hgoing hended
  rw [← hnow] at hstep
  rw [hdial]
  exact (Scenario.Board.isRefused_of_step hdesk hstep).stepAll activities

/-- A connection that takes three octets and then breaks, and cannot be shut either. -/
def breaking : Course Script where
  path := "/"
  start :=
    { link :=
        { credit := some 3
          whenFull := .fail ⟨.brokenPipe, "broken"⟩
          shutError := some ⟨.other, "no"⟩ } }
  fresh := ⟨rfl, rfl, rfl, rfl, rfl⟩
  clock := id
  acts := fun _ => id

theorem refused_breaking :
    (breaking.dial 5).result = some (.error (.transport (.io ⟨.brokenPipe, "broken"⟩))) ∧
      (∃ n, breaking.FailsAt n (.transport (.io ⟨.brokenPipe, "broken"⟩))) ∧
      breaking.Refused 5 := by
  have hresult :
      (breaking.dial 5).result = some (.error (.transport (.io ⟨.brokenPipe, "broken"⟩))) := by
    decide
  obtain ⟨-, -, hfails, -, -, hrefused⟩ := refused_iff breaking
  exact ⟨hresult, (hfails _).mp ⟨5, hresult⟩, (hrefused 5 _ hresult).1⟩

end Course

end Switchboard
