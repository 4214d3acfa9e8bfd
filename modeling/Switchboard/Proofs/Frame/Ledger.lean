import Switchboard.Proofs.Frame.Desk

/-!
# The books of a writing half

What a `Desk` writes down is the books of the writing half: what was asked for, in
order, and how it ended. `Desk.Balances` says that the books are right at every
moment, whatever is asked for and whatever the connection does: what it took and what
is buffered is, in the order of the orders, all of what was done and the front of what
was not. When the writing is given up the books are closed, and the connection takes
nothing any more.
-/

namespace Switchboard

open Outbound (Breaks)

/-! ## What is in the books -/

/-- Whether the order was carried out. -/
def Reply.isOk : Reply → Bool
  | .request result => result.isOk
  | .sending result => result.isOk

namespace Order

@[simp] theorem isOk_reply (order : Order) (result : Except LinkError Unit) :
    (order.reply result).isOk = result.isOk := by
  cases order <;> cases result <;> rfl

/-- The octets of an order; none if one of its values has no encoding. -/
def octets (order : Order) : Octets :=
  match order.sending with
  | .ok s => s.octets
  | .error _ => []

/-- Whether nothing is buffered when the order was carried out. -/
def empties (order : Order) : Bool :=
  match order.sending with
  | .ok s => s.empties
  | .error _ => false

end Order

/-- Whether the order was carried out. -/
def Entry.isDone (e : Entry) : Bool := e.reply.any Reply.isOk

namespace Desk

/-- What the move asks for. -/
def Move.call? {L : Type} : Move L → Option Order
  | .call order _ => some order
  | .step _ | .leave | .abort | .outside _ => none

section Asked

variable {L : Type} [Link L] {d : Desk L}

/-- What was asked for so far, in order. -/
def asked (d : Desk L) : List Order := d.entries.map (·.order) ++ d.current.toList

omit [Link L] in
theorem asked_leave (d : Desk L) : d.leave.asked = d.asked := by
  cases hcurrent : d.current <;> simp [asked, leave, hcurrent]

/-- An attempt is at what was asked for last. -/
theorem asked_attempt (order : Order) (now : Nat) (d : Desk L) :
    (d.attempt order now).asked = d.entries.map (·.order) ++ [order] := by
  have hattempt := d.attempt_cases order now
  generalize d.attempt order now = d' at hattempt
  cases hattempt <;> simp [asked]

theorem asked_move (m : Move L) : (d.move m).asked = d.asked ++ m.call?.toList := by
  cases m with
  | call order now =>
      show (d.leave.attempt order now).asked = d.asked ++ [order]
      rw [asked_attempt, ← asked_leave d]
      simp [asked, leave]
  | step now =>
      rw [Move.call?, Option.toList_none, List.append_nil]
      cases hcurrent : d.current with
      | none => rw [move_step_idle hcurrent]
      | some order =>
          rw [move_step hcurrent, asked_attempt, asked, hcurrent]
          rfl
  | leave | abort => exact (asked_leave d).trans (List.append_nil _).symm
  | outside act => exact (List.append_nil _).symm

/-- Everything that is asked for is in the books, in the order of the calls. -/
theorem asked_run (moves : List (Move L)) :
    (d.run moves).asked = d.asked ++ moves.filterMap Move.call? := by
  induction moves using List.reverseRecOn with
  | nil => simp
  | append_singleton moves m ih =>
      rw [run_append, run_cons, run_nil, asked_move, ih, List.append_assoc, List.filterMap_append]
      cases hcall : m.call? <;> simp [hcall]

end Asked

/-! ## The books are right -/

/-- What was laid down of an order that is over. -/
inductive Lays (limit : Nat) : Entry → Octets → Prop where
  | refused {order : Order} {error : LinkError} (hrefusal : order.refusal limit = some error) :
      Lays limit ⟨order, some (order.reply (.error error))⟩ []
  | done {order : Order} (hrefusal : order.refusal limit = none) :
      Lays limit ⟨order, some (order.reply (.ok ()))⟩ order.octets
  | failed {order : Order} {error : LinkError} {piece : Octets}
      (hrefusal : order.refusal limit = none) (hbreaks : Breaks error)
      (hfront : piece <+: order.octets) :
      Lays limit ⟨order, some (order.reply (.error error))⟩ piece
  | left {order : Order} {piece : Octets} (hrefusal : order.refusal limit = none)
      (hfront : piece <+: order.octets) : Lays limit ⟨order, none⟩ piece

/-- The books are right, for a connection that had taken `before` at the
beginning. -/
structure Balances (limit : Nat) (before : Octets) (d : Desk Script) (pieces : List Octets)
    (part : Octets) : Prop where
  bound : d.framed.outbound.limit = limit
  sound : d.framed.outbound.IsSound
  room : d.framed.outbound.buffer.length ≤ bufferSize
  busy : d.framed.outbound.writing.isSome = d.current.isSome
  fits : ∀ order, d.current = some order → order.refusal limit = none
  finished : List.Forall₂ (Lays limit) d.entries pieces
  /-- What was laid down of the order under way is what it has not still to put. -/
  underWay : part ++ d.framed.outbound.unput = (d.current.map (·.octets)).getD []
  empties : ∀ order, d.current = some order → order.empties = true → d.framed.outbound.Empties
  /-- After an order that ends with an empty buffer the buffer is empty. -/
  emptied : d.current = none → ∀ e, d.entries.getLast? = some e → e.isDone = true →
    e.order.empties = true → d.framed.outbound.buffer = []
  balance : d.framed.outbound.aborted = false →
    d.framed.link.taken ++ d.framed.outbound.unsent = before ++ pieces.flatten ++ part

namespace Balances

variable {limit : Nat} {before : Octets} {d : Desk Script} {pieces : List Octets} {part : Octets}

theorem start (link : Script) (inbound : Inbound) (limit : Nat) (patience : Option Nat) :
    Balances limit link.taken { framed := { link, inbound, outbound := { limit, patience } } }
      [] [] where
  bound := rfl
  sound := Nat.le_refl _
  room := Nat.zero_le _
  busy := rfl
  fits := by simp
  finished := .nil
  underWay := rfl
  empties := by simp
  emptied := by simp
  balance _ := by simp [Outbound.unsent]

/-- With nothing under way, nothing is half laid down. -/
theorem idle (h : Balances limit before d pieces part) (hcurrent : d.current = none) :
    d.framed.outbound.writing = none ∧ part = [] := by
  have hbusy := h.busy
  have hparts := h.underWay
  rw [hcurrent] at hbusy hparts
  exact ⟨Option.isSome_eq_false_iff.mp hbusy |> Option.isNone_iff_eq_none.mp,
    (List.append_eq_nil_iff.mp hparts).1⟩

/-- The order under way is over, and what was laid down of it stays. -/
theorem settled (h : Balances limit before d pieces part) {order : Order}
    (hcurrent : d.current = some order) {outbound : Outbound} {link : Script}
    {reply : Option Reply} (halike : d.framed.outbound.Alike outbound)
    (hroom : outbound.buffer.length ≤ bufferSize) (hwriting : outbound.writing = none)
    (htaken : link.taken = d.framed.link.taken)
    (hunsent : outbound.unsent = d.framed.outbound.unsent)
    (hlays : order.refusal limit = none → part ++ d.framed.outbound.unput = order.octets →
      Lays limit ⟨order, reply⟩ part)
    (hemptied : reply.any Reply.isOk = true → order.empties = true → outbound.buffer = []) :
    Balances limit before { d with
      framed := { d.framed with outbound, link }
      current := none
      entries := d.entries ++ [⟨order, reply⟩] } (pieces ++ [part]) [] := by
  have hparts : part ++ d.framed.outbound.unput = order.octets := by
    rw [h.underWay, hcurrent]
    rfl
  refine ⟨halike.limit.trans h.bound, halike.sound h.sound, hroom, by simp [hwriting], by simp,
    List.rel_append h.finished (.cons (hlays (h.fits order hcurrent) hparts) .nil), ?_, by simp,
    ?_, ?_⟩
  · simp [Outbound.unput, Outbound.pending, hwriting]
  · intro _ e he hdone hempties
    obtain rfl : ⟨order, reply⟩ = e := by simpa using he
    exact hemptied hdone hempties
  · intro haborted
    have hbalance := h.balance (halike.aborted.symm.trans haborted)
    simp only [htaken, hunsent, List.flatten_append, List.flatten_singleton, List.append_nil]
    rw [hbalance, List.append_assoc]

/-- An order is left wherever it is. -/
theorem leave (h : Balances limit before d pieces part) :
    ∃ pieces part, Balances limit before d.leave pieces part := by
  cases hcurrent : d.current with
  | none =>
      rw [leave_idle hcurrent (h.idle hcurrent).1]
      exact ⟨pieces, part, h⟩
  | some order =>
      have hleft : d.leave = { d with
          framed := { d.framed with outbound := d.framed.outbound.cancel }
          current := none
          entries := d.entries ++ [⟨order, none⟩] } := by
        simp [Desk.leave, hcurrent]
      rw [hleft]
      refine ⟨pieces ++ [part], [], h.settled hcurrent ⟨rfl, rfl, rfl, id⟩ h.room
        rfl rfl rfl (fun hrefusal hparts => .left hrefusal ⟨_, hparts⟩) (by simp)⟩

/-- Nothing is laid down of an order that is refused. -/
theorem refused (h : Balances limit before d pieces part) (hcurrent : d.current = none)
    {order : Order} {error : LinkError}
    (hrefusal : order.refusal d.framed.outbound.limit = some error) :
    Balances limit before { d with
      current := none
      entries := d.entries ++ [⟨order, some (order.reply (.error error))⟩] }
      (pieces ++ [[]]) [] := by
  obtain ⟨hidle, rfl⟩ := h.idle hcurrent
  rw [h.bound] at hrefusal
  refine ⟨h.bound, h.sound, h.room, by simp [hidle], by simp,
    List.rel_append h.finished (.cons (.refused hrefusal) .nil), ?_, by simp, ?_, ?_⟩
  · simp [Outbound.unput, Outbound.pending, hidle]
  · intro _ e he hdone
    obtain rfl : ⟨order, _⟩ = e := by simpa using he
    simp [Entry.isDone, Except.isOk, Except.toBool] at hdone
  · intro haborted
    simpa using h.balance haborted

/-- An order that is begun has still all its octets to put. -/
theorem begun (h : Balances limit before d pieces part) (hcurrent : d.current = none)
    {order : Order} {s : Sending} (hrefusal : order.refusal d.framed.outbound.limit = none)
    (hsending : order.sending = .ok s) :
    Balances limit before { d with
      framed.outbound.writing := some { later := s.parts }
      current := some order } pieces [] := by
  obtain ⟨-, rfl⟩ := h.idle hcurrent
  rw [h.bound] at hrefusal
  refine ⟨h.bound, h.sound, h.room, rfl, ?_, h.finished, ?_, ?_, by simp, h.balance⟩
  · intro other hother
    cases hother
    exact hrefusal
  · show [] ++ _ = order.octets
    rw [Order.octets, hsending]
    exact Outbound.unput_begun s d.framed.outbound
  · intro other hother hempties
    cases hother
    rw [Order.empties, hsending] at hempties
    exact Outbound.empties_begun hempties

variable {order : Order} {w : Writing} {now : Nat} {outbound : Outbound} {link : Script}

/-- What a step puts belongs to what was laid down. -/
theorem goesOn (h : Balances limit before d pieces part) (hcurrent : d.current = some order)
    (hw : d.framed.outbound.writing = some w) {poll : Poll (Except LinkError Unit)}
    (hstep : d.framed.outbound.step .near now d.framed.link = (poll, outbound, link))
    (hpoll : poll = .again ∨ poll = .blocked) :
    ∃ put, Balances limit before { d with
      framed := { d.framed with outbound, link }
      current := some order } pieces (part ++ put) := by
  have hships := @Outbound.step_ships d.framed.outbound d.framed.link w .near now hw
  have hhandles := Outbound.step_handles .near now hw d.framed.link
  rw [hstep] at hships hhandles
  cases hships with
  | finished | failed => simp at hpoll
  | @going _ _ _ put sent _ hwriting halike htakes hput hsent =>
      refine ⟨put, halike.limit.trans h.bound, halike.sound h.sound, hhandles.bounded h.room,
        hwriting, ?_, h.finished, ?_, ?_, by simp, ?_⟩
      · intro other hother
        cases hother
        exact h.fits order hcurrent
      · have hparts := h.underWay
        rw [hcurrent, hput, ← List.append_assoc] at hparts
        exact hparts
      · intro other hother hempties
        cases hother
        exact hhandles.empties (h.empties order hcurrent hempties) hpoll
      · intro haborted
        show link.taken ++ outbound.unsent = _
        rw [htakes.taken, List.append_assoc, ← hsent h.sound, ← List.append_assoc,
          h.balance (halike.aborted.symm.trans haborted), List.append_assoc]

/-- A step that ends the order leaves nothing to put, or fails. -/
theorem ended (h : Balances limit before d pieces part) (hcurrent : d.current = some order)
    (hw : d.framed.outbound.writing = some w) {result : Except LinkError Unit}
    (hstep : d.framed.outbound.step .near now d.framed.link = (.done result, outbound, link)) :
    Balances limit before { d with
      framed := { d.framed with outbound, link }
      current := none
      entries := d.entries ++ [⟨order, some (order.reply result)⟩] } (pieces ++ [part]) [] := by
  have hships := @Outbound.step_ships d.framed.outbound d.framed.link w .near now hw
  have hhandles := Outbound.step_handles .near now hw d.framed.link
  rw [hstep] at hships hhandles
  have hroom := hhandles.bounded h.room
  cases hships with
  | going hpoll => simp at hpoll
  | finished hpending =>
      refine h.settled hcurrent ⟨rfl, rfl, rfl, id⟩ hroom rfl rfl rfl
        (fun hrefusal hparts => ?_) (fun _ hempties => ?_)
      · rw [Outbound.unput, hpending, List.flatMap_nil, List.append_nil] at hparts
        rw [hparts]
        exact .done hrefusal
      · have hlast := h.empties order hcurrent hempties
        rw [Outbound.Empties, hpending] at hlast
        simp only [List.getLast?_nil, reduceCtorEq, true_and, false_or] at hlast
        exact hlast
  | failed hbreaks hwriting halike htakes hunsent =>
      exact h.settled hcurrent halike hroom hwriting (htakes.taken.trans (List.append_nil _))
        hunsent (fun hrefusal hparts => .failed hrefusal hbreaks ⟨_, hparts⟩)
        (by simp [Except.isOk, Except.toBool])

/-- One attempt to get on with an order. -/
theorem attempt (h : Balances limit before d pieces part) (htakes : d.Takes order) (now : Nat) :
    ∃ pieces part, Balances limit before (d.attempt order now) pieces part := by
  have hattempt := d.attempt_cases order now
  generalize d.attempt order now = d' at hattempt
  have hnone (hidle : d.framed.outbound.writing = none) : d.current = none := by
    simpa [hidle] using h.busy.symm
  have hcurrent {w : Writing} (hw : d.framed.outbound.writing = some w) :
      d.current = some order := by
    refine htakes.resolve_right ?_
    rintro ⟨-, hidle⟩
    cases hw.symm.trans hidle
  cases hattempt with
  | refused hidle hrefusal => exact ⟨_, _, h.refused (hnone hidle) hrefusal⟩
  | begun hidle hrefusal hsending => exact ⟨_, _, h.begun (hnone hidle) hrefusal hsending⟩
  | going hw hstep hpoll =>
      obtain ⟨put, hgoing⟩ := h.goesOn (hcurrent hw) hw hstep hpoll
      exact ⟨_, _, hgoing⟩
  | ended hw hstep => exact ⟨_, _, h.ended (hcurrent hw) hw hstep⟩

/-- When the writing is given up, the books are closed. -/
theorem abort (h : Balances limit before d pieces part) (hcurrent : d.current = none) :
    Balances limit before d.abort pieces part := by
  obtain ⟨hidle, rfl⟩ := h.idle hcurrent
  unfold Desk.abort Framed.close Outbound.abort
  dsimp only
  split
  · exact ⟨h.bound, h.sound, h.room, h.busy, h.fits, h.finished, h.underWay, h.empties, h.emptied,
      h.balance⟩
  · refine ⟨h.bound, Nat.le_refl _, Nat.zero_le _, ?_, h.fits, h.finished, ?_, ?_,
      fun _ _ _ _ _ => rfl, by simp⟩
    · rw [hcurrent]
      rfl
    · rw [hcurrent]
      rfl
    · intro order hsome
      cases hcurrent.symm.trans hsome

end Balances

/-- What happens outside does not change what the connection took. -/
def Tame (moves : List (Move Script)) : Prop :=
  ∀ act, .outside act ∈ moves → ∀ link, (act link).taken = link.taken

theorem balances_run {moves : List (Move Script)} (htame : Tame moves) (link : Script)
    (inbound : Inbound) (limit : Nat) (patience : Option Nat) :
    ∃ pieces part, Balances limit link.taken
      (run { framed := { link, inbound, outbound := { limit, patience } } } moves)
      pieces part := by
  refine List.foldlRecOn moves move
    (motive := fun d => ∃ pieces part, Balances limit link.taken d pieces part)
    ⟨[], [], .start link inbound limit patience⟩ fun d h m hm =>
      move_keeps (P := fun d => ∃ pieces part, Balances limit link.taken d pieces part)
        ?_ ?_ ?_ ?_ h
  · rintro d ⟨_, _, h⟩
    exact h.leave
  · rintro d order now ⟨_, _, h⟩ htakes
    exact h.attempt htakes now
  · rintro - d ⟨_, _, h⟩ hcurrent -
    exact ⟨_, _, h.abort hcurrent⟩
  · rintro act rfl d ⟨pieces, part, h⟩
    refine ⟨pieces, part, h.bound, h.sound, h.room, h.busy, h.fits, h.finished, h.underWay,
      h.empties, h.emptied, ?_⟩
    show _ → (act d.framed.link).taken ++ _ = _
    rw [htame act hm]
    exact h.balance

/-! ## Giving up -/

/-- The writing was given up after the connection had taken this, and no operation has
got past its beginning since. -/
structure Spent (taken : Octets) (d : Desk Script) : Prop where
  aborted : d.framed.outbound.aborted = true
  unbegun : ∀ w, d.framed.outbound.writing = some w → w.acts = []
  taken : d.framed.link.taken = taken

variable {taken : Octets} {d : Desk Script}

theorem Spent.attempt (h : d.Spent taken) (order : Order) (now : Nat) :
    (d.attempt order now).Spent taken := by
  have hattempt := d.attempt_cases order now
  generalize d.attempt order now = d' at hattempt
  cases hattempt with
  | refused => exact ⟨h.aborted, h.unbegun, h.taken⟩
  | begun =>
      refine ⟨h.aborted, ?_, h.taken⟩
      intro w hw
      cases hw
      rfl
  | going hw hstep hpoll =>
      obtain ⟨result, hdone⟩ :=
        Outbound.step_unbegun .near now d.framed.link h.aborted hw (h.unbegun _ hw)
      cases hstep.symm.trans hdone
      simp at hpoll
  | ended hw hstep =>
      obtain ⟨result, hdone⟩ :=
        Outbound.step_unbegun .near now d.framed.link h.aborted hw (h.unbegun _ hw)
      cases hstep.symm.trans hdone
      exact ⟨h.aborted, by simp [Outbound.cancel], h.taken⟩

/-- Giving up ends what there was to write, the first time and any other. -/
theorem spent_abort (hidle : d.framed.outbound.writing = none) :
    d.abort.Spent d.framed.link.taken := by
  unfold abort Framed.close Outbound.abort
  dsimp only
  split
  · rename_i haborted
    exact ⟨haborted, by simp [hidle], rfl⟩
  · exact ⟨rfl, by simp, rfl⟩

theorem Spent.run (h : d.Spent taken) {moves : List (Move Script)} (htame : Tame moves) :
    (d.run moves).Spent taken := by
  refine List.foldlRecOn moves Desk.move (motive := Spent taken) h fun d h m hm =>
    move_keeps (P := Spent taken) ?_ ?_ ?_ ?_ h
  · exact fun d h => ⟨h.aborted, by simp [Desk.leave, Outbound.cancel], h.taken⟩
  · exact fun d order now h _ => h.attempt order now
  · rintro - d h - hidle
    exact h.taken ▸ spent_abort hidle
  · rintro act rfl d h
    exact ⟨h.aborted, h.unbegun, (htame act hm _).trans h.taken⟩

/-! ## A whole run -/

/-- Whatever is asked of a writing half and whatever its connection does, the
books are right at every moment: they have every order in the order of the calls;
until the writing is given up, what the connection took and what is still buffered is
all the octets of every order that was done, a front of those of one that failed or
was left, and nothing of one that was refused; the buffer never holds more than it can
and is empty when a flush or an end is done; and once the writing is given up the
connection takes nothing any more. -/
theorem balanced_run (link : Script) (inbound : Inbound) (limit : Nat) (patience : Option Nat)
    (moves more : List (Move Script)) (htame : Tame (moves ++ more)) (d : Desk Script)
    (hd : d = run { framed := { link, inbound, outbound := { limit, patience } } } moves) :
    d.asked = moves.filterMap Move.call? ∧
      (.abort ∉ moves → ∃ pieces part, List.Forall₂ (Lays limit) d.entries pieces ∧
        part <+: (d.current.map (·.octets)).getD [] ∧
        d.framed.link.taken ++ d.framed.outbound.unsent = link.taken ++ pieces.flatten ++ part) ∧
      d.framed.outbound.buffer.length ≤ bufferSize ∧
      (d.current = none → ∀ e, d.entries.getLast? = some e → e.isDone = true →
        e.order.empties = true → d.framed.outbound.buffer = []) ∧
      (.abort ∈ moves → (d.run more).framed.link.taken = d.framed.link.taken) := by
  subst hd
  have hearly : Tame moves := fun act hmem => htame act (List.mem_append_left _ hmem)
  have hmore : Tame more := fun act hmem => htame act (List.mem_append_right _ hmem)
  obtain ⟨pieces, part, h⟩ := balances_run hearly link inbound limit patience
  refine ⟨asked_run moves, ?_, h.room, h.emptied, ?_⟩
  · intro hmoves
    exact ⟨pieces, part, h.finished, ⟨_, h.underWay⟩, h.balance (aborted_run hmoves)⟩
  · intro habort
    obtain ⟨early, late, rfl⟩ := List.append_of_mem habort
    have hlate : Tame late := fun act hmem =>
      hearly act (List.mem_append_right early (List.mem_cons_of_mem _ hmem))
    rw [run_append, run_cons]
    have hspent := (spent_abort (d := (run { framed :=
      { link, inbound, outbound := { limit, patience } } } early).leave) rfl).run hlate
    exact (hspent.run hmore).taken.trans hspent.taken.symm

/-- Frames of two octets at most, and a connection that takes three octets. -/
def narrow : Desk Script :=
  { framed := { link := { credit := some 3 }, outbound := { limit := 2 } } }

/-- A frame, a flush of it that does not get through, and a frame that is too
long. -/
def halfTaken : List (Move Script) :=
  [.call (.encoded (.frame ⟨#[104, 105]⟩)) 0, .step 0, .step 0, .step 0, .step 0,
    .call (.encoded .flush) 0, .step 0, .step 0, .step 0,
    .call (.encoded (.frame ⟨#[104, 101, 121]⟩)) 0]

/-- The connection takes anything, and a flush is tried. -/
def flushAgain : List (Move Script) :=
  [.outside ({ · with credit := none, whenFull := .wait }), .call (.encoded .flush) 0, .step 0]

theorem balanced_halfTaken :
    (∃ pieces part, List.Forall₂ (Lays 2) (narrow.run halfTaken).entries pieces ∧
      part <+: [] ∧ [0, 0, 0] ++ [2, 104, 105] = ([] : Octets) ++ pieces.flatten ++ part) ∧
    ((narrow.run (halfTaken ++ [.abort])).run flushAgain).framed.link.taken = [0, 0, 0] := by
  have hcurrent : ((narrow.run halfTaken).current.map (·.octets)).getD [] = [] := by decide
  have hoctets : (narrow.run halfTaken).framed.link.taken ++
      (narrow.run halfTaken).framed.outbound.unsent = [0, 0, 0] ++ [2, 104, 105] := by decide
  have htaken : (narrow.run (halfTaken ++ [.abort])).framed.link.taken = [0, 0, 0] := by decide
  constructor
  · have hmoved := (balanced_run narrow.framed.link {} 2 none halfTaken []
      (by simp [Tame, halfTaken]) (narrow.run halfTaken) rfl).2.1 (by simp [halfTaken])
    rw [hcurrent, hoctets] at hmoved
    exact hmoved
  · have htame : Tame ((halfTaken ++ [.abort]) ++ flushAgain) := by
      simp [Tame, halfTaken, flushAgain]
    have hstill := (balanced_run narrow.framed.link {} 2 none (halfTaken ++ [.abort]) flushAgain
      htame _ rfl).2.2.2.2 (by simp)
    exact hstill.trans htaken

end Desk

end Switchboard
