import Switchboard.Proofs.Frame.Departure

/-!
# Headway on a connection without faults

On a connection that takes what it can (`Serves`), an attempt to write gets
somewhere unless the credit is used up, and on one that never fails (`IsCalm`) an
attempt to read gets somewhere unless everything that came was read. Getting
somewhere is counted: what is left of a writing (`Outbound.burden`) shrinks with
every step that does not end it, and so does what a read has still to do.
-/

namespace Switchboard

/-- Who cannot be served waits, and flushing does not fail. -/
structure Script.Serves (link : Script) : Prop where
  whenFull : link.whenFull = .wait
  flushError : link.flushError = none

/-- Who cannot be served waits, nothing fails, and what comes is data. -/
structure Script.IsCalm (link : Script) : Prop where
  whenFull : link.whenFull = .wait
  flushError : link.flushError = none
  shutError : link.shutError = none
  incoming : ∀ event ∈ link.incoming, ∃ front, event = .data front

namespace Script

variable {link link' : Script}

theorem IsCalm.serves (h : link.IsCalm) : link.Serves := ⟨h.whenFull, h.flushError⟩

theorem IsCalm.takes {sent : Octets} (h : link.IsCalm) (htakes : link.Takes sent link') :
    link'.IsCalm := by
  obtain ⟨credit, shut, rfl⟩ := htakes
  exact ⟨h.whenFull, h.flushError, h.shutError, h.incoming⟩

/-- Where there is credit, something is taken of whatever is offered. -/
theorem room_pos (hcredit : link.credit ≠ some 0) {octets : Octets} (hsome : octets ≠ []) :
    0 < link.room octets := by
  have hlength : 0 < octets.length := List.length_pos_iff.mpr hsome
  unfold room
  split
  · exact hlength
  · rename_i credit heq
    have hpos : 0 < credit := Nat.pos_of_ne_zero fun hzero => hcredit (hzero ▸ heq)
    exact Nat.lt_min.mpr ⟨hpos, hlength⟩

/-- Where there is credit, what is offered is taken in part at least. -/
theorem accepted_write (side : Side) (hcredit : link.credit ≠ some 0) {octets : Octets}
    (hsome : octets ≠ []) :
    ∃ count link', Link.write side octets link = (.accepted (count + 1), link') := by
  have hpos := room_pos hcredit hsome
  rw [write_eq, if_neg (Nat.ne_of_gt hpos)]
  exact ⟨link.room octets - 1, _, by rw [Nat.sub_add_cancel hpos]⟩

theorem credit_of_nothing {side : Side} {octets : Octets} (hsome : octets ≠ [])
    (h : Link.write side octets link = (.nothing, link')) : link.credit = some 0 := by
  by_contra hcredit
  obtain ⟨count, taken, hwrite⟩ := accepted_write side hcredit hsome
  cases h.symm.trans hwrite

/-- Who cannot be served waits, so no attempt to write fails. -/
theorem Serves.not_fails (hserves : link.Serves) {side : Side} {octets : Octets}
    {acceptance : Acceptance} {text : String} {error : IoError}
    (h : Link.write side octets link = (acceptance, link')) :
    ¬ acceptance.FailsWith text error := by
  rw [write_eq, hserves.whenFull] at h
  split at h
  · obtain ⟨rfl, -⟩ := Prod.mk.inj h
    exact nofun
  · rename_i hroom
    obtain ⟨rfl, -⟩ := Prod.mk.inj h
    intro hfails
    generalize link.room octets = count at hroom hfails
    cases hfails
    exact hroom rfl

end Script

/-! ## Writing -/

namespace Outbound

/-- If anything is in the buffer, then something that was not handed over. -/
def IsTight (o : Outbound) : Prop := o.written = 0 ∨ o.written < o.buffer.length

/-- What is left to do for the operation that has begun. An octet counts twice
until it is in the buffer and once while it is there. -/
def burden (o : Outbound) : Nat :=
  match o.writing with
  | none => 0
  | some w => 2 * o.unput.length + o.unsent.length + o.pending.length + w.later.length + 1

variable {o : Outbound} {w : Writing}

theorem burden_of_some (hw : o.writing = some w) :
    o.burden = 2 * o.unput.length + o.unsent.length + o.pending.length + w.later.length + 1 := by
  simp only [burden, hw]

theorem burden_of_none (hw : o.writing = none) : o.burden = 0 := by
  simp only [burden, hw]

theorem IsTight.append (h : o.IsTight) (more : Octets) :
    ({ o with buffer := o.buffer ++ more } : Outbound).IsTight := by
  refine h.imp id fun hless => ?_
  rw [List.length_append]
  exact Nat.lt_add_right _ hless

theorem tight_handed (count : Nat) (o : Outbound) : (o.handed count).IsTight := by
  unfold handed
  split
  · rename_i hless
    exact .inr hless
  · exact .inl rfl

theorem unsent_ne_nil (h : o.IsTight) (hbuffer : o.buffer ≠ []) : o.unsent ≠ [] := by
  have hpos := List.length_pos_iff.mpr hbuffer
  intro hnil
  have hlength := congrArg List.length hnil
  rw [unsent, List.length_drop, List.length_nil] at hlength
  rcases h with hzero | hless <;> omega

theorem octets_ne_nil_of_long {act : Act} (hlong : bufferSize ≤ act.octets.length) :
    act.octets ≠ [] :=
  List.length_pos_iff.mp (Nat.lt_of_lt_of_le (by decide) hlong)

/-- What is offered is something that is left to do. -/
theorem Offers.left {offered : Octets} (h : o.Offers w offered) (htight : o.IsTight)
    (hw : o.writing = some w) : offered ≠ [] ∧ (o.unsent ≠ [] ∨ o.unput ≠ []) := by
  cases h with
  | buffered hbuffer =>
      have hunsent := unsent_ne_nil htight hbuffer
      exact ⟨hunsent, .inl hunsent⟩
  | direct _ hacts _ hlong =>
      have hsome := octets_ne_nil_of_long hlong
      refine ⟨hsome, .inr ?_⟩
      rw [unput, pending_of_some hw, hacts]
      simp [hsome]

section Any

variable {L : Type} [Link L] {side : Side} {now : Nat} {o' : Outbound} {link link' : L}
  {poll : Poll (Except LinkError Unit)}

/-- Whatever the connection does, a write-out that empties the buffer is over. -/
theorem WriteStep.tight (h : WriteStep side now o w link poll o' link') (htight : o.IsTight) :
    o'.IsTight := by
  cases h with
  | puts => exact htight.append _
  | drains => exact tight_handed _ o
  | fails => exact .inl rfl
  | finished | gone | begins | settles | unsettled | passes | waits | late | failsPast =>
      exact htight

theorem IsTight.step (h : o.IsTight) (side : Side) (now : Nat) (link : L) :
    (o.step side now link).2.1.IsTight := by
  cases hw : o.writing with
  | none =>
      rw [step_idle side now hw]
      exact h
  | some w => exact (step_cases side now hw link).tight h

/-- A step after which the next can be made at once leaves less to do. -/
theorem WriteStep.burden_lt (h : WriteStep side now o w link .again o' link')
    (htight : o.IsTight) (hw : o.writing = some w) : o'.burden < o.burden := by
  have hdone {act : Act} {acts : List Act} (hacts : w.acts = act :: acts)
      (hwriting : o'.writing = some { w with acts })
      (hunsent : o'.unsent.length ≤ o.unsent.length + act.octets.length) :
      o'.burden < o.burden := by
    have hpending := pending_done hw hacts hwriting
    have hput : o.unput = act.octets ++ o'.unput := by
      rw [unput, hpending]
      rfl
    rw [burden_of_some hw, burden_of_some hwriting, hpending, hput, List.length_append,
      List.length_cons]
    dsimp only
    omega
  cases h with
  | @begins part later hacts hlater =>
      rw [burden_of_some hw, burden_of_some rfl, unput, unput, pending_begun hw hacts hlater,
        hlater, List.length_cons]
      exact Nat.lt_succ_self _
  | @puts act acts hacts =>
      refine hdone hacts rfl ?_
      simp only [unsent, List.length_drop, List.length_append]
      omega
  | @settles act acts _ _ hacts => exact hdone hacts rfl (Nat.le_add_right _ _)
  | @drains count _ hbuffer =>
      have hpos := List.length_pos_iff.mpr (unsent_ne_nil htight hbuffer)
      have hwriting : (o.handed (count + 1)).writing = some w := by rw [handed_writing, hw]
      rw [burden_of_some hw, burden_of_some hwriting, unput, unput, pending_of_some hw,
        pending_of_some hwriting, handed_unsent, List.length_drop]
      omega
  | @passes act acts count _ _ hacts _ hlong =>
      have hpos := List.length_pos_iff.mpr (octets_ne_nil_of_long hlong)
      have hrest : (Act.put (act.octets.drop (count + 1))).octets = act.octets.drop (count + 1) := rfl
      rw [burden_of_some hw, burden_of_some rfl, unput, unput, pending_of_some hw,
        pending_of_some rfl, hacts]
      simp only [unsent, List.cons_append, List.flatMap_cons, List.length_append, List.length_cons,
        hrest, List.length_drop]
      omega

end Any

/-- What one step of an operation comes to where nothing fails. -/
inductive Advances (o : Outbound) (link : Script) :
    Poll (Except LinkError Unit) → Outbound → Prop where
  | again {o' : Outbound} (htight : o'.IsTight) (hless : o'.burden < o.burden) :
      Advances o link .again o'
  | blocked (hcredit : link.credit = some 0) (hleft : o.unsent ≠ [] ∨ o.unput ≠ []) :
      Advances o link .blocked o
  | finished : Advances o link (.done (.ok ())) o.cancel
  | overdue (hdue : ∃ w, o.writing = some w ∧ w.deadline.isSome) :
      Advances o link (.done (.error (.timeout .send))) o.cancel
  | gone (haborted : o.aborted = true) :
      Advances o link (.done (.error .connectionClosed)) o.cancel

/-- A step of an operation gets nearer to its end, unless there is no credit. That
ending the writing does not fail matters only where the operation does that. -/
theorem step_advances {link : Script} (hserves : link.Serves)
    (hshut : .shut ∈ o.pending → link.shutError = none) (htight : o.IsTight) (side : Side)
    (now : Nat) (hw : o.writing = some w) :
    Advances o link (o.step side now link).1 (o.step side now link).2.1 := by
  have hstep := step_cases side now hw link
  generalize o.step side now link = step at hstep
  obtain ⟨poll, o', link'⟩ := step
  dsimp only at hstep ⊢
  cases poll with
  | again => exact .again (hstep.tight htight) (hstep.burden_lt htight hw)
  | blocked =>
      cases hstep with
      | waits hoffers hwrite =>
          obtain ⟨hsome, hleft⟩ := hoffers.left htight hw
          exact .blocked (Script.credit_of_nothing hsome hwrite) hleft
  | done result =>
      cases hstep with
      | finished => exact .finished
      | gone _ _ haborted => exact .gone haborted
      | unsettled _ hacts hsettles =>
          cases hsettles with
          | flush h => simp [Link.flush, Script.planned, hserves.flushError] at h
          | shut h =>
              have hmem : .shut ∈ o.pending := by
                rw [pending_of_some hw, hacts]
                exact List.mem_cons_self
              simp [Link.shut, Script.planned, hshut hmem] at h
      | late _ _ hdeadline => exact .overdue ⟨w, hw, by rw [hdeadline]; rfl⟩
      | fails _ _ hwrite hfails => exact absurd hfails (hserves.not_fails hwrite)
      | failsPast _ _ _ _ hwrite hfails => exact absurd hfails (hserves.not_fails hwrite)

end Outbound

/-! ## Credit and time -/

namespace Script

/-- How many octets will have been taken when the credit is used up. -/
def budget (link : Script) : Option Nat := link.credit.map (· + link.taken.length)

theorem budget_write (side : Side) (octets : Octets) (link : Script) :
    (Link.write side octets link).2.budget = link.budget := by
  have hle := link.room_le octets
  rw [write_eq]
  split
  · rfl
  · cases hcredit : link.credit with
    | none => simp [budget, hcredit]
    | some credit =>
        have hroom : link.room octets ≤ credit := by
          simp only [room, hcredit]
          exact Nat.min_le_left _ _
        simp only [budget, hcredit, Option.map_some, List.length_append, List.length_take]
        congr 1
        omega

end Script

namespace Outbound

/-- Where operations may take as long as they like, none that is under way has to
be over at any time. -/
def IsPatient (o : Outbound) : Prop :=
  o.patience = none → ∀ w, o.writing = some w → w.deadline = none

theorem isPatient_idle {o : Outbound} (h : o.writing = none) : o.IsPatient := by
  intro _ w hw
  rw [h] at hw
  cases hw

theorem isPatient_step {L : Type} [Link L] {o : Outbound} (h : o.IsPatient) (side : Side)
    (now : Nat) (link : L) : (o.step side now link).2.1.IsPatient := by
  cases hw : o.writing with
  | none =>
      rw [step_idle side now hw]
      exact h
  | some w =>
      have hstep := step_cases side now hw link
      generalize o.step side now link = step at hstep
      obtain ⟨poll, o', link'⟩ := step
      dsimp only at hstep ⊢
      have hkeeps {acts : List Act} {o' : Outbound} (hpatience : o'.patience = o.patience)
          (hwriting : o'.writing = some { w with acts }) : o'.IsPatient := by
        intro hnone w' hw'
        obtain rfl := Option.some.inj (hwriting.symm.trans hw')
        exact h (hpatience.symm.trans hnone) w hw
      cases hstep with
      | begins =>
          -- The time of a part begins when the part does.
          rintro hnone w' hw'
          obtain rfl := Option.some.inj hw'
          have hpatience : o.patience = none := hnone
          simp [hpatience]
      | puts | settles | passes => exact hkeeps rfl rfl
      | drains => exact hkeeps (handed_patience ..) ((handed_writing ..).trans hw)
      | waits => exact h
      | finished | gone | unsettled | late | fails | failsPast => exact isPatient_idle rfl

end Outbound

/-! ## Reading -/

namespace Script

/-- Where only data comes, an attempt to read finds the next of it or nothing at
all. -/
theorem readFrom_of_calm (want now : Nat) {incoming : List Incoming}
    (h : ∀ event ∈ incoming, ∃ front, event = .data front) :
    ((∃ front, (readFrom want now incoming).1 = .data front) ∨
      (readFrom want now incoming).1 = .nothing ∧ Incoming.octets incoming = []) ∧
      ∀ event ∈ (readFrom want now incoming).2, ∃ front, event = .data front := by
  fun_induction readFrom want now incoming with
  | case1 => exact ⟨.inr ⟨rfl, rfl⟩, h⟩
  | case2 rest ih => exact ih fun event hevent => h event (List.mem_cons_of_mem _ hevent)
  | case3 x xs rest octets left =>
      have hrest : ∀ event ∈ rest, ∃ front, event = .data front :=
        fun event hevent => h event (List.mem_cons_of_mem _ hevent)
      refine ⟨.inl ⟨_, rfl⟩, ?_⟩
      intro event hevent
      dsimp only at hevent
      split at hevent
      · exact hrest event hevent
      · rcases List.mem_cons.mp hevent with rfl | hmem
        · exact ⟨left, rfl⟩
        · exact hrest event hmem
  | case4 | case5 | case6 | case7 | case8 | case9 =>
      obtain ⟨_, heq⟩ := h _ List.mem_cons_self
      cases heq

end Script

namespace Framed

/-- What one attempt to read a frame comes to on a calm connection, beside what
is read. -/
inductive Reaches (f : Framed Script) : Poll (Except LinkError Received) → Framed Script → Prop where
  | begun {f' : Framed Script} (hidle : f.inbound.reading = none)
      (hreading : f'.inbound.reading ≠ none) (hunread : f'.unread [] = f.unread []) :
      Reaches f .again f'
  | again {f' : Framed Script} (hless : (f'.unread []).length < (f.unread []).length) :
      Reaches f .again f'
  | blocked {f' : Framed Script} (hreading : f.inbound.reading ≠ none)
      (hunread : f.unread [] = []) : Reaches f .blocked f'
  | done {result : Except LinkError Received} {f' : Framed Script} : Reaches f (.done result) f'

/-- An attempt on a calm connection finds octets, or nothing is left. -/
theorem found_of_calm {f : Framed Script} (hcalm : f.link.IsCalm) {want now : Nat}
    {arrival : Arrival} {link : Script}
    (hread : Link.read .near want now f.link = (arrival, link)) :
    link.IsCalm ∧ ((∃ front, arrival = .data front) ∨
      arrival = .nothing ∧ Incoming.octets f.link.incoming = []) := by
  obtain ⟨incoming, hfound, rfl⟩ := Script.exists_incoming hread
  have hfinds := Script.readFrom_of_calm want now hcalm.incoming
  rw [hfound] at hfinds
  exact ⟨⟨hcalm.whenFull, hcalm.flushError, hcalm.shutError, hfinds.2⟩, hfinds.1⟩

theorem reaches_read {f : Framed Script} (hcalm : f.link.IsCalm) (kind : ReadKind) (now : Nat) :
    f.Reaches (f.read kind now).1 (f.read kind now).2 ∧ (f.read kind now).2.link.IsCalm := by
  cases hreading : f.inbound.reading with
  | none =>
      rw [read_idle _ hreading]
      exact ⟨.begun hreading (by simp [Inbound.start]) rfl, hcalm⟩
  | some r =>
      have hstep := Inbound.step_cases .near now hreading f.link
      rw [read_going _ hreading]
      generalize f.inbound.step .near now f.link = stepped at hstep
      obtain ⟨poll, inbound, link⟩ := stepped
      dsimp only at hstep ⊢
      have hgets {octets : Octets} (h : f.inbound.Gets .near now r f.link octets link) :
          link.IsCalm := by
        cases h with
        | buffered => exact hcalm
        | arrived _ hread => exact (found_of_calm hcalm hread).1
      cases hstep with
      | @goes octets progress _ h =>
          have hpos := pos_of_gets h
          have hunread : f.unread [] = octets ++ unread { f with
              inbound := { f.inbound with buffer := [], reading := some { r with progress } }
              link } [] :=
            (took_of_gets h (List.append_nil _).symm).unread []
          refine ⟨.again ?_, hgets h⟩
          rw [hunread, List.length_append]
          exact Nat.lt_add_of_pos_left hpos
      | done h => exact ⟨.done, hgets h⟩
      | waits hbuffer hread =>
          obtain ⟨hcalm', ⟨front, hfront⟩ | ⟨-, hnone⟩⟩ := found_of_calm hcalm hread
          · cases hfront
          · refine ⟨.blocked (by simp [hreading]) ?_, hcalm'⟩
            rw [unread, hbuffer, List.append_nil]
            exact hnone
      | ended _ hread | failed _ hread | late _ hread =>
          exact ⟨.done, (found_of_calm hcalm hread).1⟩
      | interrupted _ hread =>
          -- A calm connection does not fail.
          obtain ⟨-, ⟨front, hfront⟩ | ⟨hnothing, -⟩⟩ := found_of_calm hcalm hread
          · cases hfront
          · cases hnothing

end Framed

end Switchboard
