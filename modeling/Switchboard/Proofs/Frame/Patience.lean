import Switchboard.Proofs.Frame.Headway

/-!
# Getting on with an operation, or waiting

What an attempt to go on with an operation of the writing half comes to, whatever
connection there is (`Outbound.GoesOn`): a part of it begins, or something of it is done
and less is left to do, or the connection takes nothing and the operation waits, or it
ends. It waits no longer than it has time, so an operation of which every part has a
time limit gets on or waits for a time that is still to come (`Outbound.Timed.goesOn`).
The end of the writing has no such limit. It empties the buffer as a flush does, and
where nothing is taken of that it comes to nothing (`Outbound.Shuts.stuck`).
-/

namespace Switchboard

/-- Only the end of the writing has no time limit. -/
theorem Sending.timed_parts {s : Sending} (h : s ≠ .close) {part : Part}
    (hpart : part ∈ s.parts) : part.timed := by
  cases s with
  | frame payload =>
      obtain rfl := List.mem_singleton.mp hpart
      rfl
  | frames payloads =>
      rcases List.mem_append.mp hpart with hmem | hmem
      · obtain ⟨payload, -, rfl⟩ := List.mem_map.mp hmem
        rfl
      · obtain rfl := List.mem_singleton.mp hmem
        rfl
  | raw octets =>
      obtain rfl := List.mem_singleton.mp hpart
      rfl
  | flush =>
      obtain rfl := List.mem_singleton.mp hpart
      rfl
  | close => exact absurd rfl h

namespace Outbound

variable {L : Type} [Link L] {o o' : Outbound} {w : Writing} {side : Side} {now : Nat} {link : L}

/-- What one attempt to go on with an operation comes to, over any connection. -/
inductive GoesOn (side : Side) (now : Nat) (link : L) (o : Outbound) (w : Writing) :
    Poll (Except LinkError Unit) → Outbound → Prop where
  /-- A part begins, and its time. -/
  | begins (part : Part) (later : List Part) (hacts : w.acts = [])
      (hlater : w.later = part :: later) (hupright : o.aborted = false)
      (hless : (o.begun now part later).burden < o.burden) :
      GoesOn side now link o w .again (o.begun now part later)
  /-- Less is left to do. The writing is shut with an empty buffer only. -/
  | gets {o' : Outbound} (acts : List Act) (hsome : w.acts ≠ [])
      (hwriting : o'.writing = some { w with acts })
      (hsettings : o'.patience = o.patience ∧ o'.aborted = o.aborted)
      (hshut : ∀ rest, w.acts = .shut :: rest → acts = w.acts ∨ acts = rest ∧ o'.buffer = [])
      (hless : o'.burden < o.burden) : GoesOn side now link o w .again o'
  /-- The connection takes nothing of what it is offered, and there is still time. -/
  | waits (offered : Octets) (hsome : w.acts ≠ [])
      (hbuffer : ∀ rest, w.acts = .shut :: rest → offered = o.unsent ∧ o.unsent ≠ [])
      (hrefused : (Link.write side offered link).1 = .nothing)
      (hearly : ∀ time, w.deadline = some time → now < time) :
      GoesOn side now link o w .blocked o
  | ends {result : Except LinkError Unit} {o' : Outbound} (hidle : o'.writing = none) :
      GoesOn side now link o w (.done result) o'

/-- What is done with an act that only adds octets says nothing of an end of the writing. -/
theorem not_shut_of_puts {act : Act} {acts : List Act} (hacts : w.acts = act :: acts)
    (hputs : act.Puts) (rest : List Act) : w.acts ≠ .shut :: rest := by
  intro hshut
  rw [hacts] at hshut
  exact hputs.2 (List.cons.inj hshut).1

/-- The end of the writing offers what is buffered. -/
theorem Offers.of_shut {offered : Octets} (h : o.Offers w offered) (htight : o.IsTight)
    (rest : List Act) (hshut : w.acts = .shut :: rest) : offered = o.unsent ∧ o.unsent ≠ [] := by
  cases h with
  | buffered hbuffer => exact ⟨rfl, unsent_ne_nil htight hbuffer⟩
  | direct _ hacts hputs => exact absurd hshut (not_shut_of_puts hacts hputs rest)

/-- An attempt gets nearer to the end of an operation, or waits, or ends it. -/
theorem goesOn_step (htight : o.IsTight) (hw : o.writing = some w) :
    GoesOn side now link o w (o.step side now link).1 (o.step side now link).2.1 := by
  have hstep := step_cases side now hw link
  generalize o.step side now link = step at hstep
  obtain ⟨poll, o', link'⟩ := step
  dsimp only at hstep ⊢
  cases poll with
  | again =>
      have hless := hstep.burden_lt htight hw
      cases hstep with
      | @begins part later hacts hlater hupright =>
          exact .begins part later hacts hlater hupright hless
      | @puts act acts hacts hputs =>
          exact .gets acts (by simp [hacts]) rfl ⟨rfl, rfl⟩
            (fun rest hshut => absurd hshut (not_shut_of_puts hacts hputs rest)) hless
      | @settles act acts _ hbuffer hacts =>
          refine .gets acts (by simp [hacts]) rfl ⟨rfl, rfl⟩ (fun rest hshut => ?_) hless
          exact .inr ⟨(List.cons.inj (hacts.symm.trans hshut)).2, hbuffer⟩
      | drains _ hsome =>
          exact .gets w.acts hsome ((handed_writing ..).trans hw)
            ⟨handed_patience .., handed_aborted ..⟩ (fun _ _ => .inl rfl) hless
      | passes _ hacts hputs =>
          exact .gets _ (by simp [hacts]) rfl ⟨rfl, rfl⟩
            (fun rest hshut => absurd hshut (not_shut_of_puts hacts hputs rest)) hless
  | blocked =>
      cases hstep with
      | @waits offered _ hoffers hwrite hearly =>
          exact .waits offered hoffers.acts_ne_nil (hoffers.of_shut htight)
            (congrArg Prod.fst hwrite) hearly
  | done result => cases hstep <;> exact .ends rfl

/-! ## Operations with a time limit -/

/-- Whatever is under way has to be over at some time. -/
structure Timed (o : Outbound) : Prop where
  patience : o.patience.isSome
  later : ∀ w, o.writing = some w → ∀ part ∈ w.later, part.timed
  deadline : ∀ w, o.writing = some w → w.acts ≠ [] → w.deadline.isSome

theorem timed_called {s : Sending} (hpatience : o.patience.isSome) (h : s ≠ .close) :
    ({ o with writing := some { later := s.parts } } : Outbound).Timed where
  patience := hpatience
  later := by
    rintro _ ⟨⟩ part hpart
    exact s.timed_parts h hpart
  deadline := by
    rintro _ ⟨⟩ hsome
    exact absurd rfl hsome

/-- An attempt gets on, or it waits for a time that is still to come. -/
def Hurries (now : Nat) (o o' : Outbound) : Prop :=
  o'.burden < o.burden ∨ o' = o ∧ ∃ time, o.alarm = some time ∧ now < time

/-- It still has to be, as long as it is under way. -/
theorem Timed.goesOn {poll : Poll (Except LinkError Unit)} (h : o.Timed) (hw : o.writing = some w)
    (hgoes : GoesOn side now link o w poll o') (hgoing : o'.writing.isSome) :
    o'.Timed ∧ Hurries now o o' := by
  cases hgoes with
  | begins part later hacts hlater _ hless =>
      have htimed : part.timed := h.later w hw part (by simp [hlater])
      refine ⟨⟨h.patience, ?_, ?_⟩, .inl hless⟩
      · rintro _ ⟨⟩ other hmem
        exact h.later w hw other (by simp [hlater, hmem])
      · rintro _ ⟨⟩ -
        simpa [htimed] using h.patience
  | gets acts hsome hwriting hsettings hshut hless =>
      refine ⟨⟨hsettings.1 ▸ h.patience, ?_, ?_⟩, .inl hless⟩
      · rintro w' hw' part hmem
        obtain rfl := Option.some.inj (hwriting.symm.trans hw')
        exact h.later w hw part hmem
      · rintro w' hw' -
        obtain rfl := Option.some.inj (hwriting.symm.trans hw')
        exact h.deadline w hw hsome
  | waits offered hsome hbuffer hrefused hearly =>
      obtain ⟨time, htime⟩ := Option.isSome_iff_exists.mp (h.deadline w hw hsome)
      refine ⟨h, .inr ⟨rfl, time, ?_, hearly time htime⟩⟩
      rw [alarm, hw]
      exact htime
  | ends hidle =>
      rw [hidle] at hgoing
      cases hgoing

/-! ## Ending the writing -/

/-- The writing is being ended, and nothing says when to give up. -/
inductive Closing (o : Outbound) : Prop where
  | called (hwriting : o.writing = some { later := Sending.parts .close })
  | shutting (hwriting : o.writing = some ⟨[.shut], none, []⟩)
  | shut (hwriting : o.writing = some ⟨[], none, []⟩) (hbuffer : o.buffer = [])

/-- The connection takes nothing of what is buffered. -/
def Refused (side : Side) (link : L) (o : Outbound) : Prop :=
  (Link.write side o.unsent link).1 = .nothing

/-- The end of the writing gets nearer, or what is buffered is refused. -/
theorem Closing.goesOn {poll : Poll (Except LinkError Unit)} (h : o.Closing)
    (hw : o.writing = some w) (hgoes : GoesOn side now link o w poll o')
    (hgoing : o'.writing.isSome) :
    (o'.Closing ∧ o'.aborted = o.aborted) ∧
      (o'.burden < o.burden ∨ o' = o ∧ o.unsent ≠ [] ∧ o.Refused side link) := by
  have hends (hidle : o'.writing = none) : False := by
    rw [hidle] at hgoing
    cases hgoing
  cases h with
  | called hwriting =>
      obtain rfl := Option.some.inj (hwriting.symm.trans hw)
      cases hgoes with
      | begins part later _ hlater _ hless =>
          obtain ⟨rfl, rfl⟩ := List.cons.inj hlater
          exact ⟨⟨.shutting rfl, rfl⟩, .inl hless⟩
      | gets _ hsome | waits _ hsome => exact absurd rfl hsome
      | ends hidle => exact (hends hidle).elim
  | shutting hwriting =>
      obtain rfl := Option.some.inj (hwriting.symm.trans hw)
      cases hgoes with
      | begins _ _ hacts => cases hacts
      | gets acts _ hwriting' hsettings hshut hless =>
          refine ⟨⟨?_, hsettings.2⟩, .inl hless⟩
          rcases hshut [] rfl with rfl | ⟨rfl, hempty⟩
          · exact .shutting hwriting'
          · exact .shut hwriting' hempty
      | waits offered _ hbuffer hrefused =>
          obtain ⟨rfl, hunsent⟩ := hbuffer [] rfl
          exact ⟨⟨.shutting hwriting, rfl⟩, .inr ⟨rfl, hunsent, hrefused⟩⟩
      | ends hidle => exact (hends hidle).elim
  | shut hwriting hempty =>
      obtain rfl := Option.some.inj (hwriting.symm.trans hw)
      cases hgoes with
      | begins _ _ _ hlater => cases hlater
      | gets _ hsome | waits _ hsome => exact absurd rfl hsome
      | ends hidle => exact (hends hidle).elim

/-- The writing is being ended, and was not given up. -/
structure Shuts (o : Outbound) : Prop where
  closing : o.Closing
  upright : o.aborted = false

theorem Shuts.goesOn {poll : Poll (Except LinkError Unit)} (h : o.Shuts) (hw : o.writing = some w)
    (hgoes : GoesOn side now link o w poll o') (hgoing : o'.writing.isSome) : o'.Shuts := by
  obtain ⟨⟨hclosing, haborted⟩, -⟩ := h.closing.goesOn hw hgoes hgoing
  exact ⟨hclosing, haborted.trans h.upright⟩

/-- Where nothing is taken of what is buffered, ending the writing comes to nothing. -/
theorem Shuts.stuck (h : o.Shuts) (hunsent : o.unsent ≠ []) (hrefused : o.Refused side link)
    (now : Nat) :
    (o.step side now link).2.1.unsent = o.unsent ∧
      ∀ result, (o.step side now link).1 ≠ .done result := by
  have hbuffer : o.buffer ≠ [] := fun hempty => hunsent (unsent_of_empty hempty)
  cases h.closing with
  | called hwriting =>
      have hstep : o.step side now link =
          (.again, { o with writing := some ⟨[.shut], none, []⟩ }, link) := by
        simp [Outbound.step, hwriting, Sending.parts, h.upright]
      rw [hstep]
      exact ⟨rfl, fun _ hdone => by cases hdone⟩
  | shutting hwriting =>
      rw [Refused, unsent] at hrefused
      rcases hwrite : Link.write side (o.buffer.drop o.written) link with ⟨acceptance, link'⟩
      rw [hwrite] at hrefused
      obtain rfl : acceptance = .nothing := hrefused
      have hstep : o.step side now link = (.blocked, o, link') := by
        simp [Outbound.step, hwriting, hbuffer, writeOut, hwrite, stall]
      rw [hstep]
      exact ⟨rfl, fun _ hdone => by cases hdone⟩
  | shut hwriting hempty => exact absurd hempty hbuffer

end Outbound

end Switchboard
