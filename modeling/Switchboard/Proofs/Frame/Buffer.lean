import Switchboard.Proofs.Frame.Departure

/-!
# The buffer of a writing half

What an operation has to put, and what a step of it does to the buffer
(`Outbound.Handles`): the buffer stays within its bounds, it is emptied before the
connection is flushed or the writing ended, and what is still to do is some of what
was to do before. So the buffer is empty when an operation is done that ends with
either (`Sending.empties`).
-/

namespace Switchboard

/-! ## What is asked for -/

namespace Sending

/-- The octets of an operation. -/
def octets : Sending → Octets
  | .frame payload => frameOctets payload
  | .frames payloads => payloads.flatMap frameOctets
  | .raw octets => octets
  | .flush | .close => []

/-- The payloads that an operation sends in frames. -/
def payloads : Sending → List ByteArray
  | .frame payload => [payload]
  | .frames payloads => payloads
  | .raw _ | .flush | .close => []

/-- Whether the operation ends with a flush. -/
def flushes : Sending → Bool
  | .frames _ | .raw _ | .flush => true
  | .frame _ | .close => false

/-- Whether the operation ends with an empty buffer when it ends well. -/
def empties : Sending → Bool
  | .frame _ => false
  | .frames _ | .raw _ | .flush | .close => true

theorem octets_parts (s : Sending) :
    (s.parts.flatMap (·.acts)).flatMap Act.octets = s.octets := by
  cases s with
  | frame payload => simp [parts, framePart, Act.octets, octets, frameOctets]
  | frames payloads =>
      simp only [parts, octets, List.flatMap_append, List.flatMap_map]
      simp [framePart, Act.octets, List.flatMap_assoc]
      rfl
  | raw octets => simp [parts, Act.octets, Sending.octets]
  | flush => rfl
  | close => rfl

/-- The first frame that is too long, in whatever way the frames are sent. -/
theorem oversized_eq (limit : Nat) (s : Sending) :
    s.oversized limit = s.payloads.find? (limit < ·.size) := by
  cases s with
  | frame payload => by_cases hlarge : limit < payload.size <;> simp [oversized, payloads, hlarge]
  | frames | raw | flush | close => rfl

theorem octets_eq_frames {s : Sending} (hs : ∀ octets, s ≠ .raw octets) :
    s.octets = s.payloads.flatMap frameOctets := by
  cases s with
  | frame payload => simp [octets, payloads]
  | frames payloads => rfl
  | raw octets => exact absurd rfl (hs octets)
  | flush | close => rfl

end Sending

/-! ## What a step does -/

namespace Outbound

/-- What one step of an operation does to the buffer and to the acts that are
left, when it goes on and when it ends. -/
inductive Handles (o : Outbound) : Poll (Except LinkError Unit) → Outbound → Prop where
  /-- No act is done. -/
  | still {poll : Poll (Except LinkError Unit)} {o' : Outbound}
      (hpoll : poll = .again ∨ poll = .blocked) (hpending : o'.pending = o.pending)
      (hbuffer : o'.buffer = o.buffer ∨ o'.buffer = []) : Handles o poll o'
  | act {act : Act} {o' : Outbound} (hpending : o.pending = act :: o'.pending)
      (hbuffer : o'.buffer = o.buffer ∨ o'.buffer.length ≤ bufferSize)
      (hempties : act = .flush ∨ act = .shut → o'.buffer = []) : Handles o .again o'
  /-- Some octets of an act go past the buffer. -/
  | direct {act : Act} {back : Octets} {acts : List Act} {o' : Outbound} (hputs : act.Puts)
      (hpending : o.pending = act :: acts) (hpending' : o'.pending = .put back :: acts)
      (hbuffer : o'.buffer = o.buffer) : Handles o .again o'
  | finished {o' : Outbound} (hpending : o.pending = []) (hbuffer : o'.buffer = o.buffer) :
      Handles o (.done (.ok ())) o'
  | failed {error : LinkError} {o' : Outbound}
      (hbuffer : o'.buffer.length ≤ o.buffer.length) : Handles o (.done (.error error)) o'

variable {o o' : Outbound} {w : Writing}

/-- A step of an operation keeps within the buffer, and empties it before it
flushes or ends the writing. -/
theorem step_handles {L : Type} [Link L] (side : Side) (now : Nat) (hw : o.writing = some w)
    (link : L) : Handles o (o.step side now link).1 (o.step side now link).2.1 := by
  have hstep := step_cases side now hw link
  generalize o.step side now link = step at hstep
  obtain ⟨poll, o', link'⟩ := step
  dsimp only at hstep ⊢
  cases hstep with
  | finished hacts hlater => exact .finished (by rw [pending_of_some hw, hacts, hlater]; rfl) rfl
  | begins hacts hlater =>
      exact .still (Or.inl rfl) (pending_begun hw hacts hlater) (Or.inl rfl)
  | puts hacts hputs hfits =>
      refine .act (pending_done hw hacts rfl) ?_ fun hends => absurd hends (not_or.mpr hputs)
      refine hfits.imp (fun hnone => ?_) fun hfits => ?_
      · rw [hnone, List.append_nil]
      · rw [List.length_append]
        exact hfits.1
  | settles hbuffer hacts =>
      exact .act (pending_done hw hacts rfl) (Or.inl rfl) fun _ => hbuffer
  | drains =>
      refine .still (Or.inl rfl) ?_ (handed_buffer ..)
      rw [pending, pending, handed_writing]
  | passes _ hacts hputs =>
      exact .direct hputs (by rw [pending_of_some hw, hacts]; rfl) rfl rfl
  | waits => exact .still (Or.inr rfl) rfl (Or.inl rfl)
  | gone | unsettled | late | failsPast => exact .failed (Nat.le_refl _)
  | fails =>
      refine .failed ?_
      rw [cancel, compact, List.length_drop]
      exact Nat.sub_le _ _

theorem settings_step {L : Type} [Link L] (side : Side) (now : Nat) (o : Outbound) (link : L) :
    (o.step side now link).2.1.aborted = o.aborted ∧
      (o.step side now link).2.1.limit = o.limit ∧
      (o.step side now link).2.1.patience = o.patience := by
  cases hw : o.writing with
  | none =>
      rw [step_idle side now hw]
      exact ⟨rfl, rfl, rfl⟩
  | some w => exact (step_cases side now hw link).settings

/-- When the writing was given up, an operation without parts is done, and any
other fails before it puts anything. -/
theorem step_unbegun {L : Type} [Link L] (side : Side) (now : Nat) (link : L)
    (haborted : o.aborted = true) (hw : o.writing = some w) (hacts : w.acts = []) :
    ∃ result, o.step side now link = (.done result, o.cancel, link) := by
  unfold step
  rw [hw]
  dsimp only
  rw [hacts]
  cases w.later with
  | nil => exact ⟨_, rfl⟩
  | cons part later =>
      simp only [haborted, if_true]
      exact ⟨_, rfl⟩

/-- The buffer will be empty when the operation is done. -/
def Empties (o : Outbound) : Prop :=
  o.pending.getLast? = some .flush ∨ o.pending.getLast? = some .shut ∨
    o.pending = [] ∧ o.buffer = []

variable {poll : Poll (Except LinkError Unit)}

theorem Handles.bounded (h : o.Handles poll o') (hbound : o.buffer.length ≤ bufferSize) :
    o'.buffer.length ≤ bufferSize := by
  cases h with
  | still _ _ hbuffer =>
      rcases hbuffer with hsame | hempty
      · rw [hsame]
        exact hbound
      · rw [hempty]
        exact Nat.zero_le _
  | act _ hbuffer =>
      rcases hbuffer with hsame | hle
      · rw [hsame]
        exact hbound
      · exact hle
  | direct _ _ _ hbuffer => rw [hbuffer]; exact hbound
  | finished _ hbuffer => rw [hbuffer]; exact hbound
  | failed hle => exact Nat.le_trans hle hbound

theorem Handles.empties (h : o.Handles poll o') (hempties : o.Empties)
    (hpoll : poll = .again ∨ poll = .blocked) : o'.Empties := by
  have hlonger {act : Act} {acts : List Act} (hput : act ≠ .flush ∧ act ≠ .shut)
      (hpending : o.pending = act :: acts) :
      acts.getLast? = some .flush ∨ acts.getLast? = some .shut := by
    rw [Empties, hpending] at hempties
    cases acts with
    | nil => simp [hput] at hempties
    | cons next rest => simpa using hempties
  cases h with
  | still _ hpending hbuffer =>
      rw [Empties, hpending]
      refine hempties.imp_right (Or.imp_right ?_)
      rintro ⟨hnil, hempty⟩
      exact ⟨hnil, hbuffer.elim (fun hsame => hsame.trans hempty) id⟩
  | @act act _ hpending _ hlast =>
      by_cases hends : act = .flush ∨ act = .shut
      · cases hrest : o'.pending with
        | nil => exact Or.inr (Or.inr ⟨hrest, hlast hends⟩)
        | cons next rest =>
            rw [Empties, hpending, hrest] at hempties
            rw [Empties, hrest]
            simpa using hempties
      · rcases hlonger (not_or.mp hends) hpending with hflush | hshut
        · exact Or.inl hflush
        · exact Or.inr (Or.inl hshut)
  | @direct act back acts _ hputs hpending hpending' =>
      rw [Empties, hpending', List.getLast?_cons]
      rcases hlonger hputs hpending with hflush | hshut
      · exact Or.inl (by rw [hflush]; rfl)
      · exact Or.inr (Or.inl (by rw [hshut]; rfl))
  | finished => simp at hpoll
  | failed => simp at hpoll

/-- The acts that are left are some of those there were, or the rest of one. -/
theorem Handles.noShut (h : o.Handles poll o') (hpoll : poll = .again ∨ poll = .blocked)
    (hnot : .shut ∉ o.pending) : .shut ∉ o'.pending := by
  cases h with
  | still _ hpending => rwa [hpending]
  | act hpending =>
      rw [hpending] at hnot
      exact fun hmem => hnot (List.mem_cons_of_mem _ hmem)
  | direct _ hpending hpending' =>
      rw [hpending] at hnot
      rw [hpending']
      intro hmem
      rcases List.mem_cons.mp hmem with heq | hmem
      · cases heq
      · exact hnot (List.mem_cons_of_mem _ hmem)
  | finished | failed => simp at hpoll

variable {s : Sending}

/-- An operation that is begun has all its octets to put. -/
theorem unput_begun (s : Sending) (o : Outbound) :
    unput { o with writing := some { later := s.parts } } = s.octets :=
  s.octets_parts

theorem empties_begun (hempties : s.empties = true) :
    Empties { o with writing := some { later := s.parts } } := by
  cases s with
  | frame payload => cases hempties
  | frames payloads => exact Or.inl (by simp [pending, Sending.parts])
  | raw octets => exact Or.inl rfl
  | flush => exact Or.inl rfl
  | close => exact Or.inr (Or.inl rfl)

theorem flushes_begun (hflushes : s.flushes = true) :
    Flushes { o with writing := some { later := s.parts } } ∧
      .shut ∉ pending { o with writing := some { later := s.parts } } := by
  cases s with
  | frame payload => cases hflushes
  | frames payloads =>
      refine ⟨.inl ?_, ?_⟩
      · simp [pending, Sending.parts]
      · simp [pending, Sending.parts, framePart]
  | raw octets => exact ⟨.inl rfl, by simp [pending, Sending.parts]⟩
  | flush => exact ⟨.inl rfl, by simp [pending, Sending.parts]⟩
  | close => cases hflushes

end Outbound

end Switchboard
