import Switchboard.Frame.Inbound
import Switchboard.Frame.Outbound

/-!
# What an attempt comes to

Both halves of a connection go on one attempt at a time. All that an attempt can come to
is said here once, over every connection: `Outbound.step_cases` says it of an operation of
the writing half and `Inbound.step_cases` of a read. An attempt asks the connection for
one thing at most, and each case names what was asked for and what the answer was.
Whatever a half keeps from attempt to attempt is proved elsewhere, by these cases.
-/

namespace Switchboard

variable {L : Type} [Link L]

/-! ## Writing -/

/-- The octets that an act puts. -/
def Act.octets : Act → Octets
  | .put rest => rest
  | .payload bytes => bytes.octets
  | .flush | .shut => []

theorem Act.octets_of_empty {bytes : ByteArray} (h : bytes.size = 0) :
    (Act.payload bytes).octets = [] :=
  List.length_eq_zero_iff.mp ((Octets.length_octets bytes).trans h)

/-- Whether an act only adds octets. -/
def Act.Puts (act : Act) : Prop := act ≠ .flush ∧ act ≠ .shut

/-- With the buffer empty, the act is done by asking the connection for it. -/
inductive Act.Settles (side : Side) (link : L) : Act → Except IoError Unit → L → Prop where
  | flush {result : Except IoError Unit} {link' : L} (h : Link.flush side link = (result, link')) :
      Settles side link .flush result link'
  | shut {result : Except IoError Unit} {link' : L} (h : Link.shut side link = (result, link')) :
      Settles side link .shut result link'

theorem Act.Settles.octets {side : Side} {link link' : L} {act : Act}
    {result : Except IoError Unit} (h : act.Settles side link result link') : act.octets = [] := by
  cases h <;> rfl

/-- An attempt to write has failed, or it took nothing as if that were a success; then
the failure has a text of its own. -/
inductive Acceptance.FailsWith (text : String) : Acceptance → IoError → Prop where
  | failed (error : IoError) : FailsWith text (.failed error) error
  | nothingTaken : FailsWith text (.accepted 0) ⟨.writeZero, text⟩

namespace Outbound

/-- What is in the buffer and was not handed over. -/
def unsent (o : Outbound) : Octets := o.buffer.drop o.written

/-- The operation with its next part begun. -/
def begun (now : Nat) (part : Part) (later : List Part) (o : Outbound) : Outbound :=
  { o with
    writing := some ⟨part.acts, if part.timed then o.patience.map (now + ·) else none, later⟩ }

/-- So many more octets of the buffer were handed over. -/
def handed (count : Nat) (o : Outbound) : Outbound :=
  if o.written + count < o.buffer.length then { o with written := o.written + count }
  else { o with written := o.written + count }.compact

section Handed

variable (count : Nat) (o : Outbound)

@[simp] theorem handed_aborted : (o.handed count).aborted = o.aborted := by
  unfold handed
  split <;> rfl

@[simp] theorem handed_limit : (o.handed count).limit = o.limit := by
  unfold handed
  split <;> rfl

@[simp] theorem handed_patience : (o.handed count).patience = o.patience := by
  unfold handed
  split <;> rfl

@[simp] theorem handed_writing : (o.handed count).writing = o.writing := by
  unfold handed
  split <;> rfl

@[simp] theorem handed_unsent : (o.handed count).unsent = o.unsent.drop count := by
  unfold handed unsent
  rw [List.drop_drop]
  split <;> rfl

/-- The buffer stays as it is until all of it was handed over. -/
theorem handed_buffer : (o.handed count).buffer = o.buffer ∨ (o.handed count).buffer = [] := by
  unfold handed
  split
  · exact .inl rfl
  · rename_i hall
    exact .inr (List.drop_eq_nil_of_le (Nat.not_lt.mp hall))

end Handed

/-- What the connection is offered: what is in the buffer and was not handed over, or,
past an empty buffer, the octets of an act that would fill it. -/
inductive Offers (o : Outbound) (w : Writing) : Octets → Prop where
  | buffered (hbuffer : o.buffer ≠ []) (hsome : w.acts ≠ []) : Offers o w o.unsent
  | direct {act : Act} {acts : List Act} (hbuffer : o.buffer = []) (hacts : w.acts = act :: acts)
      (hputs : act.Puts) (hlong : bufferSize ≤ act.octets.length) : Offers o w act.octets

theorem Offers.acts_ne_nil {o : Outbound} {w : Writing} {offered : Octets}
    (h : o.Offers w offered) : w.acts ≠ [] := by
  cases h with
  | buffered _ hsome => exact hsome
  | direct _ hacts => simp [hacts]

/-- What one attempt to go on with the operation `w` comes to. -/
inductive WriteStep (side : Side) (now : Nat) (o : Outbound) (w : Writing) (link : L) :
    Poll (Except LinkError Unit) → Outbound → L → Prop where
  | finished (hacts : w.acts = []) (hlater : w.later = []) :
      WriteStep side now o w link (.done (.ok ())) o.cancel link
  /-- When the writing was given up, no part begins. -/
  | gone {part : Part} {later : List Part} (hacts : w.acts = []) (hlater : w.later = part :: later)
      (haborted : o.aborted = true) :
      WriteStep side now o w link (.done (.error .connectionClosed)) o.cancel link
  | begins {part : Part} {later : List Part} (hacts : w.acts = [])
      (hlater : w.later = part :: later) (hupright : o.aborted = false) :
      WriteStep side now o w link .again (o.begun now part later) link
  /-- The octets of an act go into the buffer, if it has any. -/
  | puts {act : Act} {acts : List Act} (hacts : w.acts = act :: acts) (hputs : act.Puts)
      (hfits : act.octets = [] ∨ o.buffer.length + act.octets.length ≤ bufferSize ∧
        act.octets.length < bufferSize) :
      WriteStep side now o w link .again
        { o with buffer := o.buffer ++ act.octets, writing := some { w with acts } } link
  | settles {act : Act} {acts : List Act} {link' : L} (hbuffer : o.buffer = [])
      (hacts : w.acts = act :: acts) (hsettles : act.Settles side link (.ok ()) link') :
      WriteStep side now o w link .again { o with writing := some { w with acts } } link'
  | unsettled {act : Act} {acts : List Act} {error : IoError} {link' : L} (hbuffer : o.buffer = [])
      (hacts : w.acts = act :: acts) (hsettles : act.Settles side link (.error error) link') :
      WriteStep side now o w link (.done (.error (.io error))) o.cancel link'
  /-- Some of the buffer is handed over. -/
  | drains {count : Nat} {link' : L} (hbuffer : o.buffer ≠ []) (hsome : w.acts ≠ [])
      (hwrite : Link.write side o.unsent link = (.accepted (count + 1), link')) :
      WriteStep side now o w link .again (o.handed (count + 1)) link'
  /-- Some octets of an act go past the buffer. -/
  | passes {act : Act} {acts : List Act} {count : Nat} {link' : L} (hbuffer : o.buffer = [])
      (hacts : w.acts = act :: acts) (hputs : act.Puts) (hlong : bufferSize ≤ act.octets.length)
      (hwrite : Link.write side act.octets link = (.accepted (count + 1), link')) :
      WriteStep side now o w link .again
        { o with writing := some { w with acts := .put (act.octets.drop (count + 1)) :: acts } }
        link'
  | waits {offered : Octets} {link' : L} (hoffers : o.Offers w offered)
      (hwrite : Link.write side offered link = (.nothing, link'))
      (hearly : ∀ time, w.deadline = some time → now < time) :
      WriteStep side now o w link .blocked o link'
  | late {offered : Octets} {time : Nat} {link' : L} (hoffers : o.Offers w offered)
      (hwrite : Link.write side offered link = (.nothing, link'))
      (hdeadline : w.deadline = some time) (hdue : time ≤ now) :
      WriteStep side now o w link (.done (.error (.timeout .send))) o.cancel link'
  /-- What was handed over leaves the buffer. -/
  | fails {acceptance : Acceptance} {error : IoError} {link' : L} (hbuffer : o.buffer ≠ [])
      (hsome : w.acts ≠ []) (hwrite : Link.write side o.unsent link = (acceptance, link'))
      (hfails : acceptance.FailsWith "failed to write the buffered data" error) :
      WriteStep side now o w link (.done (.error (.io error))) o.compact.cancel link'
  | failsPast {act : Act} {acts : List Act} {acceptance : Acceptance} {error : IoError} {link' : L}
      (hbuffer : o.buffer = []) (hacts : w.acts = act :: acts) (hputs : act.Puts)
      (hlong : bufferSize ≤ act.octets.length)
      (hwrite : Link.write side act.octets link = (acceptance, link'))
      (hfails : acceptance.FailsWith "write zero" error) :
      WriteStep side now o w link (.done (.error (.io error))) o.cancel link'

variable {side : Side} {now : Nat} {o o' : Outbound} {w : Writing} {link link' : L}
  {poll : Poll (Except LinkError Unit)}

section Cases

variable {act : Act} {acts : List Act}

theorem writeStep_stall {offered : Octets} (hoffers : o.Offers w offered)
    (hwrite : Link.write side offered link = (.nothing, link')) :
    WriteStep side now o w link (o.stall now w).1 (o.stall now w).2 link' := by
  unfold stall
  split
  · rename_i hdue
    obtain ⟨time, hdeadline, htime⟩ := Option.any_eq_true _ _ |>.mp hdue
    exact .late hoffers hwrite hdeadline (of_decide_eq_true htime)
  · rename_i hearly
    refine .waits hoffers hwrite fun time htime => ?_
    simpa [htime] using hearly

theorem writeStep_writeOut (hbuffer : o.buffer ≠ []) (hsome : w.acts ≠ []) :
    WriteStep side now o w link (o.writeOut side now w link).1 (o.writeOut side now w link).2.1
      (o.writeOut side now w link).2.2 := by
  unfold writeOut
  rcases hwrite : Link.write side (o.buffer.drop o.written) link with
    ⟨(_ | count) | error | _, link'⟩
  · exact .fails hbuffer hsome hwrite .nothingTaken
  · exact .drains hbuffer hsome hwrite
  · exact .fails hbuffer hsome hwrite (.failed error)
  · exact writeStep_stall (.buffered hbuffer hsome) hwrite

theorem writeStep_writeDirect (hbuffer : o.buffer = []) (hacts : w.acts = act :: acts)
    (hputs : act.Puts) (hlong : bufferSize ≤ act.octets.length) :
    WriteStep side now o w link (o.writeDirect side now w act.octets acts link).1
      (o.writeDirect side now w act.octets acts link).2.1
      (o.writeDirect side now w act.octets acts link).2.2 := by
  unfold writeDirect
  rcases hwrite : Link.write side act.octets link with ⟨(_ | count) | error | _, link'⟩
  · exact .failsPast hbuffer hacts hputs hlong hwrite .nothingTaken
  · exact .passes hbuffer hacts hputs hlong hwrite
  · exact .failsPast hbuffer hacts hputs hlong hwrite (.failed error)
  · exact writeStep_stall (.direct hbuffer hacts hputs hlong) hwrite

theorem writeStep_add (act : Act) {size : Nat} (hsize : act.octets.length = size)
    (hacts : w.acts = act :: acts) (hputs : act.Puts) :
    WriteStep side now o w link (o.add side now w size (fun _ => act.octets) acts link).1
      (o.add side now w size (fun _ => act.octets) acts link).2.1
      (o.add side now w size (fun _ => act.octets) acts link).2.2 := by
  subst hsize
  unfold add
  split
  · rename_i hfits
    exact .puts hacts hputs (.inr hfits)
  · rename_i hlong
    split
    · rename_i hempty
      have hbuffer := List.isEmpty_iff.mp hempty
      refine writeStep_writeDirect hbuffer hacts hputs ?_
      rw [hbuffer, List.length_nil] at hlong
      omega
    · rename_i hfull
      exact writeStep_writeOut (by simpa using hfull) (by simp [hacts])

/-- An act without octets is done at once. -/
theorem writeStep_skip (hacts : w.acts = act :: acts) (hputs : act.Puts) (hnone : act.octets = []) :
    WriteStep side now o w link .again { o with writing := some { w with acts } } link := by
  have hputsNothing := @WriteStep.puts L _ side now o w link act acts hacts hputs (.inl hnone)
  rwa [hnone, List.append_nil] at hputsNothing

end Cases

theorem step_cases (side : Side) (now : Nat) (hw : o.writing = some w) (link : L) :
    WriteStep side now o w link (o.step side now link).1 (o.step side now link).2.1
      (o.step side now link).2.2 := by
  unfold step
  rw [hw]
  dsimp only
  split
  · rename_i hacts
    split
    · rename_i hlater
      exact .finished hacts hlater
    · rename_i part later hlater
      split
      · rename_i haborted
        exact .gone hacts hlater haborted
      · rename_i hupright
        exact .begins hacts hlater (by simpa using hupright)
  · rename_i acts hacts
    exact writeStep_skip hacts (by simp [Act.Puts]) rfl
  · rename_i rest acts _ hacts
    exact writeStep_add (.put rest) rfl hacts (by simp [Act.Puts])
  · rename_i bytes acts hacts
    split
    · rename_i hnone
      exact writeStep_skip hacts (by simp [Act.Puts]) (Act.octets_of_empty hnone)
    · exact writeStep_add (.payload bytes) (Octets.length_octets bytes) hacts
        (by simp [Act.Puts])
  · rename_i acts hacts
    split
    · rename_i hempty
      rcases hflush : Link.flush side link with ⟨error | _, link'⟩
      · exact .unsettled (List.isEmpty_iff.mp hempty) hacts (.flush hflush)
      · exact .settles (List.isEmpty_iff.mp hempty) hacts (.flush hflush)
    · rename_i hfull
      exact writeStep_writeOut (by simpa using hfull) (by simp [hacts])
  · rename_i acts hacts
    split
    · rename_i hempty
      rcases hshut : Link.shut side link with ⟨error | _, link'⟩
      · exact .unsettled (List.isEmpty_iff.mp hempty) hacts (.shut hshut)
      · exact .settles (List.isEmpty_iff.mp hempty) hacts (.shut hshut)
    · rename_i hfull
      exact writeStep_writeOut (by simpa using hfull) (by simp [hacts])

theorem step_idle (side : Side) (now : Nat) (hw : o.writing = none) (link : L) :
    o.step side now link = (.blocked, o, link) := by
  simp only [step, hw]

theorem step_finished (side : Side) (now : Nat) (hw : o.writing = some w) (hacts : w.acts = [])
    (hlater : w.later = []) (link : L) : o.step side now link = (.done (.ok ()), o.cancel, link) := by
  simp only [step, hw, hacts, hlater]

theorem WriteStep.settings (h : WriteStep side now o w link poll o' link') :
    o'.aborted = o.aborted ∧ o'.limit = o.limit ∧ o'.patience = o.patience := by
  cases h with
  | drains => simp
  | _ => exact ⟨rfl, rfl, rfl⟩

/-- What every request to the connection keeps, an attempt keeps. -/
theorem WriteStep.keeps {P : L → Prop} (h : WriteStep side now o w link poll o' link')
    (hlink : P link) (hwrite : ∀ octets, P (Link.write side octets link).2)
    (hflush : P (Link.flush side link).2) (hshut : P (Link.shut side link).2) : P link' := by
  have hwritten {octets : Octets} {acceptance : Acceptance}
      (h : Link.write side octets link = (acceptance, link')) : P link' := by
    simpa [h] using hwrite octets
  have hsettled {act : Act} {result : Except IoError Unit}
      (h : act.Settles side link result link') : P link' := by
    cases h with
    | flush h => simpa [h] using hflush
    | shut h => simpa [h] using hshut
  cases h with
  | finished | gone | begins | puts => exact hlink
  | settles _ _ h | unsettled _ _ h => exact hsettled h
  | drains _ _ h | passes _ _ _ _ h | waits _ h | late _ h | fails _ _ h | failsPast _ _ _ _ h =>
      exact hwritten h

end Outbound

/-! ## Reading -/

theorem Progress.want_pos (p : Progress) : 0 < p.want := by
  cases p with
  | payload seen need => exact Nat.lt_of_lt_of_le (by decide) (Nat.le_max_right need fetchSize)
  | length | skipping | line => exact (by decide : 0 < fetchSize)

namespace Inbound

/-- Where the octets come from that a read goes on with: the buffer, and the connection
only when there is nothing in the buffer. -/
inductive Gets (side : Side) (now : Nat) (i : Inbound) (r : Reading) (link : L) :
    Octets → L → Prop where
  | buffered (hbuffer : i.buffer ≠ []) : Gets side now i r link i.buffer link
  | arrived {octets : Octets} {link' : L} (hbuffer : i.buffer = [])
      (hread : Link.read side r.progress.want now link = (.data octets, link')) :
      Gets side now i r link octets link'

/-- What one attempt to go on with the read `r` comes to. -/
inductive ReadStep (side : Side) (now : Nat) (i : Inbound) (r : Reading) (link : L) :
    Poll (Except LinkError Received) → Inbound → L → Prop where
  | goes {octets : Octets} {progress : Progress} {link' : L}
      (hgets : i.Gets side now r link octets link')
      (hfed : r.progress.feed i.limit octets = .more progress) :
      ReadStep side now i r link .again
        { i with buffer := [], reading := some { r with progress } } link'
  | done {octets rest : Octets} {result : Except LinkError Received} {link' : L}
      (hgets : i.Gets side now r link octets link')
      (hfed : r.progress.feed i.limit octets = .done result rest) :
      ReadStep side now i r link (.done result) { i with buffer := rest, reading := none } link'
  | ended {link' : L} (hbuffer : i.buffer = [])
      (hread : Link.read side r.progress.want now link = (.ended, link')) :
      ReadStep side now i r link (.done (.error r.progress.onEnd)) i.cancel link'
  | interrupted {error : IoError} {link' : L} (hbuffer : i.buffer = [])
      (hread : Link.read side r.progress.want now link = (.failed error, link'))
      (hkind : error.kind = .interrupted) : ReadStep side now i r link .again i link'
  | failed {error : IoError} {link' : L} (hbuffer : i.buffer = [])
      (hread : Link.read side r.progress.want now link = (.failed error, link'))
      (hkind : error.kind ≠ .interrupted) :
      ReadStep side now i r link (.done (.error (r.progress.onFailure error))) i.cancel link'
  | late {time : Nat} {link' : L} (hbuffer : i.buffer = [])
      (hread : Link.read side r.progress.want now link = (.nothing, link'))
      (hdeadline : r.deadline = some time) (hdue : time ≤ now) :
      ReadStep side now i r link (.done (.error (.timeout .receive))) i.cancel link'
  | waits {link' : L} (hbuffer : i.buffer = [])
      (hread : Link.read side r.progress.want now link = (.nothing, link'))
      (hearly : ∀ time, r.deadline = some time → now < time) :
      ReadStep side now i r link .blocked i link'

variable {side : Side} {now : Nat} {i i' : Inbound} {r : Reading} {link link' : L}
  {poll : Poll (Except LinkError Received)}

theorem readStep_consume {octets : Octets} (hgets : i.Gets side now r link octets link') :
    ReadStep side now i r link (i.consume r octets).1 (i.consume r octets).2 link' := by
  unfold consume
  split
  · rename_i progress hfed
    exact .goes hgets hfed
  · rename_i result rest hfed
    exact .done hgets hfed

theorem step_cases (side : Side) (now : Nat) (hreading : i.reading = some r) (link : L) :
    ReadStep side now i r link (i.step side now link).1 (i.step side now link).2.1
      (i.step side now link).2.2 := by
  unfold step
  rw [hreading]
  dsimp only
  split
  · rename_i b bs hbuffer
    have hgets : i.Gets side now r link i.buffer link := .buffered (by simp [hbuffer])
    rw [hbuffer] at hgets
    exact readStep_consume hgets
  · rename_i hbuffer
    rcases hread : Link.read side r.progress.want now link with
      ⟨octets | _ | error | _, link'⟩
    · exact readStep_consume (.arrived hbuffer hread)
    · exact .ended hbuffer hread
    · dsimp only
      split
      · rename_i hkind
        exact .interrupted hbuffer hread hkind
      · rename_i hkind
        exact .failed hbuffer hread hkind
    · dsimp only
      split
      · rename_i hdue
        obtain ⟨time, hdeadline, htime⟩ := (Option.any_eq_true _ _).mp hdue
        exact .late hbuffer hread hdeadline (of_decide_eq_true htime)
      · rename_i hearly
        refine .waits hbuffer hread fun time htime => ?_
        simpa [htime] using hearly

theorem step_idle (side : Side) (now : Nat) (hreading : i.reading = none) (link : L) :
    i.step side now link = (.blocked, i, link) := by
  simp only [step, hreading]

/-- What every request for octets keeps, an attempt keeps. -/
theorem ReadStep.keeps {P : L → Prop} (h : ReadStep side now i r link poll i' link')
    (hlink : P link) (hread : ∀ want, 0 < want → P (Link.read side want now link).2) :
    P link' := by
  have hasked {arrival : Arrival}
      (h : Link.read side r.progress.want now link = (arrival, link')) : P link' := by
    simpa [h] using hread _ r.progress.want_pos
  have hgot {octets : Octets} (h : i.Gets side now r link octets link') : P link' := by
    cases h with
    | buffered => exact hlink
    | arrived _ h => exact hasked h
  cases h with
  | goes h | done h => exact hgot h
  | ended _ h | interrupted _ h | failed _ h | late _ h | waits _ h => exact hasked h

theorem ReadStep.settings (h : ReadStep side now i r link poll i' link') :
    i'.limit = i.limit ∧ i'.patience = i.patience := by
  cases h <;> exact ⟨rfl, rfl⟩

end Inbound

end Switchboard
