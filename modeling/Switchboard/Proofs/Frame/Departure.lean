import Switchboard.Proofs.Frame.Arrival

/-!
# What leaves through the writing half

Octets that are written take a way of three stretches: some are still to be put
into the buffer, some are in the buffer, and some the connection has taken. Whatever
connection there is, a step of an operation moves octets along the way and neither
loses one nor changes their order (`Moves`, where `put` are those that leave the first
stretch and `sent` those that leave the second). An operation that ends well has put all
its octets, and when it ends with a flush the buffer is empty. An operation that
fails or is left forgets what it had still to put, but what is in the buffer
stays there, in front of whatever is written next (`Ships.failed`).
-/

namespace Switchboard

/-! ## What the connection takes -/

/-- The connection took some octets, and perhaps its writing was ended. -/
def Script.Takes (sent : Octets) (link link' : Script) : Prop :=
  ∃ credit shut, link' = { link with credit, shut, taken := link.taken ++ sent }

namespace Script.Takes

variable {sent : Octets} {link link' : Script}

theorem nothing (link : Script) : Takes [] link link := ⟨link.credit, link.shut, by simp⟩

theorem shut (link : Script) : Takes [] link { link with shut := true } :=
  ⟨link.credit, true, by simp⟩

theorem taken (h : Takes sent link link') : link'.taken = link.taken ++ sent := by
  obtain ⟨credit, shut, rfl⟩ := h
  rfl

end Script.Takes

/-- What an attempt to write comes to. -/
inductive Script.Accepts (octets : Octets) (link : Script) : Acceptance → Script → Prop where
  | nothing : Accepts octets link .nothing link
  | failed (error : IoError) : Accepts octets link (.failed error) link
  | zero : Accepts octets link (.accepted 0) link
  | some {count : Nat} {link' : Script} (hle : count + 1 ≤ octets.length)
      (htakes : link.Takes (octets.take (count + 1)) link') :
      Accepts octets link (.accepted (count + 1)) link'

/-- How many of the octets the credit allows to take. -/
def Script.room (octets : Octets) (link : Script) : Nat :=
  match link.credit with
  | none => octets.length
  | some credit => min credit octets.length

theorem Script.room_le (octets : Octets) (link : Script) : link.room octets ≤ octets.length := by
  unfold room
  split
  · exact Nat.le_refl _
  · exact Nat.min_le_right _ _

/-- What a connection answers when it takes nothing. -/
def WhenFull.acceptance : WhenFull → Acceptance
  | .wait => .nothing
  | .takeNothing => .accepted 0
  | .fail error => .failed error

theorem Script.write_eq (side : Side) (octets : Octets) (link : Script) :
    Link.write side octets link =
      if link.room octets = 0 then (link.whenFull.acceptance, link)
      else
        (.accepted (link.room octets), { link with
          credit := link.credit.map (· - link.room octets)
          taken := link.taken ++ octets.take (link.room octets) }) := by
  show link.accept octets = _
  unfold accept room
  dsimp only
  cases link.whenFull <;> rfl

theorem Script.write_accepts (side : Side) (octets : Octets) (link : Script) :
    Accepts octets link (Link.write side octets link).1 (Link.write side octets link).2 := by
  have hle := link.room_le octets
  rw [write_eq]
  cases hroom : link.room octets with
  | zero =>
      rw [if_pos rfl]
      cases link.whenFull with
      | wait => exact .nothing
      | takeNothing => exact .zero
      | fail error => exact .failed error
  | succ count =>
      rw [if_neg (Nat.succ_ne_zero count)]
      exact .some (hroom ▸ hle) ⟨_, link.shut, rfl⟩

theorem Script.takes_of_accepted {side : Side} {octets : Octets} {count : Nat}
    {link link' : Script}
    (h : Link.write side octets link = (.accepted (count + 1), link')) :
    link.Takes (octets.take (count + 1)) link' := by
  have haccepts := link.write_accepts side octets
  rw [h] at haccepts
  cases haccepts with
  | some _ htakes => exact htakes

theorem Script.same_of_refused {side : Side} {octets : Octets} {acceptance : Acceptance}
    {link link' : Script} (h : Link.write side octets link = (acceptance, link'))
    (hrefused : ∀ count, acceptance ≠ .accepted (count + 1)) : link' = link := by
  have haccepts := link.write_accepts side octets
  rw [h] at haccepts
  cases haccepts with
  | nothing | failed | zero => rfl
  | some => exact absurd rfl (hrefused _)

theorem Acceptance.FailsWith.refused {text : String} {acceptance : Acceptance} {error : IoError}
    (h : acceptance.FailsWith text error) (count : Nat) : acceptance ≠ .accepted (count + 1) := by
  cases h <;> exact nofun

theorem Act.Settles.takes {side : Side} {link link' : Script} {act : Act}
    {result : Except IoError Unit} (h : act.Settles side link result link') :
    link.Takes [] link' := by
  cases h with
  | flush h =>
      obtain ⟨-, rfl⟩ := Prod.mk.inj h
      exact .nothing link
  | shut h =>
      obtain ⟨-, rfl⟩ := Prod.mk.inj h
      exact .shut link

/-! ## The way of the octets -/

namespace Outbound

/-- The acts that the operation has still to do. -/
def pending (o : Outbound) : List Act :=
  match o.writing with
  | none => []
  | some w => w.acts ++ w.later.flatMap (·.acts)

/-- What has still to be put. -/
def unput (o : Outbound) : Octets := o.pending.flatMap Act.octets

/-- No more was handed over than is in the buffer. -/
def IsSound (o : Outbound) : Prop := o.written ≤ o.buffer.length

/-- When all its acts are done the buffer will be empty, because the last of them
is a flush, or it is empty already. -/
def Flushes (o : Outbound) : Prop :=
  o.pending.getLast? = some .flush ∨ o.pending = [] ∧ o.buffer = []

/-- Everything is as it was but the buffer and what is left to do. -/
structure Alike (o o' : Outbound) : Prop where
  aborted : o'.aborted = o.aborted
  limit : o'.limit = o.limit
  patience : o'.patience = o.patience
  sound : o.IsSound → o'.IsSound

/-- From one moment of an operation to another these octets were put and these were handed
over, and the operation goes on. -/
structure Moves (o : Outbound) (put sent : Octets) (o' : Outbound) : Prop where
  writing : o'.writing.isSome
  alike : o.Alike o'
  unput : o.unput = put ++ o'.unput
  unsent : o.IsSound → o.unsent ++ put = sent ++ o'.unsent
  flushes : o.Flushes → o'.Flushes

theorem Alike.refl (o : Outbound) : o.Alike o := ⟨rfl, rfl, rfl, id⟩

section Any

variable {L : Type} [Link L] {side : Side} {now : Nat} {o o' : Outbound} {w : Writing}
  {link link' : L} {poll : Poll (Except LinkError Unit)}

/-- What the connection took in an attempt of an operation that goes on. -/
inductive Hands (side : Side) (o : Outbound) (w : Writing) (link : L) : Octets → L → Prop where
  | nothing : Hands side o w link [] link
  | settled {act : Act} {acts : List Act} {link' : L} (hacts : w.acts = act :: acts)
      (hsettles : act.Settles side link (.ok ()) link') : Hands side o w link [] link'
  | refused {offered : Octets} {link' : L} (hoffers : o.Offers w offered)
      (hwrite : Link.write side offered link = (.nothing, link')) : Hands side o w link [] link'
  | taken {offered : Octets} {count : Nat} {link' : L} (hoffers : o.Offers w offered)
      (hwrite : Link.write side offered link = (.accepted (count + 1), link')) :
      Hands side o w link (offered.take (count + 1)) link'

theorem pending_of_some (hw : o.writing = some w) :
    o.pending = w.acts ++ w.later.flatMap (·.acts) := by
  rw [pending, hw]

/-- The acts of the next part are the next acts. -/
theorem pending_begun {part : Part} {later : List Part} (hw : o.writing = some w)
    (hacts : w.acts = []) (hlater : w.later = part :: later) :
    (o.begun now part later).pending = o.pending := by
  rw [pending_of_some hw, hacts, hlater]
  rfl

theorem pending_done {act : Act} {acts : List Act} (hw : o.writing = some w)
    (hacts : w.acts = act :: acts) (hwriting : o'.writing = some { w with acts }) :
    o.pending = act :: o'.pending := by
  rw [pending_of_some hw, pending_of_some hwriting, hacts]
  rfl

theorem unsent_of_empty (h : o.buffer = []) : o.unsent = [] := by
  rw [unsent, h, List.drop_nil]

theorem sound_handed (count : Nat) (o : Outbound) : (o.handed count).IsSound := by
  unfold handed
  split
  · rename_i hless
    exact Nat.le_of_lt hless
  · exact Nat.zero_le _

/-- The act that is done was not the last one, or it was the flush, and then the buffer is
empty. -/
theorem flushes_of_done {act : Act} (hpending : o.pending = act :: o'.pending)
    (hflush : act = .flush → o'.buffer = []) (h : o.Flushes) : o'.Flushes := by
  rcases h with hlast | ⟨hnil, _⟩
  · rw [hpending] at hlast
    rcases hrest : o'.pending with _ | ⟨next, rest⟩
    · rw [hrest] at hlast
      exact .inr ⟨hrest, hflush (Option.some.inj hlast)⟩
    · rw [hrest, List.getLast?_cons_cons] at hlast
      exact .inl (hrest ▸ hlast)
  · rw [hpending] at hnil
    cases hnil

/-- The flush comes behind an act of which something is left to do. -/
theorem flushes_of_passed {act act' : Act} {acts : List Act} (hpending : o.pending = act :: acts)
    (hpending' : o'.pending = act' :: acts) (hflush : act ≠ .flush) (h : o.Flushes) :
    o'.Flushes := by
  rcases h with hlast | ⟨hnil, _⟩
  · left
    rw [hpending] at hlast
    rw [hpending']
    cases acts with
    | nil => exact absurd (Option.some.inj hlast) hflush
    | cons next rest =>
        rw [List.getLast?_cons_cons] at hlast ⊢
        exact hlast
  · rw [hpending] at hnil
    cases hnil

/-- The octets of an act were put, and nothing was handed over. -/
theorem moves_of_done {act : Act} {acts : List Act} (hw : o.writing = some w)
    (hacts : w.acts = act :: acts) (hwriting : o'.writing = some { w with acts })
    (halike : o.Alike o') (hflush : act = .flush → o'.buffer = [])
    (hunsent : o.IsSound → o'.unsent = o.unsent ++ act.octets) : o.Moves act.octets [] o' := by
  have hpending := pending_done hw hacts hwriting
  refine ⟨by rw [hwriting]; rfl, halike, ?_, fun hsound => (hunsent hsound).symm,
    flushes_of_done hpending hflush⟩
  rw [Outbound.unput, hpending]
  rfl

/-- An attempt after which the operation goes on moves octets along their way, and neither
loses one nor changes their order. -/
theorem WriteStep.moves (h : WriteStep side now o w link poll o' link') (hw : o.writing = some w)
    (hpoll : poll = .again ∨ poll = .blocked) :
    ∃ put sent, o.Moves put sent o' ∧ Hands side o w link sent link' := by
  cases h with
  | @begins part later hacts hlater =>
      have hpending := @pending_begun now o w part later hw hacts hlater
      refine ⟨[], [], ⟨rfl, ⟨rfl, rfl, rfl, id⟩, ?_, fun _ => List.append_nil _, ?_⟩, .nothing⟩
      · rw [Outbound.unput, Outbound.unput, hpending, List.nil_append]
      · rw [Flushes, Flushes, hpending]
        exact id
  | @puts act acts hacts hputs =>
      refine ⟨act.octets, [], moves_of_done hw hacts rfl ⟨rfl, rfl, rfl, fun hsound => ?_⟩
        (fun hflush => absurd hflush hputs.1) List.drop_append_of_le_length, .nothing⟩
      rw [IsSound, List.length_append]
      exact Nat.le_add_right_of_le hsound
  | @settles act acts _ hbuffer hacts hsettles =>
      refine ⟨act.octets, [], moves_of_done hw hacts rfl ⟨rfl, rfl, rfl, id⟩ (fun _ => hbuffer)
        fun _ => ?_, .settled hacts hsettles⟩
      rw [hsettles.octets, List.append_nil]
      rfl
  | @drains count _ hbuffer hsome hwrite =>
      refine ⟨[], _, ⟨?_, ⟨handed_aborted .., handed_limit .., handed_patience ..,
        fun _ => sound_handed ..⟩, ?_, fun _ => ?_, fun hflushes => ?_⟩,
        .taken (.buffered hbuffer hsome) hwrite⟩
      · rw [handed_writing, hw]
        rfl
      · rw [Outbound.unput, Outbound.unput, pending, pending, handed_writing, List.nil_append]
      · rw [handed_unsent, List.append_nil, List.take_append_drop]
      · rw [Flushes, pending, handed_writing]
        exact hflushes.imp_right fun hdone => absurd hdone.2 hbuffer
  | @passes act acts count _ hbuffer hacts hputs hlong hwrite =>
      have hrest : (Act.put (act.octets.drop (count + 1))).octets = act.octets.drop (count + 1) := rfl
      refine ⟨act.octets.take (count + 1), _, ⟨rfl, ⟨rfl, rfl, rfl, id⟩, ?_, fun _ => ?_,
        flushes_of_passed (by rw [pending_of_some hw, hacts]; rfl) rfl hputs.1⟩,
        .taken (.direct hbuffer hacts hputs hlong) hwrite⟩
      · rw [Outbound.unput, Outbound.unput, pending_of_some hw, pending_of_some rfl, hacts]
        simp only [List.cons_append, List.flatMap_cons, hrest, ← List.append_assoc,
          List.take_append_drop]
      · rw [unsent_of_empty hbuffer, unsent_of_empty (by exact hbuffer), List.nil_append,
          List.append_nil]
  | waits hoffers hwrite =>
      refine ⟨[], [], ⟨?_, .refl o, (List.nil_append _).symm, fun _ => List.append_nil _, id⟩,
        .refused hoffers hwrite⟩
      rw [hw]
      rfl
  | finished | gone | unsettled | late | fails | failsPast =>
      rcases hpoll with hpoll | hpoll <;> cases hpoll

end Any

/-! ## On a script -/

/-- A failure that a step of an operation can have. -/
inductive Breaks : LinkError → Prop where
  | io (error : IoError) : Breaks (.io error)
  | timeout : Breaks (.timeout .send)
  | connectionClosed : Breaks .connectionClosed

/-- What one step of an operation comes to. -/
inductive Ships (o : Outbound) (link : Script) :
    Poll (Except LinkError Unit) → Outbound → Script → Prop where
  | going {poll : Poll (Except LinkError Unit)} {o' : Outbound} {link' : Script}
      {put sent : Octets} (hpoll : poll = .again ∨ poll = .blocked)
      (hwriting : o'.writing.isSome) (halike : o.Alike o') (htakes : link.Takes sent link')
      (hput : o.unput = put ++ o'.unput)
      (hsent : o.IsSound → o.unsent ++ put = sent ++ o'.unsent)
      (hflushes : o.Flushes → o'.Flushes) : Ships o link poll o' link'
  | finished (hpending : o.pending = []) : Ships o link (.done (.ok ())) o.cancel link
  | failed {error : LinkError} {o' : Outbound} {link' : Script} (hbreaks : Breaks error)
      (hwriting : o'.writing = none) (halike : o.Alike o') (htakes : link.Takes [] link')
      (hunsent : o'.unsent = o.unsent) : Ships o link (.done (.error error)) o' link'

variable {o o' : Outbound} {link link' : Script} {w : Writing}

theorem Hands.takes {side : Side} {sent : Octets} (h : Hands side o w link sent link') :
    link.Takes sent link' := by
  cases h with
  | nothing => exact .nothing link
  | settled _ hsettles => exact hsettles.takes
  | refused _ hwrite =>
      obtain rfl := Script.same_of_refused hwrite nofun
      exact .nothing link'
  | taken _ hwrite => exact Script.takes_of_accepted hwrite

/-- A step of an operation moves octets along their way, or ends it. -/
theorem step_ships (side : Side) (now : Nat) (hw : o.writing = some w) :
    Ships o link (o.step side now link).1 (o.step side now link).2.1
      (o.step side now link).2.2 := by
  have hstep := step_cases side now hw link
  generalize o.step side now link = step at hstep
  obtain ⟨poll, o', link'⟩ := step
  dsimp only at hstep ⊢
  have hgoes (hpoll : poll = .again ∨ poll = .blocked) : Ships o link poll o' link' := by
    obtain ⟨put, sent, hmoves, hhands⟩ := hstep.moves hw hpoll
    exact .going hpoll hmoves.writing hmoves.alike hhands.takes hmoves.unput hmoves.unsent
      hmoves.flushes
  cases poll with
  | again => exact hgoes (.inl rfl)
  | blocked => exact hgoes (.inr rfl)
  | done result =>
      cases hstep with
      | finished hacts hlater => exact .finished (by rw [pending_of_some hw, hacts, hlater]; rfl)
      | gone => exact .failed .connectionClosed rfl ⟨rfl, rfl, rfl, id⟩ (.nothing link) rfl
      | unsettled _ _ hsettles =>
          exact .failed (.io _) rfl ⟨rfl, rfl, rfl, id⟩ hsettles.takes rfl
      | late _ hwrite =>
          obtain rfl := Script.same_of_refused hwrite nofun
          exact .failed .timeout rfl ⟨rfl, rfl, rfl, id⟩ (.nothing link') rfl
      | fails _ _ hwrite hfails =>
          obtain rfl := Script.same_of_refused hwrite hfails.refused
          exact .failed (.io _) rfl ⟨rfl, rfl, rfl, fun _ => Nat.zero_le _⟩ (.nothing link') rfl
      | failsPast _ _ _ _ hwrite hfails =>
          obtain rfl := Script.same_of_refused hwrite hfails.refused
          exact .failed (.io _) rfl ⟨rfl, rfl, rfl, id⟩ (.nothing link') rfl

end Outbound

/-! ## Requests -/

/-- The octets of a request: a frame for its header and one for its arguments.
There are none if one of the two has no encoding or is longer than `limit`. -/
def Framed.requestOctets (limit : Nat) (r : Wire.Request) (args : Wire.Value) : Octets :=
  match Channel.payload r.value, Channel.payload args with
  | .ok header, .ok body =>
      if header.size ≤ limit ∧ body.size ≤ limit then frameOctets header ++ frameOctets body
      else []
  | _, _ => []

/-- Why a request is not begun: it has no encoding, or is too long. -/
inductive Framed.Refuses : LinkError → Prop where
  | encode (fault : EncodeFault) : Refuses (.encode fault)
  | tooLarge (length : Nat) : Refuses (.invalidFrame (.tooLarge length))

theorem Channel.refuses_of_payload {v : Wire.Value} {error : LinkError}
    (h : payload v = .error error) : Framed.Refuses error := by
  unfold payload at h
  cases hencode : Wire.encode v with
  | error fault =>
      rw [hencode] at h
      cases h
      exact .encode fault
  | ok b =>
      rw [hencode] at h
      cases h

/-- The writing of a request begins, unless it has no octets. -/
inductive Framed.Begins (r : Wire.Request) (args : Wire.Value) (o : Outbound) :
    Except LinkError Outbound → Prop where
  | ok {w : Writing} (hoctets : ({ o with writing := some w } : Outbound).unput =
        requestOctets o.limit r args)
      (hflushes : ({ o with writing := some w } : Outbound).Flushes)
      (hsome : requestOctets o.limit r args ≠ []) :
      Begins r args o (.ok { o with writing := some w })
  | error {error : LinkError} (hrefuses : Refuses error) (hnone : requestOctets o.limit r args = []) :
      Begins r args o (.error error)

theorem Framed.begins_start (r : Wire.Request) (args : Wire.Value) (o : Outbound) :
    Begins r args o ((request r args).bind (o.start ·)) := by
  cases hheader : Channel.payload r.value with
  | error error =>
      have hrequest : request r args = .error error := by
        simp only [request, hheader]
        rfl
      rw [hrequest]
      exact .error (Channel.refuses_of_payload hheader) (by simp [requestOctets, hheader])
  | ok header =>
      cases hbody : Channel.payload args with
      | error error =>
          have hrequest : request r args = .error error := by
            simp only [request, hheader, hbody]
            rfl
          rw [hrequest]
          exact .error (Channel.refuses_of_payload hbody) (by simp [requestOctets, hheader, hbody])
      | ok body =>
          have hrequest : request r args = .ok (.frames [header, body]) := by
            simp only [request, hheader, hbody]
            rfl
          rw [hrequest]
          show Begins r args o (o.start (.frames [header, body]))
          have hunit : requestOctets o.limit r args =
              if header.size ≤ o.limit ∧ body.size ≤ o.limit then
                frameOctets header ++ frameOctets body else [] := by
            simp [requestOctets, hheader, hbody]
          by_cases hsmall : header.size ≤ o.limit ∧ body.size ≤ o.limit
          · have hstart : o.start (.frames [header, body]) = .ok { o with
                writing := some { later := Sending.parts (.frames [header, body]) } } := by
              simp [Outbound.start, Sending.oversized, Nat.not_lt.mpr hsmall.1,
                Nat.not_lt.mpr hsmall.2]
            rw [if_pos hsmall] at hunit
            rw [hstart]
            refine .ok ?_ (.inl rfl) ?_
            · rw [hunit]
              simp [Outbound.unput, Outbound.pending, Sending.parts, framePart, Act.octets,
                frameOctets]
            · rw [hunit]
              simp [frameOctets, bigEndian, littleEndian]
          · have hstart : ∃ length, o.start (.frames [header, body]) =
                .error (.invalidFrame (.tooLarge length)) := by
              by_cases hlarge : o.limit < header.size
              · exact ⟨header.size, by simp [Outbound.start, Sending.oversized, hlarge]⟩
              · have hbodyLarge : o.limit < body.size := by omega
                exact ⟨body.size, by simp [Outbound.start, Sending.oversized, hlarge, hbodyLarge]⟩
            obtain ⟨length, hstart⟩ := hstart
            rw [if_neg hsmall] at hunit
            rw [hstart]
            exact .error (.tooLarge length) hunit

namespace Framed

/-- One attempt to write a request. -/
inductive WriteStep (r : Wire.Request) (args : Wire.Value) (f : Framed Script) :
    Poll (Except CallError Unit) → Framed Script → Prop where
  | begun {outbound : Outbound} (hidle : f.outbound.writing = none)
      (hbegins : Begins r args f.outbound (.ok outbound)) :
      WriteStep r args f .again { f with outbound }
  | refused {error : LinkError} (hidle : f.outbound.writing = none)
      (hbegins : Begins r args f.outbound (.error error)) :
      WriteStep r args f (.done (.error (.ofLink error))) f
  | shipped {poll : Poll (Except LinkError Unit)} {outbound : Outbound} {link : Script}
      (hwriting : f.outbound.writing.isSome)
      (hships : f.outbound.Ships f.link poll outbound link) :
      WriteStep r args f (poll.map (·.mapError .ofLink)) { f with outbound, link }

theorem writeStep_write (r : Wire.Request) (args : Wire.Value) (now : Nat) (f : Framed Script) :
    WriteStep r args f (f.write r args now).1 (f.write r args now).2 := by
  unfold write
  cases hwriting : f.outbound.writing with
  | none =>
      have hbegins := begins_start r args f.outbound
      dsimp only
      generalize (request r args).bind (f.outbound.start ·) = started at hbegins ⊢
      cases started with
      | ok outbound => exact .begun hwriting hbegins
      | error error => exact .refused hwriting hbegins
  | some w =>
      refine .shipped (by rw [hwriting]; rfl) ?_
      exact Outbound.step_ships .near now hwriting

/-! ## What is done to the other half -/

/-- The writing half is as it was, and the connection is but for what there is
to read. -/
def SameOutbound (f f' : Framed Script) : Prop :=
  f'.outbound = f.outbound ∧
    ∃ incoming readerGone, f'.link = { f.link with incoming, readerGone }

namespace SameOutbound

variable {f f' f'' : Framed Script}

theorem refl (f : Framed Script) : f.SameOutbound f :=
  ⟨rfl, f.link.incoming, f.link.readerGone, rfl⟩

theorem trans (h : f.SameOutbound f') (h' : f'.SameOutbound f'') : f.SameOutbound f'' := by
  obtain ⟨houtbound, _, _, hlink⟩ := h
  obtain ⟨houtbound', incoming, readerGone, hlink'⟩ := h'
  refine ⟨houtbound'.trans houtbound, incoming, readerGone, ?_⟩
  rw [hlink', hlink]

end SameOutbound

theorem sameOutbound_read (kind : ReadKind) (now : Nat) (f : Framed Script) :
    f.SameOutbound (f.read kind now).2 := by
  cases hreading : f.inbound.reading with
  | none =>
      rw [read_idle _ hreading]
      exact ⟨rfl, _, _, rfl⟩
  | some r =>
      have hlink := (Inbound.step_cases .near now hreading f.link).keeps
        (P := fun link => ∃ incoming, link = { f.link with incoming }) ⟨_, rfl⟩ fun _ _ => ⟨_, rfl⟩
      obtain ⟨incoming, hlink⟩ := hlink
      rw [read_going _ hreading]
      exact ⟨rfl, incoming, _, hlink⟩

theorem sameOutbound_receive {α : Type} (kind : ReadKind) (convert : Received → Except LinkError α)
    (now : Nat) (f : Framed Script) : f.SameOutbound (f.receive kind convert now).2 :=
  f.sameOutbound_read kind now

/-- When the writing is ended for the first time, what is buffered is dropped
and the connection is shut. -/
theorem close_eq {f : Framed Script} (h : f.outbound.aborted = false) :
    f.close.2 = { f with
      outbound := { f.outbound with buffer := [], written := 0, aborted := true, writing := none }
      link := { f.link with shut := true, writerGone := true } } := by
  simp [close, Outbound.abort, h, Link.shut, Link.dropWriter]

end Framed

end Switchboard
