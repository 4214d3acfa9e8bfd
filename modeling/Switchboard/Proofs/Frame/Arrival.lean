import Switchboard.Proofs.Frame.Attempts
import Switchboard.Proofs.Frame.Feeding
import Switchboard.Client.Framed
import Switchboard.Link.Script

/-!
# What an attempt to read takes from the stream

A connection that follows a script hands over its octets in pieces, with
silences and failures in between, and more may come at the end. All of this is
one stream of octets, of which a part is not read yet (`Framed.unread`). An
attempt to read takes some of it and leaves the rest, and where it stands is a
matter of what it has taken alone (`Framed.Reads`). `read_cases` says what each
attempt can come to.
-/

namespace Switchboard

/-! ## The stream -/

/-- The octets of a list of events, up to the end of the stream. -/
def Incoming.octets : List Incoming → Octets
  | [] => []
  | .data front :: rest => front ++ octets rest
  | .wait _ :: rest | .silentUntil _ :: rest | .failure _ :: rest => octets rest
  | .ended :: _ => []

/-- What comes behind the end of the stream does not count. -/
theorem Incoming.octets_append (incoming more : List Incoming) :
    octets (incoming ++ more) = octets incoming ++
      if .ended ∈ incoming then [] else octets more := by
  induction incoming with
  | nil => simp [octets]
  | cons event incoming ih =>
      cases event with
      | data front => simp [octets, ih]
      | wait | silentUntil | failure => simpa [octets] using ih
      | ended => simp [octets]

/-- Everything is there, the end of the stream included, with no silence or
failure in between. -/
def Incoming.Delivered (incoming : List Incoming) : Prop :=
  .ended ∈ incoming ∧ ∀ event ∈ incoming, event = .ended ∨ ∃ front, event = .data front

/-- The octets that an attempt to read was given. -/
def Arrival.octets : Arrival → Octets
  | .data front => front
  | .ended | .failed _ | .nothing => []

namespace Script

/-- An attempt to read takes what it is given from the front of the stream,
whatever may still come behind. -/
theorem octets_readFrom (want now : Nat) (incoming more : List Incoming) :
    Incoming.octets (incoming ++ more) =
      (readFrom want now incoming).1.octets ++
        Incoming.octets ((readFrom want now incoming).2 ++ more) := by
  fun_induction readFrom want now incoming with
  | case1 => rfl
  | case2 rest ih => exact ih
  | case3 x xs rest octets left =>
      -- Either the piece is used up or its rest stays in front.
      by_cases hleft : left.isEmpty
      · have htake : octets.take want = octets :=
          List.take_of_length_le (List.drop_eq_nil_iff.mp (List.isEmpty_iff.mp hleft))
        simp [Incoming.octets, Arrival.octets, hleft, htake, octets]
      · simp only [hleft, Bool.false_eq_true, if_false, List.cons_append, Incoming.octets,
          Arrival.octets]
        rw [← List.append_assoc, List.take_append_drop]
        rfl
  | case4 rest ih => exact ih
  | case5 duration rest => rfl
  | case6 time rest htime ih => exact ih
  | case7 time rest htime => rfl
  | case8 error rest => rfl
  | case9 rest => rfl

/-- Failures come from the script. -/
theorem failure_of_readFrom {want now : Nat} {incoming : List Incoming} {error : IoError}
    (h : (readFrom want now incoming).1 = .failed error ∨
      .failure error ∈ (readFrom want now incoming).2) : .failure error ∈ incoming := by
  fun_induction readFrom want now incoming with
  | case1 => simp at h
  | case2 rest ih => exact List.mem_cons_of_mem _ (ih h)
  | case3 x xs rest octets left =>
      by_cases hleft : left.isEmpty <;> simpa [hleft] using h
  | case4 rest ih => exact List.mem_cons_of_mem _ (ih h)
  | case5 duration rest => simpa using h
  | case6 time rest htime ih => exact List.mem_cons_of_mem _ (ih h)
  | case7 time rest htime => simpa using h
  | case8 other rest => simpa [eq_comm] using h
  | case9 rest => simpa using h

/-- At the end of the stream nothing is left. -/
theorem octets_of_ended {want now : Nat} {incoming : List Incoming}
    (h : (readFrom want now incoming).1 = .ended) (more : List Incoming) :
    Incoming.octets (incoming ++ more) = [] := by
  fun_induction readFrom want now incoming with
  | case1 => cases h
  | case2 rest ih => exact ih h
  | case3 => cases h
  | case4 rest ih => exact ih h
  | case5 => cases h
  | case6 time rest htime ih => exact ih h
  | case7 => cases h
  | case8 => cases h
  | case9 rest => rfl

theorem length_of_data {want now : Nat} {incoming : List Incoming} {front : Octets}
    (hwant : 0 < want) (h : (readFrom want now incoming).1 = .data front) : 0 < front.length := by
  fun_induction readFrom want now incoming with
  | case1 => cases h
  | case2 rest ih => exact ih h
  | case3 x xs rest octets left =>
      obtain rfl : octets.take want = front := Arrival.data.inj h
      simp only [octets, List.length_take, List.length_cons]
      omega
  | case4 rest ih => exact ih h
  | case5 => cases h
  | case6 time rest htime ih => exact ih h
  | case7 => cases h
  | case8 => cases h
  | case9 rest => cases h

theorem exists_incoming {side : Side} {want now : Nat} {link link' : Script} {arrival : Arrival}
    (h : Link.read side want now link = (arrival, link')) :
    ∃ incoming, readFrom want now link.incoming = (arrival, incoming) ∧
      link' = { link with incoming } := by
  obtain ⟨rfl, rfl⟩ := Prod.mk.inj h
  exact ⟨_, rfl, rfl⟩

/-- Where everything is there, an attempt finds data or the end. -/
theorem delivered_readFrom (want now : Nat) {incoming : List Incoming}
    (h : Incoming.Delivered incoming) :
    Incoming.Delivered (readFrom want now incoming).2 ∧
      ((readFrom want now incoming).1 = .ended ∨
        ∃ front, (readFrom want now incoming).1 = .data front) := by
  obtain ⟨hended, hall⟩ := h
  fun_induction readFrom want now incoming with
  | case1 => cases hended
  | case2 rest ih =>
      exact ih (by simpa using hended) fun event hevent =>
        hall event (List.mem_cons_of_mem _ hevent)
  | case3 x xs rest octets left =>
      have hrest : Incoming.Delivered rest :=
        ⟨by simpa using hended, fun event hevent => hall event (List.mem_cons_of_mem _ hevent)⟩
      refine ⟨?_, .inr ⟨_, rfl⟩⟩
      by_cases hleft : left.isEmpty
      · simpa [hleft] using hrest
      · simp only [hleft, Bool.false_eq_true, if_false]
        refine ⟨List.mem_cons_of_mem _ hrest.1, ?_⟩
        intro event hevent
        rcases List.mem_cons.mp hevent with rfl | hevent
        · exact .inr ⟨_, rfl⟩
        · exact hrest.2 event hevent
  | case9 rest => exact ⟨⟨hended, hall⟩, .inl rfl⟩
  -- The script has something here that is neither data nor the end.
  | case4 | case5 | case6 | case7 | case8 =>
      rcases hall _ List.mem_cons_self with heq | ⟨_, heq⟩ <;> cases heq

end Script

/-! ## Attempts -/

/-- The kind of a read that skips what it finds, or does not. -/
def ReadKind.ofSkip (skip : Bool) : ReadKind := if skip then .skip else .frame

theorem Progress.start_ofSkip (skip : Bool) :
    Progress.start (.ofSkip skip) = .length skip [] := by
  cases skip <;> rfl

namespace Framed

section Read

variable {L : Type} [Link L] {f : Framed L}

theorem read_idle (kind : ReadKind) (hreading : f.inbound.reading = none) (now : Nat) :
    f.read kind now = (.again, { f with inbound := f.inbound.start kind now }) := by
  simp only [read, hreading]

theorem read_going (kind : ReadKind) {r : Reading} (hreading : f.inbound.reading = some r)
    (now : Nat) :
    f.read kind now = ((f.inbound.step .near now f.link).1, { f with
      inbound := (f.inbound.step .near now f.link).2.1
      link := (f.inbound.step .near now f.link).2.2 }) := by
  simp only [read, hreading]

end Read

/-- What is not read yet, if `more` comes behind what there is. -/
def unread (f : Framed Script) (more : List Incoming) : Octets :=
  f.inbound.buffer ++ Incoming.octets (f.link.incoming ++ more)

/-- Nothing was done to the reading half. -/
def SameInbound (f f' : Framed Script) : Prop :=
  f'.inbound = f.inbound ∧ f'.link.incoming = f.link.incoming

/-- From one moment to the other these octets were taken, and neither a failure
nor a silence was put in their place. -/
structure Took (f : Framed Script) (octets : Octets) (f' : Framed Script) : Prop where
  unread : ∀ more, f.unread more = octets ++ f'.unread more
  failures : ∀ error, .failure error ∈ f'.link.incoming → .failure error ∈ f.link.incoming
  delivered : Incoming.Delivered f.link.incoming → Incoming.Delivered f'.link.incoming

/-- Nothing was taken and nothing changed of what there is to read. -/
theorem Took.of_same {f f' : Framed Script} (hbuffer : f'.inbound.buffer = f.inbound.buffer)
    (hincoming : f'.link.incoming = f.link.incoming) : f.Took [] f' := by
  refine ⟨fun more => ?_, fun error h => hincoming ▸ h, fun h => hincoming ▸ h⟩
  rw [Framed.unread, Framed.unread, hbuffer, hincoming]
  rfl

theorem Took.trans_same {f f' f'' : Framed Script} {octets : Octets} (h : f.Took octets f')
    (hsame : f'.SameInbound f'') : f.Took octets f'' := by
  obtain ⟨hinbound, hincoming⟩ := hsame
  refine ⟨fun more => ?_, fun error hmem => h.failures error (hincoming ▸ hmem),
    fun hall => hincoming ▸ h.delivered hall⟩
  rw [h.unread more, Framed.unread, Framed.unread, hinbound, hincoming]

/-- A read of a frame has taken these octets, or has not begun and has taken
none. -/
def Reads (limit : Nat) (skip : Bool) (taken : Octets) (f : Framed Script) : Prop :=
  f.inbound.limit = limit ∧
    ((f.inbound.reading = none ∧ taken = []) ∨
      ∃ r, f.inbound.reading = some r ∧
        (Progress.length skip []).feed limit taken = .more r.progress)

/-- No read has begun. -/
def IsIdle (limit : Nat) (f : Framed Script) : Prop :=
  f.inbound.limit = limit ∧ f.inbound.reading = none

theorem IsIdle.reads {limit : Nat} {f : Framed Script} (h : f.IsIdle limit) (skip : Bool) :
    f.Reads limit skip [] := ⟨h.1, .inl ⟨h.2, rfl⟩⟩

theorem IsIdle.of_same {limit : Nat} {f f' : Framed Script} (h : f.IsIdle limit)
    (hsame : f.SameInbound f') : f'.IsIdle limit := by
  rw [IsIdle, hsame.1]
  exact h

/-- With these octets a read has this frame, and is over. -/
structure Completes (limit : Nat) (taken : Octets) (f : Framed Script) (got : Octets)
    (payload : ByteArray) (f' : Framed Script) : Prop where
  pos : 0 < got.length
  fits : payload.size ≤ limit
  short : payload.size < 2 ^ 32
  took : f.Took got f'
  frame : taken ++ got = frameOctets payload
  idle : f'.IsIdle limit

theorem Completes.trans_same {limit : Nat} {taken got : Octets} {f f' f'' : Framed Script}
    {payload : ByteArray} (h : f.Completes limit taken got payload f')
    (hsame : f'.SameInbound f'') : f.Completes limit taken got payload f'' :=
  ⟨h.pos, h.fits, h.short, h.took.trans_same hsame, h.frame, h.idle.of_same hsame⟩

/-- One attempt of a read of a frame, with what it comes to. -/
inductive ReadStep (limit : Nat) (skip : Bool) (taken : Octets) (f : Framed Script) :
    Poll (Except LinkError Received) → Framed Script → Prop where
  /-- It goes on later. If everything is there, something was taken or at least
  the read has begun. -/
  | awaited {poll : Poll (Except LinkError Received)} {f' : Framed Script} (got : Octets)
      (hpoll : poll = .again ∨ poll = .blocked) (htook : f.Took got f')
      (hreads : f'.Reads limit skip (taken ++ got))
      (hmoves : Incoming.Delivered f.link.incoming →
        0 < got.length ∨ f.inbound.reading = none ∧ f'.inbound.reading ≠ none) :
      ReadStep limit skip taken f poll f'
  | whole {f' : Framed Script} (got : Octets) (payload : ByteArray)
      (hwhole : f.Completes limit taken got payload f') :
      ReadStep limit skip taken f (.done (.ok (.ofPayload skip payload))) f'
  | tooLarge {f' : Framed Script} (got : Octets) (length : Nat) (hgot : 0 < got.length)
      (htook : f.Took got f')
      (hfed : (Progress.length skip []).feed limit (taken ++ got) =
        .done (.error (.invalidFrame (.tooLarge length))) [])
      (hidle : f'.IsIdle limit) :
      ReadStep limit skip taken f (.done (.error (.invalidFrame (.tooLarge length)))) f'
  /-- The stream has ended where it should not, or between two frames. -/
  | ended {f' : Framed Script} (p : Progress) (htook : f.Took [] f')
      (hfed : (Progress.length skip []).feed limit taken = .more p)
      (hend : ∀ more, f.unread more = []) (hreading : f.inbound.reading ≠ none)
      (hidle : f'.IsIdle limit) :
      ReadStep limit skip taken f (.done (.error .connectionClosed)) f'
  | failed {f' : Framed Script} (p : Progress) (error : IoError)
      (hfailure : .failure error ∈ f.link.incoming) (htook : f.Took [] f')
      (hfed : (Progress.length skip []).feed limit taken = .more p)
      (hidle : f'.IsIdle limit) :
      ReadStep limit skip taken f (.done (.error (p.onFailure error))) f'
  | timeout {f' : Framed Script} (p : Progress)
      (hsilent : ¬ Incoming.Delivered f.link.incoming) (htook : f.Took [] f')
      (hfed : (Progress.length skip []).feed limit taken = .more p)
      (hidle : f'.IsIdle limit) :
      ReadStep limit skip taken f (.done (.error (.timeout .receive))) f'

section Step

variable {limit now : Nat} {skip : Bool} {taken : Octets} {f : Framed Script}

theorem pos_of_gets {octets : Octets} {r : Reading} {link : Script}
    (hgets : f.inbound.Gets .near now r f.link octets link) : 0 < octets.length := by
  cases hgets with
  | buffered hbuffer => exact List.length_pos_iff.mpr hbuffer
  | arrived _ hread =>
      obtain ⟨incoming, hfound, rfl⟩ := Script.exists_incoming hread
      exact Script.length_of_data r.progress.want_pos (congrArg Prod.fst hfound)

/-- The octets that a read goes on with were the next of the stream. -/
theorem took_of_gets {octets left : Octets} {r : Reading} {inbound : Inbound} {link : Script}
    (hgets : f.inbound.Gets .near now r f.link octets link)
    (hleft : octets = left ++ inbound.buffer) : f.Took left { f with inbound, link } := by
  cases hgets with
  | buffered =>
      refine ⟨fun more => ?_, fun _ => id, id⟩
      rw [unread, unread, hleft, List.append_assoc]
  | arrived hbuffer hread =>
      obtain ⟨incoming, hfound, rfl⟩ := Script.exists_incoming hread
      refine ⟨fun more => ?_, fun error hmem => ?_, fun hall => ?_⟩
      · have hoctets := Script.octets_readFrom r.progress.want now f.link.incoming more
        rw [hfound, Arrival.octets, hleft] at hoctets
        rw [unread, unread, hbuffer, List.nil_append, hoctets, List.append_assoc]
      · exact Script.failure_of_readFrom (.inr (by rwa [hfound]))
      · have hdelivered := (Script.delivered_readFrom r.progress.want now hall).1
        rwa [hfound] at hdelivered

/-- An attempt that finds no octets takes none. -/
theorem took_of_nothing {want : Nat} {arrival : Arrival} {link : Script}
    (hbuffer : f.inbound.buffer = [])
    (hread : Link.read .near want now f.link = (arrival, link)) (hnone : arrival.octets = [])
    {inbound : Inbound} (hempty : inbound.buffer = []) : f.Took [] { f with inbound, link } := by
  obtain ⟨incoming, hfound, rfl⟩ := Script.exists_incoming hread
  refine ⟨fun more => ?_, fun error hmem => ?_, fun hall => ?_⟩
  · have hoctets := Script.octets_readFrom want now f.link.incoming more
    rw [hfound, hnone] at hoctets
    rw [unread, unread, hbuffer, hempty]
    exact hoctets
  · exact Script.failure_of_readFrom (.inr (by rwa [hfound]))
  · have hdelivered := (Script.delivered_readFrom want now hall).1
    rwa [hfound] at hdelivered

/-- Where everything is there, it is octets or the end that an attempt finds. -/
theorem not_delivered {want : Nat} {arrival : Arrival} {link : Script}
    (hread : Link.read .near want now f.link = (arrival, link))
    (hother : arrival = .nothing ∨ ∃ error, arrival = .failed error) :
    ¬ Incoming.Delivered f.link.incoming := by
  obtain ⟨incoming, hfound, rfl⟩ := Script.exists_incoming hread
  intro hall
  have hfinds := (Script.delivered_readFrom want now hall).2
  rw [hfound] at hfinds
  rcases hother with rfl | ⟨error, rfl⟩ <;> simp at hfinds

theorem onEnd_of_isFrame {p : Progress} (hp : p.IsFrame) : p.onEnd = .connectionClosed := by
  cases p with
  | line => exact hp.elim
  | length | payload | skipping => rfl

/-- The first attempt takes nothing: with it the read begins. -/
theorem readStep_of_idle (hlimit : f.inbound.limit = limit) (hidle : f.inbound.reading = none)
    (now : Nat) :
    ReadStep limit skip [] f (f.read (.ofSkip skip) now).1 (f.read (.ofSkip skip) now).2 := by
  rw [read_idle _ hidle]
  refine .awaited [] (.inl rfl) (.of_same rfl rfl) ⟨hlimit, .inr ⟨_, rfl, ?_⟩⟩
    fun _ => .inr ⟨hidle, by simp [Inbound.start]⟩
  rw [Progress.start_ofSkip]
  rfl

/-- What the octets that come next complete is what all octets that were taken complete. -/
theorem readStep_of_done {octets rest : Octets} {result : Except LinkError Received} {r : Reading}
    {link : Script} (hlimit : f.inbound.limit = limit)
    (hfed : (Progress.length skip []).feed limit taken = .more r.progress)
    (hgets : f.inbound.Gets .near now r f.link octets link)
    (hdone : r.progress.feed f.inbound.limit octets = .done result rest) :
    ReadStep limit skip taken f (.done result)
      { f with inbound := { f.inbound with buffer := rest, reading := none }, link } := by
  have hstart : (Progress.length skip []).IsFrame := by simp [Progress.IsFrame]
  obtain ⟨_, used, hused, hpos⟩ :=
    Progress.feed_of_done (Progress.feed_of_more hstart hfed []).2 hdone []
  have hall : (Progress.length skip []).feed limit (taken ++ used) = .done result [] := by
    have hmore := (Progress.feed_of_more hstart hfed octets).1
    rw [← hlimit, hdone, hused, ← List.append_assoc] at hmore
    rw [← hlimit]
    exact Progress.feed_used hstart hmore
  have htook : f.Took used
      { f with inbound := { f.inbound with buffer := rest, reading := none }, link } :=
    took_of_gets hgets hused
  rcases Progress.frame_of_feed hall with ⟨payload, hsmall, hsize, hwhole, rfl⟩ | ⟨_, length, rfl⟩
  · exact .whole used payload ⟨hpos, hsmall, hsize, htook, hwhole, hlimit, rfl⟩
  · exact .tooLarge used length hpos htook hall ⟨hlimit, rfl⟩

/-- What an attempt can come to: it is decided by what the read has taken, not
by how that was cut into pieces. -/
theorem read_cases (h : f.Reads limit skip taken) (now : Nat) :
    ReadStep limit skip taken f (f.read (.ofSkip skip) now).1 (f.read (.ofSkip skip) now).2 := by
  obtain ⟨hlimit, ⟨hidle, rfl⟩ | ⟨r, hreading, hfed⟩⟩ := h
  · exact readStep_of_idle hlimit hidle now
  have hstart : (Progress.length skip []).IsFrame := by simp [Progress.IsFrame]
  -- Nothing was taken, and the read stays where it is.
  have hstays {poll : Poll (Except LinkError Received)} {arrival : Arrival} {link : Script}
      (hpoll : poll = .again ∨ poll = .blocked) (hbuffer : f.inbound.buffer = [])
      (hread : Link.read .near r.progress.want now f.link = (arrival, link))
      (hnone : arrival.octets = []) (hnot : ¬ Incoming.Delivered f.link.incoming) :
      ReadStep limit skip taken f poll { f with link } := by
    refine .awaited [] hpoll (took_of_nothing hbuffer hread hnone hbuffer)
      ⟨hlimit, .inr ⟨r, hreading, ?_⟩⟩ fun hall => absurd hall hnot
    rw [List.append_nil]
    exact hfed
  have hstep := Inbound.step_cases .near now hreading f.link
  rw [read_going _ hreading]
  generalize f.inbound.step .near now f.link = stepped at hstep
  obtain ⟨poll, inbound, link⟩ := stepped
  dsimp only at hstep ⊢
  cases hstep with
  | @goes octets progress _ hgets hgoes =>
      refine .awaited octets (.inl rfl) (took_of_gets hgets (List.append_nil _).symm)
        ⟨hlimit, .inr ⟨{ r with progress }, rfl, ?_⟩⟩ fun _ => .inl (pos_of_gets hgets)
      rw [(Progress.feed_of_more hstart hfed octets).1, ← hlimit, hgoes]
  | done hgets hdone => exact readStep_of_done hlimit hfed hgets hdone
  | ended hbuffer hread =>
      rw [onEnd_of_isFrame (Progress.feed_of_more hstart hfed []).2]
      refine .ended r.progress (took_of_nothing hbuffer hread rfl hbuffer) hfed (fun more => ?_)
        (by simp [hreading]) ⟨hlimit, rfl⟩
      obtain ⟨incoming, hfound, rfl⟩ := Script.exists_incoming hread
      rw [unread, hbuffer]
      exact Script.octets_of_ended (congrArg Prod.fst hfound) more
  | @interrupted error _ hbuffer hread =>
      exact hstays (.inl rfl) hbuffer hread rfl (not_delivered hread (.inr ⟨error, rfl⟩))
  | @failed error _ hbuffer hread =>
      refine .failed r.progress error ?_ (took_of_nothing hbuffer hread rfl hbuffer) hfed
        ⟨hlimit, rfl⟩
      obtain ⟨incoming, hfound, rfl⟩ := Script.exists_incoming hread
      exact Script.failure_of_readFrom (.inl (congrArg Prod.fst hfound))
  | late hbuffer hread =>
      exact .timeout r.progress (not_delivered hread (.inl rfl))
        (took_of_nothing hbuffer hread rfl hbuffer) hfed ⟨hlimit, rfl⟩
  | waits hbuffer hread =>
      exact hstays (.inr rfl) hbuffer hread rfl (not_delivered hread (.inl rfl))

end Step

end Framed

/-! ## What is done to the other half -/

namespace Script

@[simp] theorem incoming_write (side : Side) (octets : Octets) (link : Script) :
    (Link.write side octets link).2.incoming = link.incoming := by
  simp only [Link.write, accept]
  repeat' split
  all_goals rfl

end Script

/-- Writing leaves alone what there is to read. -/
theorem Outbound.incoming_step (side : Side) (now : Nat) (o : Outbound) (link : Script) :
    (o.step side now link).2.2.incoming = link.incoming := by
  cases hw : o.writing with
  | none => rw [step_idle side now hw]
  | some w =>
      exact (step_cases side now hw link).keeps (P := fun link' => link'.incoming = link.incoming)
        rfl (fun octets => Script.incoming_write side octets link) rfl rfl

namespace Framed

theorem sameInbound_write (r : Wire.Request) (args : Wire.Value) (now : Nat) (f : Framed Script) :
    f.SameInbound (f.write r args now).2 := by
  unfold write
  split
  · split <;> exact ⟨rfl, rfl⟩
  · exact ⟨rfl, Outbound.incoming_step _ _ _ _⟩

theorem sameInbound_close (f : Framed Script) : f.SameInbound f.close.2 := by
  cases haborted : f.outbound.aborted <;>
    exact ⟨rfl, by simp [close, Outbound.abort, haborted, Link.shut, Link.dropWriter]⟩

end Framed

end Switchboard
