import Switchboard.Proofs.Client.Fidelity

/-!
# When a conversation is at rest

What an event could get done is said in `Moves`: a task takes a step that is not
blocked, somebody makes the call that was asked for, the connection takes more,
a request is answered, or octets of an answer arrive. A conversation in which
nothing moves is at rest, and then it is complete (`Account.complete`): every
call was told what it must be told, and everything that could be sent was sent
and heard.
-/

namespace Switchboard

open Session (Deed Notice)

/-- What is made of a frame does not delay the reading of it. -/
theorem Framed.blocked_receive {α : Type} (kind : ReadKind)
    (convert : Received → Except LinkError α) (now : Nat) (f : Framed Script) :
    (f.receive kind convert now).1 = .blocked ↔ (f.read kind now).1 = .blocked :=
  Poll.map_eq_blocked_iff

/-- A frame that is awaited is read as far as it goes. -/
theorem Framed.read_of_awaited {α : Type} {kind : ReadKind}
    {convert : Received → Except LinkError α} {now : Nat} {f f' : Framed Script}
    {poll : Poll (Except CallError α)} (hread : f.receive kind convert now = (poll, f'))
    (hpoll : Session.ending poll = none) :
    f' = (f.read kind now).2 ∧ ∀ result, (f.read kind now).1 ≠ .done result := by
  simp only [receive] at hread
  obtain ⟨rfl, rfl⟩ := Prod.mk.inj hread
  refine ⟨rfl, fun result hdone => ?_⟩
  rw [hdone] at hpoll
  obtain ⟨failure, hending⟩ :=
    Session.ending_done ((result.bind convert).mapError CallError.ofLink)
  cases hending.symm.trans hpoll

namespace Session

variable {s : Session (Framed Script)}

theorem blocked_stepReceiver (hclosing : s.client.closing = false) (hr : s.receiver ≠ .ended)
    (now : Nat) : (s.stepReceiver now).1 = .blocked ↔
      (s.codec.read (.ofSkip s.receiver.skips) now).1 = .blocked := by
  obtain ⟨client, codec, receiver, writers, lock, callers⟩ := s
  dsimp only at hclosing hr ⊢
  cases receiver with
  | ended => exact absurd rfl hr
  | header =>
      refine .trans ?_ (codec.blocked_receive .frame Framed.header now)
      show _ ↔ (Codec.readHeader now codec).1 = .blocked
      rcases hread : Codec.readHeader now codec with ⟨_ | _ | error | response, codec'⟩ <;>
        simp [stepReceiver, hclosing, hread, endReceiver]
  | body p =>
      refine .trans ?_ (codec.blocked_receive .frame (Channel.receive p.shape) now)
      show _ ↔ (Codec.readBody p.shape now codec).1 = .blocked
      rcases hread : Codec.readBody p.shape now codec with ⟨_ | _ | result, codec'⟩ <;>
        simp [stepReceiver, hread]
  | unknown =>
      refine .trans ?_ (codec.blocked_receive .skip (fun _ => .ok ()) now)
      show _ ↔ (Codec.discardBody now codec).1 = .blocked
      rcases hread : Codec.discardBody now codec with ⟨_ | _ | error | _, codec'⟩ <;>
        simp [stepReceiver, hread, endReceiver]
  | errorBody p text =>
      refine .trans ?_ (codec.blocked_receive .skip (fun _ => .ok ()) now)
      show _ ↔ (Codec.discardBody now codec).1 = .blocked
      rcases hread : Codec.discardBody now codec with ⟨_ | _ | error | _, codec'⟩ <;>
        simp [stepReceiver, hread, endReceiver]

/-- A step of the receiver that ends no read leaves the connection as an attempt to read
a frame leaves it. -/
theorem read_stepReceiver (hclosing : s.client.closing = false) (hr : s.receiver ≠ .ended)
    {now : Nat} (hending : s.readEnding now = none) :
    (s.stepReceiver now).2.codec = (s.codec.read (.ofSkip s.receiver.skips) now).2 ∧
      ∀ result, (s.codec.read (.ofSkip s.receiver.skips) now).1 ≠ .done result := by
  have hstep := s.stepReceiver_cases now
  generalize (s.stepReceiver now).2 = s' at hstep ⊢
  generalize s.readEnding now = failure at hstep hending
  cases hstep with
  | ended hreceiver => exact absurd hreceiver hr
  | cancelled _ hclosed =>
      rw [hclosing] at hclosed
      cases hclosed
  | headerAwaited hreceiver _ hread hpoll | bodyAwaited hreceiver hread hpoll =>
      rw [hreceiver]
      exact Framed.read_of_awaited hread hpoll
  | discardAwaited hreceiver hread hpoll =>
      rcases hreceiver with hreceiver | ⟨p, text, hreceiver⟩
      · rw [hreceiver]
        exact Framed.read_of_awaited hread hpoll
      · rw [hreceiver]
        exact Framed.read_of_awaited hread hpoll
  | @body _ result =>
      obtain ⟨failure, hdone⟩ := ending_done result
      cases hdone.symm.trans hending
  | header | noHeader | passed | notPassed | refuted | refutedLast => cases hending

end Session

/-- Whether somebody has still to make a call. -/
def Caller.isFresh : Caller → Bool
  | .fresh .. => true
  | .waiting _ | .finished _ => false

namespace Conversation

open History (Placed Carries Quiet Regular)

/-! ## Rest -/

/-- What an event could get done. -/
def Moves (c : Conversation) : Event → Prop
  | .client (.task .receiver now) _ => (c.client.session.stepReceiver now).1 ≠ .blocked
  | .client (.task (.writer seq) now) _ =>
      (∃ w ∈ c.client.session.writers, w.request.seq = seq) ∧
        (c.client.session.stepWriter seq now).1 ≠ .blocked
  | .client (.task (.caller place) _) _ =>
      ∃ caller, c.client.session.callers[place]? = some caller ∧ caller.isFresh = true
  | .client _ _ => False
  | .accept credit => c.client.session.codec.link.credit = some 0 ∧ credit ≠ some 0
  | .answer place => place < c.heard.length ∧ place ∉ c.answered.map (·.1)
  | .deliver count => 0 < count ∧ c.outgoing ≠ []

/-- The time at which a task takes its step. -/
def Event.now? : Event → Option Nat
  | .client (.task _ now) _ => some now
  | _ => none

/-- Nothing moves, unless some time has passed. -/
def AtRest (now : Nat) (c : Conversation) : Prop :=
  ∀ e, c.Moves e → ∃ later, e.now? = some later ∧ later ≠ now

/-- What holds when everything is done. -/
structure Complete (v : Service) (o : Opening) (c : Conversation) : Prop where
  /-- Whoever wanted to call has called. -/
  made : ∀ caller ∈ c.client.session.callers, caller.isFresh = false
  told : ∀ p ∈ c.client.registered,
    c.client.session.client.signalsOf p.call.seq = [p.signal (v.outcome o.writeLimit p)]
  heard : c.heard.Perm (c.client.registered.filterMap (·.parcel.query o.writeLimit))
  stream : ∃ parcels : List Parcel,
    parcels.Perm ((c.client.registered.map Pending.parcel).filter fun p =>
      (p.query o.writeLimit).isSome) ∧
    c.client.session.codec.link.taken = parcels.flatMap (·.octets o.writeLimit)

section Rest

variable {v : Service} {o : Opening} {c : Conversation} {now : Nat}

namespace AtRest

theorem receiver (h : c.AtRest now) : (c.client.session.stepReceiver now).1 = .blocked := by
  by_contra hmoves
  obtain ⟨later, hnow, hlater⟩ := h (.client (.task .receiver now) rfl) hmoves
  exact hlater (Option.some.inj hnow).symm

theorem writers (h : c.AtRest now) (w : Writer) (hw : w ∈ c.client.session.writers) :
    (c.client.session.stepWriter w.request.seq now).1 = .blocked := by
  by_contra hmoves
  obtain ⟨later, hnow, hlater⟩ :=
    h (.client (.task (.writer w.request.seq) now) rfl) ⟨⟨w, hw, rfl⟩, hmoves⟩
  exact hlater (Option.some.inj hnow).symm

theorem callers (h : c.AtRest now) :
    ∀ caller ∈ c.client.session.callers, caller.isFresh = false := by
  intro caller hcaller
  by_contra hfresh
  obtain ⟨place, hplace⟩ := List.mem_iff_getElem?.mp hcaller
  obtain ⟨later, hnow, hlater⟩ :=
    h (.client (.task (.caller place) now) rfl) ⟨caller, hplace, by simpa using hfresh⟩
  exact hlater (Option.some.inj hnow).symm

theorem credit (h : c.AtRest now) : c.client.session.codec.link.credit ≠ some 0 := by
  intro hnone
  obtain ⟨_, hnow, _⟩ := h (.accept none) ⟨hnone, by simp⟩
  cases hnow

theorem answered (h : c.AtRest now) {place : Nat} (hplace : place < c.heard.length) :
    place ∈ c.answered.map (·.1) := by
  by_contra hnew
  obtain ⟨_, hnow, _⟩ := h (.answer place) ⟨hplace, hnew⟩
  cases hnow

theorem outgoing (h : c.AtRest now) : c.outgoing = [] := by
  by_contra hsome
  obtain ⟨_, hnow, _⟩ := h (.deliver 1) ⟨Nat.one_pos, hsome⟩
  cases hnow

/-- It is enough that nobody can go on. -/
theorem intro (receiver : (c.client.session.stepReceiver now).1 = .blocked)
    (writers : c.client.session.writers = [])
    (callers : ∀ caller ∈ c.client.session.callers, caller.isFresh = false)
    (credit : c.client.session.codec.link.credit ≠ some 0)
    (answered : ∀ place < c.heard.length, place ∈ c.answered.map (·.1))
    (outgoing : c.outgoing = []) : c.AtRest now := by
  intro e hmoves
  cases e with
  | client d own =>
      cases d with
      | task t later =>
          refine ⟨later, rfl, ?_⟩
          rintro rfl
          cases t with
          | receiver => exact hmoves receiver
          | writer seq =>
              obtain ⟨⟨w, hw, _⟩, _⟩ := hmoves
              rw [writers] at hw
              cases hw
          | caller place =>
              obtain ⟨caller, hplace, hfresh⟩ := hmoves
              rw [callers caller (List.mem_of_getElem? hplace)] at hfresh
              cases hfresh
      | go | goWith | call | completion | take | dropHandle | deafen | close | hangUp | outside =>
          exact hmoves.elim
  | accept => exact absurd hmoves.1 credit
  | answer place => exact absurd (answered place hmoves.1) hmoves.2
  | deliver => exact absurd outgoing hmoves.2

end AtRest

namespace Account

/-- At rest every answer was read to its end. -/
theorem read_all (a : Account v o c) (h : c.client.Regular v o) (hrest : c.AtRest now) :
    a.after = [] ∧ a.rest = [] ∧ c.client.session.receiver = .header := by
  have hunread : c.client.session.codec.unread [] = [] := by
    have hblocked := (Session.blocked_stepReceiver a.unclosed a.reading now).mp hrest.receiver
    have hreaches := (Framed.reaches_read (a.calm h)
      (.ofSkip c.client.session.receiver.skips) now).1
    rw [hblocked] at hreaches
    cases hreaches with
    | blocked _ hunread => exact hunread
  -- All that has come is what was read and what the read on its way has taken.
  have htaken : a.taken = a.after.flatMap frameOctets := by
    have hstream := a.placed.stream []
    have hall := a.stream
    rw [hrest.outgoing, List.append_nil, List.flatMap_append] at hall
    rw [List.append_nil, hunread, List.append_nil] at hstream
    change Incoming.octets (History.arrivals a.deeds) = _ at hstream
    rw [hstream] at hall
    exact List.append_cancel_left hall
  have hafter : a.after = [] := by
    cases hafter : a.after with
    | nil => rfl
    | cons payload left =>
        have hsize := ((a.carries h).small payload (by simp [hafter])).2
        rw [hafter, List.flatMap_cons] at htaken
        obtain ⟨_, hreads⟩ := a.placed.reads a.reading
        rcases hreads with ⟨_, hnone⟩ | ⟨r, _, hfed⟩
        · have hfed : (Progress.length false []).feed o.codec.inbound.limit a.taken =
              .more (.length false []) := by
            rw [hnone]
            rfl
          exact absurd htaken (Progress.no_frame_of_feed (.inl ⟨_, hfed⟩) hsize _)
        · exact absurd htaken (Progress.no_frame_of_feed (.inl ⟨_, hfed⟩) hsize _)
  have hframes : a.reference.frames = [] := (a.follows.frames a.reading).trans hafter
  have hstage := a.truthful.stage
  have hawaits := a.follows.awaited
  rw [hframes] at hstage
  refine ⟨hafter, ?_⟩
  generalize a.reference.awaited = awaited at hstage hawaits
  generalize hnone : ([] : List ByteArray) = frames at hstage
  generalize hleft : a.rest = rest at hstage
  cases hstage with
  | reply | refusal => cases hnone
  | header =>
      refine ⟨?_, Receiver.eq_header hawaits.symm a.reading⟩
      cases rest with
      | nil => rfl
      | cons q rest =>
          -- Every answer has a header and a body.
          have hq : q ∈ c.answers := by
            rw [a.answers, hleft]
            exact List.mem_append_right _ List.mem_cons_self
          obtain ⟨p, hp, hquery⟩ := a.asker h hq
          obtain ⟨header, body, _, hpayloads, _⟩ := (h.suits p hp q hquery).frames_eq
          rw [List.flatMap_cons, hpayloads] at hnone
          cases hnone

/-- At rest the service has answered whatever it heard, and each answer was told. -/
theorem told_all (a : Account v o c) (h : c.client.Regular v o) (hrest : c.AtRest now) {q : Query}
    (hq : q ∈ c.heard) : ∃ t ∈ a.reference.told, t.1.parcel.query o.writeLimit = some q := by
  obtain ⟨_, hleft, _⟩ := a.read_all h hrest
  obtain ⟨place, hplace, rfl⟩ := List.mem_iff_getElem.mp hq
  obtain ⟨entry, hentry, rfl⟩ := List.mem_map.mp (hrest.answered hplace)
  have hasked := a.asked entry hentry
  rw [List.getElem?_eq_getElem hplace, Option.some.injEq] at hasked
  have hanswer : entry.2 ∈ c.answers := List.mem_map_of_mem hentry
  rw [a.answers, hleft, List.append_nil] at hanswer
  rw [hasked]
  exact a.truthful.answered entry.2 hanswer

/-- What was told was signalled. -/
theorem signals_of_told (a : Account v o c) (h : c.client.Regular v o)
    {t : Pending × Except CallError Wire.Value} (ht : t ∈ a.reference.told) :
    c.client.session.client.signalsOf t.1.call.seq ≠ [] := by
  have hseq := (a.books h).numbered.seq_eq (a.knows.told t ht)
  rw [hseq, Client.signalsOf_of_numbered a.follows.told]
  refine List.ne_nil_of_mem (List.mem_map_of_mem (List.mem_filter.mpr ⟨ht, ?_⟩))
  simp [hseq]

theorem complete (a : Account v o c) (h : c.client.Regular v o) (hrest : c.AtRest now) :
    c.Complete v o := by
  obtain ⟨_, _, hheader⟩ := a.read_all h hrest
  have hlife := a.life h
  have hbooks := a.books h
  have few := Nat.le_of_lt h.few
  have hwriters : (History.run o.codec a.deeds).session.writers = [] := by
    have hblocked := hrest.writers
    have hcredit := hrest.credit
    rw [a.client] at hblocked hcredit
    exact hlife.no_writers hblocked hcredit
  obtain ⟨hperm, htaken⟩ := hlife.emptied hwriters
  rw [← a.client] at hperm htaken
  have hheard : c.heard.Perm (c.client.registered.filterMap (·.parcel.query o.writeLimit)) := by
    have hcalls : (c.client.registered.map Pending.parcel).filterMap
        (Parcel.query o.writeLimit) = c.client.registered.filterMap
          (·.parcel.query o.writeLimit) := List.filterMap_map
    rw [heard, htaken, queries_of_parcels, ← hcalls]
    exact hperm.symm.filterMap _
  refine ⟨hrest.callers, ?_, hheard, ?_⟩
  · intro p hp
    refine ((a.faithful h).told p hp).resolve_left fun hnone => ?_
    have hplace := hbooks.whereabouts few (hbooks.numbered.getElem?_seq few hp)
    rw [← hbooks.numbered.seq_eq hp, hnone, hheader] at hplace
    have hentry : (p.parcel.request.seq, p) ∈ c.client.session.client.table :=
      List.mem_of_mem_filter (hplace.waiting_of_nil ▸ List.mem_singleton_self _)
    cases hquery : p.parcel.query o.writeLimit with
    | some q =>
        -- The request was heard, and its answer was told to who asked.
        have hq : q ∈ c.heard := hheard.mem_iff.mpr (List.mem_filterMap.mpr ⟨p, hp, hquery⟩)
        obtain ⟨t, ht, hasked⟩ := a.told_all h hrest hq
        have hsame : t.1 = p := by
          have ht' := a.knows.told t ht
          rw [a.client] at ht' hp
          exact hlife.asker_unique ht' hp hasked hquery
        exact a.signals_of_told h ht (hsame ▸ hnone)
    | none =>
        -- The request was given up, and since then its call does not wait.
        obtain ⟨refusal, hunit⟩ := Parcel.query_eq_none hquery
        obtain ⟨d, hd, hparcel⟩ := List.mem_map.mp
          (hperm.mem_iff.mp (List.mem_map_of_mem (f := Pending.parcel) hp))
        have hverdict := hlife.smooth.2 d hd
        rw [a.client] at hentry
        rw [History.written_of_waiting o.codec a.deeds hlife.few hlife.isOpen _ hentry d hd hparcel,
          hparcel, Parcel.verdict, hunit] at hverdict
        cases hverdict
  · exact ⟨_, hperm.symm.filter _, by rw [Quiet.flatMap_sendable, htaken]⟩

end Account

end Rest

end Conversation

end Switchboard
