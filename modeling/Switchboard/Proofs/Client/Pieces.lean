import Switchboard.Proofs.Client.Silence
import Switchboard.Proofs.Client.Turns

/-!
# What goes over the wire of a request

Over frames, a request is a stretch of octets, and writing it lays these octets
down behind those of the requests before it, in the order of the lock. A request
that was written is laid down as a whole. One whose writing failed in the middle
is laid down in part, and that part is not taken back: as far as it is not on
the wire yet it is in the buffer, from where the next request that is written
sends it on. So the stream is made of whole requests as long as no writing fails
in the middle (`laid_run`), and of pieces after that
(`torn_request_is_followed`).
-/

namespace Switchboard

open Session (Deed Notice)

/-- The octets of a request with its arguments; see `Framed.requestOctets`. -/
def Parcel.octets (limit : Nat) (p : Parcel) : Octets :=
  Framed.requestOctets limit p.request p.args

namespace History

/-- The writing did not end well, and not because the request has no encoding or
is too long. -/
def Dispatch.IsCut (d : Dispatch) : Prop :=
  ∃ error, d.result = .error error ∧
    ∀ refusal, Framed.Refuses refusal → error ≠ .ofLink refusal

/-- What was laid down of a request. -/
structure Piece (limit : Nat) (d : Dispatch) (piece : Octets) : Prop where
  front : piece <+: d.parcel.octets limit
  whole : ¬ d.IsCut → piece = d.parcel.octets limit
  /-- A request that has no encoding or is too long has no octets. -/
  refused : ∀ refusal, Framed.Refuses refusal → d.result = .error (.ofLink refusal) →
    d.parcel.octets limit = []

/-- What was laid down of the request that is being written: nothing before its
writing has begun, and all that is not left to be put after that. -/
def IsPart (limit : Nat) (outbound : Outbound) : Option Parcel → Octets → Prop
  | none, part => part = []
  | some p, part =>
      (outbound.writing = none → part = []) ∧
        (outbound.writing.isSome → part ++ outbound.unput = p.octets limit)

theorem IsPart.front {limit : Nat} {outbound : Outbound} {p : Parcel} {part : Octets}
    (h : IsPart limit outbound (some p) part) : part <+: p.octets limit := by
  obtain ⟨hidle, hbusy⟩ := h
  cases hwriting : outbound.writing with
  | none =>
      rw [hidle hwriting]
      exact List.nil_prefix
  | some w => exact ⟨_, hbusy (by rw [hwriting]; rfl)⟩

/-- Where nothing was cut, whole requests were laid down. -/
theorem flatten_of_whole {limit : Nat} {done : List Dispatch} {pieces : List Octets}
    (h : List.Forall₂ (Piece limit) done pieces) (hwhole : ∀ d ∈ done, ¬ d.IsCut) :
    pieces.flatten = done.flatMap (·.parcel.octets limit) := by
  induction h with
  | nil => rfl
  | @cons d piece done pieces hpiece _ ih =>
      rw [List.flatten_cons, List.flatMap_cons, hpiece.whole (hwhole d List.mem_cons_self),
        ih fun d hd => hwhole d (List.mem_cons_of_mem _ hd)]

/-- A writing that fails in the middle does not fail the way one does that has
not begun. -/
theorem ofLink_ne {error refusal : LinkError} (hbreaks : Outbound.Breaks error)
    (hrefuses : Framed.Refuses refusal) : CallError.ofLink error ≠ .ofLink refusal := by
  cases hbreaks <;> cases hrefuses <;> simp [CallError.ofLink]

/-- Where the octets of the requests are, for a client that began with a
connection which had taken `before`. -/
structure Laid (limit : Nat) (before : Octets) (s : Session (Framed Script))
    (done : List Dispatch) (pieces : List Octets) (part : Octets) : Prop where
  bound : s.codec.outbound.limit = limit
  sound : s.codec.outbound.IsSound
  idle : s.current = none → s.codec.outbound.writing = none
  /-- When the writing is given up nobody writes. -/
  gone : s.codec.outbound.aborted = true → s.current = none
  finished : List.Forall₂ (Piece limit) done pieces
  underWay : IsPart limit s.codec.outbound s.current part
  taken : s.codec.link.taken <+: before ++ pieces.flatten ++ part
  /-- What is not on the wire is in the buffer. -/
  buffered : s.codec.outbound.aborted = false →
    s.codec.link.taken ++ s.codec.outbound.unsent = before ++ pieces.flatten ++ part

namespace Laid

variable {limit : Nat} {before : Octets} {s : Session (Framed Script)} {done : List Dispatch}
  {pieces : List Octets} {part : Octets}

theorem start (link : Script) (inbound : Inbound) (limit : Nat) (patience : Option Nat) :
    Laid limit link.taken { codec := ⟨link, inbound, { limit, patience }⟩ } [] [] [] where
  bound := rfl
  sound := Nat.le_refl _
  idle _ := rfl
  gone h := by cases h
  finished := .nil
  underWay := rfl
  taken := by simp
  buffered _ := by simp [Outbound.unsent]

/-- The writing half is as it was, and so is what was taken. -/
theorem of_same (h : Laid limit before s done pieces part) {s' : Session (Framed Script)}
    (houtbound : s'.codec.outbound = s.codec.outbound)
    (htaken : s'.codec.link.taken = s.codec.link.taken) (hcurrent : s'.current = s.current) :
    Laid limit before s' done pieces part := by
  obtain ⟨hlimit, hsound, hidle, hgone, hpieces, hpart, hprefix, hbuffered⟩ := h
  rw [← houtbound] at hlimit hsound hgone hbuffered hpart
  rw [← htaken] at hprefix hbuffered
  rw [← hcurrent] at hgone hpart
  exact ⟨hlimit, hsound, by rwa [hcurrent, houtbound], hgone, hpieces, hpart, hprefix, hbuffered⟩

/-- Octets are laid down behind the others, and the writing goes on. -/
theorem extend (h : Laid limit before s done pieces part) {s' : Session (Framed Script)}
    (put sent : Octets) {p : Parcel} (hcurrent : s'.current = some p)
    (hlimit : s'.codec.outbound.limit = limit) (hsound : s'.codec.outbound.IsSound)
    (hupright : s.codec.outbound.aborted = false) (hstays : s'.codec.outbound.aborted = false)
    (htaken : s'.codec.link.taken = s.codec.link.taken ++ sent)
    (hsent : s.codec.outbound.unsent ++ put = sent ++ s'.codec.outbound.unsent)
    (hpart : IsPart limit s'.codec.outbound (some p) (part ++ put)) :
    Laid limit before s' done pieces (part ++ put) := by
  have hbuffered : s'.codec.link.taken ++ s'.codec.outbound.unsent =
      before ++ pieces.flatten ++ (part ++ put) := by
    rw [htaken, List.append_assoc, ← hsent, ← List.append_assoc, h.buffered hupright,
      List.append_assoc]
  refine ⟨hlimit, hsound, ?_, ?_, h.finished, hcurrent ▸ hpart, ⟨_, hbuffered⟩, fun _ => hbuffered⟩
  · rw [hcurrent]
    exact fun hnone => nomatch hnone
  · rw [hstays]
    exact fun haborted => nomatch haborted

/-- A writing is over, and what was laid down stays. -/
theorem settle (h : Laid limit before s done pieces part) {s' : Session (Framed Script)}
    {d : Dispatch} (hcurrent : s'.current = none)
    (hlimit : s'.codec.outbound.limit = limit) (hsound : s'.codec.outbound.IsSound)
    (hwriting : s'.codec.outbound.writing = none)
    (hstays : s'.codec.outbound.aborted = s.codec.outbound.aborted)
    (htaken : s'.codec.link.taken = s.codec.link.taken)
    (hunsent : s'.codec.outbound.unsent = s.codec.outbound.unsent)
    (hpiece : Piece limit d part) :
    Laid limit before s' (done ++ [d]) (pieces ++ [part]) [] := by
  have hflat : before ++ (pieces ++ [part]).flatten ++ [] = before ++ pieces.flatten ++ part := by
    simp
  refine ⟨hlimit, hsound, fun _ => hwriting, fun _ => hcurrent, ?_, ?_, ?_, ?_⟩
  · exact List.rel_append h.finished (.cons hpiece .nil)
  · rw [hcurrent]
    rfl
  · rw [hflat, htaken]
    exact h.taken
  · rw [hflat, hstays, htaken, hunsent]
    exact h.buffered

/-- Whoever writes, the writing was not given up. -/
theorem upright (h : Laid limit before s done pieces part) {p : Parcel}
    (hcurrent : s.current = some p) : s.codec.outbound.aborted = false := by
  cases haborted : s.codec.outbound.aborted with
  | false => rfl
  | true =>
      rw [h.gone haborted] at hcurrent
      cases hcurrent

/-- One step of the writing that is under way, after which it goes on. -/
theorem writing (h : Laid limit before s done pieces part) {p : Parcel}
    (hcurrent : s.current = some p) {poll : Poll (Except CallError Unit)}
    {s' : Session (Framed Script)} (hstill : s'.current = some p)
    (hstep : s.codec.WriteStep p.request p.args poll s'.codec)
    (hpoll : Session.ending poll = none) :
    ∃ part', Laid limit before s' done pieces part' := by
  have hupright := h.upright hcurrent
  have hpart := h.underWay
  rw [hcurrent] at hpart
  obtain ⟨hidle, hbusy⟩ := hpart
  generalize hcodec : s'.codec = codec at hstep
  cases hstep with
  | @begun outbound hnone hbegins =>
      obtain rfl := hidle hnone
      cases hbegins with
      | @ok w hoctets =>
          refine ⟨_, h.extend [] [] hstill ?_ ?_ hupright ?_ ?_ ?_ ?_⟩
          · rw [hcodec]
            exact h.bound
          · rw [hcodec]
            exact h.sound
          · rw [hcodec]
            exact hupright
          · rw [hcodec, List.append_nil]
          · rw [hcodec]
            exact List.append_nil _
          · rw [hcodec]
            refine ⟨by simp, fun _ => ?_⟩
            rw [h.bound] at hoctets
            exact hoctets
  | refused => cases hpoll
  | @shipped poll outbound link hwriting hships =>
      cases hships with
      | @going _ outbound link put sent _ hmore halike htakes hput hsent =>
          refine ⟨_, h.extend put sent hstill ?_ ?_ hupright ?_ ?_ ?_ ?_⟩
          · rw [hcodec]
            exact halike.limit.trans h.bound
          · rw [hcodec]
            exact halike.sound h.sound
          · rw [hcodec]
            exact halike.aborted.trans hupright
          · rw [hcodec]
            exact htakes.taken
          · rw [hcodec]
            exact hsent h.sound
          · rw [hcodec]
            refine ⟨fun hnone => ?_, fun _ => ?_⟩
            · rw [show outbound.writing = none from hnone] at hmore
              cases hmore
            · rw [List.append_assoc, ← hput]
              exact hbusy hwriting
      | finished => cases hpoll
      | failed => cases hpoll

/-- The last step of the writing that is under way. -/
theorem written (h : Laid limit before s done pieces part) {p : Parcel}
    (hcurrent : s.current = some p) {result : Except CallError Unit}
    {s' : Session (Framed Script)} (hnone : s'.current = none)
    (hstep : s.codec.WriteStep p.request p.args (.done result) s'.codec) :
    Laid limit before s' (done ++ [⟨p, result⟩]) (pieces ++ [part]) [] := by
  have hpart := h.underWay
  rw [hcurrent] at hpart
  have hfront := hpart.front
  obtain ⟨hidle, hbusy⟩ := hpart
  generalize hcodec : s'.codec = codec at hstep
  generalize hpoll : Poll.done result = poll at hstep
  cases hstep with
  | begun => cases hpoll
  | @refused error hwriting hbegins =>
      cases hpoll
      cases hbegins with
      | error hrefuses hoctets =>
          rw [h.bound] at hoctets
          refine h.settle hnone (hcodec ▸ h.bound) (hcodec ▸ h.sound) (hcodec ▸ hwriting)
            (by rw [hcodec]) (by rw [hcodec]) (by rw [hcodec]) ⟨hfront, ?_, ?_⟩
          · intro _
            exact (hidle hwriting).trans hoctets.symm
          · intro _ _ _
            exact hoctets
  | @shipped poll outbound link hwriting hships =>
      cases hships with
      | going hpolls =>
          rcases hpolls with rfl | rfl <;> cases hpoll
      | finished hpending =>
          cases hpoll
          have hunput : s.codec.outbound.unput = [] := by
            rw [Outbound.unput, hpending]
            rfl
          refine h.settle hnone (hcodec ▸ h.bound) (hcodec ▸ h.sound) (hcodec ▸ rfl)
            (hcodec ▸ rfl) (hcodec ▸ rfl) (hcodec ▸ rfl) ⟨hfront, ?_, ?_⟩
          · intro _
            have hwhole := hbusy hwriting
            rwa [hunput, List.append_nil] at hwhole
          · intro _ _ herror
            cases herror
      | @failed error outbound link hbreaks hover halike htakes hunsent =>
          cases hpoll
          have htaken := htakes.taken
          rw [List.append_nil] at htaken
          refine h.settle hnone (hcodec ▸ halike.limit.trans h.bound)
            (hcodec ▸ halike.sound h.sound) (hcodec ▸ hover) (hcodec ▸ halike.aborted)
            (hcodec ▸ htaken) (hcodec ▸ hunsent) ⟨hfront, ?_, ?_⟩
          · intro hcut
            exact absurd ⟨_, rfl, fun _ hrefuses => ofLink_ne hbreaks hrefuses⟩ hcut
          · intro refusal hrefuses herror
            exact absurd (Except.error.inj herror) (ofLink_ne hbreaks hrefuses)

/-- The writing under way is left because the owner closed. -/
theorem cancelled (h : Laid limit before s done pieces part) {p : Parcel}
    (hcurrent : s.current = some p) {s' : Session (Framed Script)} (hnone : s'.current = none)
    (hcodec : s'.codec = Codec.cancelWrite s.codec) :
    Laid limit before s' (done ++ [⟨p, .error .shutdown⟩]) (pieces ++ [part]) [] := by
  have hpart := h.underWay
  rw [hcurrent] at hpart
  have hclosed (refusal : LinkError) (hrefuses : Framed.Refuses refusal) :
      CallError.shutdown ≠ .ofLink refusal := by
    cases hrefuses <;> simp [CallError.ofLink]
  refine h.settle hnone (hcodec ▸ h.bound) (hcodec ▸ h.sound) (hcodec ▸ rfl)
    (hcodec ▸ rfl) (hcodec ▸ rfl) (hcodec ▸ rfl) ⟨hpart.front, ?_, ?_⟩
  · intro hcut
    exact absurd ⟨_, rfl, hclosed⟩ hcut
  · intro refusal hrefuses herror
    exact absurd (Except.error.inj herror) (hclosed refusal hrefuses)

/-- What a step of a writer does to the octets. -/
theorem stepWriter (h : Laid limit before s done pieces part)
    (htidy : IsTidy s.writers s.lock.holder)
    (hleaving : s.IsLeaving (·.outbound.aborted.toNat)) (seq : UInt64) (now : Nat) :
    ∃ pieces' part', Laid limit before (s.stepWriter seq now).2
      (done ++ dispatch s (.task (.writer seq) now : Deed Script.Twist)) pieces' part' := by
  have hturn := (Session.turn_stepWriter (ω := Script.Twist) htidy seq now).1
  unfold dispatch
  generalize s.currentEnding (.task (.writer seq) now : Deed Script.Twist) = result at hturn
  generalize (s.stepWriter seq now).2 = s' at hturn ⊢
  cases hturn with
  | kept _ hcurrent hcodec =>
      have hsame := h.of_same (by rw [hcodec]) (by rw [hcodec]) hcurrent
      exact ⟨pieces, part, by simpa using hsame⟩
  | refused _ _ hnone _ hleft hcodec =>
      have hsame := h.of_same (by rw [hcodec]) (by rw [hcodec]) (hleft.trans hnone.symm)
      exact ⟨pieces, part, by simpa using hsame⟩
  | @begun w _ _ hopen hnone _ hcurrent hcodec =>
      -- The client is open, so the writing was not given up.
      unfold Session.IsLeaving at hleaving
      rw [show s.client.closing = false from (Bool.or_eq_false_iff.mp hopen).2] at hleaving
      have hupright : s.codec.outbound.aborted = false := by simpa using hleaving.of_open.2
      have hidle := h.idle hnone
      obtain rfl : part = [] := by
        have hpart := h.underWay
        rwa [hnone] at hpart
      have hpart : IsPart limit s'.codec.outbound (some w.parcel) ([] ++ []) := by
        rw [hcodec]
        exact ⟨fun _ => rfl, fun hbusy => by simp [hidle] at hbusy⟩
      have hextended := h.extend [] [] hcurrent (by rw [hcodec]; exact h.bound)
        (by rw [hcodec]; exact h.sound) hupright (by rw [hcodec]; exact hupright)
        (by rw [hcodec, List.append_nil]) (by rw [hcodec]; exact List.append_nil _) hpart
      exact ⟨pieces, [], by simpa using hextended⟩
  | cancelled _ hcurrent _ _ hleft hcodec =>
      rw [hcurrent]
      exact ⟨_, _, h.cancelled hcurrent hleft hcodec⟩
  | @writing w s' poll hcurrent _ hwrite hpoll _ hstill =>
      have hstep := s.codec.writeStep_write w.request w.args now
      rw [show s.codec.write w.request w.args now = _ from hwrite] at hstep
      obtain ⟨part', hwriting⟩ := h.writing hcurrent hstill hstep hpoll
      exact ⟨pieces, part', by simpa using hwriting⟩
  | @written w s' result _ hcurrent _ hwrite _ hleft =>
      have hstep := s.codec.writeStep_write w.request w.args now
      rw [show s.codec.write w.request w.args now = _ from hwrite] at hstep
      rw [hcurrent]
      exact ⟨_, _, h.written hcurrent hleft hstep⟩

/-- Whatever else is done lays down no octets. -/
theorem beside (h : Laid limit before s done pieces part)
    (htidy : IsTidy s.writers s.lock.holder)
    (hleaving : s.IsLeaving (·.outbound.aborted.toNat)) {d : Deed Script.Twist}
    (hd : ∀ seq now, d ≠ .task (.writer seq) now) :
    Laid limit before (s.perform d) done pieces part := by
  obtain ⟨more, _, hstands⟩ := s.bystands_perform hd
  have hcurrent : (s.perform d).current = s.current := hstands.turnOf_eq htidy
  have htraffic := Session.traffic_perform d s
  generalize hs' : s.perform d = s' at htraffic hcurrent ⊢
  generalize s'.client.closing = closing at htraffic
  generalize s'.lock = lock at htraffic
  generalize hcodec : s'.codec = codec at htraffic
  cases htraffic with
  | idle | closed => exact h.of_same (by rw [hcodec]) (by rw [hcodec]) hcurrent
  | read _ hreading =>
      obtain ⟨houtbound, _, _, hlink⟩ := Framed.sameOutbound_of_reading hreading
      exact h.of_same (by rw [hcodec, houtbound]) (by rw [hcodec, hlink]) hcurrent
  | asked seq now | refused seq now | cancelled seq now => exact absurd rfl (hd seq now)
  | writing now | written now => exact absurd rfl (hd _ now)
  | outside twist =>
      refine h.of_same (by rw [hcodec]; rfl) ?_ hcurrent
      rw [hcodec]
      cases twist <;> rfl
  | hungUp hholder =>
      have hnot : s.codec.outbound.aborted = false := by
        simpa using (hleaving.of_holder hholder).1
      have hnone : s.current = none := by
        rw [Session.current, hholder]
        rfl
      obtain rfl : part = [] := by
        have hpart := h.underWay
        rwa [hnone] at hpart
      rw [show (Codec.close s.codec).2 = _ from s.codec.close_eq hnot] at hcodec
      refine ⟨?_, ?_, ?_, ?_, h.finished, ?_, ?_, ?_⟩
      · rw [hcodec]
        exact h.bound
      · rw [hcodec]
        exact Nat.le_refl _
      · rw [hcodec]
        exact fun _ => rfl
      · exact fun _ => hcurrent.trans hnone
      · rw [hcurrent, hnone]
        rfl
      · rw [hcodec]
        exact h.taken
      · rw [hcodec]
        intro haborted
        cases haborted

end Laid

/-- However the deeds of a client follow each other and whatever its connection
takes and refuses, its requests are laid down one behind the other in the order
of the lock. -/
theorem laid_run (link : Script) (inbound : Inbound) (limit : Nat) (patience : Option Nat)
    (deeds : List (Deed Script.Twist)) :
    ∃ pieces part, Laid limit link.taken
      (run (⟨link, inbound, { limit, patience }⟩ : Framed Script) deeds).session
      (dispatched (⟨link, inbound, { limit, patience }⟩ : Framed Script) deeds) pieces part := by
  induction deeds using List.reverseRecOn with
  | nil => exact ⟨[], [], .start link inbound limit patience⟩
  | append_singleton deeds d ih =>
      obtain ⟨pieces, part, hlaid⟩ := ih
      have htidy := isTidy_run (⟨link, inbound, { limit, patience }⟩ : Framed Script) deeds
      have hleaving := isLeaving_run Framed.counts_aborted
        (⟨link, inbound, { limit, patience }⟩ : Framed Script) rfl deeds
      rw [run_append_singleton, dispatched_append_singleton]
      by_cases hd : ∀ seq now, d ≠ .task (.writer seq) now
      · have hnone : dispatch (run (⟨link, inbound, { limit, patience }⟩ : Framed Script)
            deeds).session d = [] := by
          simp [dispatch, Session.currentEnding_beside _ hd]
        rw [hnone, List.append_nil]
        exact ⟨pieces, part, hlaid.beside htidy hleaving hd⟩
      · simp only [ne_eq, not_forall, not_not] at hd
        obtain ⟨seq, now, rfl⟩ := hd
        exact hlaid.stepWriter htidy hleaving seq now

/-- What was laid down of the requests that were begun, and that this is all that
ever goes over the wire. -/
theorem pieces_of_run (link : Script) (inbound : Inbound) (limit : Nat) (patience : Option Nat)
    (deeds : List (Deed Script.Twist)) :
    let codec : Framed Script := ⟨link, inbound, { limit, patience }⟩
    let h := run codec deeds
    let done := dispatched codec deeds
    (∀ d ∈ done, d.parcel ∈ h.registered.map Pending.parcel) ∧
      ∃ pieces part, List.Forall₂ (Piece limit) done pieces ∧
        IsPart limit h.session.codec.outbound h.session.current part ∧
        h.session.codec.link.taken <+: link.taken ++ pieces.flatten ++ part ∧
        (h.session.client.closing = false →
          h.session.codec.link.taken ++ h.session.codec.outbound.unsent =
            link.taken ++ pieces.flatten ++ part) ∧
        ((∀ d ∈ done, ¬ d.IsCut) →
          h.session.codec.link.taken <+:
            link.taken ++ done.flatMap (·.parcel.octets limit) ++
              (h.session.current.map (·.octets limit)).getD []) := by
  intro codec h done
  obtain ⟨pieces, part, hlaid⟩ := laid_run link inbound limit patience deeds
  refine ⟨(entrusted_run codec deeds).2, pieces, part, hlaid.finished, hlaid.underWay,
    hlaid.taken, ?_, ?_⟩
  · intro hopen
    have hleaving := isLeaving_run Framed.counts_aborted codec rfl deeds
    unfold Session.IsLeaving at hleaving
    rw [hopen] at hleaving
    exact hlaid.buffered (by simpa using hleaving.of_open.2)
  · intro hwhole
    have hflat := flatten_of_whole hlaid.finished hwhole
    have hfront : part <+: (h.session.current.map (·.octets limit)).getD [] := by
      have hpart := hlaid.underWay
      cases hcurrent : h.session.current with
      | none =>
          rw [show (run codec deeds).session.current = none from hcurrent] at hpart
          rw [show part = [] from hpart]
          exact List.nil_prefix
      | some p =>
          rw [show (run codec deeds).session.current = some p from hcurrent] at hpart
          exact hpart.front
    rw [← hflat]
    exact hlaid.taken.trans ((List.prefix_append_right_inj _).mpr hfront)

/-- Two calls, of which the first has more to say than fits into the buffer. The
connection fails once when it has taken ten octets, and is well after that. -/
def tornDeeds : List (Deed Script.Twist) :=
  [.go ⟨0, "Arith.Multiply", .bytes (Octets.toBytes (List.replicate 8192 0)), .unit⟩,
    .go ⟨1, "Arith.Multiply", .unit, .unit⟩] ++
  List.replicate 11 (.task (.writer 0) 0) ++ [.outside (.accept none .wait)] ++
  List.replicate 14 (.task (.writer 1) 0)

def brokenPipe : IoError := ⟨.brokenPipe, "broken pipe"⟩

def tornCodec : Framed Script := ⟨{ credit := some 10, whenFull := .fail brokenPipe }, {}, {}⟩

def tornRun : History (Framed Script) := run tornCodec tornDeeds

/-- The first call is told that its request was not written. What the buffer held
of it is sent in front of the second request, so that the other side takes the
one for a part of the other: no choice of whole requests begins with what the
connection took. -/
theorem torn_request_is_followed :
    tornRun.session.client.signals.map (fun s => (s.2.seq, s.2.error)) =
        [(some 0, some (.transport (.io brokenPipe)))] ∧
      tornRun.session.client.isOver = false ∧
      tornRun.session.writers.length = 0 ∧ tornRun.session.codec.link.taken.length = 76 ∧
      ∀ order ∈ ((dispatched tornCodec tornDeeds).map (·.parcel)).sublists,
        ¬ tornRun.session.codec.link.taken <+: order.flatMap (·.octets maxPayload) := by
  exact ⟨by decide +kernel, by decide +kernel, by decide +kernel, by decide +kernel,
    by decide +kernel⟩

end History

end Switchboard
