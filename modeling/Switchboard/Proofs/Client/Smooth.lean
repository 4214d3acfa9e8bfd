import Switchboard.Proofs.Client.Pieces
import Switchboard.Proofs.Frame.Headway
import Switchboard.Proofs.Wire.RoundTrip

/-!
# Lives without faults

Nobody closes, the connection never fails, and what comes is data
(`Deed.IsQuiet`). In such a life the writing of a request ends in one of two
ways, and which one is decided by the request alone (`Parcel.verdict`): it is
written as a whole, or it has no encoding or is too long and nothing of it is
written. What was written is not left in the buffer, and every registered call
is one that is written for or one whose writing is over (`conserved_run`).
-/

namespace Switchboard

open Session (Deed Notice)

/-! ## What a request comes to -/

namespace Parcel

/-- The payloads of a request, or why it has none that can be sent. -/
def unit (limit : Nat) (p : Parcel) : Except LinkError (ByteArray × ByteArray) := do
  let header ← Channel.payload p.request.value
  let args ← Channel.payload p.args
  if limit < header.size then throw (.invalidFrame (.tooLarge header.size))
  else if limit < args.size then throw (.invalidFrame (.tooLarge args.size))
  else return (header, args)

/-- How the writing of a request ends if the connection lets it. -/
def verdict (limit : Nat) (p : Parcel) : Except CallError Unit :=
  match p.unit limit with
  | .ok _ => .ok ()
  | .error error => .error (.ofLink error)

/-- The payloads in their frames. -/
def frames (limit : Nat) (p : Parcel) : List ByteArray :=
  match p.unit limit with
  | .ok (header, args) => [header, args]
  | .error _ => []

variable {limit : Nat} {p : Parcel}

/-- A request that can be sent fits, and what is sent are its two encodings. -/
theorem unit_eq_ok_iff {header args : ByteArray} :
    p.unit limit = .ok (header, args) ↔
      Wire.encode p.request.value = .ok header ∧ Wire.encode p.args = .ok args ∧
        header.size ≤ limit ∧ args.size ≤ limit := by
  unfold unit Channel.payload
  cases hheader : Wire.encode p.request.value with
  | error fault => exact ⟨fun h => (nomatch h), fun h => (nomatch h.1)⟩
  | ok header' =>
      cases hargs : Wire.encode p.args with
      | error fault => exact ⟨fun h => (nomatch h), fun h => (nomatch h.2.1)⟩
      | ok args' =>
          show (if limit < header'.size then throw (.invalidFrame (.tooLarge header'.size))
            else if limit < args'.size then throw (.invalidFrame (.tooLarge args'.size))
            else return (header', args') : Except LinkError _) = _ ↔ _
          split
          · rename_i hlarge
            refine ⟨fun h => (nomatch h), ?_⟩
            rintro ⟨hsame, _, hfits, _⟩
            obtain rfl := Except.ok.inj hsame
            omega
          · rename_i hsmall
            split
            · rename_i hlarge
              refine ⟨fun h => (nomatch h), ?_⟩
              rintro ⟨_, hsame, _, hfits⟩
              obtain rfl := Except.ok.inj hsame
              omega
            · rename_i hfits
              constructor
              · intro h
                cases h
                exact ⟨rfl, rfl, Nat.not_lt.mp hsmall, Nat.not_lt.mp hfits⟩
              · rintro ⟨hsame, hsame', _⟩
                cases hsame
                cases hsame'
                rfl

/-- Beginning to write a request is finding its payloads. -/
theorem start_eq (p : Parcel) (o : Outbound) :
    (Framed.request p.request p.args).bind (o.start ·) =
      (p.unit o.limit).map fun payloads =>
        { o with writing := some { later := Sending.parts (.frames [payloads.1, payloads.2]) } } := by
  unfold unit Framed.request
  cases Channel.payload p.request.value with
  | error error => rfl
  | ok header =>
      cases Channel.payload p.args with
      | error error => rfl
      | ok args =>
          show o.start (.frames [header, args]) = _
          by_cases hheader : o.limit < header.size
          · simp [Outbound.start, Sending.oversized, hheader, bind, Except.bind, Except.map, throw,
              throwThe, MonadExceptOf.throw]
          · by_cases hargs : o.limit < args.size
            · simp [Outbound.start, Sending.oversized, hheader, hargs, bind, Except.bind, Except.map,
                throw, throwThe, MonadExceptOf.throw]
            · simp [Outbound.start, Sending.oversized, hheader, hargs, bind, Except.bind, Except.map,
                pure, Except.pure]

/-- A request that cannot be sent has no octets. -/
theorem refuses_of_unit {error : LinkError} (h : p.unit limit = .error error) :
    Framed.Refuses error ∧ p.octets limit = [] := by
  have hbegins := Framed.begins_start p.request p.args { limit }
  rw [start_eq p, h] at hbegins
  cases hbegins with
  | error hrefuses hnone => exact ⟨hrefuses, hnone⟩

theorem octets_eq_frames (limit : Nat) (p : Parcel) :
    p.octets limit = (p.frames limit).flatMap frameOctets := by
  unfold frames
  cases hunit : p.unit limit with
  | ok payloads =>
      obtain ⟨header, args⟩ := payloads
      obtain ⟨hheader, hargs, hfits⟩ := unit_eq_ok_iff.mp hunit
      simp [octets, Framed.requestOctets, Channel.payload, hheader, hargs, hfits, Except.mapError]
  | error error => exact (refuses_of_unit hunit).2

theorem size_of_frames {payload : ByteArray} (h : payload ∈ p.frames limit) :
    payload.size < 2 ^ 32 := by
  unfold frames at h
  cases hunit : p.unit limit with
  | error error =>
      rw [hunit] at h
      cases h
  | ok payloads =>
      obtain ⟨header, args⟩ := payloads
      obtain ⟨hheader, hargs, _⟩ := unit_eq_ok_iff.mp hunit
      rw [hunit] at h
      simp only [List.mem_cons, List.not_mem_nil, or_false] at h
      rcases h with rfl | rfl
      · exact Wire.size_lt_of_encode hheader
      · exact Wire.size_lt_of_encode hargs

end Parcel

/-! ## The writing half -/

/-- What there is to do for a request that was just begun. -/
theorem Outbound.burden_of_begun {o : Outbound} (h : o.buffer = [])
    (payloads : ByteArray × ByteArray) :
    let begun := { o with
      writing := some { later := Sending.parts (.frames [payloads.1, payloads.2]) } }
    begun.burden = 2 * begun.unput.length + 9 := by
  intro begun
  have hunsent : begun.unsent = [] := unsent_of_empty h
  rw [burden_of_some rfl, hunsent]
  simp [begun, pending, Sending.parts, framePart]

namespace Framed

/-- Nothing fails, and whatever was written is on its way. -/
structure IsSmooth (f : Framed Script) : Prop where
  calm : f.link.IsCalm
  tight : f.outbound.IsTight
  flushes : f.outbound.Flushes

/-- What is left to do for a request that may be written. -/
def effort (p : Parcel) (f : Framed Script) : Nat :=
  match f.outbound.writing with
  | none => 2 * (p.octets f.outbound.limit).length + 11
  | some _ => f.outbound.burden + 1

/-- What one attempt to write a request comes to in a smooth life. -/
inductive Goes (p : Parcel) (f : Framed Script) :
    Poll (Except CallError Unit) → Framed Script → Prop where
  | again {f' : Framed Script} {payloads : ByteArray × ByteArray}
      (hunit : p.unit f.outbound.limit = .ok payloads) (hsmooth : f'.IsSmooth)
      (hwriting : f'.outbound.writing.isSome) (hless : f'.effort p < f.effort p) :
      Goes p f .again f'
  | blocked {f' : Framed Script} (hsmooth : f'.IsSmooth) (hwriting : f'.outbound.writing.isSome)
      (hbusy : f.outbound.writing.isSome) (hcredit : f.link.credit = some 0) :
      Goes p f .blocked f'
  | done {f' : Framed Script} (hsmooth : f'.IsSmooth) :
      Goes p f (.done (p.verdict f.outbound.limit)) f'
  | overdue {f' : Framed Script} : Goes p f (.done (.error (.transport (.timeout .send)))) f'

variable {f : Framed Script} {p : Parcel}

theorem goes_begin (h : f.IsSmooth) (hidle : f.outbound.writing = none) (now : Nat) :
    f.Goes p (f.write p.request p.args now).1 (f.write p.request p.args now).2 := by
  have hbegins := begins_start p.request p.args f.outbound
  have hstart := Parcel.start_eq p f.outbound
  rw [hstart] at hbegins
  cases hunit : p.unit f.outbound.limit with
  | error error =>
      have hwrite : f.write p.request p.args now = (.done (.error (.ofLink error)), f) := by
        simp only [write, hidle, hstart, hunit, Except.map]
      have hverdict : p.verdict f.outbound.limit = .error (.ofLink error) := by
        simp only [Parcel.verdict, hunit]
      rw [hwrite, ← hverdict]
      exact .done h
  | ok payloads =>
      have hwrite : f.write p.request p.args now = (.again, { f with
          outbound := { f.outbound with
            writing := some { later := Sending.parts (.frames [payloads.1, payloads.2]) } } }) := by
        simp only [write, hidle, hstart, hunit, Except.map]
      rw [hwrite]
      rw [hunit] at hbegins
      cases hbegins with
      | ok hput hflushes =>
          refine .again hunit ⟨h.calm, h.tight, hflushes⟩ rfl ?_
          -- Nothing is in the buffer when a writing begins.
          have hbuffer : f.outbound.buffer = [] := by
            rcases h.flushes with hlast | ⟨_, hnil⟩
            · rw [Outbound.pending, hidle] at hlast
              cases hlast
            · exact hnil
          have hburden := Outbound.burden_of_begun hbuffer payloads
          have hlength := congrArg List.length hput
          have hbefore : f.effort p = 2 * (p.octets f.outbound.limit).length + 11 := by
            rw [effort, hidle]
          show Outbound.burden _ + 1 < _
          rw [hbefore, Parcel.octets]
          refine Nat.lt_of_le_of_lt (Nat.succ_le_succ (Nat.le_of_eq hburden)) ?_
          rw [hlength]
          omega

/-- An attempt to write a request gets nearer to its end, or there is no credit,
or the writing ends as it must. -/
theorem goes_write (h : f.IsSmooth) (hupright : f.outbound.aborted = false)
    (hbegun : f.outbound.writing.isSome → ∃ payloads, p.unit f.outbound.limit = .ok payloads)
    (now : Nat) :
    f.Goes p (f.write p.request p.args now).1 (f.write p.request p.args now).2 := by
  cases hwriting : f.outbound.writing with
  | none => exact goes_begin h hwriting now
  | some w =>
      have hbusy : f.outbound.writing.isSome := by
        rw [hwriting]
        rfl
      obtain ⟨payloads, hunit⟩ := hbegun hbusy
      have hships : f.outbound.Ships f.link (f.outbound.step .near now f.link).1
          (f.outbound.step .near now f.link).2.1 (f.outbound.step .near now f.link).2.2 :=
        Outbound.step_ships .near now hwriting
      have hadvances := Outbound.step_advances h.calm.serves (fun _ => h.calm.shutError) h.tight
        .near now hwriting
      have hwrite : f.write p.request p.args now =
          ((f.outbound.step .near now f.link).1.map (·.mapError .ofLink),
            { f with outbound := (f.outbound.step .near now f.link).2.1
                     link := (f.outbound.step .near now f.link).2.2 }) := by
        simp only [write, hwriting]
      rw [hwrite]
      generalize f.outbound.step .near now f.link = stepped at hships hadvances
      obtain ⟨poll, outbound, link⟩ := stepped
      dsimp only at hships hadvances ⊢
      cases hadvances with
      | again htight hless =>
          cases hships with
          | going _ hmore _ htakes _ _ hflushes =>
              refine .again hunit ⟨h.calm.takes htakes, htight, hflushes h.flushes⟩ hmore ?_
              obtain ⟨w', hw'⟩ := Option.isSome_iff_exists.mp hmore
              simp only [effort, hwriting, hw']
              omega
      | blocked hcredit =>
          cases hships with
          | going _ hmore _ htakes _ _ hflushes =>
              exact .blocked ⟨h.calm.takes htakes, h.tight, hflushes h.flushes⟩ hmore hbusy hcredit
      | finished =>
          cases hships with
          | going hpoll => rcases hpoll with hpoll | hpoll <;> cases hpoll
          | finished hpending =>
              -- The last act was a flush, so nothing is left behind.
              have hbuffer : f.outbound.buffer = [] := by
                rcases h.flushes with hlast | ⟨_, hnil⟩
                · rw [hpending] at hlast
                  cases hlast
                · exact hnil
              have hverdict : p.verdict f.outbound.limit = .ok () := by
                simp only [Parcel.verdict, hunit]
              have hdone : f.Goes p (.done (p.verdict f.outbound.limit))
                  { f with outbound := f.outbound.cancel } :=
                .done ⟨h.calm, h.tight, .inr ⟨rfl, hbuffer⟩⟩
              rw [hverdict] at hdone
              exact hdone
      | overdue => exact .overdue
      | gone haborted =>
          rw [hupright] at haborted
          cases haborted

theorem calm_of_reading {f f' : Framed Script} (h : f.link.IsCalm)
    (hreading : Codec.Reading f f') : f'.link.IsCalm := by
  induction hreading with
  | header now => exact (reaches_read h .frame now).2
  | body shape now => exact (reaches_read h .frame now).2
  | discarded now => exact (reaches_read h .skip now).2
  | cancelled => exact h
  | dropped _ ih => exact ⟨ih.whenFull, ih.flushError, ih.shutError, ih.incoming⟩

/-- Reading leaves the writing half alone and brings nothing but data. -/
theorem IsSmooth.reading {f f' : Framed Script} (h : f.IsSmooth)
    (hreading : Codec.Reading f f') : f'.IsSmooth := by
  obtain ⟨houtbound, _⟩ := sameOutbound_of_reading hreading
  exact ⟨calm_of_reading h.calm hreading, houtbound ▸ h.tight, houtbound ▸ h.flushes⟩

end Framed

/-! ## Quiet lives -/

namespace Session

/-- Nothing is closed, nothing fails, and what comes is data. -/
def Deed.IsQuiet : Deed Script.Twist → Prop
  | .close | .hangUp | .outside (.plan ..) => False
  | .outside (.arrive more) => ∀ event ∈ more, ∃ front, event = .data front
  | .outside (.accept _ whenFull) => whenFull = .wait
  | _ => True

/-- The codec is smooth, and a request that is being written can be sent. -/
structure IsSmooth (limit : Nat) (s : Session (Framed Script)) : Prop where
  codec : s.codec.IsSmooth
  begun : ∀ p, s.current = some p → s.codec.outbound.writing.isSome →
    ∃ payloads, p.unit limit = .ok payloads

namespace IsSmooth

variable {limit : Nat} {s s' : Session (Framed Script)}

/-- Whoever does not write leaves the writing half as it was. -/
theorem of_same (h : s.IsSmooth limit) (hcodec : s'.codec.IsSmooth)
    (houtbound : s'.codec.outbound = s.codec.outbound) (hcurrent : s'.current = s.current) :
    s'.IsSmooth limit where
  codec := hcodec
  begun p hp hwriting := by
    rw [houtbound] at hwriting
    exact h.begun p (hcurrent ▸ hp) hwriting

theorem beside (h : s.IsSmooth limit) (htidy : IsTidy s.writers s.lock.holder)
    {d : Deed Script.Twist} (hquiet : d.IsQuiet)
    (hd : ∀ seq now, d ≠ .task (.writer seq) now) : (s.perform d).IsSmooth limit := by
  obtain ⟨more, _, hstands⟩ := s.bystands_perform hd
  have hcurrent : (s.perform d).current = s.current := hstands.turnOf_eq htidy
  have htraffic := traffic_perform d s
  generalize hs' : s.perform d = s' at htraffic hcurrent ⊢
  generalize s'.client.closing = closing at htraffic
  generalize s'.lock = lock at htraffic
  generalize hcodec : s'.codec = codec at htraffic
  cases htraffic with
  | idle => exact h.of_same (hcodec ▸ h.codec) (by rw [hcodec]) hcurrent
  | read _ hreading =>
      obtain ⟨houtbound, _⟩ := Framed.sameOutbound_of_reading hreading
      exact h.of_same (hcodec ▸ h.codec.reading hreading) (by rw [hcodec, houtbound]) hcurrent
  | asked seq now | refused seq now | cancelled seq now => exact absurd rfl (hd seq now)
  | writing now | written now => exact absurd rfl (hd _ now)
  | closed | hungUp => exact hquiet.elim
  | outside twist =>
      have hcalm := h.codec.calm
      refine h.of_same ?_ (by rw [hcodec]; rfl) hcurrent
      rw [hcodec]
      refine ⟨?_, h.codec.tight, h.codec.flushes⟩
      cases twist with
      | arrive more =>
          refine ⟨hcalm.whenFull, hcalm.flushError, hcalm.shutError, ?_⟩
          intro event hevent
          rcases List.mem_append.mp hevent with hold | hnew
          · exact hcalm.incoming event hold
          · exact hquiet event hnew
      | accept credit whenFull =>
          exact ⟨hquiet, hcalm.flushError, hcalm.shutError, hcalm.incoming⟩
      | plan => exact hquiet.elim

/-- A step of a writer, as long as the client is open: how the writing under way
ends is decided by the request, unless it takes too long. -/
theorem stepWriter (h : s.IsSmooth limit) (htidy : IsTidy s.writers s.lock.holder)
    {before : Octets} {done : List History.Dispatch} {pieces : List Octets} {part : Octets}
    (hlaid : History.Laid limit before s done pieces part) (hopen : s.client.isOver = false)
    (hupright : s.codec.outbound.aborted = false) (seq : UInt64) (now : Nat)
    (hintime : s.currentEnding (.task (.writer seq) now : Deed Script.Twist) ≠
      some (.error (.transport (.timeout .send)))) :
    (s.stepWriter seq now).2.IsSmooth limit ∧
      ∀ result, s.currentEnding (.task (.writer seq) now : Deed Script.Twist) = some result →
        ∃ p, s.current = some p ∧ result = p.verdict limit := by
  have hclosing : s.client.closing = false := (Bool.or_eq_false_iff.mp hopen).2
  have hturn := (turn_stepWriter (ω := Script.Twist) htidy seq now).1
  generalize s.currentEnding (.task (.writer seq) now : Deed Script.Twist) = ended
    at hturn hintime ⊢
  generalize (s.stepWriter seq now).2 = s' at hturn ⊢
  have hgoes (p : Parcel) (hcurrent : s.current = some p) :=
    Framed.goes_write h.codec hupright (hlaid.bound ▸ h.begun p hcurrent) now
  cases hturn with
  | kept _ hcurrent hcodec =>
      exact ⟨h.of_same (hcodec ▸ h.codec) (by rw [hcodec]) hcurrent, fun _ hnone => nomatch hnone⟩
  | refused _ hover =>
      rw [hopen] at hover
      cases hover
  | begun _ _ hnone _ _ hcodec =>
      refine ⟨⟨hcodec ▸ h.codec, ?_⟩, fun _ hnone => nomatch hnone⟩
      intro p _ hwriting
      rw [hcodec, hlaid.idle hnone] at hwriting
      cases hwriting
  | cancelled _ _ hclosed =>
      rw [hclosing] at hclosed
      cases hclosed
  | @writing w _ poll hcurrent _ hwrite hpoll _ hstill =>
      have hgoes := hgoes _ hcurrent
      rw [show s.codec.write w.parcel.request w.parcel.args now = _ from hwrite] at hgoes
      have hsame (p : Parcel) (hp : s'.current = some p) : p = w.parcel :=
        Option.some.inj (hp.symm.trans hstill)
      refine ⟨?_, fun _ hnone => nomatch hnone⟩
      cases hgoes with
      | again hunit hsmooth => exact ⟨hsmooth, fun p hp _ => ⟨_, hsame p hp ▸ hlaid.bound ▸ hunit⟩⟩
      | blocked hsmooth _ hbusy =>
          exact ⟨hsmooth, fun p hp _ => hsame p hp ▸ h.begun _ hcurrent hbusy⟩
      | done =>
          obtain ⟨failure, hfailure⟩ := ending_done (w.parcel.verdict s.codec.outbound.limit)
          rw [hfailure] at hpoll
          cases hpoll
      | overdue => cases hpoll
  | @written w _ result _ hcurrent _ hwrite _ hleft =>
      have hgoes := hgoes _ hcurrent
      rw [show s.codec.write w.parcel.request w.parcel.args now = _ from hwrite] at hgoes
      cases hgoes with
      | done hsmooth =>
          refine ⟨⟨hsmooth, fun p hp => ?_⟩, ?_⟩
          · rw [hleft] at hp
            cases hp
          · rintro _ ⟨⟩
            exact ⟨_, hcurrent, by rw [hlaid.bound]⟩
      | overdue => exact absurd rfl hintime

end IsSmooth

/-! ## What is told of a writing -/

/-- The failure that an ending is, if it is one. -/
def failureOf : Except CallError Unit → Option CallError
  | .ok _ => none
  | .error error => some error

section Ending

variable {ω κ : Type} [Codec κ]

/-- While the client is open, a call is told that its request was not written just
when the writing that is under way ends so. -/
theorem writeFailure_eq {s : Session κ} (hopen : s.client.isOver = false) (seq : UInt64)
    (now : Nat) :
    s.writeFailure seq now = (s.currentEnding (.task (.writer seq) now : Deed ω)).bind failureOf := by
  have hclosing : s.client.closing = false := (Bool.or_eq_false_iff.mp hopen).2
  unfold writeFailure currentEnding
  dsimp only
  by_cases hholder : s.lock.holder = some (.writer seq)
  · rw [if_pos hholder]
    cases s.writers.find? (·.request.seq = seq) with
    | none => rfl
    | some w =>
        cases hqueued : w.queued with
        | false => simp [hqueued]
        | true =>
            cases hbegun : w.begun with
            | false => simp [hqueued, hholder, hbegun, hopen]
            | true =>
                cases hpoll : (Codec.write w.request w.args now s.codec).1 with
                | done result => cases result <;>
                    simp [hqueued, hholder, hbegun, hclosing, hpoll, ending, failureOf]
                | again | blocked =>
                    simp [hqueued, hholder, hbegun, hclosing, hpoll, ending]
  · rw [if_neg hholder]
    cases s.writers.find? (·.request.seq = seq) with
    | none => rfl
    | some w => simp [hholder]

end Ending

end Session

namespace History

section Conservation

variable {ω κ : Type} [Codec κ] [Surroundings ω κ]

/-- A client that is open was open before. -/
theorem open_of_later {codec : κ} {deeds : List (Deed ω)} {d : Deed ω}
    (h : (run codec (deeds ++ [d])).session.client.isOver = false) :
    (run codec deeds).session.client.isOver = false := by
  cases hover : (run codec deeds).session.client.isOver with
  | false => rfl
  | true =>
      have hchange := Session.change_of_perform (isHonest_run codec deeds) d
      have hlater := (Session.Onward.change hchange).isOver hover
      rw [run_append_singleton] at h
      exact Bool.noConfusion (hlater.symm.trans h)

/-- Whoever leaves the writers is the one with the number. -/
theorem perm_leave {writers : List Writer} (hdistinct : (writers.map (·.request.seq)).Nodup)
    {seq : UInt64} {w : Writer} (hfind : writers.find? (·.request.seq = seq) = some w) :
    writers.Perm (w :: writers.filter (·.request.seq != seq)) := by
  induction writers with
  | nil => cases hfind
  | cons v writers ih =>
      rw [List.map_cons, List.nodup_cons] at hdistinct
      obtain ⟨hnew, hrest⟩ := hdistinct
      by_cases hseq : v.request.seq = seq
      · obtain rfl : v = w := by simpa [hseq] using hfind
        -- Nobody else has the number.
        have hothers : writers.filter (·.request.seq != seq) = writers := by
          refine List.filter_eq_self.mpr fun u hu => ?_
          have hne : u.request.seq ≠ seq := fun heq =>
            hnew (List.mem_map.mpr ⟨u, hu, heq.trans hseq.symm⟩)
          simpa using hne
        rw [List.filter_cons_of_neg (by simpa using hseq), hothers]
      · rw [List.find?_cons_of_neg (by simpa using hseq)] at hfind
        rw [List.filter_cons_of_pos (by simpa using hseq)]
        exact ((ih hrest hfind).cons v).trans (List.Perm.swap w v _)

/-- As long as the client is open, every registered call is one that is written for
or one whose writing is over. -/
theorem conserved_run (codec : κ) (deeds : List (Deed ω))
    (few : (run codec deeds).registered.length < 2 ^ 64)
    (hopen : (run codec deeds).session.client.isOver = false) :
    ((run codec deeds).registered.map Pending.parcel).Perm
      ((dispatched codec deeds).map (·.parcel) ++
        (run codec deeds).session.writers.map (·.parcel)) := by
  induction deeds using List.reverseRecOn with
  | nil => exact .refl _
  | append_singleton deeds d ih =>
      have hearlier := open_of_later hopen
      have hfewer := few_of_later few
      have hold := ih hfewer hearlier
      have htidy := isTidy_run codec deeds
      rw [dispatched_append_singleton, run_append_singleton, registered_perform, List.map_append,
        List.map_append]
      by_cases hd : ∀ seq now, d ≠ .task (.writer seq) now
      · obtain ⟨more, hmore, hstands⟩ := (run codec deeds).session.bystands_perform hd
        have hnone : dispatch (run codec deeds).session d = [] := by
          simp [dispatch, Session.currentEnding_beside _ hd]
        rw [show ((run codec deeds).perform d).session.writers = _ from hstands.writers, hnone,
          List.map_nil, List.append_nil, List.map_append, hmore, ← List.append_assoc]
        exact hold.append_right _
      · simp only [ne_eq, not_forall, not_not] at hd
        obtain ⟨seq, now, rfl⟩ := hd
        have hdistinct := (orderly_run codec deeds hfewer).distinct
        have hnotices : ((run codec deeds).session.notices
            (.task (.writer seq) now : Deed ω)).filterMap Notice.registered? = [] := by
          simp only [Session.notices, Session.noteStep]
          cases (run codec deeds).session.writeFailure seq now <;> rfl
        rw [hnotices, List.map_nil, List.append_nil]
        refine hold.trans ?_
        rw [List.append_assoc]
        refine .append_left _ ?_
        have hturn := (Session.turn_stepWriter (ω := ω) htidy seq now).1
        unfold dispatch
        change Session.Turn seq now _ _ ((run codec deeds).perform
          (.task (.writer seq) now : Deed ω)).session at hturn
        generalize (run codec deeds).session.currentEnding (.task (.writer seq) now : Deed ω) =
          ended at hturn
        generalize ((run codec deeds).perform (.task (.writer seq) now : Deed ω)).session = s'
          at hturn ⊢
        cases hturn with
        | kept hparcels | begun _ _ _ hparcels => simp [hparcels]
        | writing _ _ _ _ hwriters => simp [hwriters]
        | refused _ hover =>
            rw [hearlier] at hover
            cases hover
        | cancelled hfind hcurrent _ hwriters | written hfind hcurrent _ _ hwriters =>
            rw [hcurrent, hwriters]
            exact (perm_leave hdistinct hfind).map _

end Conservation

/-! ## A quiet life -/

/-- No writing of a request took too long so far. -/
def WritesInTime (h : History (Framed Script)) : Prop :=
  ∀ seq, .unsent seq (.transport (.timeout .send)) ∉ h.notices

/-- What is noted down of a step of a writer. -/
theorem notices_writer {s : Session (Framed Script)} (hopen : s.client.isOver = false)
    (seq : UInt64) (now : Nat) :
    s.notices (.task (.writer seq) now : Deed Script.Twist) =
      (((s.currentEnding (.task (.writer seq) now : Deed Script.Twist)).bind
        Session.failureOf).map (.unsent seq)).toList := by
  rw [← Session.writeFailure_eq hopen]
  rfl

theorem WritesInTime.currentEnding_ne {h : History (Framed Script)} {seq : UInt64} {now : Nat}
    (hopen : h.session.client.isOver = false)
    (hintime : (h.perform (.task (.writer seq) now : Deed Script.Twist)).WritesInTime) :
    h.session.currentEnding (.task (.writer seq) now : Deed Script.Twist) ≠
      some (.error (.transport (.timeout .send))) := by
  intro hending
  refine hintime seq ?_
  show _ ∈ h.notices ++ h.session.notices _
  rw [notices_writer hopen, hending]
  exact List.mem_append_right _ (List.mem_singleton_self _)

/-- In a quiet life without delays every writing that is over has ended as the
request decides. -/
theorem smooth_run (link : Script) (inbound : Inbound) (limit : Nat) (patience : Option Nat)
    (hcalm : link.IsCalm) (deeds : List (Deed Script.Twist)) (hquiet : ∀ d ∈ deeds, d.IsQuiet)
    (hopen : (run (⟨link, inbound, { limit, patience }⟩ : Framed Script)
      deeds).session.client.isOver = false)
    (hintime : (run (⟨link, inbound, { limit, patience }⟩ : Framed Script) deeds).WritesInTime) :
    (run (⟨link, inbound, { limit, patience }⟩ : Framed Script) deeds).session.IsSmooth limit ∧
      ∀ d ∈ dispatched (⟨link, inbound, { limit, patience }⟩ : Framed Script) deeds,
        d.result = d.parcel.verdict limit := by
  induction deeds using List.reverseRecOn with
  | nil =>
      refine ⟨⟨⟨hcalm, .inl rfl, .inr ⟨rfl, rfl⟩⟩, ?_⟩, by simp⟩
      intro p hp
      cases hp
  | append_singleton deeds d ih =>
      have hearlier := open_of_later hopen
      have htidy := isTidy_run (⟨link, inbound, { limit, patience }⟩ : Framed Script) deeds
      obtain ⟨pieces, part, hlaid⟩ := laid_run link inbound limit patience deeds
      have hleaving := isLeaving_run Framed.counts_aborted
        (⟨link, inbound, { limit, patience }⟩ : Framed Script) rfl deeds
      rw [run_append_singleton] at hintime ⊢
      rw [dispatched_append_singleton]
      generalize run (⟨link, inbound, { limit, patience }⟩ : Framed Script) deeds = h at *
      obtain ⟨hsmooth, hdone⟩ := ih (fun d hd => hquiet d (List.mem_append_left _ hd)) hearlier
        fun seq hmem => hintime seq (List.mem_append_left _ hmem)
      have hd := hquiet d (List.mem_append_right _ (List.mem_singleton_self d))
      by_cases hwriter : ∀ seq now, d ≠ .task (.writer seq) now
      · have hnone : dispatch h.session d = [] := by
          simp [dispatch, Session.currentEnding_beside _ hwriter]
        rw [hnone, List.append_nil]
        exact ⟨hsmooth.beside htidy hd hwriter, hdone⟩
      · simp only [ne_eq, not_forall, not_not] at hwriter
        obtain ⟨seq, now, rfl⟩ := hwriter
        have hupright : h.session.codec.outbound.aborted = false := by
          unfold Session.IsLeaving at hleaving
          rw [(Bool.or_eq_false_iff.mp hearlier).2] at hleaving
          simpa using hleaving.of_open.2
        obtain ⟨hsmooth', hresult⟩ := hsmooth.stepWriter htidy hlaid hearlier hupright seq now
          (hintime.currentEnding_ne hearlier)
        refine ⟨hsmooth', ?_⟩
        intro ended hmem
        rcases List.mem_append.mp hmem with hold | hnew
        · exact hdone ended hold
        · obtain ⟨hcurrent, hending⟩ := mem_of_dispatch hnew
          obtain ⟨p, hp, hverdict⟩ := hresult _ hending
          rw [hcurrent] at hp
          rw [hverdict, Option.some.inj hp]

end History

end Switchboard
