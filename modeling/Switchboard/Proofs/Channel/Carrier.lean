import Switchboard.Link.Pipe
import Switchboard.Proofs.Frame.Headway
import Switchboard.Proofs.Frame.Buffer

/-!
# A way for octets

A `Carrier` takes octets at the near end of a connection and gives them at the far
end, all of them, unchanged and in order. How many it takes or gives at a time is
its own business, and an attempt may come to nothing, but not for ever. What a
writing half does at one end is `SendStep`, and what a reading half does at the other
end is `ReadStep`. A pipe is a carrier (`Pipe.carrier`).
-/

namespace Switchboard

/-! ## What is on the way -/

/-- What there is to know of the way from the near end of a connection to the far
end. -/
structure Load (L : Type) where
  isOpen : L → Prop
  /-- What was taken and not given yet. -/
  held : L → Octets
  /-- How many attempts may still come too early. -/
  delay : L → Nat

namespace Load

variable {L : Type} (load : Load L)

/-- Nothing was taken and nothing was given. -/
structure Keeps (link link' : L) : Prop where
  isOpen : load.isOpen link'
  held : load.held link' = load.held link

/-- An attempt came to nothing, because it came too early or for a good reason. -/
structure Waits (reason : Prop) (link link' : L) : Prop extends load.Keeps link link' where
  why : load.delay link' < load.delay link ∨ reason ∧ load.delay link' ≤ load.delay link

variable {load} in
theorem Waits.mono {reason reason' : Prop} {link link' : L} (h : load.Waits reason link link')
    (himp : reason → reason') : load.Waits reason' link link' :=
  ⟨h.toKeeps, h.why.imp_right fun ⟨hreason, hle⟩ => ⟨himp hreason, hle⟩⟩

/-- What an attempt to write comes to. Something is taken sooner or later if
everything before it was given. -/
inductive Takes (octets : Octets) (link : L) : Acceptance → L → Prop where
  | some {count : Nat} {link' : L} (hle : count + 1 ≤ octets.length)
      (hopen : load.isOpen link')
      (hheld : load.held link' = load.held link ++ octets.take (count + 1)) :
      Takes octets link (.accepted (count + 1)) link'
  | nothing {link' : L} (hwaits : load.Waits (load.held link ≠ []) link link') :
      Takes octets link .nothing link'

/-- What an attempt to read comes to. Something is given sooner or later if there
is something. -/
inductive Gives (link : L) : Arrival → L → Prop where
  | some {front : Octets} {link' : L} (hsome : front ≠ []) (hopen : load.isOpen link')
      (hheld : load.held link = front ++ load.held link') : Gives link (.data front) link'
  | nothing {link' : L} (hwaits : load.Waits (load.held link = []) link link') :
      Gives link .nothing link'

end Load

/-- A connection whose near end can send to its far end. -/
structure Carrier (L : Type) [Link L] extends Load L where
  write {link : L} {octets : Octets} : isOpen link → octets ≠ [] →
    toLoad.Takes octets link (Link.write .near octets link).1 (Link.write .near octets link).2
  flush {link : L} : isOpen link →
    (Link.flush .near link).1 = .ok () ∧ toLoad.Keeps link (Link.flush .near link).2
  read {link : L} (want now : Nat) : isOpen link → 0 < want →
    toLoad.Gives link (Link.read .far want now link).1 (Link.read .far want now link).2

/-! ## Pipes -/

namespace Pipe

/-- The pipe takes octets from the near end, and has room for some. -/
structure IsOpen (p : Pipe) : Prop where
  unclosed : p.outward.closed = false
  roomy : p.kind.capacity ≠ some 0

/-- What the near side wrote is on the way. Nothing ever comes too early. -/
def load : Load Pipe where
  isOpen := IsOpen
  held p := p.outward.held
  delay _ := 0

variable {p : Pipe}

theorem load_waits {reason : Prop} (h : p.IsOpen) (hreason : reason) : load.Waits reason p p :=
  ⟨⟨h, rfl⟩, .inr ⟨hreason, Nat.le_refl _⟩⟩

theorem room_le (p : Pipe) (way : Way) (count : Nat) : p.room way count ≤ count := by
  unfold room
  split
  · exact Nat.le_refl _
  · exact Nat.min_le_right _ _

/-- A pipe has room unless it holds something. -/
theorem held_ne_nil_of_full (h : p.IsOpen) {count : Nat} (hcount : 0 < count)
    (hfull : p.room p.outward count = 0) : p.outward.held ≠ [] := by
  intro hheld
  unfold room at hfull
  split at hfull
  · omega
  · rename_i capacity heq
    have hpos : capacity ≠ 0 := fun hzero => h.roomy (hzero ▸ heq)
    rw [hheld, List.length_nil] at hfull
    omega

theorem takes_write (h : p.IsOpen) {octets : Octets} (hsome : octets ≠ []) :
    load.Takes octets p (Link.write .near octets p).1 (Link.write .near octets p).2 := by
  have hle := p.room_le p.outward octets.length
  have hfull := @held_ne_nil_of_full p h octets.length (List.length_pos_iff.mpr hsome)
  simp only [Link.write, writingWay, h.unclosed, Bool.false_eq_true, if_false]
  cases hroom : p.room p.outward octets.length with
  | zero => exact .nothing (load_waits h (hfull hroom))
  | succ count =>
      rw [if_neg (Nat.succ_ne_zero count)]
      exact .some (hroom ▸ hle) ⟨rfl, h.roomy⟩ rfl

theorem gives_read (h : p.IsOpen) {want : Nat} (now : Nat) (hwant : 0 < want) :
    load.Gives p (Link.read .far want now p).1 (Link.read .far want now p).2 := by
  simp only [Link.read, Side.other, writingWay]
  cases hheld : p.outward.held with
  | nil =>
      simp only [h.unclosed, Bool.false_eq_true, if_false]
      exact .nothing (load_waits h hheld)
  | cons b bs =>
      refine .some ?_ ⟨h.unclosed, h.roomy⟩ ?_
      · obtain ⟨want, rfl⟩ := Nat.exists_eq_succ_of_ne_zero (Nat.ne_of_gt hwant)
        simp
      · exact hheld.trans (List.take_append_drop want (b :: bs)).symm

/-- A pipe, from its near end to its far end. -/
def carrier : Carrier Pipe where
  toLoad := load
  write h hsome := takes_write h hsome
  flush h := ⟨rfl, h, rfl⟩
  read _ now h hwant := gives_read h now hwant

end Pipe

/-! ## Writing -/

namespace Outbound

/-- A writing half that nothing is wrong with, and what it has still to do does not
end the writing. -/
structure IsFit (o : Outbound) : Prop where
  upright : o.aborted = false
  sound : o.IsSound
  tight : o.IsTight
  patient : o.IsPatient
  noShut : .shut ∉ o.pending

end Outbound

namespace Carrier

variable {L : Type} [Link L] (carrier : Carrier L)

variable {carrier} {link link' : L} {o o' : Outbound} {w : Writing}

/-- What one step of an operation comes to at the near end. -/
inductive SendStep (carrier : Carrier L) (o : Outbound) (link : L) :
    Poll (Except LinkError Unit) → Outbound → L → Prop where
  | again {o' : Outbound} {link' : L} {put sent : Octets} (hwriting : o'.writing.isSome)
      (hopen : carrier.isOpen link') (hfit : o'.IsFit) (halike : o.Alike o')
      (hheld : carrier.held link' = carrier.held link ++ sent)
      (hput : o.unput = put ++ o'.unput) (hsent : o.unsent ++ put = sent ++ o'.unsent)
      (hflushes : o.Flushes → o'.Flushes) (hless : o'.burden < o.burden) :
      SendStep carrier o link .again o' link'
  | blocked {link' : L} (hwaits : carrier.Waits (carrier.held link ≠ []) link link') :
      SendStep carrier o link .blocked o link'
  | finished (hpending : o.pending = []) {link' : L} (hkeeps : carrier.Keeps link link') :
      SendStep carrier o link (.done (.ok ())) o.cancel link'
  | late {o' : Outbound} {link' : L} (hpatience : o.patience.isSome) :
      SendStep carrier o link (.done (.error (.timeout .send))) o' link'

/-- An attempt to write comes to something, or the connection has a reason to wait. -/
theorem takes_of_offers (hopen : carrier.isOpen link) (htight : o.IsTight)
    (hw : o.writing = some w) {offered : Octets} {acceptance : Acceptance}
    (hoffers : o.Offers w offered)
    (hwrite : Link.write .near offered link = (acceptance, link')) :
    carrier.Takes offered link acceptance link' := by
  have htakes := carrier.write hopen (hoffers.left htight hw).1
  rwa [hwrite] at htakes

/-- An attempt to write does not fail. -/
theorem not_fails (hopen : carrier.isOpen link) (htight : o.IsTight) (hw : o.writing = some w)
    {offered : Octets} {acceptance : Acceptance} {text : String} {error : IoError}
    (hoffers : o.Offers w offered)
    (hwrite : Link.write .near offered link = (acceptance, link')) :
    ¬ acceptance.FailsWith text error := by
  intro hfails
  cases takes_of_offers hopen htight hw hoffers hwrite with
  | some => exact hfails.refused _ rfl
  | nothing => cases hfails

theorem keeps_of_settles (hopen : carrier.isOpen link) {act : Act} {result : Except IoError Unit}
    (hact : act ≠ .shut) (hsettles : act.Settles .near link result link') :
    result = .ok () ∧ carrier.Keeps link link' := by
  cases hsettles with
  | flush h =>
      obtain ⟨hok, hkeeps⟩ := carrier.flush hopen
      rw [h] at hok hkeeps
      exact ⟨hok, hkeeps⟩
  | shut => exact absurd rfl hact

theorem ne_shut_of_pending (hnoShut : .shut ∉ o.pending) (hw : o.writing = some w) {act : Act}
    {acts : List Act} (hacts : w.acts = act :: acts) : act ≠ .shut := by
  rintro rfl
  refine hnoShut ?_
  rw [Outbound.pending_of_some hw, hacts]
  exact List.mem_cons_self

/-- What is handed over is on the way. -/
theorem held_of_hands (hopen : carrier.isOpen link) (hfit : o.IsFit) (hw : o.writing = some w)
    {sent : Octets} (hhands : Outbound.Hands .near o w link sent link') :
    carrier.isOpen link' ∧ carrier.held link' = carrier.held link ++ sent := by
  cases hhands with
  | nothing => exact ⟨hopen, (List.append_nil _).symm⟩
  | settled hacts hsettles =>
      have hact := ne_shut_of_pending hfit.noShut hw hacts
      obtain ⟨-, hkeeps⟩ := keeps_of_settles hopen hact hsettles
      exact ⟨hkeeps.isOpen, hkeeps.held.trans (List.append_nil _).symm⟩
  | refused hoffers hwrite =>
      cases takes_of_offers hopen hfit.tight hw hoffers hwrite with
      | nothing hwaits => exact ⟨hwaits.isOpen, hwaits.held.trans (List.append_nil _).symm⟩
  | taken hoffers hwrite =>
      cases takes_of_offers hopen hfit.tight hw hoffers hwrite with
      | some _ hopen' hheld => exact ⟨hopen', hheld⟩

theorem sendStep (hopen : carrier.isOpen link) (hfit : o.IsFit) (hw : o.writing = some w)
    (now : Nat) :
    SendStep carrier o link (o.step .near now link).1 (o.step .near now link).2.1
      (o.step .near now link).2.2 := by
  have hstep := Outbound.step_cases .near now hw link
  have hhandles := Outbound.step_handles .near now hw link
  have hpatient := Outbound.isPatient_step hfit.patient .near now link
  generalize o.step .near now link = step at hstep hhandles hpatient
  obtain ⟨poll, o', link'⟩ := step
  dsimp only at hstep hhandles hpatient ⊢
  cases poll with
  | again =>
      obtain ⟨put, sent, hmoves, hhands⟩ := hstep.moves hw (.inl rfl)
      obtain ⟨hopen', hheld⟩ := held_of_hands hopen hfit hw hhands
      have hfit' : o'.IsFit := ⟨hmoves.alike.aborted.trans hfit.upright,
        hmoves.alike.sound hfit.sound, hstep.tight hfit.tight, hpatient,
        hhandles.noShut (.inl rfl) hfit.noShut⟩
      exact .again hmoves.writing hopen' hfit' hmoves.alike hheld hmoves.unput
        (hmoves.unsent hfit.sound) hmoves.flushes (hstep.burden_lt hfit.tight hw)
  | blocked =>
      cases hstep with
      | waits hoffers hwrite =>
          cases takes_of_offers hopen hfit.tight hw hoffers hwrite with
          | nothing hwaits => exact .blocked hwaits
  | done result =>
      cases hstep with
      | finished hacts hlater =>
          refine .finished ?_ ⟨hopen, rfl⟩
          rw [Outbound.pending_of_some hw, hacts, hlater]
          rfl
      | gone _ _ haborted =>
          rw [hfit.upright] at haborted
          cases haborted
      | unsettled _ hacts hsettles =>
          have hact := ne_shut_of_pending hfit.noShut hw hacts
          cases (keeps_of_settles hopen hact hsettles).1
      | late _ _ hdeadline =>
          refine .late (Option.isSome_iff_ne_none.mpr fun hpatience => ?_)
          rw [hfit.patient hpatience w hw] at hdeadline
          cases hdeadline
      | fails hbuffer hsome hwrite hfails =>
          exact absurd hfails (not_fails hopen hfit.tight hw (.buffered hbuffer hsome) hwrite)
      | failsPast hbuffer hacts hputs hlong hwrite hfails =>
          exact absurd hfails
            (not_fails hopen hfit.tight hw (.direct hbuffer hacts hputs hlong) hwrite)

/-! ## Reading -/

/-- What one attempt to read comes to at the far end. -/
inductive ReadStep (carrier : Carrier L) (i : Inbound) (r : Reading) (link : L) :
    Poll (Except LinkError Received) → Inbound → L → Prop where
  | going {octets : Octets} {progress : Progress} {link' : L} (hsome : octets ≠ [])
      (hopen : carrier.isOpen link')
      (hoctets : i.buffer ++ carrier.held link = octets ++ carrier.held link')
      (hfed : r.progress.feed i.limit octets = .more progress) :
      ReadStep carrier i r link .again
        { i with buffer := [], reading := some { r with progress } } link'
  | done {octets rest : Octets} {result : Except LinkError Received} {link' : L}
      (hopen : carrier.isOpen link')
      (hoctets : i.buffer ++ carrier.held link = octets ++ carrier.held link')
      (hfed : r.progress.feed i.limit octets = .done result rest) :
      ReadStep carrier i r link (.done result) { i with buffer := rest, reading := none } link'
  | blocked {link' : L} (hempty : i.buffer = [])
      (hwaits : carrier.Waits (carrier.held link = []) link link') :
      ReadStep carrier i r link .blocked i link'
  | late {i' : Inbound} {link' : L} (hdue : r.deadline.isSome) :
      ReadStep carrier i r link (.done (.error (.timeout .receive))) i' link'

variable {i : Inbound} {r : Reading}

/-- What a read goes on with was buffered or on the way. -/
theorem held_of_gets {now : Nat} (hopen : carrier.isOpen link) {octets : Octets}
    (hgets : i.Gets .far now r link octets link') :
    octets ≠ [] ∧ carrier.isOpen link' ∧
      i.buffer ++ carrier.held link = octets ++ carrier.held link' := by
  cases hgets with
  | buffered hbuffer => exact ⟨hbuffer, hopen, rfl⟩
  | arrived hbuffer hread =>
      have hgives := carrier.read r.progress.want now hopen r.progress.want_pos
      rw [hread] at hgives
      cases hgives with
      | some hsome hopen' hheld => exact ⟨hsome, hopen', by rw [hbuffer, List.nil_append, hheld]⟩

theorem readStep (hopen : carrier.isOpen link) (hreading : i.reading = some r) (now : Nat) :
    ReadStep carrier i r link (i.step .far now link).1 (i.step .far now link).2.1
      (i.step .far now link).2.2 := by
  have hstep := Inbound.step_cases .far now hreading link
  have hgives := carrier.read r.progress.want now hopen r.progress.want_pos
  generalize i.step .far now link = step at hstep
  obtain ⟨poll, i', link'⟩ := step
  dsimp only at hstep ⊢
  cases hstep with
  | goes hgets hfed =>
      obtain ⟨hsome, hopen', hoctets⟩ := held_of_gets hopen hgets
      exact .going hsome hopen' hoctets hfed
  | done hgets hfed =>
      obtain ⟨-, hopen', hoctets⟩ := held_of_gets hopen hgets
      exact .done hopen' hoctets hfed
  | late _ _ hdeadline => exact .late (by rw [hdeadline]; rfl)
  | waits hbuffer hread =>
      rw [hread] at hgives
      cases hgives with
      | nothing hwaits => exact .blocked hbuffer hwaits
  | ended _ hread | interrupted _ hread | failed _ hread =>
      -- The way neither ends nor fails.
      rw [hread] at hgives
      cases hgives

end Carrier

end Switchboard
