import Switchboard.Proofs.Frame.Desk

/-!
# Orders that are refused

Whatever is sent in frames is encoded as a whole, and every frame of it is
measured, before any octet is written. So an order can be refused for its values
or for one of its frames (`Order.refusal`), and then nothing has been done: the
writing half and its connection are what they were, and nothing that is asked
later can tell that the order was ever given. An order that is not refused, on a
connection that takes something whenever it is asked, is sent whole behind what
was buffered, and leaves the buffer empty.
-/

namespace Switchboard

/-! ## What was written down makes no difference -/

namespace Desk

section After

variable {L : Type} [Link L]

/-- The same with other entries in front. -/
def after (entries : List Entry) (d : Desk L) : Desk L :=
  { d with entries := entries ++ d.entries }

theorem attempt_after (entries : List Entry) (order : Order) (now : Nat) (d : Desk L) :
    (d.after entries).attempt order now = (d.attempt order now).after entries := by
  simp only [attempt, after]
  split <;> simp

omit [Link L] in
theorem leave_after (entries : List Entry) (d : Desk L) :
    (d.after entries).leave = d.leave.after entries := by
  simp [leave, after]

theorem move_after (entries : List Entry) (d : Desk L) (m : Move L) :
    (d.after entries).move m = (d.move m).after entries := by
  cases m with
  | call order now =>
      show (d.after entries).leave.attempt order now = _
      rw [leave_after]
      exact d.leave.attempt_after entries order now
  | step now =>
      cases hcurrent : d.current with
      | none => rw [move_step_idle hcurrent, move_step_idle (d := d.after entries) hcurrent]
      | some order =>
          rw [move_step hcurrent, move_step (d := d.after entries) hcurrent]
          exact d.attempt_after entries order now
  | leave => exact d.leave_after entries
  | abort =>
      show (d.after entries).leave.abort = _
      rw [leave_after]
      rfl
  | outside act => rfl

theorem run_after (entries : List Entry) (d : Desk L) (moves : List (Move L)) :
    (d.after entries).run moves = (d.run moves).after entries := by
  induction moves generalizing d with
  | nil => rfl
  | cons m moves ih => rw [run_cons, run_cons, move_after, ih]

omit [Link L] in
theorem after_entries (d : Desk L) : ({ d with entries := [] } : Desk L).after d.entries = d := by
  simp [after]

end After

end Desk

/-! ## An order that is not refused -/

namespace Outbound

theorem IsTight.sound {o : Outbound} (h : o.IsTight) : o.IsSound := by
  rcases h with hzero | hless
  · rw [IsSound, hzero]
    exact Nat.zero_le _
  · exact Nat.le_of_lt hless

variable {o : Outbound} {link : Script} {w : Writing} {target : Octets}

/-- Where there is credit and flushing does not fail, a step that does not end the
operation gets on with it. No time can be over, because nothing waits. -/
theorem step_again (htight : o.IsTight) (haborted : o.aborted = false)
    (hshut : .shut ∉ o.pending) (hcredit : link.credit ≠ some 0) (hflush : link.flushError = none)
    (side : Side) (now : Nat) (hw : o.writing = some w) (hpending : o.pending ≠ [] ∨ w.later ≠ []) :
    (o.step side now link).1 = .again := by
  have hstep := step_cases side now hw link
  generalize o.step side now link = step at hstep
  obtain ⟨poll, o', link'⟩ := step
  dsimp only at hstep ⊢
  have htakes {octets : Octets} {acceptance : Acceptance} (hsome : octets ≠ [])
      (hwrite : Link.write side octets link = (acceptance, link')) :
      ∃ count, acceptance = .accepted (count + 1) := by
    obtain ⟨count, taken, htaken⟩ := Script.accepted_write side hcredit hsome
    exact ⟨count, congrArg Prod.fst (hwrite.symm.trans htaken)⟩
  cases hstep with
  | begins | puts | settles | drains | passes => rfl
  | finished hacts hlater =>
      rw [pending_of_some hw, hacts, hlater] at hpending
      simp at hpending
  | gone _ _ hgone =>
      rw [haborted] at hgone
      cases hgone
  | unsettled _ hacts hsettles =>
      cases hsettles with
      | flush h => simp [Link.flush, Script.planned, hflush] at h
      | shut =>
          refine absurd ?_ hshut
          rw [pending_of_some hw, hacts]
          exact List.mem_cons_self
  | waits hoffers hwrite =>
      obtain ⟨count, hcount⟩ := htakes (hoffers.left htight hw).1 hwrite
      cases hcount
  | late hoffers hwrite =>
      obtain ⟨count, hcount⟩ := htakes (hoffers.left htight hw).1 hwrite
      cases hcount
  | fails hbuffer _ hwrite hfails =>
      obtain ⟨count, hcount⟩ := htakes (unsent_ne_nil htight hbuffer) hwrite
      exact absurd hcount (hfails.refused count)
  | failsPast _ _ _ hlong hwrite hfails =>
      obtain ⟨count, hcount⟩ := htakes (octets_ne_nil_of_long hlong) hwrite
      exact absurd hcount (hfails.refused count)

/-- An operation is under way that ends with a flush, and when it is done the
connection will have taken `target`. -/
structure Sends (target : Octets) (o : Outbound) (link : Script) : Prop where
  busy : o.writing.isSome
  tight : o.IsTight
  live : o.aborted = false
  noShut : .shut ∉ o.pending
  flushes : o.Flushes
  flushError : link.flushError = none
  balance : link.taken ++ o.unsent ++ o.unput = target

/-- A step gets nearer to the end of the operation, or is the end of it. -/
theorem Sends.step (h : o.Sends target link) (hcredit : link.credit ≠ some 0) (now : Nat) :
    (∃ o' link', o.step .near now link = (.again, o', link') ∧ o'.Sends target link' ∧
      o'.burden < o.burden) ∨
    o.step .near now link = (.done (.ok ()), o.cancel, link) ∧ link.taken = target ∧
      o.buffer = [] := by
  obtain ⟨w, hw⟩ := Option.isSome_iff_exists.mp h.busy
  by_cases hends : o.pending = [] ∧ w.later = []
  · obtain ⟨hpending, hlater⟩ := hends
    right
    have hacts : w.acts = [] := by
      rw [pending_of_some hw] at hpending
      exact (List.append_eq_nil_iff.mp hpending).1
    have hbuffer : o.buffer = [] := by
      rcases h.flushes with hlast | ⟨_, hempty⟩
      · simp [hpending] at hlast
      · exact hempty
    refine ⟨step_finished .near now hw hacts hlater link, ?_, hbuffer⟩
    rw [← h.balance, unsent_of_empty hbuffer, unput, hpending]
    simp
  · left
    have hagain := step_again h.tight h.live h.noShut hcredit h.flushError .near now hw
      (not_and_or.mp hends)
    have hstep := step_cases .near now hw link
    have hhandles := step_handles .near now hw link
    generalize o.step .near now link = step at hagain hstep hhandles ⊢
    obtain ⟨poll, o', link'⟩ := step
    dsimp only at hagain hstep hhandles ⊢
    subst hagain
    obtain ⟨put, sent, hmoves, hhands⟩ := hstep.moves hw (.inl rfl)
    have htakes := hhands.takes
    have hmoved : link'.taken ++ o'.unsent ++ o'.unput = target := by
      rw [htakes.taken, List.append_assoc link.taken, ← hmoves.unsent h.tight.sound, ← h.balance,
        hmoves.unput]
      simp only [List.append_assoc]
    have hplan : link'.flushError = none := by
      obtain ⟨_, _, rfl⟩ := htakes
      exact h.flushError
    refine ⟨o', link', rfl, ?_, hstep.burden_lt h.tight hw⟩
    exact ⟨hmoves.writing, hstep.tight h.tight, hmoves.alike.aborted.trans h.live,
      hhandles.noShut (.inl rfl) h.noShut, hmoves.flushes h.flushes, hplan, hmoved⟩

theorem Sends.burden_pos (h : o.Sends target link) : 0 < o.burden := by
  obtain ⟨w, hw⟩ := Option.isSome_iff_exists.mp h.busy
  rw [burden_of_some hw]
  exact Nat.succ_pos _

end Outbound

namespace Desk

/-- The connection takes this much from here on. -/
def grant (credit : Option Nat) : Move Script :=
  .outside fun link => { link with credit, whenFull := .wait }

/-- Attempts at their times, before each of which the connection says how much it
takes. -/
def attempts (chances : List (Nat × Option Nat)) : List (Move Script) :=
  chances.flatMap fun (now, credit) => [grant credit, .step now]

variable {d : Desk Script} {order : Order} {entries : List Entry} {target : Octets}

/-- An order is under way, and what the connection will have taken when it is
done. -/
structure Sends (order : Order) (entries : List Entry) (target : Octets) (d : Desk Script) :
    Prop where
  current : d.current = some order
  entries : d.entries = entries
  sends : d.framed.outbound.Sends target d.framed.link

/-- The order is done. -/
structure Sent (order : Order) (entries : List Entry) (target : Octets) (d : Desk Script) :
    Prop where
  current : d.current = none
  entries : d.entries = entries ++ [⟨order, some (order.reply (.ok ()))⟩]
  taken : d.framed.link.taken = target
  buffer : d.framed.outbound.buffer = []

theorem Sends.chance (h : d.Sends order entries target) (now : Nat) {credit : Option Nat}
    (hcredit : credit ≠ some 0) {d' : Desk Script}
    (hd' : d' = (d.move (grant credit)).move (.step now)) :
    (d'.Sends order entries target ∧ d'.framed.outbound.burden < d.framed.outbound.burden) ∨
      d'.Sent order entries target := by
  have hgranted : d.framed.outbound.Sends target (d.move (grant credit)).framed.link :=
    ⟨h.sends.busy, h.sends.tight, h.sends.live, h.sends.noShut, h.sends.flushes,
      h.sends.flushError, h.sends.balance⟩
  have hsends := hgranted.step hcredit now
  have hattempt := (d.move (grant credit)).attempt_cases order now
  rw [move_step (d := d.move (grant credit)) h.current] at hd'
  rw [← hd'] at hattempt
  have hbusy : (d.move (grant credit)).framed.outbound.writing ≠ none :=
    Option.isSome_iff_ne_none.mp h.sends.busy
  cases hattempt with
  | refused hidle | begun hidle => exact absurd hidle hbusy
  | going _ hstep hpoll =>
      rcases hsends with ⟨o', link', hagain, hsends, hless⟩ | ⟨hdone, -⟩
      · cases hstep.symm.trans hagain
        exact .inl ⟨⟨rfl, h.entries, hsends⟩, hless⟩
      · cases hstep.symm.trans hdone
        simp at hpoll
  | ended _ hstep =>
      rcases hsends with ⟨o', link', hagain, -⟩ | ⟨hdone, htaken, hbuffer⟩
      · cases hstep.symm.trans hagain
      · cases hstep.symm.trans hdone
        exact .inr ⟨rfl, congrArg (· ++ [_]) h.entries, htaken, hbuffer⟩

theorem attempts_cons (chance : Nat × Option Nat) (chances : List (Nat × Option Nat)) :
    attempts (chance :: chances) = grant chance.2 :: .step chance.1 :: attempts chances :=
  rfl

/-- What is done stays done. -/
theorem Sent.run (h : d.Sent order entries target) (chances : List (Nat × Option Nat)) :
    (d.run (attempts chances)).Sent order entries target := by
  induction chances generalizing d with
  | nil => exact h
  | cons chance chances ih =>
      rw [attempts_cons, run_cons, run_cons, move_step_idle (d := d.move (grant chance.2)) h.current]
      exact ih ⟨h.current, h.entries, h.taken, h.buffer⟩

/-- As many attempts as there is left to do are enough. -/
theorem Sends.run (h : d.Sends order entries target) {chances : List (Nat × Option Nat)}
    (hcredit : ∀ chance ∈ chances, chance.2 ≠ some 0)
    (henough : d.framed.outbound.burden ≤ chances.length) :
    (d.run (attempts chances)).Sent order entries target := by
  induction chances generalizing d with
  | nil => exact absurd h.sends.burden_pos (Nat.not_lt.mpr henough)
  | cons chance chances ih =>
      obtain ⟨hsome, hcredit⟩ := List.forall_mem_cons.mp hcredit
      rw [attempts_cons, run_cons, run_cons]
      rcases h.chance chance.1 hsome rfl with ⟨hsends, hless⟩ | hsent
      · exact ih hsends hcredit (Nat.le_of_lt_succ (Nat.lt_of_lt_of_le hless henough))
      · exact hsent.run chances

/-- An order of which nothing is refused and that ends with a flush is begun. -/
theorem sends_call {s : Sending} (hsending : order.sending = .ok s)
    (hshort : ∀ payload ∈ s.payloads, payload.size ≤ d.framed.outbound.limit)
    (hends : s.flushes = true) (htight : d.framed.outbound.IsTight)
    (hlive : d.framed.outbound.aborted = false) (hflush : d.framed.link.flushError = none)
    (now : Nat) :
    (d.move (.call order now)).Sends order d.leave.entries
      (d.framed.link.taken ++ d.framed.outbound.unsent ++ s.octets) := by
  obtain ⟨s', hs', hmove⟩ := call_begun ((Order.refusal_eq_none_iff hsending).mpr hshort) now
  obtain rfl : s = s' := Except.ok.inj (hsending.symm.trans hs')
  obtain ⟨hflushes, hnoShut⟩ := Outbound.flushes_begun (o := d.framed.outbound) hends
  rw [hmove]
  exact ⟨rfl, rfl, rfl, htight, hlive, hnoShut, hflushes, hflush,
    congrArg (d.framed.link.taken ++ d.framed.outbound.unsent ++ ·)
      (Outbound.unput_begun s d.framed.outbound)⟩

/-- An order that is refused leaves no trace: over any connection, and whatever was
asked before, it gives the answer that says why and that is all; whatever is asked
later is answered, and sent, as if the order had not been given. It is refused if
one of its values has no encoding or one of its frames, anywhere in the list, is
too long, and in no other case. A list of frames of which none is refused is sent
whole behind what was buffered, on a connection that takes something at every
attempt, and nothing is buffered any more. -/
theorem refused_or_sent :
    (∀ {L : Type} [Link L] (d : Desk L) (order : Order) (now : Nat),
      (∀ error, order.refusal d.framed.outbound.limit = some error → ∀ later, ∃ more,
        (d.leave.run later).entries = d.leave.entries ++ more ∧
        (d.move (.call order now)).run later =
          { d.leave.run later with
            entries := d.leave.entries ++ ⟨order, some (order.reply (.error error))⟩ :: more }) ∧
      (order.refusal d.framed.outbound.limit = none →
        (d.move (.call order now)).current = some order ∧
        (d.move (.call order now)).entries = d.leave.entries)) ∧
    ∀ (link : Script) (inbound : Inbound) (limit : Nat) (patience : Option Nat)
      (moves : List (Move Script)) (order : Order) (payloads : List ByteArray) (now : Nat)
      (d : Desk Script),
      d = run { framed := { link, inbound, outbound := { limit, patience } } } moves →
      order.sending = .ok (.frames payloads) →
      (∀ payload ∈ payloads, payload.size ≤ d.framed.outbound.limit) →
      d.framed.outbound.aborted = false → d.framed.link.flushError = none →
      ∃ enough, ∀ chances : List (Nat × Option Nat), enough ≤ chances.length →
        (∀ chance ∈ chances, chance.2 ≠ some 0) →
        ((d.move (.call order now)).run (attempts chances)).Sent order d.leave.entries
          (d.framed.link.taken ++ d.framed.outbound.unsent ++
            payloads.flatMap frameOctets) := by
  constructor
  · intro L _ d order now
    constructor
    · intro error hrefusal later
      -- The desk as it is left, and before it what was written down.
      let early : Desk L := { d.leave with entries := [] }
      have hleft : d.leave = early.after d.leave.entries := (after_entries d.leave).symm
      have hcalled : d.move (.call order now) =
          early.after (d.leave.entries ++ [⟨order, some (order.reply (.error error))⟩]) := by
        rw [call_refused hrefusal now]
        simp [early, after]
      have hplain : d.leave.run later = (early.run later).after d.leave.entries :=
        (congrArg (Desk.run · later) hleft).trans (run_after _ _ _)
      refine ⟨(early.run later).entries, congrArg Desk.entries hplain, ?_⟩
      rw [hcalled, hplain, run_after]
      simp [after]
    · intro hrefusal
      obtain ⟨s, _, hmove⟩ := call_begun hrefusal now
      rw [hmove]
      exact ⟨rfl, rfl⟩
  · rintro link inbound limit patience moves order payloads now d rfl hsending hshort hlive hflush
    have htight := isTight_run (L := Script)
      (d := { framed := { link, inbound, outbound := { limit, patience } } }) (.inl rfl) moves
    have hsends := sends_call hsending hshort rfl htight hlive hflush now
    exact ⟨_, fun chances henough hcredit => hsends.run hcredit henough⟩

/-- Frames of two octets at most, and a frame that is buffered. -/
def withFrame : Desk Script :=
  run { framed := { link := { credit := some 3 }, outbound := { limit := 2 } } }
    [.call (.encoded (.frame ⟨#[104, 105]⟩)) 0, .step 0, .step 0, .step 0, .step 0]

/-- The second frame is too long. -/
def tooLong : Order := .encoded (.frames [⟨#[7]⟩, ⟨#[104, 101, 121]⟩])

def shortEnough : Order := .encoded (.frames [⟨#[7]⟩])

theorem refused_or_sent_withFrame :
    (∃ more, (withFrame.leave.run [.call (.encoded .flush) 0, .step 0]).entries =
        withFrame.entries ++ more ∧
      (withFrame.move (.call tooLong 0)).run [.call (.encoded .flush) 0, .step 0] =
        { withFrame.leave.run [.call (.encoded .flush) 0, .step 0] with
          entries := withFrame.entries ++
            ⟨tooLong, some (.sending (.error (.invalidFrame (.tooLarge 3))))⟩ :: more }) ∧
    ∃ enough, ∀ chances : List (Nat × Option Nat), enough ≤ chances.length →
      (∀ chance ∈ chances, chance.2 ≠ some 0) →
      ((withFrame.move (.call shortEnough 0)).run (attempts chances)).Sent shortEnough
        withFrame.entries [0, 0, 0, 2, 104, 105, 0, 0, 0, 1, 7] := by
  constructor
  · have hrefusal : tooLong.refusal withFrame.framed.outbound.limit =
        some (.invalidFrame (.tooLarge 3)) := by decide
    exact (refused_or_sent.1 withFrame tooLong 0).1 _ hrefusal _
  · exact refused_or_sent.2 { credit := some 3 } {} 2 none _ shortEnough [⟨#[7]⟩] 0 withFrame rfl rfl
      (by decide) (by decide) (by decide)

end Desk

end Switchboard
