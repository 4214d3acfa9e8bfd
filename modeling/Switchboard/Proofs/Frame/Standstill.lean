import Switchboard.Proofs.Frame.Desk
import Switchboard.Proofs.Frame.Patience
import Switchboard.Proofs.Frame.Segments

/-!
# Orders that come to an end

A writing half with a patience is given an order and then pursues it: attempt after
attempt, and before each of them anything may happen to the connection, which may
also stop taking anything at any moment. Whatever was asked before and whatever is in
the buffer, the order is answered some time, except one: the end of the writing is never
answered exactly if octets are left in the buffer of which the connection takes nothing
any more (`Desk.ends_iff`).
-/

namespace Switchboard

/-- Nothing else is sent as the end of the writing is. -/
theorem Order.sending_ne_close {order : Order} (h : order ≠ .encoded .close) {s : Sending}
    (hsending : order.sending = .ok s) : s ≠ .close := by
  rintro rfl
  rcases sending_cases hsending with hclose | ⟨_, hframe⟩ | ⟨_, hframes⟩
  · exact h hclose
  · cases hframe
  · cases hframes

namespace Desk

variable {L : Type} [Link L] {d : Desk L} {order : Order} {entries : List Entry}

/-! ## An order that is pursued -/

/-- Something happens to the connection, and then there is an attempt to get on. -/
def chance (now : Nat) (act : L → L) (d : Desk L) : Desk L :=
  (d.move (.outside act)).move (.step now)

/-- So many attempts, made at the times that the clock shows. -/
def pursue (clock : Nat → Nat) (acts : Nat → L → L) (d : Desk L) : Nat → Desk L
  | 0 => d
  | n + 1 => (d.pursue clock acts n).chance (clock n) (acts n)

/-- An order is under way, and was not answered yet. -/
structure UnderWay (order : Order) (entries : List Entry) (d : Desk L) : Prop where
  current : d.current = some order
  entries : d.entries = entries
  busy : d.framed.outbound.writing.isSome
  tight : d.framed.outbound.IsTight

omit [Link L] in
theorem UnderWay.current_ne (h : d.UnderWay order entries) : d.current ≠ none := by
  rw [h.current]
  simp

/-- The order was answered. -/
structure Answered (order : Order) (entries : List Entry) (d : Desk L) : Prop where
  current : d.current = none
  entries : ∃ result, d.entries = entries ++ [⟨order, some (order.reply result)⟩]

theorem current_chance (h : d.current = none) (now : Nat) (act : L → L) :
    d.chance now act = d.move (.outside act) :=
  move_step_idle (d := d.move (.outside act)) h now

/-- What a chance comes to for an order that is under way. -/
inductive Chance (order : Order) (entries : List Entry) (now : Nat) (act : L → L)
    (d d' : Desk L) : Prop where
  | answered {result : Except LinkError Unit} (hanswered : d'.Answered order entries)
      (hdone : (d.framed.outbound.step .near now (act d.framed.link)).1 = .done result) :
      Chance order entries now act d d'
  | going (hunder : d'.UnderWay order entries)
      (hstep : d'.framed.outbound =
        (d.framed.outbound.step .near now (act d.framed.link)).2.1) :
      Chance order entries now act d d'

theorem UnderWay.chance (h : d.UnderWay order entries) (now : Nat) (act : L → L) :
    Chance order entries now act d (d.chance now act) := by
  obtain ⟨w, hw⟩ := Option.isSome_iff_exists.mp h.busy
  have hgoes : d.framed.outbound.GoesOn .near now (act d.framed.link) w
      (d.framed.outbound.step .near now (act d.framed.link)).1
      (d.framed.outbound.step .near now (act d.framed.link)).2.1 := Outbound.goesOn_step h.tight hw
  have htight := h.tight.step .near now (act d.framed.link)
  have hattempt := (d.move (.outside act)).attempt_cases order now
  have hchance : d.chance now act = (d.move (.outside act)).attempt order now :=
    move_step (d := d.move (.outside act)) h.current now
  rw [hchance]
  generalize (d.move (.outside act)).attempt order now = d' at hattempt
  cases hattempt with
  | refused hidle | begun hidle => cases hidle.symm.trans hw
  | @going _ poll outbound link _ hmoved hpoll =>
      have hstep : d.framed.outbound.step .near now (act d.framed.link) = (poll, outbound, link) :=
        hmoved
      rw [hstep] at hgoes htight
      refine .going ⟨rfl, h.entries, ?_, htight⟩ (by rw [hstep])
      cases hgoes with
      | begins => rfl
      | gets acts _ hwriting => exact Option.isSome_of_eq_some hwriting
      | waits => exact h.busy
      | ends => simp at hpoll
  | ended _ hmoved =>
      exact .answered ⟨rfl, _, congrArg (· ++ [_]) h.entries⟩ (congrArg Prod.fst hmoved)

/-- An order that is not answered yet has gone on. -/
theorem UnderWay.goesOn (h : d.UnderWay order entries) {now : Nat} {act : L → L}
    (hgoing : (d.chance now act).current ≠ none) :
    (d.chance now act).UnderWay order entries ∧ ∃ w poll, d.framed.outbound.writing = some w ∧
      d.framed.outbound.GoesOn .near now (act d.framed.link) w poll
        (d.chance now act).framed.outbound := by
  obtain ⟨w, hw⟩ := Option.isSome_iff_exists.mp h.busy
  cases h.chance now act with
  | answered hanswered => exact absurd hanswered.current hgoing
  | going hunder hstep =>
      refine ⟨hunder, w, (d.framed.outbound.step .near now (act d.framed.link)).1, hw, ?_⟩
      rw [hstep]
      exact Outbound.goesOn_step h.tight hw

section Pursued

variable {clock : Nat → Nat} {acts : Nat → L → L}

theorem current_pursue {n : Nat} (h : (d.pursue clock acts n).current = none) {m : Nat}
    (hm : n ≤ m) : (d.pursue clock acts m).current = none := by
  induction m, hm using Nat.le_induction with
  | base => exact h
  | succ m _ ih =>
      show ((d.pursue clock acts m).chance (clock m) (acts m)).current = none
      rw [current_chance ih]
      exact ih

theorem Answered.pursue (h : d.Answered order entries) (n : Nat) :
    (d.pursue clock acts n).Answered order entries := by
  induction n with
  | zero => exact h
  | succ n ih =>
      show ((d.pursue clock acts n).chance (clock n) (acts n)).Answered order entries
      rw [current_chance ih.current]
      exact ⟨ih.current, ih.entries⟩

/-- At every moment an order is under way or was answered. -/
theorem UnderWay.pursue (h : d.UnderWay order entries) (n : Nat) :
    (d.pursue clock acts n).UnderWay order entries ∨
      (d.pursue clock acts n).Answered order entries := by
  induction n with
  | zero => exact .inl h
  | succ n ih =>
      show ((d.pursue clock acts n).chance (clock n) (acts n)).UnderWay order entries ∨
        ((d.pursue clock acts n).chance (clock n) (acts n)).Answered order entries
      rcases ih with hunder | hanswered
      · cases hunder.chance (clock n) (acts n) with
        | answered hanswered => exact .inr hanswered
        | going hunder => exact .inl hunder
      · rw [current_chance hanswered.current]
        exact .inr ⟨hanswered.current, hanswered.entries⟩

/-- What every attempt keeps that does not end an operation holds as long as the order
is under way. -/
theorem UnderWay.kept {keeps : Outbound → Prop}
    (hstep : ∀ {now : Nat} {link : L} {o o' : Outbound} {w : Writing}
      {poll : Poll (Except LinkError Unit)}, keeps o → o.writing = some w →
      o.GoesOn .near now link w poll o' → o'.writing.isSome → keeps o')
    (h : d.UnderWay order entries) (hkeeps : keeps d.framed.outbound) (n : Nat)
    (hgoing : (d.pursue clock acts n).current ≠ none) :
    (d.pursue clock acts n).UnderWay order entries ∧
      keeps (d.pursue clock acts n).framed.outbound := by
  induction n with
  | zero => exact ⟨h, hkeeps⟩
  | succ n ih =>
      have hbefore : (d.pursue clock acts n).current ≠ none :=
        fun hnone => hgoing (current_pursue hnone (Nat.le_succ n))
      obtain ⟨hunder, hkept⟩ := ih hbefore
      obtain ⟨hunder', w, poll, hw, hgoes⟩ := hunder.goesOn hgoing
      exact ⟨hunder', hstep hkept hw hgoes hunder'.busy⟩

/-- An operation that has to be over at some time is over some time. -/
theorem UnderWay.ends (h : d.UnderWay order entries) (htimed : d.framed.outbound.Timed)
    (hclock : ∀ time, ∃ n, ∀ m ≥ n, time ≤ clock m) :
    ∃ n, (d.pursue clock acts n).current = none := by
  by_contra hnever
  push Not at hnever
  refine Framed.not_forever
    (fun n time => (d.pursue clock acts n).framed.outbound.alarm = some time)
    (fun n => (d.pursue clock acts n).framed.outbound.burden) clock hclock ?_
  intro n
  obtain ⟨hunder, hkept⟩ := h.kept
    (fun htimed hw hgoes hbusy => (htimed.goesOn hw hgoes hbusy).1) htimed n (hnever n)
  obtain ⟨hunder', w, poll, hw, hgoes⟩ := hunder.goesOn (hnever (n + 1))
  have hhurries := (hkept.goesOn hw hgoes hunder'.busy).2
  rcases hhurries with hless | ⟨hsame, time, halarm, hnow⟩
  · exact .inl hless
  · refine .inr ⟨Nat.le_of_eq (congrArg Outbound.burden hsame), time, hnow, ?_, ?_⟩
    · show ((d.pursue clock acts n).chance (clock n) (acts n)).framed.outbound.alarm = some time
      rw [hsame]
      exact halarm
    · intro other hother
      exact Option.some.inj (halarm.symm.trans hother)

/-- From some attempt on, with octets in the buffer, the connection takes nothing of
them at any attempt. -/
def IsStuck (clock : Nat → Nat) (acts : Nat → L → L) (d : Desk L) : Prop :=
  ∃ first, (d.pursue clock acts first).current ≠ none ∧
    (d.pursue clock acts first).framed.outbound.aborted = false ∧
    (d.pursue clock acts first).framed.outbound.unsent ≠ [] ∧
    ∀ n ≥ first, (d.pursue clock acts n).framed.outbound.Refused .near
      (acts n (d.pursue clock acts n).framed.link)

/-- Where it stands still, ending the writing never comes to an end. -/
theorem UnderWay.stands (h : d.UnderWay order entries) (hclosing : d.framed.outbound.Closing)
    (hstuck : d.IsStuck clock acts) (n : Nat) : (d.pursue clock acts n).current ≠ none := by
  obtain ⟨first, hgoing, hupright, hunsent, hrefused⟩ := hstuck
  obtain ⟨hunder, hclosing⟩ := h.kept (fun hclosing hw hgoes hbusy =>
    (hclosing.goesOn hw hgoes hbusy).1.1) hclosing first hgoing
  have hstands (m : Nat) (hm : first ≤ m) : (d.pursue clock acts m).UnderWay order entries ∧
      (d.pursue clock acts m).framed.outbound.Shuts ∧
      (d.pursue clock acts m).framed.outbound.unsent ≠ [] := by
    induction m, hm using Nat.le_induction with
    | base => exact ⟨hunder, ⟨hclosing, hupright⟩, hunsent⟩
    | succ m hm ih =>
        obtain ⟨hunder, hshuts, hunsent⟩ := ih
        obtain ⟨hsame, hnot⟩ := hshuts.stuck hunsent (hrefused m hm) (clock m)
        cases hunder.chance (clock m) (acts m) with
        | answered _ hdone => exact absurd hdone (hnot _)
        | going hunder' hstep =>
            obtain ⟨-, w, poll, hw, hgoes⟩ := hunder.goesOn hunder'.current_ne
            refine ⟨hunder', hshuts.goesOn hw hgoes hunder'.busy, ?_⟩
            show ((d.pursue clock acts m).chance (clock m) (acts m)).framed.outbound.unsent ≠ []
            rw [hstep, hsame]
            exact hunsent
  intro hnone
  have hlater := current_pursue hnone (Nat.le_max_left n first)
  exact (hstands (max n first) (Nat.le_max_right n first)).1.current_ne hlater

/-- If ending the writing never comes to an end, then because it stands still. -/
theorem UnderWay.stuck (h : d.UnderWay order entries)
    (hcalled : d.framed.outbound.writing = some { later := Sending.parts .close })
    (hnever : ∀ n, (d.pursue clock acts n).current ≠ none) : d.IsStuck clock acts := by
  have hupright : d.framed.outbound.aborted = false := by
    obtain ⟨hunder, w, poll, hw, hgoes⟩ := h.goesOn (hnever 1)
    obtain rfl := Option.some.inj (hcalled.symm.trans hw)
    have hbusy := hunder.busy
    generalize (d.chance (clock 0) (acts 0)).framed.outbound = o' at hgoes hbusy
    cases hgoes with
    | begins _ _ _ _ hupright => exact hupright
    | gets _ hsome | waits _ hsome => exact absurd rfl hsome
    | ends hidle =>
        rw [hidle] at hbusy
        cases hbusy
  have hshuts : d.framed.outbound.Shuts := ⟨.called hcalled, hupright⟩
  have hkept (n : Nat) : (d.pursue clock acts n).UnderWay order entries ∧
      (d.pursue clock acts n).framed.outbound.Shuts :=
    h.kept (fun hshuts hw hgoes hbusy => hshuts.goesOn hw hgoes hbusy) hshuts n (hnever n)
  have hstep (n : Nat) : (d.pursue clock acts (n + 1)).framed.outbound.burden <
      (d.pursue clock acts n).framed.outbound.burden ∨
      (d.pursue clock acts (n + 1)).framed.outbound = (d.pursue clock acts n).framed.outbound ∧
      (d.pursue clock acts n).framed.outbound.unsent ≠ [] ∧
      (d.pursue clock acts n).framed.outbound.Refused .near
        (acts n (d.pursue clock acts n).framed.link) := by
    obtain ⟨hunder, hshuts⟩ := hkept n
    obtain ⟨hunder', w, poll, hw, hgoes⟩ := hunder.goesOn (hnever (n + 1))
    exact (hshuts.closing.goesOn hw hgoes hunder'.busy).2
  have hanti : Antitone fun n => (d.pursue clock acts n).framed.outbound.burden := by
    apply antitone_nat_of_succ_le
    intro n
    rcases hstep n with hless | ⟨hsame, -⟩
    · exact hless.le
    · exact Nat.le_of_eq (congrArg Outbound.burden hsame)
  -- From some attempt on there is nothing gained, so each of them is refused.
  obtain ⟨first, hlevel⟩ := WellFoundedLT.antitone_chain_condition hanti
  have hwaits (n : Nat) (hn : first ≤ n) :
      (d.pursue clock acts n).framed.outbound.unsent ≠ [] ∧
      (d.pursue clock acts n).framed.outbound.Refused .near
        (acts n (d.pursue clock acts n).framed.link) := by
    rcases hstep n with hless | ⟨-, hwaits⟩
    · have hsame := (hlevel n hn).symm.trans (hlevel (n + 1) (Nat.le_succ_of_le hn))
      exact absurd hsame.symm (Nat.ne_of_lt hless)
    · exact hwaits
  exact ⟨first, hnever first, (hkept first).2.upright, (hwaits first (Nat.le_refl first)).1,
    fun n hn => (hwaits n hn).2⟩

/-- Ending the writing comes to an end unless it stands still. -/
theorem UnderWay.ends_iff_not_stuck (h : d.UnderWay order entries)
    (hcalled : d.framed.outbound.writing = some { later := Sending.parts .close }) :
    (∃ n, (d.pursue clock acts n).current = none) ↔ ¬ d.IsStuck clock acts := by
  constructor
  · rintro ⟨n, hnone⟩ hstuck
    exact h.stands (.called hcalled) hstuck n hnone
  · intro hnot
    by_contra hnever
    push Not at hnever
    exact hnot (h.stuck hcalled hnever)

theorem Answered.not_stuck (h : d.Answered order entries) : ¬ d.IsStuck clock acts := by
  rintro ⟨first, hgoing, -⟩
  exact hgoing (h.pursue first).current

end Pursued

/-! ## With a patience -/

/-- A writing half with a patience answers an order no more than once, and answers it
some time unless the order is to end the writing and this stands still: there are octets
in the buffer, and from some attempt on the connection takes nothing of them. This is
the only order that has no time limit, and if it stands still then it does so for ever. -/
theorem ends_iff (link : L) (inbound : Inbound) (limit patience : Nat) (moves : List (Move L))
    (order : Order) (now : Nat) {clock : Nat → Nat}
    (hclock : ∀ time, ∃ n, ∀ m ≥ n, time ≤ clock m) (acts : Nat → L → L) (d : Desk L)
    (hd : d = run { framed :=
      { link, inbound, outbound := { limit, patience := some patience } } } moves) :
    (∀ n, ((d.move (.call order now)).pursue clock acts n).current = none →
      ∃ result, ((d.move (.call order now)).pursue clock acts n).entries =
        d.leave.entries ++ [⟨order, some (order.reply result)⟩]) ∧
    ((∃ n, ((d.move (.call order now)).pursue clock acts n).current = none) ↔
      ¬ (order = .encoded .close ∧ (d.move (.call order now)).IsStuck clock acts)) := by
  have htight : d.framed.outbound.IsTight := hd ▸ isTight_run (.inl rfl) moves
  have hpatience : d.framed.outbound.patience = some patience :=
    hd ▸ patience_run _ moves
  cases hrefusal : order.refusal d.framed.outbound.limit with
  | some error =>
      have hanswered : (d.move (.call order now)).Answered order d.leave.entries := by
        rw [call_refused hrefusal]
        exact ⟨rfl, .error error, rfl⟩
      constructor
      · intro n _
        exact (hanswered.pursue n).entries
      · exact iff_of_true ⟨0, hanswered.current⟩ (fun ⟨_, hstuck⟩ => hanswered.not_stuck hstuck)
  | none =>
      obtain ⟨s, hsending, hmove⟩ := call_begun hrefusal now
      generalize d.move (.call order now) = begun at hmove
      have hunder : begun.UnderWay order d.leave.entries := by
        rw [hmove]
        exact ⟨rfl, rfl, rfl, htight⟩
      constructor
      · intro n hnone
        rcases hunder.pursue n with hgoing | hanswered
        · exact absurd hnone hgoing.current_ne
        · exact hanswered.entries
      · by_cases hclose : order = .encoded .close
        · subst hclose
          obtain rfl := Except.ok.inj hsending
          rw [hunder.ends_iff_not_stuck (by rw [hmove])]
          simp only [true_and]
        · have hother := order.sending_ne_close hclose hsending
          refine iff_of_true (hunder.ends ?_ hclock) (fun ⟨hsame, _⟩ => hclose hsame)
          rw [hmove]
          apply Outbound.timed_called _ hother
          show d.framed.outbound.patience.isSome
          rw [hpatience]
          rfl

/-- A frame is buffered, and the connection takes nothing. -/
def stalled : Desk Script :=
  run { framed := { link := { credit := some 0 }, outbound := { patience := some 10 } } }
    [.call (.encoded (.frame ⟨#[7]⟩)) 0, .step 0, .step 0, .step 0, .step 0]

/-- The flush ends when its time is over. -/
theorem ends_stalled :
    ∃ n, ((stalled.move (.call (.encoded .flush) 0)).pursue id (fun _ => id) n).current =
      none := by
  have hclock (time : Nat) : ∃ n, ∀ m ≥ n, time ≤ id m := ⟨time, fun _ hm => hm⟩
  have hends := ends_iff { credit := some 0 } {} maxPayload 10 _ (.encoded .flush) 0 hclock
    (fun _ => id) stalled rfl
  exact hends.2.mpr (fun ⟨hclose, _⟩ => by cases hclose)

/-- The end of the writing does not end. -/
theorem stalled_for_ever :
    stalled.framed.outbound.patience = some 10 ∧
      ¬ ∃ n, ((stalled.move (.call (.encoded .close) 0)).pursue id (fun _ => id) n).current =
        none := by
  refine ⟨rfl, ?_⟩
  rintro ⟨n, hnone⟩
  have hstill (n : Nat) :
      (stalled.move (.call (.encoded .close) 0)).pursue id (fun _ => id) (n + 1) =
        (stalled.move (.call (.encoded .close) 0)).pursue id (fun _ => id) 1 := by
    induction n with
    | zero => rfl
    | succ n ih =>
        show chance (n + 1) id _ = _
        rw [ih]
        rfl
  have hlater := current_pursue hnone (Nat.le_succ n)
  rw [hstill n] at hlater
  exact absurd hlater (by decide)

end Desk

end Switchboard
