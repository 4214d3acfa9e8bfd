import Switchboard.Proofs.Frame.Segments
import Switchboard.Proofs.Tunnel.Contacts
import Switchboard.Proofs.Tunnel.Grammar

/-!
# Hearing the answer

Over any connection, what was heard of an answer is at every moment the lines that were
read, what was consumed of the next line and what is buffered (`Inbound.Hears`). Octets can
hold an answer whatever comes behind them (`Tunnel.Decides`); as long as they do not, the
connection is asked for more, and once they do it is not asked any more
(`Tunnel.LeadsOn.undecided`).
-/

namespace Switchboard

namespace Tunnel

/-! ## Answers with more to come -/

/-- What is to come in a phase of a handshake. -/
def Expects : HandshakePhase → Octets → Except CallError Unit → Octets → Prop
  | .headers => Headers
  | .start | .sending | .status => Answers

/-- The octets hold this answer, whatever comes behind them. -/
def Decides (octets : Octets) (verdict : Except CallError Unit) (rest : Octets) : Prop :=
  ∀ more, Answers (octets ++ more) verdict (rest ++ more)

/-- It depends on what comes behind the octets which answer they hold. -/
def Undecided (octets : Octets) : Prop := ∀ verdict rest, ¬ Decides octets verdict rest

/-- What a phase makes of octets is what the handshake as a whole makes of all that
was heard, whatever comes behind. -/
def LeadsOn (phase : HandshakePhase) (octets heard : Octets) : Prop :=
  ∀ more verdict rest, Expects phase (octets ++ more) verdict rest →
    Answers (heard ++ more) verdict rest

variable {phase : HandshakePhase} {octets heard rest rest' : Octets} {error : LinkError}

theorem Decides.answers {verdict : Except CallError Unit} (h : Decides octets verdict rest) :
    Answers octets verdict rest := by
  have hanswers := h []
  rwa [List.append_nil, List.append_nil] at hanswers

theorem Decides.unique {verdict verdict' : Except CallError Unit}
    (h : Decides octets verdict rest) (h' : Decides octets verdict' rest') : verdict = verdict' :=
  (h.answers.unique h'.answers).1

theorem LeadsOn.refl (h : phase ≠ .headers) (octets : Octets) : LeadsOn phase octets octets := by
  intro more verdict rest hexpects
  cases phase with
  | headers => exact absurd rfl h
  | start | sending | status => exact hexpects

theorem LeadsOn.append (h : LeadsOn phase octets heard) (more : Octets) :
    LeadsOn phase (octets ++ more) (heard ++ more) := by
  intro others verdict rest hexpects
  rw [List.append_assoc] at hexpects ⊢
  exact h _ _ _ hexpects

/-- Where no line is, the handshake is told that there is none. -/
theorem expects_of_error (h : ParsesLine octets (.error error) rest) (phase : HandshakePhase) :
    Expects phase octets (.error (.ofLink error)) rest := by
  have hbroken : NoLine octets (.ofLink error) rest := noLine_iff.mpr ⟨error, h, rfl⟩
  cases phase with
  | headers => exact Headers.broken hbroken
  | start | sending | status => exact Answers.broken hbroken

theorem LeadsOn.ended (h : LeadsOn phase octets heard)
    (hline : ParsesLine octets (.error error) rest) : Answers heard (.error (.ofLink error)) rest := by
  have hanswers := h [] (.error (.ofLink error)) rest
  rw [List.append_nil, List.append_nil] at hanswers
  exact hanswers (expects_of_error hline phase)

theorem LeadsOn.broken (h : LeadsOn phase octets heard)
    (hline : ∀ more, ParsesLine (octets ++ more) (.error error) (rest ++ more)) :
    Decides heard (.error (.ofLink error)) rest :=
  fun more => h more _ _ (expects_of_error (hline more) phase)

/-- With two line ends behind an unfinished line, at most one is left over. -/
theorem exists_expects (hopen : newline ∉ octets) (hshort : octets.length < maxLine)
    (phase : HandshakePhase) :
    ∃ verdict left, Expects phase (octets ++ [newline, newline]) verdict left ∧
      left.length ≤ 1 := by
  have hline := parsesLine_lineText hopen hshort [newline]
  have hempty : Headers [newline] (.ok ()) [] := .finished (.text "" [] [] (by simp) (by decide) rfl)
  cases htext : lineText octets with
  | error fault =>
      rw [htext] at hline
      exact ⟨_, _, expects_of_error hline phase, Nat.le_refl 1⟩
  | ok received =>
      rw [htext] at hline
      obtain ⟨text, rfl⟩ := exists_text hline
      have hanswers : ∃ verdict left,
          Answers (octets ++ [newline, newline]) verdict left ∧ left.length ≤ 1 := by
        obtain ⟨judged, hjudges⟩ := exists_judges text
        cases judged with
        | error error => exact ⟨_, _, .refused hline hjudges, Nat.le_refl 1⟩
        | ok => exact ⟨_, _, .agreed hline hjudges hempty, Nat.zero_le 1⟩
      cases phase with
      | headers =>
          by_cases hblank : text = ""
          · subst hblank
            exact ⟨_, _, Headers.finished hline, Nat.le_refl 1⟩
          · exact ⟨_, _, Headers.header hline hblank hempty, Nat.zero_le 1⟩
      | start | sending | status => exact hanswers

/-- While a line is not finished, what was heard is no answer yet. -/
theorem LeadsOn.undecided {limit : Nat} {progress : Progress} (h : LeadsOn phase octets heard)
    (hfed : (Progress.start .line).feed limit octets = .more progress) : Undecided heard := by
  intro verdict rest hdecides
  obtain ⟨hopen, hshort⟩ := Progress.open_of_feedLine hfed
  -- If nothing came any more, nothing would be left over.
  have hend := h.ended (oneShot_eq_iff.mp (Progress.oneShot_of_more hfed))
  obtain ⟨-, rfl⟩ := hdecides.answers.unique hend
  -- So if two line ends came, both of them would be.
  obtain ⟨verdict', left, hexpects, hleft⟩ := exists_expects hopen hshort phase
  obtain ⟨-, rfl⟩ := (hdecides [newline, newline]).unique (h _ _ _ hexpects)
  exact absurd hleft (by decide)

end Tunnel

/-! ## The reading half on its way -/

namespace Inbound

open Tunnel (Answers Decides LeadsOn Undecided)

/-- A line of the answer is being read: some octets were consumed for it, and what is
buffered comes behind them. -/
structure Hears (start : Inbound) (phase : HandshakePhase) (deadline : Option Nat)
    (contacts : List Contact) (i : Inbound) : Prop where
  limit : i.limit = start.limit
  patience : i.patience = start.patience
  line : ∃ taken r, i.reading = some r ∧ r.deadline = deadline ∧
    (Progress.start .line).feed start.limit taken = .more r.progress ∧
    LeadsOn phase (taken ++ i.buffer) (start.buffer ++ heardIn contacts)

/-- The octets with which a line goes on: what is buffered, or, if nothing is and the
answer is not complete, what the connection gives. -/
inductive Got {L : Type} (start : Inbound) (l : Noted L) (i : Inbound) : Octets → Noted L → Prop where
  | buffered (hbuffer : i.buffer ≠ []) : Got start l i i.buffer l
  | arrived {octets : Octets} {l' : Noted L}
      (hopen : Undecided (start.buffer ++ heardIn l.contacts)) (hbuffer : i.buffer = [])
      (hcontacts : l'.contacts = l.contacts ++ [.read (.data octets)]) : Got start l i octets l'

/-- What one attempt to go on with a line comes to. -/
inductive HearStep {L : Type} (start : Inbound) (phase : HandshakePhase) (deadline : Option Nat)
    (now : Nat) (l : Noted L) (i : Inbound) :
    Poll (Except LinkError Received) → Inbound → Noted L → Prop where
  | goes {octets : Octets} {i' : Inbound} {l' : Noted L} (hgot : start.Got l i octets l')
      (hhears : start.Hears phase deadline l'.contacts i') (hbuffer : i'.buffer = []) :
      HearStep start phase deadline now l i .again i' l'
  | line {octets seen : Octets} {text : String} {i' : Inbound} {l' : Noted L}
      (hgot : start.Got l i octets l') (hsettings : i' = { start with buffer := i'.buffer })
      (hless : i'.buffer.length < octets.length)
      (hline : ∀ more, ParsesLine (seen ++ more) (.ok (.line text)) (i'.buffer ++ more))
      (hleads : LeadsOn phase seen (start.buffer ++ heardIn l'.contacts)) :
      HearStep start phase deadline now l i (.done (.ok (.line text))) i' l'
  | broken {octets : Octets} {error : LinkError} {i' : Inbound} {l' : Noted L}
      (hgot : start.Got l i octets l')
      (hdecides : Decides (start.buffer ++ heardIn l'.contacts) (.error (.ofLink error)) i'.buffer) :
      HearStep start phase deadline now l i (.done (.error error)) i' l'
  | ended {error : LinkError} {i' : Inbound} {l' : Noted L}
      (hopen : Undecided (start.buffer ++ heardIn l.contacts))
      (hcontacts : l'.contacts = l.contacts ++ [.read .ended])
      (hanswers : Answers (start.buffer ++ heardIn l.contacts) (.error (.ofLink error)) []) :
      HearStep start phase deadline now l i (.done (.error error)) i' l'
  | failed {error : IoError} {i' : Inbound} {l' : Noted L}
      (hopen : Undecided (start.buffer ++ heardIn l.contacts))
      (hcontacts : l'.contacts = l.contacts ++ [.read (.failed error)])
      (hkind : error.kind ≠ .interrupted) :
      HearStep start phase deadline now l i (.done (.error (.io error))) i' l'
  | late {time : Nat} {i' : Inbound} {l' : Noted L}
      (hopen : Undecided (start.buffer ++ heardIn l.contacts))
      (hcontacts : l'.contacts = l.contacts ++ [.read .nothing])
      (hdeadline : deadline = some time) (hdue : time ≤ now) :
      HearStep start phase deadline now l i (.done (.error (.timeout .receive))) i' l'
  | waits {contact : Contact} {poll : Poll (Except LinkError Received)} {l' : Noted L}
      (hpoll : poll = .again ∨ poll = .blocked)
      (hopen : Undecided (start.buffer ++ heardIn l.contacts))
      (hcontacts : l'.contacts = l.contacts ++ [contact]) (hwaits : contact.Waits)
      (hread : ∃ arrival, contact = .read arrival)
      (hearly : contact = .read .nothing → ∀ time, deadline = some time → now < time)
      (hhears : start.Hears phase deadline l'.contacts i) :
      HearStep start phase deadline now l i poll i l'

variable {L : Type} {phase : HandshakePhase} {deadline : Option Nat} {l l' : Noted L}
  {start i : Inbound}

/-- A line begins, in front of what is buffered. -/
theorem hears_start (hsettings : i = { start with buffer := i.buffer })
    {contacts : List Contact}
    (hleads : LeadsOn phase i.buffer (start.buffer ++ heardIn contacts)) (now : Nat) :
    start.Hears phase (start.patience.map (now + ·)) contacts (i.start .line now) := by
  rw [hsettings]
  exact ⟨rfl, rfl, [], _, rfl, rfl, Progress.feed_start_nil _ _, hleads⟩

/-- An attempt to read came to no octets. -/
theorem Hears.wait (h : start.Hears phase deadline l.contacts i) {contact : Contact}
    (hheard : contact.heard = []) (hcontacts : l'.contacts = l.contacts ++ [contact]) :
    start.Hears phase deadline l'.contacts i := by
  rw [hcontacts]
  refine ⟨h.limit, h.patience, ?_⟩
  rw [heardIn_append, heardIn_singleton, hheard, List.append_nil]
  exact h.line

/-- The end of a line is not among what was consumed before. -/
theorem rest_lt {limit : Nat} {progress : Progress} {taken octets rest : Octets} {text : String}
    (hfed : (Progress.start .line).feed limit taken = .more progress)
    (hline : ParsesLine (taken ++ octets) (.ok (.line text)) rest) :
    rest.length < octets.length := by
  obtain ⟨hopen, -⟩ := Progress.open_of_feedLine hfed
  obtain ⟨line, hoctets, -⟩ := Tunnel.parsesLine_text_iff.mp hline
  have hlength := congrArg List.length hoctets
  simp only [List.length_append, List.length_cons] at hlength
  by_contra hmore
  have hshort : line.length < taken.length := by omega
  have hmem : (taken ++ octets)[line.length]? = some newline := by
    rw [hoctets]
    simp
  rw [List.getElem?_append_left hshort] at hmem
  exact hopen (List.mem_of_getElem? hmem)

section Step

variable {now : Nat} {taken octets : Octets} {r : Reading}
  (hfed : (Progress.start .line).feed start.limit taken = .more r.progress)
  (hleads : LeadsOn phase (taken ++ i.buffer) (start.buffer ++ heardIn l.contacts))

include hfed hleads

theorem undecided_of_empty (hbuffer : i.buffer = []) :
    Undecided (start.buffer ++ heardIn l.contacts) := by
  rw [hbuffer, List.append_nil] at hleads
  exact hleads.undecided hfed

/-- What a line goes on with was heard. -/
theorem got_of_gets [Link L] (hgets : i.Gets .near now r l octets l') :
    start.Got l i octets l' ∧
      LeadsOn phase (taken ++ octets) (start.buffer ++ heardIn l'.contacts) := by
  cases hgets with
  | buffered hbuffer => exact ⟨.buffered hbuffer, hleads⟩
  | arrived hbuffer hread =>
      have hcontacts := Noted.contacts_of_read hread
      refine ⟨.arrived (undecided_of_empty hfed hleads hbuffer) hbuffer hcontacts, ?_⟩
      rw [hbuffer, List.append_nil] at hleads
      rw [hcontacts, heardIn_append, heardIn_singleton, ← List.append_assoc]
      exact hleads.append octets

end Step

/-- An attempt to go on with a line of the answer. -/
theorem Hears.step [Link L] (h : start.Hears phase deadline l.contacts i)
    (hidle : start.reading = none) (now : Nat) :
    HearStep start phase deadline now l i (i.step .near now l).1 (i.step .near now l).2.1
      (i.step .near now l).2.2 := by
  obtain ⟨hlimit, hpatience, taken, r, hreading, hdeadline, hfed, hleads⟩ := id h
  have hstep := step_cases .near now hreading l
  generalize i.step .near now l = step at hstep
  obtain ⟨poll, i', l'⟩ := step
  dsimp only at hstep ⊢
  cases hstep with
  | @goes octets progress _ hgets hgoes =>
      obtain ⟨hgot, hleads'⟩ := got_of_gets hfed hleads hgets
      refine .goes hgot ⟨hlimit, hpatience, taken ++ octets, _, rfl, hdeadline, ?_, ?_⟩ rfl
      · rw [Progress.feed_start_of_more hfed, ← hlimit, hgoes]
      · rw [List.append_nil]
        exact hleads'
  | @done octets rest result _ hgets hdone =>
      obtain ⟨hgot, hleads'⟩ := got_of_gets hfed hleads hgets
      rw [hlimit, ← Progress.feed_start_of_more hfed] at hdone
      have hline (more : Octets) : ParsesLine (taken ++ octets ++ more) result (rest ++ more) :=
        oneShot_eq_iff.mp (Progress.oneShot_of_done (Progress.feed_start_of_done hdone more))
      cases result with
      | error error => exact .broken hgot (hleads'.broken hline)
      | ok received =>
          obtain ⟨text, rfl⟩ := Tunnel.exists_text (hline [])
          refine .line hgot ?_ (rest_lt hfed (oneShot_eq_iff.mp (Progress.oneShot_of_done hdone)))
            hline hleads'
          rw [← hlimit, ← hpatience, ← hidle]
  | ended hbuffer hread =>
      have hend : ParsesLine taken (.error r.progress.onEnd) [] :=
        oneShot_eq_iff.mp (Progress.oneShot_of_more hfed)
      have hopen := undecided_of_empty hfed hleads hbuffer
      rw [hbuffer, List.append_nil] at hleads
      exact .ended hopen (Noted.contacts_of_read hread) (hleads.ended hend)
  | @interrupted error _ hbuffer hread hkind =>
      have hcontacts := Noted.contacts_of_read hread
      exact .waits (.inl rfl) (undecided_of_empty hfed hleads hbuffer) hcontacts
        (.interrupted error hkind) ⟨_, rfl⟩ nofun (h.wait rfl hcontacts)
  | @failed error _ hbuffer hread hkind =>
      -- A line that goes on is nothing but what was seen of it.
      obtain ⟨-, hprogress⟩ := Progress.feedLine_of_more hfed []
      rw [hprogress]
      exact .failed (undecided_of_empty hfed hleads hbuffer) (Noted.contacts_of_read hread) hkind
  | late hbuffer hread hdue htime =>
      exact .late (undecided_of_empty hfed hleads hbuffer) (Noted.contacts_of_read hread)
        (hdeadline.symm.trans hdue) htime
  | waits hbuffer hread hearly =>
      have hcontacts := Noted.contacts_of_read hread
      refine .waits (.inr rfl) (undecided_of_empty hfed hleads hbuffer) hcontacts .noData ⟨_, rfl⟩
        (fun _ time htime => hearly time (hdeadline.trans htime)) (h.wait rfl hcontacts)

end Inbound

end Switchboard
