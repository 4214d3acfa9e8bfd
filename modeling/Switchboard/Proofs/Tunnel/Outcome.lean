import Switchboard.Proofs.Tunnel.Handshake

/-!
# What a handshake comes to

Over any connection, and whatever happens to it. At every moment nothing but the request
was sent, and nothing was read before all of it was (`Course.minds`). A handshake ends with
an error just when there is a reason for that error (`Course.error_iff`), and it agrees just
when the connection gave it an answer that does (`Course.agreed_iff`). What is left to do
before the connection is asked for something new gets less with every attempt, so a
handshake that does not end is kept waiting by the connection, or is given octets for ever
(`Course.keptWaiting_of_endless`).
-/

namespace Switchboard

open Tunnel (Decides Undecided requestOctets)

theorem Tunnel.Decides.append {octets rest : Octets} {verdict : Except CallError Unit}
    (h : Decides octets verdict rest) (more : Octets) :
    Decides (octets ++ more) verdict (rest ++ more) := by
  intro others
  rw [List.append_assoc, List.append_assoc]
  exact h (more ++ others)

theorem Contact.IsClosing.quiet {contact : Contact} (h : contact.IsClosing) :
    contact.sent = [] ∧ contact.heard = [] ∧ contact ≠ .flush (.ok ()) := by
  cases h <;> exact ⟨rfl, rfl, nofun⟩

theorem Contact.IsClosing.not_read {contact : Contact} (h : contact.IsClosing) (arrival : Arrival) :
    contact ≠ .read arrival := by
  cases h <;> simp

/-- The closing of a connection sends nothing and hears nothing. -/
theorem Closes.quiet {contacts : List Contact} (h : Closes contacts) :
    sentIn contacts = [] ∧ heardIn contacts = [] ∧ .flush (.ok ()) ∉ contacts := by
  refine ⟨List.flatMap_eq_nil_iff.mpr fun contact hmem => ?_,
    List.flatMap_eq_nil_iff.mpr fun contact hmem => ?_, fun hmem => ?_⟩
  · exact (h.isClosing contact hmem).quiet.1
  · exact (h.isClosing contact hmem).quiet.2.1
  · exact (h.isClosing _ hmem).quiet.2.2 rfl

namespace Course

variable {L : Type} [Link L] {c : Course L} {m n : Nat} {contact : Contact} {error : CallError}

/-! ## Attempt after attempt -/

theorem going (h : (c.notes n).result = none) : c.Going n := by
  induction n with
  | zero => exact going_begin
  | succ n ih =>
      have hbefore : (c.notes n).result = none := Dialing.result_of_le (Nat.le_succ n) h
      cases (ih hbefore).turn with
      | apart hgoing | gains hgoing | gets hgoing | waits hgoing => exact hgoing
      | agreed _ _ _ hresult | failed _ _ _ hresult =>
          rw [hresult] at h
          cases h

theorem turn (h : (c.notes n).result = none) : c.Turn n := (going h).turn

/-- What is over was ended by one of the attempts. -/
theorem exists_last {result : Except CallError Unit} (h : (c.notes n).result = some result) :
    ∃ m < n, (c.notes m).result = none ∧ (c.notes (m + 1)).result = some result ∧
      c.notes n = c.notes (m + 1) := by
  induction n with
  | zero => cases h
  | succ n ih =>
      cases hbefore : (c.notes n).result with
      | none => exact ⟨n, Nat.lt_succ_self n, hbefore, h, rfl⟩
      | some earlier =>
          have hsame : c.notes (n + 1) = c.notes n := Dialing.run_of_result hbefore (Nat.le_succ n)
          rw [hsame] at h
          obtain ⟨m, hm, hnone, hresult, hlast⟩ := ih h
          exact ⟨m, Nat.lt_succ_of_lt hm, hnone, hresult, hsame.trans hlast⟩

theorem contacts_succ (c : Course L) (n : Nat) :
    ∃ asked, c.contacts (n + 1) = c.contacts n ++ asked := by
  cases hresult : (c.notes n).result with
  | some result =>
      refine ⟨[], ?_⟩
      rw [List.append_nil, contacts, contacts]
      have hsame : c.notes (n + 1) = c.notes n := Dialing.run_of_result hresult (Nat.le_succ n)
      rw [hsame]
  | none =>
      cases turn hresult with
      | apart _ hcontacts => exact ⟨[], hcontacts.trans (List.append_nil _).symm⟩
      | gains _ _ hcontacts | gets _ _ hcontacts | agreed _ _ hcontacts => exact ⟨_, hcontacts⟩
      | waits _ _ hstalls => exact ⟨_, hstalls.contacts⟩
      | failed _ hcontacts => exact ⟨_, hcontacts.trans (List.append_assoc ..)⟩

/-- What was asked before was asked. -/
theorem contacts_extend (h : m ≤ n) : c.contacts m <+: c.contacts n := by
  induction n, h using Nat.le_induction with
  | base => exact List.prefix_refl _
  | succ n _ ih =>
      obtain ⟨asked, hcontacts⟩ := c.contacts_succ n
      exact ih.trans ⟨asked, hcontacts.symm⟩

/-- As long as octets come the answer that they hold remains the same. -/
theorem decides_of_le {verdict : Except CallError Unit} {rest : Octets} (h : m ≤ n)
    (hdecides : Decides (c.heard m) verdict rest) : ∃ rest, Decides (c.heard n) verdict rest := by
  obtain ⟨more, hcontacts⟩ := contacts_extend (c := c) h
  have hheard : c.heard n = c.heard m ++ heardIn more := by
    rw [heard, heard, ← hcontacts, heardIn_append, List.append_assoc]
  exact ⟨_, hheard ▸ hdecides.append (heardIn more)⟩

/-- What one contact in an attempt has left of the connection. -/
theorem replies (h : c.contacts (n + 1) = c.contacts n ++ [contact]) :
    Noted.Replies (c.clock n) (c.acts n (c.notes n).wire.link.link) contact
      (c.notes (n + 1)).wire.link.link := by
  cases hresult : (c.notes n).result with
  | some result =>
      have hsame : c.notes (n + 1) = c.notes n := Dialing.run_of_result hresult (Nat.le_succ n)
      rw [contacts, hsame, contacts] at h
      simp at h
  | none =>
      rw [contacts, notes_succ hresult, Dialing.wire_after] at h
      rw [notes_succ hresult, Dialing.wire_after]
      exact Handshake.replies_of_step h

/-! ## What a connection is asked for -/

theorem Fetches.quiet {asked : List Contact} (h : c.Fetches n asked) :
    sentIn asked = [] ∧ .flush (.ok ()) ∉ asked ∧ ∀ contact ∈ asked, ¬ contact.IsClosing := by
  cases h with
  | nothing => exact ⟨rfl, by simp, by simp⟩
  | octets => exact ⟨rfl, by simp, List.forall_mem_singleton.mpr nofun⟩

/-- What an attempt that fails asked for sends nothing, and hears nothing behind a complete
answer. -/
theorem Cause.quiet {asked : List Contact} (h : c.Cause n asked error) :
    sentIn asked = [] ∧ .flush (.ok ()) ∉ asked ∧ ∀ contact ∈ asked, ¬ contact.IsClosing := by
  cases h with
  | refused hasked => exact hasked.quiet
  | faulty _ hfault =>
      obtain ⟨hsent, -, hflush, hclosing⟩ := hfault.quiet
      exact ⟨by rw [sentIn_singleton, hsent], by simpa using Ne.symm hflush,
        List.forall_mem_singleton.mpr hclosing⟩

/-- How a handshake keeps to its order: first the request, then the answer, and it closes
the connection only if it fails. -/
structure Minds (c : Course L) (n : Nat) : Prop where
  request : sentIn (c.contacts n) <+: requestOctets c.path
  whole : .flush (.ok ()) ∈ c.contacts n → sentIn (c.contacts n) = requestOctets c.path
  unread : .flush (.ok ()) ∈ c.contacts n ∨
    (∀ contact ∈ c.contacts n, ∀ arrival, contact ≠ .read arrival) ∧
      (c.notes n).wire.inbound = c.start.inbound
  closing : ∀ contact ∈ c.contacts n, contact.IsClosing →
    ∃ error, (c.dial n).result = some (.error error)

theorem Going.minds (h : c.Going n) : c.Minds n := by
  have hcontacts : c.contacts n = (c.notes n).handshake.wire.link.contacts := rfl
  have hwire : (c.notes n).wire = (c.notes n).handshake.wire := rfl
  cases h.stage with
  | opening _ _ _ hnone hinbound | called _ _ hnone hinbound =>
      rw [← hcontacts] at hnone
      refine ⟨?_, ?_, .inr ⟨?_, hinbound⟩, ?_⟩
      · rw [hnone]
        exact List.nil_prefix
      · simp [hnone]
      · simp [hnone]
      · simp [hnone]
  | sending _ hinbound hposts =>
      refine ⟨hposts.posting.sent_prefix, hposts.posting.sent_of_flushed, .inr ⟨?_, hinbound⟩, ?_⟩
      · exact fun contact hmem => (hposts.outgoing contact hmem).not_read
      · intro contact hmem hclosing
        cases hposts.outgoing contact hmem <;> cases hclosing
  | hearing _ htold =>
      refine ⟨?_, fun _ => htold.sent, .inl htold.flushed, ?_⟩
      · rw [hcontacts, htold.sent]
      · exact fun contact hmem hclosing => absurd hclosing (htold.talk contact hmem)

/-- With nothing more sent and nothing more flushed, the order is kept. -/
theorem Minds.next (h : c.Minds n) {asked : List Contact}
    (hcontacts : c.contacts (n + 1) = c.contacts n ++ asked) (hsent : sentIn asked = [])
    (hflush : .flush (.ok ()) ∉ asked)
    (hunread : .flush (.ok ()) ∈ c.contacts n ∨
      (∀ contact ∈ asked, ∀ arrival, contact ≠ .read arrival) ∧
        (c.notes (n + 1)).wire.inbound = c.start.inbound)
    (hclosing : ∀ contact ∈ c.contacts (n + 1), contact.IsClosing →
      ∃ error, (c.dial (n + 1)).result = some (.error error)) : c.Minds (n + 1) := by
  have hsame : sentIn (c.contacts (n + 1)) = sentIn (c.contacts n) := by
    rw [hcontacts, sentIn_append, hsent, List.append_nil]
  refine ⟨hsame ▸ h.request, fun hflushed => ?_, ?_, hclosing⟩
  · rw [hcontacts] at hflushed
    rw [hsame]
    exact h.whole ((List.mem_append.mp hflushed).resolve_right hflush)
  · rw [hcontacts]
    rcases hunread with hflushed | ⟨hquiet, hinbound⟩
    · exact .inl (List.mem_append_left _ hflushed)
    · rcases h.unread with hflushed | ⟨hunheard, -⟩
      · exact .inl (List.mem_append_left _ hflushed)
      · exact .inr ⟨List.forall_mem_append.mpr ⟨hunheard, hquiet⟩, hinbound⟩

theorem Turn.minds (h : c.Turn n) (hbefore : c.Minds n) (hgoing : (c.dial n).result = none) :
    c.Minds (n + 1) := by
  cases h with
  | apart hgoing | gains hgoing | gets hgoing | waits hgoing => exact hgoing.minds
  | agreed hfetches hflushed hcontacts =>
      obtain ⟨hsent, hflush, htalk⟩ := hfetches.quiet
      refine hbefore.next hcontacts hsent hflush (.inl hflushed) fun contact hmem hclosing => ?_
      rw [hcontacts] at hmem
      rcases List.mem_append.mp hmem with hearlier | hasked
      · obtain ⟨error, herror⟩ := hbefore.closing contact hearlier hclosing
        rw [hgoing] at herror
        cases herror
      · exact absurd hclosing (htalk contact hasked)
  | @failed asked closing error hcause hcontacts hcloses hresult =>
      obtain ⟨hsent, hflush, -⟩ := hcause.quiet
      obtain ⟨hnone, -, hshut⟩ := hcloses.quiet
      rw [List.append_assoc] at hcontacts
      rw [c.result_notes] at hresult
      refine hbefore.next hcontacts ?_ ?_ ?_ fun _ _ _ => ⟨error, hresult⟩
      · rw [sentIn_append, hsent, hnone]
        rfl
      · exact fun hmem => (List.mem_append.mp hmem).elim hflush hshut
      · cases hcause with
        | refused _ hflushed => exact .inl hflushed
        | faulty _ _ hearly =>
            refine hearly.imp_right fun ⟨houtgoing, hinbound⟩ => ⟨?_, hinbound⟩
            refine List.forall_mem_append.mpr ⟨?_, fun contact hmem => ?_⟩
            · exact List.forall_mem_singleton.mpr houtgoing.not_read
            · exact (hcloses.isClosing contact hmem).not_read

/-- Nothing but the request is sent, and nothing is read before all of it was; the connection
is not closed but by a handshake that fails. -/
theorem minds (c : Course L) (n : Nat) : c.Minds n := by
  induction n with
  | zero => exact going_begin.minds
  | succ n ih =>
      cases hresult : (c.notes n).result with
      | none => exact (turn hresult).minds ih (c.result_notes n ▸ hresult)
      | some result =>
          have hsame : c.notes (n + 1) = c.notes n := Dialing.run_of_result hresult (Nat.le_succ n)
          have hdial : c.dial (n + 1) = c.dial n := by
            rw [← c.notes_unnoted, ← c.notes_unnoted, hsame]
          obtain ⟨hrequest, hwhole, hunread, hclosing⟩ := ih
          refine ⟨?_, ?_, ?_, ?_⟩
          · rwa [contacts, hsame]
          · rwa [contacts, hsame]
          · rwa [contacts, hsame]
          · rwa [contacts, hsame, hdial]

/-! ## Answers that are complete -/

/-- A handshake that is over was given a complete answer, or failed for what the connection
did before there was one. -/
inductive Over (c : Course L) (m : Nat) : Except CallError Unit → Prop where
  | decided {verdict : Except CallError Unit} {rest : Octets}
      (hflushed : .flush (.ok ()) ∈ c.contacts (m + 1))
      (hdecides : Decides (c.heard (m + 1)) verdict rest) : Over c m verdict
  | faulty {contact : Contact} {error : CallError} (hasks : c.Asks m contact)
      (hfault : c.Fault m contact error) (hheard : c.heard (m + 1) = c.heard m)
      (hopen : .flush (.ok ()) ∈ c.contacts (m + 1) → Undecided (c.heard (m + 1))) :
      Over c m (.error error)

theorem exists_over {result : Except CallError Unit} (h : (c.dial n).result = some result) :
    ∃ m < n, c.Over m result ∧ c.notes n = c.notes (m + 1) := by
  rw [← c.result_notes] at h
  obtain ⟨m, hm, hnone, hended, hlast⟩ := exists_last h
  refine ⟨m, hm, ?_, hlast⟩
  have hresult {other : Except CallError Unit}
      (hother : (c.notes (m + 1)).result = some other) : result = other :=
    Option.some.inj (hended.symm.trans hother)
  cases turn hnone with
  | apart hgoing | gains hgoing | gets hgoing | waits hgoing =>
      rw [hgoing.result] at hended
      cases hended
  | agreed _ hflushed hcontacts hagreed hdecides =>
      rw [hresult hagreed]
      exact .decided (hcontacts ▸ List.mem_append_left _ hflushed) hdecides
  | @failed asked closing error hcause hcontacts hcloses hfailed =>
      rw [hresult hfailed]
      obtain ⟨-, hunheard, hshut⟩ := hcloses.quiet
      have hheard : c.heard (m + 1) = c.heard m ++ heardIn asked := by
        rw [heard, heard, hcontacts, heardIn_append, heardIn_append, hunheard, List.append_nil,
          List.append_assoc]
      cases hcause with
      | refused _ hflushed hdecides =>
          refine .decided ?_ (hheard ▸ hdecides)
          rw [hcontacts]
          exact List.mem_append_left _ (List.mem_append_left _ hflushed)
      | @faulty contact _ hopen hfault =>
          obtain ⟨-, hquiet, hflush, -⟩ := hfault.quiet
          rw [heardIn_singleton, hquiet, List.append_nil] at hheard
          refine .faulty ⟨closing, hcontacts.symm⟩ hfault hheard fun hflushed => ?_
          rw [hheard]
          refine hopen ?_
          rw [hcontacts] at hflushed
          simpa [hshut, hflush.symm] using hflushed

/-- A complete answer ends a handshake, and it is the answer that the handshake is told. -/
theorem result_of_decided {verdict : Except CallError Unit} {rest : Octets}
    (hflushed : .flush (.ok ()) ∈ c.contacts n) (hdecides : Decides (c.heard n) verdict rest) :
    ∃ m, (c.dial m).result = some verdict := by
  -- Until it is over the connection is asked for nothing, and less and less is left to do.
  induction htodo : c.todo n using Nat.strong_induction_on generalizing n with
  | _ todo ih =>
      have hopen : ¬ c.Open n := fun hopen => hopen hflushed _ _ hdecides
      cases hresult : (c.dial n).result with
      | some result =>
          obtain ⟨m, -, hover, hlast⟩ := exists_over hresult
          have hcontacts : c.contacts n = c.contacts (m + 1) := by rw [contacts, hlast, contacts]
          have hheard : c.heard n = c.heard (m + 1) := by rw [heard, hcontacts, heard]
          rw [hcontacts] at hflushed
          rw [hheard] at hdecides
          cases hover with
          | decided _ hover => exact ⟨n, hover.unique hdecides ▸ hresult⟩
          | faulty _ _ _ hopen => exact absurd hdecides (hopen hflushed _ _)
      | none =>
          have hnext : ∀ {result : Except CallError Unit}, (c.notes (n + 1)).result = some result →
              verdict = result → ∃ m, (c.dial m).result = some verdict := by
            rintro result hended rfl
            exact ⟨n + 1, c.result_notes (n + 1) ▸ hended⟩
          rw [← c.result_notes] at hresult
          cases turn hresult with
          | apart _ hcontacts hless =>
              have hheard : c.heard (n + 1) = c.heard n := by rw [heard, hcontacts, heard]
              exact ih _ (htodo ▸ hless) (hcontacts ▸ hflushed) (hheard ▸ hdecides) rfl
          | gains _ hstill | gets _ hstill | waits _ hstill => exact absurd hstill hopen
          | agreed _ _ _ hended hagrees =>
              obtain ⟨_, hdecides⟩ := decides_of_le (Nat.le_succ n) hdecides
              exact hnext hended (hdecides.unique hagrees)
          | failed hcause _ _ hended =>
              cases hcause with
              | refused _ _ hrefuses =>
                  exact hnext hended ((hdecides.append _).unique hrefuses)
              | faulty hstill => exact absurd hstill hopen

/-- The answer of an agreement is consumed, and otherwise the connection is as it was. -/
structure Agreed (c : Course L) (n : Nat) : Prop where
  flushed : .flush (.ok ()) ∈ c.contacts n
  decides : Decides (c.heard n) (.ok ()) (c.notes n).wire.inbound.buffer
  inbound : (c.notes n).wire.inbound =
    { c.start.inbound with buffer := (c.notes n).wire.inbound.buffer }
  outbound : (c.notes n).wire.outbound = c.start.outbound

theorem agreed_of_ok (h : (c.dial n).result = some (.ok ())) : c.Agreed n := by
  rw [← c.result_notes] at h
  obtain ⟨m, -, hnone, hended, hlast⟩ := exists_last h
  cases turn hnone with
  | apart hgoing | gains hgoing | gets hgoing | waits hgoing =>
      rw [hgoing.result] at hended
      cases hended
  | agreed _ hflushed hcontacts _ hdecides hinbound houtbound =>
      have hsame : c.contacts n = c.contacts (m + 1) := by rw [contacts, hlast, contacts]
      refine ⟨?_, ?_, ?_, ?_⟩
      · rw [hsame, hcontacts]
        exact List.mem_append_left _ hflushed
      · rw [heard, hsame, hlast]
        exact hdecides
      · rw [hlast]
        exact hinbound
      · rw [hlast]
        exact houtbound
  | failed _ _ _ hfailed =>
      rw [hfailed] at hended
      cases hended

/-- A handshake agrees just when an answer came that does. -/
theorem agreed_iff (c : Course L) : (∃ n, (c.dial n).result = some (.ok ())) ↔
    ∃ n rest, .flush (.ok ()) ∈ c.contacts n ∧ Decides (c.heard n) (.ok ()) rest := by
  constructor
  · rintro ⟨n, hresult⟩
    have hagreed := agreed_of_ok hresult
    exact ⟨n, _, hagreed.flushed, hagreed.decides⟩
  · rintro ⟨n, rest, hflushed, hdecides⟩
    exact result_of_decided hflushed hdecides

/-! ## Contacts that end a handshake -/

/-- The handshake goes on after such an answer. -/
inductive GoesOn (c : Course L) (n : Nat) : Contact → Prop where
  | gains {contact : Contact} (hgains : contact.Gains) : GoesOn c n contact
  | gets (octets : Octets) : GoesOn c n (.read (.data octets))
  | waits {contact : Contact} (hwaits : contact.Waits)
      (hearly : ∀ operation, ¬ c.Late n contact operation) : GoesOn c n contact

theorem GoesOn.not_fault (h : c.GoesOn n contact) (error : CallError) :
    ¬ c.Fault n contact error := by
  intro hfault
  cases h with
  | gains hgains => exact hfault.not_gains hgains
  | gets octets => exact hfault.not_data octets rfl
  | waits hwaits hearly =>
      obtain ⟨operation, hlate⟩ := hfault.late_of_waits hwaits
      exact hearly operation hlate

/-- What is asked of a connection lets the handshake go on, or ends it, or the connection
is being closed. -/
theorem Asks.cases (h : c.Asks n contact) :
    c.GoesOn n contact ∨ contact.IsClosing ∨
      ∃ error, c.Fault n contact error ∧ (c.dial (n + 1)).result = some (.error error) := by
  obtain ⟨rest, hasks⟩ := h
  rw [List.append_assoc] at hasks
  have hone {other : Contact} (hcontacts : c.contacts (n + 1) = c.contacts n ++ [other]) :
      contact = other := by
    rw [hcontacts] at hasks
    exact (List.cons.inj (List.append_cancel_left hasks)).1
  cases hresult : (c.notes n).result with
  | some result =>
      have hsame : c.notes (n + 1) = c.notes n := Dialing.run_of_result hresult (Nat.le_succ n)
      rw [contacts, contacts, hsame] at hasks
      simp at hasks
  | none =>
      cases turn hresult with
      | apart _ hcontacts =>
          rw [hcontacts] at hasks
          simp at hasks
      | gains _ _ hcontacts hgains => exact .inl (hone hcontacts ▸ .gains hgains)
      | gets _ _ hcontacts => exact .inl (hone hcontacts ▸ .gets _)
      | waits _ _ hstalls =>
          obtain rfl := hone hstalls.contacts
          exact .inl (.waits hstalls.waits hstalls.early)
      | agreed hfetches _ hcontacts =>
          cases hfetches with
          | nothing =>
              rw [hcontacts] at hasks
              simp at hasks
          | octets _ octets => exact .inl (hone hcontacts ▸ .gets octets)
      | @failed asked closing error hcause hcontacts hcloses hended =>
          rw [c.result_notes] at hended
          rw [hcontacts, List.append_assoc] at hasks
          have hrest := List.append_cancel_left hasks
          cases hcause with
          | refused hfetches =>
              cases hfetches with
              | nothing =>
                  refine .inr (.inl (hcloses.isClosing contact ?_))
                  rw [← List.nil_append closing, ← hrest]
                  exact List.mem_cons_self
              | octets _ octets =>
                  obtain ⟨rfl, -⟩ := List.cons.inj hrest
                  exact .inl (.gets octets)
          | faulty _ hfault =>
              obtain ⟨rfl, -⟩ := List.cons.inj hrest
              exact .inr (.inr ⟨error, hfault, hended⟩)

/-- There is a reason for this error in attempt `n`: what the connection answered, or a
refusal in what was heard. -/
inductive FailsAt (c : Course L) (n : Nat) (error : CallError) : Prop where
  | asked {contact : Contact} (hasks : c.Asks n contact) (hfault : c.Fault n contact error)
  | refused {rest : Octets} (hflushed : .flush (.ok ()) ∈ c.contacts n)
      (hdecides : Decides (c.heard n) (.error error) rest)

/-- A handshake ends with an error just when there is a reason for it. -/
theorem error_iff (c : Course L) (error : CallError) :
    (∃ n, (c.dial n).result = some (.error error)) ↔ ∃ n, c.FailsAt n error := by
  constructor
  · rintro ⟨n, hresult⟩
    obtain ⟨m, -, hover, hlast⟩ := exists_over hresult
    cases hover with
    | decided hflushed hdecides => exact ⟨m + 1, .refused hflushed hdecides⟩
    | faulty hasks hfault => exact ⟨m, .asked hasks hfault⟩
  · rintro ⟨n, hfails⟩
    cases hfails with
    | asked hasks hfault =>
        rcases hasks.cases with hgoes | hclosing | ⟨error', hfault', hended⟩
        · exact absurd hfault (hgoes.not_fault error)
        · exact absurd hclosing hfault.quiet.2.2.2
        · exact ⟨n + 1, hfault.unique hfault' ▸ hended⟩
    | refused hflushed hdecides => exact result_of_decided hflushed hdecides

/-! ## What is left of the connection -/

/-- What was asked of the connection ends with its closing, which was asked for just then.
What was buffered is dropped, and the writing half is given up. -/
structure Refused (c : Course L) (n : Nat) : Prop where
  contacts : ∃ talk closing, c.contacts n = talk ++ closing ∧ Closes closing ∧
    ∀ contact ∈ talk, ¬ contact.IsClosing
  outbound : (c.dial n).wire.outbound = { c.start.outbound with aborted := true }

theorem refused_of_error (h : (c.dial n).result = some (.error error)) : c.Refused n := by
  rw [← c.result_notes] at h
  obtain ⟨m, -, hnone, hended, hlast⟩ := exists_last h
  cases turn hnone with
  | apart hgoing | gains hgoing | gets hgoing | waits hgoing =>
      rw [hgoing.result] at hended
      cases hended
  | agreed _ _ _ hagreed =>
      rw [hagreed] at hended
      cases hended
  | @failed asked closing _ hcause hcontacts hcloses _ houtbound =>
      refine ⟨⟨c.contacts m ++ asked, closing, ?_, hcloses, ?_⟩, ?_⟩
      · rw [← hcontacts, contacts, hlast, contacts]
      · refine List.forall_mem_append.mpr ⟨fun contact hmem hclosing => ?_, hcause.quiet.2.2⟩
        obtain ⟨_, hresult⟩ := (c.minds m).closing contact hmem hclosing
        rw [← c.result_notes, hnone] at hresult
        cases hresult
      · rw [← houtbound, ← hlast, ← c.notes_unnoted]
        rfl

/-! ## Handshakes that do not end -/

/-- The connection gives octets for ever, or from some attempt on it keeps the handshake
waiting at every attempt. -/
def KeptWaiting (c : Course L) : Prop :=
  (∀ n, ∃ m ≥ n, ∃ octets, c.Asks m (.read (.data octets))) ∨
    ∃ n, ∀ m ≥ n, ∃ contact, c.Stalls m contact

theorem asks_of_contacts (h : c.contacts (n + 1) = c.contacts n ++ [contact]) :
    c.Asks n contact := by
  rw [Asks, h]

/-- What does not end is kept waiting. -/
theorem keptWaiting_of_endless (h : ∀ n, (c.dial n).result = none) : c.KeptWaiting := by
  have hturn (n : Nat) : c.Turn n := turn (c.result_notes n ▸ h n)
  by_cases hoften : ∀ n, ∃ m ≥ n, ∃ octets, c.Asks m (.read (.data octets))
  · exact .inl hoften
  · push Not at hoften
    obtain ⟨first, hquiet⟩ := hoften
    -- Without octets what is left to do can only get less, and that comes to an end.
    have hstep (k : Nat) : c.todo (first + (k + 1)) < c.todo (first + k) ∨
        c.todo (first + (k + 1)) = c.todo (first + k) ∧
          ∃ contact, c.Stalls (first + k) contact := by
      have hnone : ∀ {result : Except CallError Unit},
          (c.notes (first + k + 1)).result ≠ some result := by
        intro result hended
        rw [c.result_notes, h] at hended
        cases hended
      cases hturn (first + k) with
      | apart _ _ hless | gains _ _ _ _ hless => exact .inl hless
      | gets _ _ hcontacts =>
          exact absurd (asks_of_contacts hcontacts) (hquiet _ (Nat.le_add_right ..) _)
      | waits _ _ hstalls hsame => exact .inr ⟨hsame, _, hstalls⟩
      | agreed _ _ _ hended | failed _ _ _ hended => exact absurd hended hnone
    have hanti : Antitone fun k => c.todo (first + k) := by
      refine antitone_nat_of_succ_le fun k => ?_
      rcases hstep k with hless | ⟨hsame, -⟩
      · exact hless.le
      · exact hsame.le
    obtain ⟨more, hlevel⟩ := WellFoundedLT.antitone_chain_condition hanti
    refine .inr ⟨first + more, fun m hm => ?_⟩
    obtain ⟨k, rfl⟩ := Nat.exists_eq_add_of_le hm
    rw [Nat.add_assoc]
    rcases hstep (more + k) with hless | ⟨-, hstalls⟩
    · have hhere := hlevel (more + k) (Nat.le_add_right ..)
      have hnext := hlevel (more + (k + 1)) (Nat.le_add_right ..)
      exact absurd hless (by
        rw [Nat.add_assoc, ← hhere, ← hnext]
        exact lt_irrefl _)
    · exact hstalls

end Course

end Switchboard
