import Switchboard.Proofs.Client.Accounting
import Switchboard.Proofs.Client.Bystander

/-!
# What arrives at a mailbox

Whatever is done, a mailbox sees little of it: finished calls are put into it one
after the other, and each lets its handle go (`Mailbox.deliver`). Besides that there
is what a deed does to the mailbox itself, when a call is made for it, when its owner
takes a call or lets something go (`Deed.touch`). `delivers_perform` says that this is
all, and that the calls which arrive are those that are told their outcome.

By the books the calls that have arrived and those that are under way are the calls
that were made for the mailbox, so their numbers tell how many are still to come.
-/

namespace Switchboard

open Session (Deed Notice)

namespace Mailbox

/-- Whether a call that is put into the mailbox now is kept. -/
def hasRoom (m : Mailbox) : Bool := m.listening && decide (m.held.length < m.capacity)

/-- Finished calls are put into the mailbox, and each lets its handle go. -/
def deliver (calls : List Call) (m : Mailbox) : Mailbox :=
  calls.foldl (fun m call => (m.put call).2.dropHandle) m

/-- The same calls, each with whether the mailbox had room for it at its turn. -/
def admissions : List Call → Mailbox → List (Call × Bool)
  | [], _ => []
  | call :: calls, m => (call, m.hasRoom) :: admissions calls (m.put call).2.dropHandle

/-- The mailbox without the oldest call that it holds. -/
def next (m : Mailbox) : Mailbox := { m with held := m.held.tail }

variable {m : Mailbox} {calls : List Call}

theorem take_eq (m : Mailbox) : m.take = m.held.head?.map fun call => (call, m.next) := by
  unfold take next
  split <;> simp_all

theorem next_of_nil (h : m.held = []) : m.next = m := by
  obtain ⟨capacity, held, listening, handles⟩ := m
  obtain rfl : held = [] := h
  rfl

theorem put_eq (call : Call) (m : Mailbox) :
    (m.put call).2 = { m with held := m.held ++ if m.hasRoom then [call] else [] } := by
  obtain ⟨capacity, held, listening, handles⟩ := m
  cases listening with
  | false => simp [put, hasRoom]
  | true => by_cases hroom : held.length < capacity <;> simp [put, hasRoom, hroom]

theorem deliver_append (first second : List Call) (m : Mailbox) :
    m.deliver (first ++ second) = (m.deliver first).deliver second := List.foldl_append

@[simp] theorem frame_deliver (calls : List Call) (m : Mailbox) :
    (m.deliver calls).capacity = m.capacity ∧ (m.deliver calls).listening = m.listening ∧
      (m.deliver calls).handles = m.handles - calls.length := by
  induction calls generalizing m with
  | nil => exact ⟨rfl, rfl, rfl⟩
  | cons call calls ih =>
      obtain ⟨hcapacity, hlistening, hhandles⟩ := ih (m.put call).2.dropHandle
      rw [put_eq] at hcapacity hlistening hhandles
      refine ⟨?_, ?_, ?_⟩
      · rw [deliver, List.foldl_cons, put_eq]
        exact hcapacity
      · rw [deliver, List.foldl_cons, put_eq]
        exact hlistening
      · rw [deliver, List.foldl_cons, put_eq, List.length_cons, Nat.add_comm, ← Nat.sub_sub]
        exact hhandles

/-- What was admitted is held behind what was there. -/
theorem held_deliver (calls : List Call) (m : Mailbox) :
    (m.deliver calls).held = m.held ++ ((m.admissions calls).filter (·.2)).map Prod.fst := by
  induction calls generalizing m with
  | nil => exact (List.append_nil _).symm
  | cons call calls ih =>
      rw [deliver, List.foldl_cons, ← deliver, ih, admissions, put_eq, dropHandle]
      cases m.hasRoom <;> simp

/-- Nothing comes in when nobody listens. -/
theorem held_deliver_of_deaf (hdeaf : m.listening = false) :
    (m.deliver calls).held = m.held := by
  induction calls generalizing m with
  | nil => rfl
  | cons call calls ih =>
      have hroom : m.hasRoom = false := by rw [hasRoom, hdeaf, Bool.false_and]
      rw [deliver, List.foldl_cons, ← deliver]
      refine (ih ?_).trans ?_
      · rw [put_eq]
        exact hdeaf
      · rw [put_eq, hroom]
        exact List.append_nil _

theorem length_held_deliver (hfits : m.held.length ≤ m.capacity) :
    (m.deliver calls).held.length ≤ m.capacity := by
  induction calls generalizing m with
  | nil => exact hfits
  | cons call calls ih =>
      rw [deliver, List.foldl_cons, ← deliver, put_eq, dropHandle]
      refine ih (m := { m with held := _, handles := _ }) ?_
      cases hroom : m.hasRoom with
      | false => simpa using hfits
      | true =>
          rw [hasRoom, Bool.and_eq_true, decide_eq_true_iff] at hroom
          simpa using hroom.2

theorem admissions_fst (calls : List Call) (m : Mailbox) :
    (m.admissions calls).map Prod.fst = calls := by
  induction calls generalizing m with
  | nil => rfl
  | cons call calls ih => rw [admissions, List.map_cons, ih]

/-- When all of them fit in, all are admitted. -/
theorem admissions_all (hlistening : m.listening = true)
    (hfits : m.held.length + calls.length ≤ m.capacity) :
    ∀ admission ∈ m.admissions calls, admission.2 = true := by
  induction calls generalizing m with
  | nil => exact nofun
  | cons call calls ih =>
      rw [List.length_cons] at hfits
      have hroom : m.hasRoom = true := by
        rw [hasRoom, hlistening, Bool.true_and, decide_eq_true_iff]
        omega
      intro admission hadmission
      rw [admissions, put_eq, hroom] at hadmission
      rcases List.mem_cons.mp hadmission with rfl | hlater
      · rfl
      · refine ih ?_ ?_ admission hlater
        · exact hlistening
        · simp only [dropHandle, if_true, List.length_append, List.length_singleton]
          omega

end Mailbox

namespace Client

theorem takeCall_eq {place : Nat} {c : Client} {m : Mailbox} (hm : c.mailboxes[place]? = some m) :
    c.takeCall place = m.held.head?.map fun call =>
      (call, { c with mailboxes := c.mailboxes.set place m.next }) := by
  unfold takeCall
  rw [hm]
  dsimp only
  rw [Mailbox.take_eq, Option.map_map]
  rfl

/-- The calls that were finished and put into the mailbox at a place, oldest first. -/
def arrivals (place : Nat) (c : Client) : List Call :=
  (c.signals.filter (·.1 = place)).map Prod.snd

/-- From one client to the other something is done to the mailbox at a place, and some
calls are finished and put there. -/
def Delivers (place : Nat) (f : Mailbox → Mailbox) (c c' : Client) : Prop :=
  ∃ calls, c'.arrivals place = c.arrivals place ++ calls ∧
    c'.mailboxes[place]? = c.mailboxes[place]?.map fun m => (f m).deliver calls

namespace Delivers

variable {place : Nat} {f : Mailbox → Mailbox} {c c' c'' : Client}

theorem of_same (hsignals : c'.signals = c.signals)
    (hmailbox : c'.mailboxes[place]? = c.mailboxes[place]?.map f) : Delivers place f c c' :=
  ⟨[], by rw [arrivals, hsignals, List.append_nil, arrivals], hmailbox⟩

@[refl] theorem refl (place : Nat) (c : Client) : Delivers place id c c := of_same rfl (by simp)

theorem trans (h : Delivers place f c c') (h' : Delivers place id c' c'') :
    Delivers place f c c'' := by
  obtain ⟨calls, harrivals, hmailbox⟩ := h
  obtain ⟨more, harrivals', hmailbox'⟩ := h'
  refine ⟨calls ++ more, ?_, ?_⟩
  · rw [harrivals', harrivals, List.append_assoc]
  · rw [hmailbox', hmailbox, Option.map_map]
    simp only [Function.comp_def, id, Mailbox.deliver_append]

theorem log {e : Event} (h : e.signal? = none) (c : Client) : Delivers place id c (c.log e) :=
  of_same (by simp [h]) (by simp)

theorem updateMailbox (place mailbox : Nat) (f : Mailbox → Mailbox) (c : Client) :
    Delivers place (if mailbox = place then f else id) c (c.updateMailbox mailbox f) := by
  by_cases hmailbox : mailbox = place
  · rw [if_pos hmailbox, hmailbox]
    exact of_same rfl (by simp [Client.updateMailbox])
  · rw [if_neg hmailbox]
    exact of_same rfl (by simp [Client.updateMailbox, hmailbox])

theorem addMailbox (h : place < c.mailboxes.length) (m : Mailbox) :
    Delivers place id c (c.addMailbox m).2 :=
  of_same rfl (by simp [Client.addMailbox, List.getElem?_append_left h])

theorem finish (p : Pending) (outcome : Except CallError Wire.Value) (c : Client) :
    Delivers place id c (c.finish p outcome) := by
  cases hm : c.mailboxes[p.mailbox]? with
  | none => rw [finish_of_none hm]
  | some m =>
      have hlt : p.mailbox < c.mailboxes.length := (List.getElem?_eq_some_iff.mp hm).1
      have hsignals := signals_finish outcome hlt
      by_cases hplace : p.mailbox = place
      · subst hplace
        refine ⟨[p.call.finish outcome], ?_, ?_⟩
        · rw [arrivals, hsignals, List.filter_append, List.map_append]
          simp [Pending.signal, arrivals]
        · rw [finish_of_mailbox hm, hm]
          simp [hlt, Mailbox.deliver]
      · refine ⟨[], ?_, ?_⟩
        · rw [arrivals, hsignals, List.filter_append, List.map_append]
          simp [Pending.signal, arrivals, hplace]
        · rw [finish_of_mailbox hm, List.getElem?_set_ne hplace]
          simp [Mailbox.deliver]

theorem drain (told : CallError) (entries : List (UInt64 × Pending)) (c : Client) :
    Delivers place id c (c.drain told entries) := by
  induction entries generalizing c with
  | nil => exact .refl place c
  | cons entry entries ih => exact (finish entry.2 _ c).trans (ih _)

theorem stop (error : CallError) (c : Client) : Delivers place id c (c.stop error) := by
  have hsame : Delivers place id c { c with shutdown := true, table := [] } :=
    of_same rfl (by simp)
  rw [stop_eq]
  split
  · exact hsame.trans (drain _ _ _)
  · exact (hsame.trans (drain _ _ _)).trans (log rfl _)

theorem remove {seq : UInt64} {p : Pending} (h : c.remove seq = some (p, c')) :
    Delivers place id c c' := by
  obtain ⟨_, rfl⟩ := remove_eq_some_iff.mp h
  exact of_same rfl (by simp)

theorem writeFailed (seq : UInt64) (error : CallError) (c : Client) :
    Delivers place id c (c.writeFailed seq error) := by
  unfold Client.writeFailed
  cases hremove : c.remove seq with
  | none => exact .refl place c
  | some found => exact (remove hremove).trans (finish _ _ _)

theorem takeOther {other : Nat} (h : other ≠ place) {call : Call}
    (htake : c.takeCall other = some (call, c')) : Delivers place id c c' := by
  refine of_same (Alike.takeCall htake).signals ?_
  unfold takeCall at htake
  split at htake
  · cases htake
  · obtain ⟨_, _, heq⟩ := Option.map_eq_some_iff.mp htake
    cases heq
    simp [h]

/-- Taking a call, if there is one, leaves the others. -/
theorem takeHere (h : place < c.mailboxes.length) :
    Delivers place Mailbox.next c (match c.takeCall place with
      | some (_, c') => c'
      | none => c) := by
  have hm := List.getElem?_eq_getElem h
  rw [takeCall_eq hm]
  generalize c.mailboxes[place] = m at hm
  cases hheld : m.held with
  | nil =>
      refine of_same rfl ?_
      rw [hm, Option.map_some, Mailbox.next_of_nil hheld]
      exact hm
  | cons call held =>
      refine of_same rfl ?_
      rw [hm, Option.map_some]
      exact List.getElem?_set_self h

/-- A call that is made takes a handle on its mailbox, and may be finished at once. -/
theorem issue (place : Nat) (call : Call) (shape : Wire.Shape) (mailbox : Nat) (c : Client) :
    Delivers place (if mailbox = place then Mailbox.addHandle else id) c
      (c.issue call shape mailbox).2 := by
  have hhandle := updateMailbox place mailbox Mailbox.addHandle c
  cases hover : c.isOver with
  | true =>
      rw [issue_over hover]
      exact hhandle.trans (finish _ _ _)
  | false =>
      rw [issue_open hover]
      exact hhandle.trans (of_same rfl (by simp))

end Delivers

end Client

/-! ## What a deed does to a mailbox -/

/-- What a deed does by itself to the mailbox at a place. -/
def Session.Deed.touch {ω : Type} (place : Nat) : Deed ω → Mailbox → Mailbox
  | .goWith _ mailbox => if mailbox = place then Mailbox.addHandle else id
  | .take mailbox => if mailbox = place then Mailbox.next else id
  | .dropHandle mailbox => if mailbox = place then Mailbox.dropHandle else id
  | .deafen mailbox => if mailbox = place then Mailbox.deafen else id
  | .go _ | .call _ | .completion _ | .task _ _ | .close | .hangUp | .outside _ => id

/-- Whether a deed makes a call for the mailbox at a place. -/
def Session.Deed.asks {ω : Type} (place : Nat) : Deed ω → Bool
  | .goWith _ mailbox => decide (mailbox = place)
  | .go _ | .call _ | .completion _ | .take _ | .dropHandle _ | .deafen _ | .task _ _ | .close
  | .hangUp | .outside _ => false

namespace Session

variable {ω κ : Type} [Codec κ] {place : Nat} {s : Session κ}

theorem delivers_stepReceiver (place now : Nat) (s : Session κ) :
    s.client.Delivers place id (s.stepReceiver now).2.client := by
  have hstep := s.stepReceiver_cases now
  generalize s.readEnding now = failure at hstep
  generalize (s.stepReceiver now).2 = s' at hstep ⊢
  cases hstep with
  | ended | headerAwaited | bodyAwaited | discardAwaited | passed => exact .refl place s.client
  | cancelled | noHeader | notPassed => exact .stop _ _
  | body | refuted => exact .finish _ _ _
  | refutedLast => exact (Client.Delivers.finish _ _ _).trans (.stop _ _)
  | @header response =>
      simp only [route]
      cases hremove : s.client.remove response.seq with
      | none => exact .log rfl _
      | some found =>
          dsimp only
          split <;> exact .remove hremove

theorem delivers_stepWriter (place : Nat) (seq : UInt64) (now : Nat) (s : Session κ) :
    s.client.Delivers place id (s.stepWriter seq now).2.client := by
  have hstep := s.stepWriter_cases seq now
  generalize s.writeFailure seq now = failure at hstep
  generalize (s.stepWriter seq now).2 = s' at hstep ⊢
  cases hstep with
  | absent | asked | queued | begun | awaited => exact .refl place s.client
  | refused | cancelled => exact .writeFailed _ _ _
  | @written _ result =>
      cases result with
      | ok => exact .refl place s.client
      | error => exact .writeFailed _ _ _

omit [Codec κ] in
/-- A caller makes its call for a mailbox of its own. -/
theorem delivers_go (hplace : place < s.client.mailboxes.length) (m : Mailbox) (call : Call)
    (shape : Wire.Shape) :
    s.client.Delivers place id
      ((s.client.addMailbox m).2.issue call shape s.client.mailboxes.length).2 := by
  refine (Client.Delivers.addMailbox hplace m).trans ?_
  have hissue := Client.Delivers.issue place call shape s.client.mailboxes.length
    (s.client.addMailbox m).2
  rwa [if_neg (Nat.ne_of_gt hplace)] at hissue

omit [Codec κ] in
theorem delivers_stepCaller (hplace : place < s.client.mailboxes.length) {i : Nat}
    (hcaller : s.callers[i]? ≠ some (.waiting place)) :
    s.client.Delivers place id (s.stepCaller i).2.client := by
  have hstep := s.stepCaller_cases i
  generalize (s.stepCaller i).2 = s' at hstep ⊢
  cases hstep with
  | absent | turnedAway | bereft | awaited | finished => exact .refl place s.client
  | made =>
      dsimp only
      rw [(frame_issue ..).1]
      exact delivers_go hplace _ _ _
  | @taken mailbox _ _ hwaiting htake =>
      refine .takeOther ?_ htake
      rintro rfl
      exact hcaller hwaiting

variable [Surroundings ω κ]

/-- Beside what it does by itself, a deed finishes some calls of the mailbox. -/
theorem delivers_perform (hplace : place < s.client.mailboxes.length)
    (hcallers : .waiting place ∉ s.callers) (d : Deed ω) :
    s.client.Delivers place (d.touch place) (s.perform d).client := by
  cases d with
  | go a =>
      simp only [perform, go]
      rw [(frame_issue ..).1]
      exact delivers_go hplace _ _ _
  | goWith a mailbox =>
      simp only [perform, Deed.touch]
      by_cases hmailbox : mailbox < s.client.mailboxes.length
      · rw [if_pos hmailbox, (frame_issue ..).1]
        exact .issue place _ _ _ _
      · have hother : mailbox ≠ place := by
          rintro rfl
          exact hmailbox hplace
        rw [if_neg hmailbox, if_neg hother]
  | call a => exact .refl place s.client
  | completion capacity =>
      simp only [perform, Client.completion, Deed.touch]
      by_cases hcapacity : capacity = 0
      · rw [if_pos hcapacity]
      · rw [if_neg hcapacity]
        exact .addMailbox hplace _
  | take mailbox =>
      simp only [perform, Deed.touch]
      by_cases hmailbox : mailbox = place
      · rw [if_pos hmailbox, hmailbox]
        have htaken := Client.Delivers.takeHere hplace
        cases htake : s.client.takeCall place with
        | none => simpa only [htake] using htaken
        | some taken => simpa only [htake] using htaken
      · rw [if_neg hmailbox]
        split
        · exact .takeOther hmailbox ‹_›
        · exact .refl place s.client
  | dropHandle mailbox => exact .updateMailbox place mailbox _ _
  | deafen mailbox => exact .updateMailbox place mailbox _ _
  | task t now =>
      cases t with
      | receiver => exact delivers_stepReceiver place now s
      | writer seq => exact delivers_stepWriter place seq now s
      | caller i =>
          refine delivers_stepCaller hplace fun hcaller => ?_
          exact hcallers (List.mem_of_getElem? hcaller)
  | close =>
      have hsame : s.client.Delivers place id { s.client with closing := true } :=
        .of_same rfl (by simp)
      cases hover : s.client.isOver with
      | true => simpa [perform, beginClose, Client.beginClose, hover] using .refl place s.client
      | false =>
          simp only [perform, beginClose, Client.beginClose, hover]
          exact hsame
  | hangUp =>
      simp only [perform, stepClose]
      split <;> exact .refl place s.client
  | outside event => exact .refl place s.client

end Session

/-! ## The calls of a mailbox -/

namespace Session

variable {ω κ : Type} {place : Nat}

/-- The calls that are to be delivered to the mailbox at a place and are not finished. -/
def unresolved (place : Nat) (s : Session κ) : List Pending :=
  (s.client.table.map Prod.snd ++ s.receiver.held).filter (·.mailbox = place)

/-- A call that is made is made for one mailbox. -/
theorem length_noteCall (place : Nat) (p : Pending) (c : Client) :
    (([noteCall p c].filterMap Notice.registered? ++
      [noteCall p c].filterMap Notice.refused?).filter (·.mailbox = place)).length =
        (decide (p.mailbox = place)).toNat := by
  unfold noteCall
  cases c.isOver <;> by_cases hplace : p.mailbox = place <;> simp [hplace]

variable [Codec κ]

theorem length_notices {s : Session κ} (hplace : place < s.client.mailboxes.length)
    (d : Deed ω) :
    (((s.notices d).filterMap Notice.registered? ++
      (s.notices d).filterMap Notice.refused?).filter (·.mailbox = place)).length =
        (d.asks place).toNat := by
  have hown (a : Ask) : decide ((a.pending s.client.mailboxes.length).mailbox = place) = false :=
    decide_eq_false (Nat.ne_of_gt hplace)
  cases d with
  | go a =>
      rw [notices, length_noteCall, hown]
      rfl
  | goWith a mailbox =>
      rw [notices, Deed.asks]
      by_cases hmailbox : mailbox < s.client.mailboxes.length
      · rw [if_pos hmailbox, length_noteCall]
        rfl
      · have hne : mailbox ≠ place := by
          rintro rfl
          exact hmailbox hplace
        rw [if_neg hmailbox, decide_eq_false hne]
        rfl
  | task t now =>
      cases t with
      | receiver => cases hread : s.readEnding now <;> simp [notices, noteStep, hread, Deed.asks]
      | writer seq =>
          cases hwrite : s.writeFailure seq now <;> simp [notices, noteStep, hwrite, Deed.asks]
      | caller i =>
          simp only [notices, noteStep, Deed.asks]
          split
          · split
            · rfl
            · rw [length_noteCall, decide_eq_false (Nat.ne_of_gt hplace)]
          · rfl
  | call | completion | take | dropHandle | deafen | close | hangUp | outside => rfl

/-- Whoever makes a call names a mailbox that there is. -/
theorem Change.housed {ns : List Notice} {c c' : Client} {r r' : Receiver}
    (h : Change ns (c, r) (c', r')) :
    ∀ p ∈ ns.filterMap Notice.registered? ++ ns.filterMap Notice.refused?,
      p.mailbox < c'.mailboxes.length := by
  cases h with
  | @issued _ client _ p halike _ _ hmailbox =>
      intro q hq
      rw [Client.length_issue]
      unfold noteCall at hq
      cases hover : c.isOver <;> simp [hover] at hq <;> rw [hq] <;> exact hmailbox
  | mailboxes | turnedAway | unsent | closed | cancelled | noHeader | unmatched | matched
  | replied | passed | notPassed | refuted | refutedLast => simp

end Session

namespace Client

/-- Those who have arrived and those who are on their way are the calls that were made
for the mailbox. -/
theorem Books.arrivals_perm {held registered refused : List Pending} {c : Client}
    (h : c.Books held registered refused) (place : Nat) :
    ∃ told : List (Pending × Except CallError Wire.Value),
      (c.arrivals place).Perm (told.map fun t => t.1.call.finish t.2) ∧
      ((c.table.map Prod.snd ++ held).filter (·.mailbox = place) ++ told.map Prod.fst).Perm
        ((registered ++ refused).filter (·.mailbox = place)) := by
  obtain ⟨numbered, hnumbered, hperm⟩ := h.told
  let told := numbered ++ refused.map fun p => (p, .error .shutdown)
  have hfst : told.map Prod.fst = numbered.map Prod.fst ++ refused := by
    simp [told, Function.comp_def]
  have hsignals : c.signals.Perm (told.map fun t => t.1.signal t.2) := by
    have hsplit := (List.filter_append_perm (fun signal : Nat × Call => signal.2.seq.isSome)
      c.signals).symm
    have hrest : c.signals.filter (fun signal => !signal.2.seq.isSome) = c.signalsOf none := by
      refine List.filter_congr fun signal _ => ?_
      cases signal.2.seq <;> rfl
    rw [hrest, h.rejected, ← numberedSignals, hnumbered] at hsplit
    simpa [told, Function.comp_def] using hsplit
  refine ⟨told.filter (·.1.mailbox = place), ?_, ?_⟩
  · have hplaced := (hsignals.filter (·.1 = place)).map Prod.snd
    rw [List.filter_map, List.map_map] at hplaced
    exact hplaced
  · have hcalls := ((hperm.append_right refused).filter (·.mailbox = place))
    rw [List.append_assoc, ← hfst, List.filter_append, List.filter_map] at hcalls
    exact hcalls

end Client

namespace History

variable {ω κ : Type} [Codec κ] {place : Nat}

/-- The calls that were made for the mailbox at a place. -/
def issued (place : Nat) (h : History κ) : List Pending :=
  (h.registered ++ h.refused).filter (·.mailbox = place)

variable [Surroundings ω κ]

theorem length_issued_perform {h : History κ}
    (hplace : place < h.session.client.mailboxes.length) (d : Deed ω) :
    ((h.perform d).issued place).length = (h.issued place).length + (d.asks place).toNat := by
  rw [← Session.length_notices hplace d, issued, issued, registered_perform, refused_perform]
  simp only [List.filter_append, List.length_append]
  omega

theorem housed_run (codec : κ) (deeds : List (Deed ω)) :
    ∀ p ∈ (run codec deeds).registered ++ (run codec deeds).refused,
      p.mailbox < (run codec deeds).session.client.mailboxes.length := by
  induction deeds using List.reverseRecOn with
  | nil => exact nofun
  | append_singleton deeds d ih =>
      have hchange := Session.change_of_perform (isHonest_run codec deeds) d
      intro p hp
      rw [run_append_singleton, registered_perform, refused_perform] at hp
      rw [run_append_singleton]
      by_cases hold : p ∈ (run codec deeds).registered ++ (run codec deeds).refused
      · exact Nat.lt_of_lt_of_le (ih p hold) (mailboxes_le hchange)
      · refine hchange.housed p ?_
        simp only [List.mem_append] at hp hold ⊢
        tauto

end History

end Switchboard
