import Switchboard.Proofs.Client.Arrivals

/-!
# A mailbox that many calls share

The owner of a mailbox for many calls has handles on it: one to begin with, and more
by copying one. With a handle calls are made, each of which has a handle of its own
until it is finished. At the other end the finished calls are received.

A `Shared` mailbox is followed with what an onlooker notes down: the handles that the
owner has, the calls that were received, and the calls that were finished, each with
whether there was room for it at that moment. Every stir keeps these together
(`Shared.Holds`), so in the end nothing is lost but what found the mailbox full or
nobody listening, and the receiving end learns that no more will come when this is so,
neither earlier nor later (`shared_run`).
-/

namespace Switchboard

open Session (Deed Notice)

/-- What the receiving end gets when it asks for the next call: a call, the word that
there will be no more, or nothing yet. -/
def Client.recv (place : Nat) (c : Client) : Poll (Option Call) :=
  match c.takeCall place with
  | some (call, _) => .done (some call)
  | none => if c.isClosed place then .done none else .blocked

namespace Session

/-- Whether a deed lets a handle on the mailbox at a place go. -/
def Deed.letsGo {ω : Type} (place : Nat) : Deed ω → Bool
  | .dropHandle mailbox => decide (mailbox = place)
  | .go _ | .goWith _ _ | .call _ | .completion _ | .take _ | .deafen _ | .task _ _ | .close
  | .hangUp | .outside _ => false

/-- What a deed receives from the mailbox at a place. -/
def Deed.receives {ω : Type} (place : Nat) (c : Client) : Deed ω → List Call
  | .take mailbox => if mailbox = place then ((c.takeCall place).map Prod.fst).toList else []
  | .go _ | .goWith _ _ | .call _ | .completion _ | .dropHandle _ | .deafen _ | .task _ _ | .close
  | .hangUp | .outside _ => []

/-- A deed is one of four things that are done to the mailbox at a place, or has nothing
to do with it. -/
theorem Deed.cases_at {ω : Type} (place : Nat) (d : Deed ω) :
    (∃ a, d = .goWith a place) ∨ d = .take place ∨ d = .dropHandle place ∨ d = .deafen place ∨
      (d.touch place = id ∧ d.asks place = false ∧ d.letsGo place = false ∧
        ∀ c, d.receives place c = []) := by
  cases d with
  | goWith a mailbox =>
      by_cases hmailbox : mailbox = place
      · exact .inl ⟨a, by rw [hmailbox]⟩
      · simp [touch, asks, letsGo, receives, hmailbox]
  | take mailbox =>
      by_cases hmailbox : mailbox = place
      · exact .inr (.inl (by rw [hmailbox]))
      · simp [touch, asks, letsGo, receives, hmailbox]
  | dropHandle mailbox =>
      by_cases hmailbox : mailbox = place
      · exact .inr (.inr (.inl (by rw [hmailbox])))
      · simp [touch, asks, letsGo, receives, hmailbox]
  | deafen mailbox =>
      by_cases hmailbox : mailbox = place
      · exact .inr (.inr (.inr (.inl (by rw [hmailbox]))))
      · simp [touch, asks, letsGo, receives, hmailbox]
  | go | call | completion | task | close | hangUp | outside =>
      exact .inr (.inr (.inr (.inr ⟨rfl, rfl, rfl, fun _ => rfl⟩)))

end Session

/-- What can happen around a mailbox: its owner copies a handle, or anything else. -/
inductive Stir (ω : Type) where
  | copy
  | deed (d : Deed ω)

/-- A client with a mailbox that is followed. -/
structure Shared (κ : Type) extends History κ where
  /-- How many handles the owner has. -/
  own : Nat := 1
  /-- The calls that were received, in this order. -/
  received : List Call := []
  /-- The calls that were finished, in this order, each with whether the mailbox had
  room for it. -/
  finished : List (Call × Bool) := []

namespace Shared

section Stirs

variable {ω κ : Type}

/-- The finished calls for which the mailbox had room. -/
def admitted (x : Shared κ) : List Call := (x.finished.filter (·.2)).map Prod.fst

/-- The owner copies a handle. -/
def copy (place : Nat) (x : Shared κ) : Shared κ :=
  { x with
    session.client := x.session.client.updateMailbox place Mailbox.addHandle
    own := x.own + 1 }

variable [Codec κ] [Surroundings ω κ]

def perform (place : Nat) (d : Deed ω) (x : Shared κ) : Shared κ where
  toHistory := x.toHistory.perform d
  own := x.own - (d.letsGo place).toNat
  received := x.received ++ d.receives place x.session.client
  finished := x.finished ++ (x.session.client.mailboxes[place]?.elim [] fun m =>
    (d.touch place m).admissions
      (((x.session.perform d).client.arrivals place).drop (x.session.client.arrivals place).length))

/-- What needs a handle of the owner does not happen when there is none. -/
def stir (place : Nat) (x : Shared κ) : Stir ω → Shared κ
  | .copy => if x.own = 0 then x else x.copy place
  | .deed d => if x.own = 0 ∧ (d.asks place || d.letsGo place) = true then x else x.perform place d

end Stirs

/-! ## What every stir keeps -/

variable {ω κ : Type} {place capacity : Nat} {x : Shared κ} {m : Mailbox}

/-- The mailbox and what was noted down fit together. -/
structure Holds (place capacity : Nat) (x : Shared κ) (m : Mailbox) : Prop where
  found : x.session.client.mailboxes[place]? = some m
  sized : m.capacity = capacity
  fits : m.held.length ≤ capacity
  arrived : x.finished.map Prod.fst = x.session.client.arrivals place
  /-- While somebody listens, what was admitted and not received is held. -/
  kept : m.listening = true → x.received ++ m.held = x.admitted
  silent : m.listening = false → m.held = []
  firsts : x.received <+: x.admitted
  counted : m.handles + (x.session.client.arrivals place).length = x.own + (x.issued place).length
  /-- As long as no more calls are finished than fit in, all of them are admitted. -/
  roomy : m.listening = true → x.finished.length ≤ capacity → ∀ f ∈ x.finished, f.2 = true

/-- The client is sound, and the mailbox is nobody's who waits for a single reply. -/
structure Sits (place : Nat) (x : Shared κ) : Prop where
  honest : ∀ caller ∈ x.session.callers, caller.IsHonest
  apart : .waiting place ∉ x.session.callers
  books : x.session.client.Books x.session.receiver.held x.registered x.refused

theorem Holds.lt (h : x.Holds place capacity m) : place < x.session.client.mailboxes.length :=
  (List.getElem?_eq_some_iff.mp h.found).1

/-- No more calls arrive than were made. -/
theorem Sits.length_le (h : x.Sits place) :
    (x.session.client.arrivals place).length ≤ (x.issued place).length := by
  obtain ⟨told, harrivals, hissued⟩ := h.books.arrivals_perm place
  have hlength := hissued.length_eq
  rw [List.length_append, List.length_map] at hlength
  rw [harrivals.length_eq, List.length_map, History.issued, ← hlength]
  exact Nat.le_add_left _ _

theorem holds_copy (h : x.Holds place capacity m) :
    (x.copy place).Holds place capacity m.addHandle where
  found := by
    change (x.session.client.updateMailbox place Mailbox.addHandle).mailboxes[place]? = _
    simp [Client.updateMailbox, h.found]
  sized := h.sized
  fits := h.fits
  arrived := h.arrived
  kept := h.kept
  silent := h.silent
  firsts := h.firsts
  counted := by
    have hcounted := h.counted
    change m.handles + 1 + (x.session.client.arrivals place).length =
      x.own + 1 + (x.issued place).length
    omega
  roomy := h.roomy

theorem sits_copy (h : x.Sits place) : (x.copy place).Sits place where
  honest := h.honest
  apart := h.apart
  books := h.books.alike (.updateMailbox place _ x.session.client)

section Touch

variable (place : Nat) (d : Deed ω) (m : Mailbox)

theorem frame_touch :
    (d.touch place m).capacity = m.capacity ∧
      ((d.touch place m).listening = true → m.listening = true) ∧
      (d.touch place m).held.length ≤ m.held.length ∧
      (d.touch place m).handles =
        m.handles + (d.asks place).toNat - (d.letsGo place).toNat := by
  rcases d.cases_at place with ⟨a, rfl⟩ | rfl | rfl | rfl | ⟨htouch, hasks, hlets, _⟩
  · simp [Session.Deed.touch, Session.Deed.asks, Session.Deed.letsGo, Mailbox.addHandle]
  · simp [Session.Deed.touch, Session.Deed.asks, Session.Deed.letsGo, Mailbox.next]
  · simp [Session.Deed.touch, Session.Deed.asks, Session.Deed.letsGo, Mailbox.dropHandle]
  · simp [Session.Deed.touch, Session.Deed.asks, Session.Deed.letsGo, Mailbox.deafen]
  · rw [htouch, hasks, hlets]
    exact ⟨rfl, id, Nat.le_refl _, rfl⟩

variable {place d m} {c : Client}

/-- What is received was held before. -/
theorem receives_touch (hm : c.mailboxes[place]? = some m)
    (hlistening : (d.touch place m).listening = true) :
    d.receives place c ++ (d.touch place m).held = m.held := by
  rcases d.cases_at place with ⟨a, rfl⟩ | rfl | rfl | rfl | ⟨htouch, _, _, hreceives⟩
  · simp [Session.Deed.touch, Session.Deed.receives, Mailbox.addHandle]
  · rw [Session.Deed.touch, Session.Deed.receives, if_pos rfl, if_pos rfl,
      Client.takeCall_eq hm, Mailbox.next]
    cases m.held <;> rfl
  · simp [Session.Deed.touch, Session.Deed.receives, Mailbox.dropHandle]
  · simp [Session.Deed.touch, Mailbox.deafen] at hlistening
  · rw [htouch, hreceives]
    rfl

/-- When nobody listens any more, nothing is received, and nothing is held. -/
theorem receives_of_deaf (hm : c.mailboxes[place]? = some m)
    (hsilent : m.listening = false → m.held = [])
    (hdeaf : (d.touch place m).listening = false) :
    d.receives place c = [] ∧ (d.touch place m).held = [] := by
  rcases d.cases_at place with ⟨a, rfl⟩ | rfl | rfl | rfl | ⟨htouch, _, _, hreceives⟩
  · rw [Session.Deed.touch, if_pos rfl] at hdeaf ⊢
    exact ⟨rfl, hsilent hdeaf⟩
  · rw [Session.Deed.touch, if_pos rfl] at hdeaf
    have hnone := hsilent hdeaf
    rw [Session.Deed.touch, Session.Deed.receives, if_pos rfl, if_pos rfl,
      Client.takeCall_eq hm, Mailbox.next_of_nil hnone, hnone]
    exact ⟨rfl, rfl⟩
  · rw [Session.Deed.touch, if_pos rfl] at hdeaf ⊢
    exact ⟨rfl, hsilent hdeaf⟩
  · simp [Session.Deed.touch, Session.Deed.receives, Mailbox.deafen]
  · rw [htouch] at hdeaf ⊢
    exact ⟨hreceives c, hsilent hdeaf⟩

end Touch

section Perform

variable [Codec κ] [Surroundings ω κ]

theorem sits_perform (h : x.Sits place) (hplace : place < x.session.client.mailboxes.length)
    (d : Deed ω) (few : (x.perform place d).registered.length < 2 ^ 64) :
    (x.perform place d).Sits place where
  honest := Session.isHonest_perform h.honest d
  apart := by
    intro hwaiting
    change .waiting place ∈ (x.session.perform d).callers at hwaiting
    rcases x.session.callers_perform d with heq | ⟨a, heq⟩ | ⟨i, caller, heq, _, hnew, _⟩
    · rw [heq] at hwaiting
      exact h.apart hwaiting
    · rw [heq, List.mem_append, List.mem_singleton] at hwaiting
      rcases hwaiting with hold | hfresh
      · exact h.apart hold
      · cases hfresh
    · rw [heq] at hwaiting
      rcases List.mem_or_eq_of_mem_set hwaiting with hold | hset
      · exact h.apart hold
      · -- Whoever comes to wait does so at a new mailbox.
        exact Nat.not_lt.mpr (hnew place hset.symm).1 hplace
  books := by
    have hchange := Session.change_of_perform h.honest d
    change (x.toHistory.perform d).session.client.Books _ (x.toHistory.perform d).registered
      (x.toHistory.perform d).refused
    change (x.toHistory.perform d).registered.length < 2 ^ 64 at few
    rw [History.registered_perform] at few ⊢
    rw [History.refused_perform]
    exact h.books.change hchange few

section Step

variable {d : Deed ω} {calls : List Call} (h : x.Holds place capacity m)
  (harrivals : (x.session.perform d).client.arrivals place =
    x.session.client.arrivals place ++ calls)

include h harrivals

/-- What finishes with a deed is noted down behind what finished before. -/
theorem finished_perform :
    (x.perform place d).finished = x.finished ++ (d.touch place m).admissions calls := by
  change x.finished ++ _ = _
  rw [h.found, Option.elim_some, harrivals, List.drop_left]

theorem admitted_perform :
    (x.perform place d).admitted =
      x.admitted ++ (((d.touch place m).admissions calls).filter (·.2)).map Prod.fst := by
  rw [admitted, finished_perform h harrivals, List.filter_append, List.map_append]
  rfl

theorem kept_perform (hheard : (d.touch place m).listening = true) :
    (x.perform place d).received ++ ((d.touch place m).deliver calls).held =
      (x.perform place d).admitted := by
  have hbefore := (frame_touch place d m).2.1 hheard
  have hreceived : (x.perform place d).received =
      x.received ++ d.receives place x.session.client := rfl
  rw [hreceived, admitted_perform h harrivals, Mailbox.held_deliver, List.append_assoc,
    ← List.append_assoc (d.receives place x.session.client), receives_touch h.found hheard,
    ← List.append_assoc, h.kept hbefore]

theorem firsts_perform : (x.perform place d).received <+: (x.perform place d).admitted := by
  cases hheard : (d.touch place m).listening with
  | true => exact ⟨_, kept_perform h harrivals hheard⟩
  | false =>
      have hreceived : (x.perform place d).received =
          x.received ++ d.receives place x.session.client := rfl
      rw [hreceived, (receives_of_deaf h.found h.silent hheard).1, List.append_nil,
        admitted_perform h harrivals]
      exact h.firsts.trans (List.prefix_append _ _)

/-- Every handle that goes was there, since no more calls arrive than were made. -/
theorem counted_perform (hsits : x.Sits place) (hlater : (x.perform place d).Sits place)
    (hown : (d.asks place || d.letsGo place) = true → x.own ≠ 0) :
    ((d.touch place m).deliver calls).handles +
        ((x.perform place d).session.client.arrivals place).length =
      (x.perform place d).own + ((x.perform place d).issued place).length := by
  have hlets : (d.letsGo place).toNat ≤ x.own := by
    cases hlets : d.letsGo place with
    | false => exact Nat.zero_le _
    | true => exact Nat.one_le_iff_ne_zero.mpr (hown (by simp [hlets]))
  have hissued : ((x.perform place d).issued place).length =
      (x.issued place).length + (d.asks place).toNat := History.length_issued_perform h.lt d
  have hlength : ((x.perform place d).session.client.arrivals place).length =
      (x.session.client.arrivals place).length + calls.length := by
    rw [← List.length_append]
    exact congrArg List.length harrivals
  have howned : (x.perform place d).own = x.own - (d.letsGo place).toNat := rfl
  have hcounted := h.counted
  have hbefore := hsits.length_le
  have hafter := hlater.length_le
  rw [(Mailbox.frame_deliver calls _).2.2, (frame_touch place d m).2.2.2, howned]
  omega

theorem roomy_perform (hheard : (d.touch place m).listening = true)
    (hfew : (x.perform place d).finished.length ≤ capacity) :
    ∀ f ∈ (x.perform place d).finished, f.2 = true := by
  obtain ⟨hsized, hlistening, hheld, _⟩ := frame_touch place d m
  have hbefore := hlistening hheard
  have hadmitted := congrArg List.length (h.kept hbefore)
  have hfiltered := List.length_filter_le (·.2) x.finished
  have hcalls := congrArg List.length ((d.touch place m).admissions_fst calls)
  rw [List.length_append, admitted, List.length_map] at hadmitted
  rw [List.length_map] at hcalls
  rw [finished_perform h harrivals, List.length_append] at hfew
  rw [finished_perform h harrivals]
  intro f hf
  rcases List.mem_append.mp hf with hold | hnew
  · exact h.roomy hbefore (by omega) f hold
  · refine Mailbox.admissions_all hheard ?_ f hnew
    rw [hsized, h.sized]
    omega

end Step

theorem holds_perform (h : x.Holds place capacity m) (hsits : x.Sits place) (d : Deed ω)
    (hlater : (x.perform place d).Sits place)
    (hown : (d.asks place || d.letsGo place) = true → x.own ≠ 0) :
    ∃ m', (x.perform place d).Holds place capacity m' := by
  obtain ⟨calls, harrivals, hmailbox⟩ := Session.delivers_perform h.lt hsits.apart d
  obtain ⟨hsized, _, hheld, _⟩ := frame_touch place d m
  obtain ⟨hsized', hlistening', _⟩ := (d.touch place m).frame_deliver calls
  refine ⟨(d.touch place m).deliver calls, ?_, ?_, ?_, ?_, ?_, ?_, ?_, ?_, ?_⟩
  · change (x.session.perform d).client.mailboxes[place]? = _
    rw [hmailbox, h.found, Option.map_some]
  · rw [hsized', hsized, h.sized]
  · rw [← h.sized, ← hsized]
    refine Mailbox.length_held_deliver ?_
    rw [hsized, h.sized]
    exact Nat.le_trans hheld h.fits
  · rw [finished_perform h harrivals, List.map_append, Mailbox.admissions_fst, h.arrived]
    exact harrivals.symm
  · rw [hlistening']
    exact kept_perform h harrivals
  · rw [hlistening']
    intro hdeaf
    rw [Mailbox.held_deliver_of_deaf hdeaf]
    exact (receives_of_deaf h.found h.silent hdeaf).2
  · exact firsts_perform h harrivals
  · exact counted_perform h harrivals hsits hlater hown
  · rw [hlistening']
    exact roomy_perform h harrivals

theorem exists_holds_stir (h : ∃ m, x.Holds place capacity m) (hsits : x.Sits place)
    (st : Stir ω) (few : (x.stir place st).registered.length < 2 ^ 64) :
    (∃ m, (x.stir place st).Holds place capacity m) ∧ (x.stir place st).Sits place := by
  obtain ⟨m, hm⟩ := h
  cases st with
  | copy =>
      rw [stir] at few ⊢
      split
      · exact ⟨⟨m, hm⟩, hsits⟩
      · exact ⟨⟨_, holds_copy hm⟩, sits_copy hsits⟩
  | deed d =>
      rw [stir] at few ⊢
      split
      · exact ⟨⟨m, hm⟩, hsits⟩
      · rename_i hown
        rw [if_neg hown] at few
        have hlater := sits_perform hsits hm.lt d few
        refine ⟨holds_perform hm hsits d hlater ?_, hlater⟩
        intro hneeds hnone
        exact hown ⟨hnone, hneeds⟩

theorem few_of_stir {st : Stir ω} {bound : Nat}
    (few : (x.stir place st).registered.length < bound) : x.registered.length < bound := by
  cases st with
  | copy =>
      rw [stir] at few
      split at few <;> exact few
  | deed d =>
      rw [stir] at few
      split at few
      · exact few
      · exact History.few_of_perform few

end Perform

/-! ## What is promised -/

/-- What is promised to those who share a mailbox. -/
structure Promises (place capacity : Nat) (x : Shared κ) (m : Mailbox) : Prop
    extends Holds place capacity x m where
  /-- There are no handles but those of the owner and of the calls that are not
  finished. -/
  handled : m.handles = x.own + (x.session.unresolved place).length
  /-- There will be no more calls just when nothing is held and no handle is left. -/
  closed : x.session.client.recv place = .done none ↔
    m.held = [] ∧ x.own = 0 ∧ x.session.unresolved place = []
  /-- If as many calls were made as the mailbox can hold, or fewer, then by the time
  there will be no more each was received once. -/
  complete : m.listening = true → (x.issued place).length ≤ capacity →
    x.session.client.recv place = .done none →
    ∃ told : List (Pending × Except CallError Wire.Value),
      x.received.Perm (told.map fun t => t.1.call.finish t.2) ∧
        (told.map Prod.fst).Perm (x.issued place)

theorem recv_eq_none_iff {c : Client} (hm : c.mailboxes[place]? = some m) :
    c.recv place = .done none ↔ m.held = [] ∧ m.handles = 0 := by
  rw [Client.recv, Client.takeCall_eq hm]
  cases hheld : m.held with
  | nil => simp [Client.isClosed, hm, Mailbox.isClosed, hheld]
  | cons call held => simp

theorem promises_of_holds (h : x.Holds place capacity m) (hsits : x.Sits place) :
    x.Promises place capacity m := by
  obtain ⟨told, harrivals, hissued⟩ := hsits.books.arrivals_perm place
  have hlength := hissued.length_eq
  rw [List.length_append, List.length_map] at hlength
  have harrived := harrivals.length_eq
  rw [List.length_map] at harrived
  have hhandled : m.handles = x.own + (x.session.unresolved place).length := by
    have hcounted := h.counted
    change (x.session.unresolved place).length + told.length = (x.issued place).length at hlength
    omega
  have hclosed : x.session.client.recv place = .done none ↔
      m.held = [] ∧ x.own = 0 ∧ x.session.unresolved place = [] := by
    rw [recv_eq_none_iff h.found, hhandled, Nat.add_eq_zero_iff, List.length_eq_zero_iff]
  refine ⟨h, hhandled, hclosed, ?_⟩
  intro hheard hfew hnone
  obtain ⟨hheld, _, hresolved⟩ := hclosed.mp hnone
  have hfinished : x.finished.length ≤ capacity := by
    have hcalls := congrArg List.length h.arrived
    rw [List.length_map] at hcalls
    have hbefore := hsits.length_le
    omega
  have hall : x.admitted = x.session.client.arrivals place := by
    rw [admitted, List.filter_eq_self.mpr (h.roomy hheard hfinished), h.arrived]
  have hreceived : x.received = x.session.client.arrivals place := by
    rw [← hall, ← h.kept hheard, hheld, List.append_nil]
  refine ⟨told, hreceived ▸ harrivals, ?_⟩
  change (x.session.unresolved place ++ _).Perm _ at hissued
  rw [hresolved] at hissued
  exact hissued

/-! ## The whole life of a mailbox -/

section Share

variable [Codec κ] [Surroundings ω κ]

/-- Whatever was done before, a mailbox for many calls is opened, and then whatever is
done. -/
def share (codec : κ) (before : List (Deed ω)) (capacity : Nat) (stirs : List (Stir ω)) :
    Shared κ :=
  stirs.foldl (stir (History.run codec before).session.client.mailboxes.length)
    { toHistory := History.run codec (before ++ [.completion capacity]) }

/-- Receiving as often as something is held empties the mailbox and touches nothing
else. -/
theorem received_of_takes (h : x.session.client.mailboxes[place]? = some m) :
    let y := (List.replicate m.held.length (.deed (.take place) : Stir ω)).foldl (stir place) x
    y.received = x.received ++ m.held ∧
      y.session.client.mailboxes[place]? = some { m with held := [] } := by
  induction hheld : m.held generalizing x m with
  | nil =>
      have hempty : m = { m with held := [] } := by rw [← hheld]
      refine ⟨(List.append_nil _).symm, ?_⟩
      rw [← hempty]
      exact h
  | cons call held ih =>
      intro y
      have hplace := (List.getElem?_eq_some_iff.mp h).1
      have htake : x.session.client.takeCall place =
          some (call, { x.session.client with
            mailboxes := x.session.client.mailboxes.set place m.next }) := by
        rw [Client.takeCall_eq h, hheld]
        rfl
      have hreceived : (x.perform place (.take place : Deed ω)).received =
          x.received ++ [call] := by
        simp [perform, Session.Deed.receives, htake]
      have hmailbox : (x.perform place (.take place : Deed ω)).session.client.mailboxes[place]? =
          some m.next := by
        change (x.session.perform (.take place : Deed ω)).client.mailboxes[place]? = _
        simp [Session.perform, htake, hplace]
      obtain ⟨hlater, hempty⟩ := ih hmailbox (by rw [Mailbox.next, hheld]; rfl)
      have hstir : x.stir place (.deed (.take place) : Stir ω) =
          x.perform place (.take place : Deed ω) := by
        simp [stir, Session.Deed.asks, Session.Deed.letsGo]
      refine ⟨?_, ?_⟩
      · change ((List.replicate held.length _).foldl (stir place) (x.stir place _)).received = _
        rw [hstir, hlater, hreceived, List.append_assoc, List.singleton_append]
      · change ((List.replicate held.length _).foldl (stir place)
          (x.stir place _)).session.client.mailboxes[place]? = _
        rw [hstir]
        exact hempty

theorem holds_opened (codec : κ) (before : List (Deed ω)) (hcapacity : 0 < capacity)
    (few : (share codec before capacity ([] : List (Stir ω))).registered.length < 2 ^ 64) :
    (share codec before capacity ([] : List (Stir ω))).Holds
        (History.run codec before).session.client.mailboxes.length capacity
        { capacity, handles := 1 } ∧
      (share codec before capacity ([] : List (Stir ω))).Sits
        (History.run codec before).session.client.mailboxes.length := by
  have hopened : (History.run codec (before ++ [.completion capacity])).session =
      { (History.run codec before).session with
        client := ((History.run codec before).session.client.addMailbox
          { capacity, handles := 1 }).2 } := by
    rw [History.run_append_singleton]
    simp [History.perform, Session.perform, Client.completion, Nat.ne_of_gt hcapacity]
  have hsits : (share codec before capacity ([] : List (Stir ω))).Sits
      (History.run codec before).session.client.mailboxes.length := by
    refine ⟨History.isHonest_run codec _, ?_, History.books_run codec _ few⟩
    intro hwaiting
    change .waiting _ ∈ (History.run codec (before ++ [.completion capacity])).session.callers
      at hwaiting
    rw [hopened] at hwaiting
    exact Nat.lt_irrefl _ (History.waiting_lt_run codec before _ hwaiting)
  have hissued : (share codec before capacity ([] : List (Stir ω))).issued
      (History.run codec before).session.client.mailboxes.length = [] := by
    change (History.run codec (before ++ [.completion capacity])).issued _ = []
    rw [History.run_append_singleton, History.issued, History.registered_perform,
      History.refused_perform]
    refine List.filter_eq_nil_iff.mpr fun p hp => ?_
    have hlt := History.housed_run codec before p (by simpa [Session.notices] using hp)
    simpa using Nat.ne_of_lt hlt
  have harrivals : (share codec before capacity ([] : List (Stir ω))).session.client.arrivals
      (History.run codec before).session.client.mailboxes.length = [] := by
    have hnone := hsits.length_le
    rw [hissued] at hnone
    exact List.length_eq_zero_iff.mp (Nat.le_zero.mp hnone)
  refine ⟨⟨?_, rfl, Nat.zero_le _, harrivals.symm, fun _ => rfl, fun _ => rfl, List.prefix_rfl, ?_,
    ?_⟩, hsits⟩
  · change (History.run codec (before ++ [.completion capacity])).session.client.mailboxes[_]? = _
    rw [hopened]
    exact List.getElem?_concat_length
  · rw [harrivals, hissued]
    rfl
  · intro _ _ f hf
    cases hf

theorem share_append_singleton (codec : κ) (before : List (Deed ω)) (capacity : Nat)
    (stirs : List (Stir ω)) (st : Stir ω) :
    share codec before capacity (stirs ++ [st]) = (share codec before capacity stirs).stir
      (History.run codec before).session.client.mailboxes.length st := by
  rw [share, List.foldl_append]
  rfl

theorem holds_share (codec : κ) (before : List (Deed ω)) (hcapacity : 0 < capacity)
    (stirs : List (Stir ω))
    (few : (share codec before capacity stirs).registered.length < 2 ^ 64) :
    (∃ m, (share codec before capacity stirs).Holds
        (History.run codec before).session.client.mailboxes.length capacity m) ∧
      (share codec before capacity stirs).Sits
        (History.run codec before).session.client.mailboxes.length := by
  induction stirs using List.reverseRecOn with
  | nil =>
      obtain ⟨hholds, hsits⟩ := holds_opened codec before hcapacity few
      exact ⟨⟨_, hholds⟩, hsits⟩
  | append_singleton stirs st ih =>
      rw [share_append_singleton] at few ⊢
      obtain ⟨hholds, hsits⟩ := ih (few_of_stir few)
      exact exists_holds_stir hholds hsits st few

/-- A mailbox for many calls loses nothing but what overflows. However calls are made for
it through copies of its owner's handle, finish on whatever occasion, and are received,
at most as many are held as it has room for, those that were received are in their
order the ones that found room while somebody listened, and the receiving end learns
that no more will come just when none will. When the owner has no handle any more and
no call is under way, receiving what is held leads there. -/
theorem shared_run (codec : κ) (before : List (Deed ω)) (capacity : Nat) (hcapacity : 0 < capacity)
    (stirs : List (Stir ω))
    (few : (share codec before capacity stirs).registered.length < 2 ^ 64) :
    let place := (History.run codec before).session.client.mailboxes.length
    let x := share codec before capacity stirs
    ∃ m, x.Promises place capacity m ∧
      (x.own = 0 → x.session.unresolved place = [] →
        let y := share codec before capacity
          (stirs ++ List.replicate m.held.length (.deed (.take place)))
        y.received = x.received ++ m.held ∧ y.session.client.recv place = .done none) := by
  intro place x
  obtain ⟨⟨m, hholds⟩, hsits⟩ := holds_share codec before hcapacity stirs few
  have hpromises := promises_of_holds hholds hsits
  refine ⟨m, hpromises, ?_⟩
  intro hown hresolved y
  obtain ⟨hreceived, hempty⟩ := received_of_takes (ω := ω) hholds.found
  have hy : y = (List.replicate m.held.length (.deed (.take place) : Stir ω)).foldl
      (stir place) x := List.foldl_append
  rw [← hy] at hreceived hempty
  refine ⟨hreceived, (recv_eq_none_iff hempty).mpr ⟨rfl, ?_⟩⟩
  change m.handles = 0
  rw [hpromises.handled, hown, hresolved]
  rfl

/-- Two calls are made through two handles, which their owner lets go, and both are
answered. -/
def twoCalls : List (Stir (List Cue)) :=
  [.deed (.goWith ⟨0, "Arith.Multiply", .unit, .unit⟩ 0), .copy,
    .deed (.goWith ⟨1, "Arith.Multiply", .unit, .unit⟩ 0), .deed (.dropHandle 0),
    .deed (.dropHandle 0),
    .deed (.outside [.header ⟨"Arith.Multiply", 1, ""⟩, .body .unit,
      .header ⟨"Arith.Multiply", 0, "no"⟩, .body .unit])] ++
    List.replicate 4 (.deed (.task .receiver 0))

/-- The same, and what is held is received. -/
def twoReceived : List (Stir (List Cue)) := twoCalls ++ [.deed (.take 0), .deed (.take 0)]

/-- A mailbox with room for two loses neither. -/
theorem shared_of_two_calls :
    let x : Shared Rehearsal := share {} [] 2 twoReceived
    x.session.client.recv 0 = .done none ∧ (x.issued 0).length = 2 ∧
      ∃ told : List (Pending × Except CallError Wire.Value),
        x.received.Perm (told.map fun t => t.1.call.finish t.2) ∧
          (told.map Prod.fst).Perm (x.issued 0) := by
  intro x
  have few : x.registered.length < 2 ^ 64 := by decide
  have hnone : x.session.client.recv 0 = .done none := by rfl
  have hissued : (x.issued 0).length = 2 := by rfl
  obtain ⟨m, hpromises, _⟩ := shared_run ({} : Rehearsal) [] 2 (by decide) twoReceived few
  have hlistening : x.session.client.mailboxes[0]?.map (·.listening) = some true := by rfl
  have hfound : x.session.client.mailboxes[0]? = some m := hpromises.found
  rw [hfound] at hlistening
  exact ⟨hnone, hissued,
    hpromises.complete (Option.some.inj hlistening) (Nat.le_of_eq hissued) hnone⟩

/-- One with room for a single call has none for the other. -/
example : (share ({} : Rehearsal) [] 1 twoCalls).finished.map (·.2) = [true, false] := by rfl

end Share

end Shared

end Switchboard
