import Switchboard.Proofs.Client.Unseen

/-!
# A call is a request and one receive

There are two ways to one reply. A caller makes its call and waits; or the call is made
with `go`, and somebody receives once from the mailbox that it is given. A caller looks
at the flags before it makes a mailbox, and its mailbox holds one call in place of many.

Two lives are compared in which all others do the same (`Parallel`), while the caller
takes its steps whenever it likes in the one, and the other one is received from
whenever its owner likes. Then the table, the next number, the flags and what is read
and written are always the same, the caller is given the result of the very call that
is received, and neither of them ever finds its mailbox empty with no call to come
(`same_outcome`).
-/

namespace Switchboard

open Session (Deed)

namespace Session

variable {ω κ : Type}

/-- The same deed where the mailboxes have other places. -/
def Deed.relocate (f : Nat → Nat) : Deed ω → Deed ω
  | .goWith a mailbox => .goWith a (f mailbox)
  | .take mailbox => .take (f mailbox)
  | .dropHandle mailbox => .dropHandle (f mailbox)
  | .deafen mailbox => .deafen (f mailbox)
  | .go a => .go a
  | .call a => .call a
  | .completion capacity => .completion capacity
  | .task t now => .task t now
  | .close => .close
  | .hangUp => .hangUp
  | .outside event => .outside event

/-- Whether a deed leaves the mailbox at a place to its owner. -/
def Deed.spares (place : Nat) : Deed ω → Bool
  | .goWith _ mailbox | .take mailbox | .dropHandle mailbox | .deafen mailbox => mailbox ≠ place
  | .go _ | .call _ | .completion _ | .task _ _ | .close | .hangUp | .outside _ => true

/-- Where a mailbox is in the life with `go`. A caller who finds the client over makes
no mailbox, so that later ones are one place further there. -/
def shift (s : Session κ) (mailbox : Nat) : Nat :=
  if s.client.isOver && decide (s.client.mailboxes.length ≤ mailbox) then mailbox + 1 else mailbox

/-- What follows in the two lives: the same deeds of all others, in between the steps of
the caller in the one, and receiving in the other. -/
inductive Parallel (place i : Nat) (f : Nat → Nat) : List (Deed ω) → List (Deed ω) → Prop
  | done : Parallel place i f [] []
  | both {d : Deed ω} {deeds deeds' : List (Deed ω)} (hcaller : ∀ now, d ≠ .task (.caller i) now)
      (hspares : (d.relocate f).spares place = true) (h : Parallel place i f deeds deeds') :
      Parallel place i f (d :: deeds) (d.relocate f :: deeds')
  | step (now : Nat) {deeds deeds' : List (Deed ω)} (h : Parallel place i f deeds deeds') :
      Parallel place i f (.task (.caller i) now :: deeds) deeds'
  | receive {deeds deeds' : List (Deed ω)} (h : Parallel place i f deeds deeds') :
      Parallel place i f deeds (.take place :: deeds')

/-- A new mailbox, at which a caller waits. -/
def opened (i capacity : Nat) (s : Session κ) : Session κ :=
  { s with
    client := (s.client.addMailbox { capacity, handles := 0 }).2
    callers := s.callers.set i (.waiting s.client.mailboxes.length) }

/-- How a caller begins, and where the mailboxes are from then on in the life with `go`. -/
inductive Begins (s : Session κ) (i : Nat) (a : Ask) : Session κ → (Nat → Nat) → Prop
  /-- With its first step. -/
  | step : Begins s i a (s.stepCaller i).2 s.shift
  /-- It found the client open at some moment before, and goes on only now. -/
  | late : Begins s i a ((s.opened i 1).issue a.call a.shape s.client.mailboxes.length) id

theorem Deed.relocate_id (d : Deed ω) : d.relocate id = d := by
  cases d <;> rfl

theorem Deed.isAside_relocate (f : Nat → Nat) (d : Deed ω) :
    (d.relocate f).isAside = d.isAside := by
  cases d <;> rfl

theorem Deed.relocate_of_not_aside {d : Deed ω} (f : Nat → Nat) (h : d.isAside = false) :
    d.relocate f = d := by
  cases d with
  | goWith | take | dropHandle | deafen => cases h
  | go | call | completion | task | close | hangUp | outside => rfl

theorem shift_of_open {s : Session κ} (h : s.client.isOver = false) : s.shift = id := by
  funext mailbox
  simp [shift, h]

/-- What a mailbox notices of those who leave it alone, and of its owner who receives. -/
theorem Deed.frame_spares {place : Nat} {d : Deed ω} (h : d.spares place = true ∨ d = .take place) :
    d.asks place = false ∧ d.letsGo place = false ∧
      ∀ m, (d.touch place m).listening = m.listening := by
  rcases h with h | rfl
  · cases d <;> simp_all [spares, asks, letsGo, touch]
  · simp [asks, letsGo, touch, Mailbox.next]

theorem Deed.touch_of_spares {place : Nat} {d : Deed ω} (h : d.spares place = true) :
    d.touch place = id := by
  cases d <;> simp_all [spares, touch]

theorem Deed.consumes_of_spares {place i : Nat} {d : Deed ω} (h : d.spares place = true)
    (hcaller : ∀ now, d ≠ .task (.caller i) now) : d.consumes place (some i) = false := by
  cases d with
  | task t now =>
      cases t with
      | caller j =>
          refine decide_eq_false ?_
          rintro ⟨⟩
          exact hcaller now rfl
      | receiver | writer => rfl
  | go | goWith | call | completion | take | dropHandle | deafen | close | hangUp | outside =>
      simp_all [spares, consumes]

/-- Beside the caller who waits there nobody else sees the mailbox. -/
theorem delivers_beside [Codec κ] [Surroundings ω κ] {s : Session κ} {place i : Nat} {d : Deed ω}
    (hplace : place < s.client.mailboxes.length) (hi : i < s.callers.length)
    (helsewhere : ∀ j, some i ≠ some j → s.callers[j]? ≠ some (.waiting place))
    (hcaller : ∀ now, d ≠ .task (.caller i) now) :
    s.client.Delivers place (d.touch place) (s.perform d).client := by
  have hapart : .waiting place ∉ (s.withCaller i (.finished (.error .shutdown))).callers := by
    intro hmem
    obtain ⟨j, hj⟩ := List.getElem?_of_mem hmem
    by_cases hij : i = j
    · subst hij
      rw [withCaller, List.getElem?_set_self hi] at hj
      cases hj
    · rw [withCaller, List.getElem?_set_ne hij] at hj
      exact helsewhere j (by simpa using hij) hj
  have hdelivers := delivers_perform
    (s := s.withCaller i (.finished (.error .shutdown))) hplace hapart d
  rwa [perform_withCaller hi _ hcaller] at hdelivers

variable {s : Session κ} {i : Nat} {call : Call} {shape : Wire.Shape}

theorem stepCaller_of_open (hcaller : s.callers[i]? = some (.fresh call shape))
    (hopen : s.client.isOver = false) :
    (s.stepCaller i).2 = (s.opened i 1).issue call shape s.client.mailboxes.length := by
  have hissue := issue_withCaller i (.waiting s.client.mailboxes.length)
    { s with client := (s.client.addMailbox { capacity := 1, handles := 0 }).2 } call shape
    s.client.mailboxes.length
  rw [withCaller] at hissue
  rw [opened, hissue]
  simp [stepCaller, hcaller, hopen, Client.addMailbox, withCaller]

theorem go_withCaller (i : Nat) (call : Call) (shape : Wire.Shape) (s : Session κ) :
    (s.go call shape).2.withCaller i (.waiting s.client.mailboxes.length) =
      (s.opened i defaultCapacity).issue call shape s.client.mailboxes.length :=
  (issue_withCaller i _ { s with client := _ } _ _ _).symm

/-- How much a new mailbox can hold is the concern of the caller who waits at it. -/
theorem beyond_opened (hi : i < s.callers.length)
    (hwaiting : ∀ mailbox, .waiting mailbox ∈ s.callers → mailbox < s.client.mailboxes.length)
    (capacity capacity' : Nat) :
    (s.opened i capacity).Beyond s.client.mailboxes.length (some i) (s.opened i capacity') := by
  have hserved : Serves s.client.mailboxes.length (some i)
      (s.callers.set i (.waiting s.client.mailboxes.length)) := by
    rintro _ ⟨⟩
    exact ⟨_, List.getElem?_set_self hi, rfl⟩
  refine ⟨.opened s.client _ _ rfl, rfl, rfl, rfl, rfl, fun _ _ => rfl, rfl, ?_, hserved, hserved⟩
  intro j hj heq
  have hne : i ≠ j := by
    rintro rfl
    exact hj rfl
  rw [opened, List.getElem?_set_ne hne] at heq
  exact Nat.lt_irrefl _ (hwaiting _ (List.mem_of_getElem? heq))

end Session

/-- When there is room for all of them, all of them are kept. -/
theorem Mailbox.held_deliver_all {m : Mailbox} {calls : List Call} (hheard : m.listening = true)
    (hfits : m.held.length + calls.length ≤ m.capacity) :
    (m.deliver calls).held = m.held ++ calls := by
  rw [held_deliver, List.filter_eq_self.mpr (admissions_all hheard hfits), admissions_fst]

theorem Client.Beyond.arrivals {place : Nat} {c c' : Client} (h : c.Beyond place c') :
    c.arrivals place = c'.arrivals place := by
  have hsignals : c.signals = c'.signals := h.events.signals
  rw [Client.arrivals, Client.arrivals, hsignals]

/-- A call is made for a new mailbox, and may be finished at once. -/
theorem Client.delivers_own (c : Client) (capacity : Nat) (call : Call) (shape : Wire.Shape) :
    let c' := ((c.addMailbox { capacity, handles := 0 }).2.issue call shape c.mailboxes.length).2
    ∃ calls, c'.arrivals c.mailboxes.length = c.arrivals c.mailboxes.length ++ calls ∧
      c'.mailboxes[c.mailboxes.length]? =
        some (Mailbox.deliver calls { capacity, handles := 1 }) := by
  obtain ⟨calls, harrivals, hmailbox⟩ := Delivers.issue c.mailboxes.length call shape
    c.mailboxes.length (c.addMailbox { capacity, handles := 0 }).2
  have hnew : (c.addMailbox { capacity, handles := 0 }).2.mailboxes[c.mailboxes.length]? =
      some { capacity, handles := 0 } := List.getElem?_concat_length
  refine ⟨calls, harrivals, ?_⟩
  rw [hmailbox, hnew, if_pos rfl]
  rfl

/-- What the receiving end gets of a call, if there is one. -/
def Poll.ofCall (told : Option Call) : Poll (Option Call) :=
  told.elim .blocked fun c => .done (some c)

theorem Client.recv_of_mailbox {c : Client} {place : Nat} {m : Mailbox} {told : Option Call}
    (hm : c.mailboxes[place]? = some m) (hheld : m.held = told.toList)
    (hhandles : m.handles + told.toList.length = 1) : c.recv place = .ofCall told := by
  rw [Client.recv, Client.takeCall_eq hm, hheld]
  cases told with
  | none => simp_all [Poll.ofCall, Client.isClosed, Mailbox.isClosed]
  | some call => rfl

namespace Shared

variable {ω κ : Type} {place i : Nat} {a : Ask} {x : Shared κ}

/-! ## The life with `go` -/

/-- A mailbox that was made for one call, with nobody else who has a handle on it. -/
structure Awaits (place : Nat) (a : Ask) (x : Shared κ) : Prop where
  sits : x.Sits place
  own : x.own = 0
  issued : ∃ seq, x.issued place = [⟨{ a.call with seq }, a.shape, place⟩]
  holds : ∃ m, x.Holds place defaultCapacity m ∧ m.listening = true

/-- The call has arrived or is on its way, it has one outcome, and it is not lost. -/
theorem Awaits.arrives (h : x.Awaits place a) : ∃ told : Option Call,
    x.session.client.arrivals place = told.toList ∧
      (∀ c ∈ told, ∃ seq outcome, c = ({ a.call with seq } : Call).finish outcome) ∧
      ∃ m, x.session.client.mailboxes[place]? = some m ∧ x.received ++ m.held = told.toList ∧
        m.handles + told.toList.length = 1 := by
  obtain ⟨m, hholds, hheard⟩ := h.holds
  obtain ⟨seq, hissued⟩ := h.issued
  obtain ⟨told, harrivals, hcalls⟩ := h.sits.books.arrivals_perm place
  have hcounted := hholds.counted
  rw [h.own, hissued, Nat.zero_add, List.length_singleton] at hcounted
  have hfinished : x.finished.length = (x.session.client.arrivals place).length := by
    rw [← hholds.arrived, List.length_map]
  have hadmitted : x.admitted = x.session.client.arrivals place := by
    have hall := hholds.roomy hheard (by rw [defaultCapacity]; omega)
    rw [admitted, List.filter_eq_self.mpr hall, hholds.arrived]
  have hkept := hholds.kept hheard
  rw [hadmitted] at hkept
  -- There is one call to come at most, and it is the one that was made.
  obtain ⟨one, hone⟩ : ∃ one : Option Call,
      x.session.client.arrivals place = one.toList := by
    cases harrived : x.session.client.arrivals place with
    | nil => exact ⟨none, rfl⟩
    | cons c rest =>
        rw [harrived, List.length_cons] at hcounted
        have hrest : rest = [] := List.length_eq_zero_iff.mp (by omega)
        exact ⟨some c, by rw [hrest]; rfl⟩
  refine ⟨one, hone, ?_, m, hholds.found, hone ▸ hkept, hone ▸ hcounted⟩
  rintro c ⟨⟩
  have hc : c ∈ x.session.client.arrivals place := by simp [hone]
  obtain ⟨⟨p, outcome⟩, htold, rfl⟩ := List.mem_map.mp (harrivals.mem_iff.mp hc)
  have hp : p ∈ x.issued place :=
    hcalls.mem_iff.mp (List.mem_append_right _ (List.mem_map_of_mem htold))
  rw [hissued, List.mem_singleton] at hp
  exact ⟨seq, outcome, by rw [hp]⟩

/-! ## The life with the caller -/

/-- The caller's mailbox holds what arrived there, until the caller has taken it. -/
inductive Minds (place i : Nat) (s : Session κ) (m : Mailbox) : Prop
  | waiting (hcaller : s.callers[i]? = some (.waiting place))
      (hheld : m.held = s.client.arrivals place)
  | finished {c : Call} (hcaller : s.callers[i]? = some (.finished c.result))
      (hgone : s.client.arrivals place = [c])

/-- A caller who has made its call, beside somebody for whom it was made with `go`. -/
structure Attends (place i : Nat) (s : Session κ) (x : Shared κ) : Prop where
  beyond : s.Beyond place (some i) (x.session.withCaller i (.waiting place))
  mailbox : ∃ m, s.client.mailboxes[place]? = some m ∧ m.capacity = 1 ∧ m.listening = true ∧
    Minds place i s m

/-- A caller who was turned away, beside somebody whose call was. -/
structure Declined (place i : Nat) (a : Ask) (s : Session κ) (x : Shared κ) : Prop where
  isOver : s.client.isOver = true
  bare : s.bare = x.session.bare
  caller : s.callers[i]? = some (.finished (.error .shutdown))
  told : a.call.finish (.error .shutdown) ∈ x.session.client.arrivals place

variable {s : Session κ}

theorem Attends.lt (h : Attends place i s x) : i < x.session.callers.length := by
  obtain ⟨_, hcaller, _⟩ := h.beyond.served' i rfl
  have hlt := (List.getElem?_eq_some_iff.mp hcaller).1
  rwa [Session.withCaller, List.length_set] at hlt

theorem Attends.lt' (h : Attends place i s x) : i < s.callers.length := by
  obtain ⟨_, hcaller, _⟩ := h.beyond.served i rfl
  exact (List.getElem?_eq_some_iff.mp hcaller).1

theorem Attends.arrivals (h : Attends place i s x) :
    s.client.arrivals place = x.session.client.arrivals place :=
  h.beyond.client.arrivals

/-- What the caller finds in its mailbox is what has arrived. -/
theorem Attends.recv (h : Attends place i s x) {told : Option Call} {m : Mailbox}
    (htold : x.session.client.arrivals place = told.toList)
    (hm : x.session.client.mailboxes[place]? = some m)
    (hhandles : m.handles + told.toList.length = 1)
    (hcaller : s.callers[i]? = some (.waiting place)) : s.client.recv place = .ofCall told := by
  obtain ⟨b, hb, _, _, hminds⟩ := h.mailbox
  obtain ⟨b', m', hb', hm', heq⟩ := h.beyond.client.own
  obtain rfl : b = b' := Option.some.inj (hb.symm.trans hb')
  obtain rfl : m = m' := Option.some.inj (hm.symm.trans hm')
  refine Client.recv_of_mailbox hb ?_ (heq ▸ hhandles)
  cases hminds with
  | waiting _ hheld => rw [hheld, h.arrivals, htold]
  | finished hfinished =>
      rw [hcaller] at hfinished
      cases hfinished

/-- The caller takes the call that is there, and waits on if there is none. -/
theorem stepCaller_of_recv {told : Option Call} (hcaller : s.callers[i]? = some (.waiting place))
    (hrecv : s.client.recv place = .ofCall told) :
    (s.stepCaller i).2 = s ∧ told = none ∨
      ∃ c client, told = some c ∧ s.client.takeCall place = some (c, client) ∧
        (s.stepCaller i).2 =
          { s with client, callers := s.callers.set i (.finished c.result) } := by
  cases htake : s.client.takeCall place with
  | none =>
      left
      cases hclosed : s.client.isClosed place <;>
        cases told <;> simp_all [Client.recv, Poll.ofCall, Session.stepCaller]
  | some taken =>
      obtain ⟨c, client⟩ := taken
      right
      cases told with
      | none => simp [Client.recv, htake, Poll.ofCall] at hrecv
      | some c' =>
          obtain rfl : c = c' := by simpa [Client.recv, htake, Poll.ofCall] using hrecv
          exact ⟨c, client, rfl, rfl, by simp [Session.stepCaller, hcaller, htake]⟩

/-- A step of the caller. -/
theorem attends_step (h : Attends place i s x) (hx : x.Awaits place a) :
    Attends place i (s.stepCaller i).2 x := by
  have hbeyond := h.beyond.stepOwner rfl
  obtain ⟨told, htold, _, m', hm', _, hhandles⟩ := hx.arrives
  obtain ⟨m, hm, hcapacity, hheard, hminds⟩ := h.mailbox
  cases hminds with
  | @finished c hfinished hgone =>
      have hstep : (s.stepCaller i).2 = s := by simp [Session.stepCaller, hfinished]
      rw [hstep]
      exact h
  | waiting hwaiting hheld =>
      rcases stepCaller_of_recv hwaiting (h.recv htold hm' hhandles hwaiting) with
        ⟨hsame, _⟩ | ⟨c, client, rfl, htake, hstep⟩
      · rw [hsame]
        exact h
      · rw [Client.takeCall_eq hm] at htake
        obtain ⟨_, _, heq⟩ := Option.map_eq_some_iff.mp htake
        cases heq
        refine ⟨hbeyond, m.next, ?_⟩
        rw [hstep]
        refine ⟨List.getElem?_set_self h.beyond.client.lt, hcapacity, hheard, ?_⟩
        exact .finished (List.getElem?_set_self h.lt') (h.arrivals.trans htold)

section Deeds

variable [Codec κ] [Surroundings ω κ] {s : Session κ} {d : Deed ω}

theorem issued_perform (hplace : place < x.session.client.mailboxes.length)
    (hasks : d.asks place = false) : (x.perform place d).issued place = x.issued place := by
  have hnone := Session.length_notices hplace d
  rw [hasks, Bool.toNat_false, List.length_eq_zero_iff, List.filter_append,
    List.append_eq_nil_iff] at hnone
  change (x.toHistory.perform d).issued place = _
  rw [History.issued, History.issued, History.registered_perform, History.refused_perform]
  simp only [List.filter_append, hnone.1, hnone.2, List.append_nil]

theorem awaits_perform (h : x.Awaits place a)
    (hd : d.spares place = true ∨ d = .take place)
    (few : (x.perform place d).registered.length < 2 ^ 64) : (x.perform place d).Awaits place a := by
  obtain ⟨hasks, hlets, hlistening⟩ := Deed.frame_spares hd
  obtain ⟨m, hholds, hheard⟩ := h.holds
  obtain ⟨seq, hissued⟩ := h.issued
  have hsits := sits_perform h.sits hholds.lt d few
  refine ⟨hsits, ?_, ⟨seq, ?_⟩, ?_⟩
  · change x.own - (d.letsGo place).toNat = 0
    rw [h.own, Nat.zero_sub]
  · rw [issued_perform hholds.lt hasks, hissued]
  · obtain ⟨m', hholds'⟩ := holds_perform hholds h.sits d hsits (by simp [hasks, hlets])
    obtain ⟨calls, _, hmailbox⟩ := Session.delivers_perform hholds.lt h.sits.apart d
    have hfound := hholds'.found
    change (x.session.perform d).client.mailboxes[place]? = _ at hfound
    rw [hmailbox, hholds.found, Option.map_some] at hfound
    refine ⟨m', hholds', ?_⟩
    rw [← Option.some.inj hfound, (Mailbox.frame_deliver calls _).2.1, hlistening, hheard]

/-- A deed of anybody else. -/
theorem attends_perform (h : Attends place i s x)
    (hlater : (x.perform place d).Awaits place a) (hspares : d.spares place = true)
    (hcaller : ∀ now, d ≠ .task (.caller i) now) :
    Attends place i (s.perform d) (x.perform place d) := by
  have hbeyond := h.beyond.perform (Deed.consumes_of_spares hspares hcaller)
  rw [Session.perform_withCaller h.lt _ hcaller] at hbeyond
  refine ⟨hbeyond, ?_⟩
  obtain ⟨m, hm, hcapacity, hheard, hminds⟩ := h.mailbox
  obtain ⟨calls, harrivals, hmailbox⟩ :=
    Session.delivers_beside h.beyond.client.lt h.lt' h.beyond.elsewhere hcaller
  rw [Deed.touch_of_spares hspares, hm, Option.map_some] at hmailbox
  obtain ⟨told, htold, _⟩ := hlater.arrives
  -- No second call comes.
  have hone : (s.client.arrivals place ++ calls).length ≤ 1 := by
    have hsame : (s.perform d).client.arrivals place = told.toList :=
      hbeyond.client.arrivals.trans htold
    rw [← harrivals, hsame]
    cases told <;> simp
  have hsame := Session.caller_perform h.lt' hcaller
  refine ⟨m.deliver calls, hmailbox, ?_, ?_, ?_⟩
  · rw [(Mailbox.frame_deliver calls m).1, hcapacity]
  · rw [(Mailbox.frame_deliver calls m).2.1, hheard]
  · cases hminds with
    | waiting hwaiting hheld =>
        refine .waiting (hsame.trans hwaiting) ?_
        rw [Mailbox.held_deliver_all hheard, harrivals, hheld]
        rwa [hheld, hcapacity, ← List.length_append]
    | @finished c hfinished hgone =>
        refine .finished (hsame.trans hfinished) ?_
        rw [hgone, List.length_append, List.length_singleton] at hone
        obtain rfl : calls = [] := List.length_eq_zero_iff.mp (by omega)
        rw [harrivals, hgone, List.append_nil]

/-- The other one is received from. -/
theorem attends_take (h : Attends place i s x) :
    Attends place i s (x.perform place (.take place : Deed ω)) := by
  refine ⟨?_, h.mailbox⟩
  have hconsumes : (.take place : Deed ω).consumes place (some i) = true := by simp [Deed.consumes]
  have hbeyond := (h.beyond.symm.consume hconsumes).1.symm
  rwa [Session.perform_withCaller h.lt _ (by simp)] at hbeyond

/-- What has arrived stays. -/
theorem mem_arrivals_perform (hx : x.Awaits place a) {c : Call}
    (hc : c ∈ x.session.client.arrivals place) (d : Deed ω) :
    c ∈ (x.perform place d).session.client.arrivals place := by
  obtain ⟨m, hholds, _⟩ := hx.holds
  obtain ⟨calls, harrivals, _⟩ := Session.delivers_perform hholds.lt hx.sits.apart d
  change c ∈ (x.session.perform d).client.arrivals place
  rw [harrivals]
  exact List.mem_append_left _ hc

theorem declined_perform (h : Declined place i a s x) (hx : x.Awaits place a) (f : Nat → Nat)
    (d : Deed ω) : Declined place i a (s.perform d) (x.perform place (d.relocate f)) := by
  have hover : x.session.client.isOver = true :=
    (Client.isOver_of_bare (Session.exists_of_bare h.bare).1).trans h.isOver
  have hbare : (s.perform d).bare = (x.session.perform (d.relocate f)).bare := by
    cases haside : d.isAside with
    | true =>
        have haside' := (d.isAside_relocate f).trans haside
        rw [Session.bare_perform_of_over h.isOver haside,
          Session.bare_perform_of_over hover haside', h.bare]
    | false =>
        rw [d.relocate_of_not_aside f haside]
        exact Session.perform_of_bare h.bare haside
  refine ⟨?_, hbare, Session.finished_perform h.caller d,
    mem_arrivals_perform hx h.told _⟩
  have honward := Session.Onward.change (Session.change_of_perform hx.sits.honest (d.relocate f))
  exact (Client.isOver_of_bare (Session.exists_of_bare hbare.symm).1).trans (honward.isOver hover)

theorem declined_take (h : Declined place i a s x) (hx : x.Awaits place a) :
    Declined place i a s (x.perform place (.take place : Deed ω)) := by
  have hover : x.session.client.isOver = true :=
    (Client.isOver_of_bare (Session.exists_of_bare h.bare).1).trans h.isOver
  have hsame := Session.bare_perform_of_over (d := (.take place : Deed ω)) hover rfl
  exact ⟨h.isOver, h.bare.trans hsame.symm, h.caller, mem_arrivals_perform hx h.told _⟩

end Deeds

/-! ## The two lives -/

/-- How the two lives stand to each other: the caller made its call, or it was turned
away. -/
inductive Alongside (place i : Nat) (f : Nat → Nat) (a : Ask) (s : Session κ) (x : Shared κ) : Prop
  | attends (hf : f = id) (h : Attends place i s x)
  | declined (h : Declined place i a s x)

/-- What is known of one call in both lives: `told` is the finished call, if it has
arrived. -/
structure SameOutcome (place i : Nat) (a : Ask) (s : Session κ) (x : Shared κ)
    (told : Option Call) : Prop where
  /-- The table, the next number, the flags, and what is read and written. -/
  same : s.bare = x.session.bare
  /-- The caller waits at a mailbox that holds the call if it has arrived and is not
  closed, or it was given the result of the call. -/
  caller : s.callers[i]? = some (.waiting place) ∧ s.client.recv place = .ofCall told ∨
    ∃ c, told = some c ∧ s.callers[i]? = some (.finished c.result)
  /-- With its next step the caller has what there is. -/
  next : (s.stepCaller i).2.callers[i]? =
    some (told.elim (.waiting place) fun c => .finished c.result)
  /-- So it is with the one who receives. -/
  received : x.received = [] ∧ x.session.client.recv place = .ofCall told ∨
    ∃ c, told = some c ∧ x.received = [c]
  /-- It is the call that was made, with one outcome. -/
  asked : ∀ c ∈ told, ∃ seq outcome, c = ({ a.call with seq } : Call).finish outcome
  settled : ∀ c ∈ told, c.reply.isSome = !c.error.isSome

theorem settled_of_asked {c : Call} {seq : Option UInt64} {outcome : Except CallError Wire.Value}
    (h : c = ({ a.call with seq } : Call).finish outcome) : c.reply.isSome = !c.error.isSome := by
  cases outcome <;> simp [h, Call.finish, Ask.call]

section Outcome

variable {s : Session κ} {f : Nat → Nat} {told : Option Call} {m : Mailbox}

/-- The caller still waits for the call, or has been given its result. -/
theorem Alongside.caller (h : Alongside place i f a s x)
    (htold : x.session.client.arrivals place = told.toList)
    (hm : x.session.client.mailboxes[place]? = some m)
    (hhandles : m.handles + told.toList.length = 1) :
    s.callers[i]? = some (.waiting place) ∧ s.client.recv place = .ofCall told ∨
      ∃ c, told = some c ∧ s.callers[i]? = some (.finished c.result) := by
  cases h with
  | declined h =>
      have harrived := h.told
      rw [htold, Option.mem_toList] at harrived
      exact .inr ⟨_, harrived, h.caller⟩
  | attends _ h =>
      obtain ⟨_, _, _, _, hminds⟩ := h.mailbox
      cases hminds with
      | waiting hwaiting => exact .inl ⟨hwaiting, h.recv htold hm hhandles hwaiting⟩
      | @finished c hfinished hgone =>
          rw [h.arrivals, htold] at hgone
          have hc : told = some c := by
            cases told with
            | none => cases hgone
            | some c' => exact congrArg some (List.cons.inj hgone).1
          exact .inr ⟨c, hc, hfinished⟩

/-- The call is still in the mailbox, or has been received. -/
theorem received_cases (hm : x.session.client.mailboxes[place]? = some m)
    (hkept : x.received ++ m.held = told.toList)
    (hhandles : m.handles + told.toList.length = 1) :
    x.received = [] ∧ x.session.client.recv place = .ofCall told ∨
      ∃ c, told = some c ∧ x.received = [c] := by
  cases hfirst : x.received with
  | nil =>
      rw [hfirst, List.nil_append] at hkept
      exact .inl ⟨rfl, Client.recv_of_mailbox hm hkept hhandles⟩
  | cons c rest =>
      rw [hfirst] at hkept
      cases told with
      | none => cases hkept
      | some c' =>
          obtain ⟨rfl, hrest⟩ := List.cons.inj hkept
          exact .inr ⟨c, rfl, by rw [(List.append_eq_nil_iff.mp hrest).1]⟩

theorem exists_sameOutcome (h : Alongside place i f a s x) (hx : x.Awaits place a) :
    ∃ told, SameOutcome place i a s x told := by
  obtain ⟨told, htold, hasked, m, hm, hkept, hhandles⟩ := hx.arrives
  have hcaller := h.caller htold hm hhandles
  refine ⟨told, ?_, hcaller, ?_, received_cases hm hkept hhandles, hasked, ?_⟩
  · cases h with
    | attends _ h => exact h.beyond.bare
    | declined h => exact h.bare
  · rcases hcaller with ⟨hwaiting, hrecv⟩ | ⟨c, rfl, hfinished⟩
    · rcases stepCaller_of_recv hwaiting hrecv with ⟨hsame, rfl⟩ | ⟨c, client, rfl, _, hstep⟩
      · rw [hsame, hwaiting]
        rfl
      · rw [hstep]
        exact List.getElem?_set_self (List.getElem?_eq_some_iff.mp hwaiting).1
    · simp [Session.stepCaller, hfinished]
  · intro c hc
    obtain ⟨seq, outcome, heq⟩ := hasked c hc
    exact settled_of_asked heq

end Outcome

section Run

variable [Codec κ] [Surroundings ω κ]

/-- What is done one after the other. -/
def performAll (place : Nat) (deeds : List (Deed ω)) (x : Shared κ) : Shared κ :=
  deeds.foldl (fun x d => x.perform place d) x

theorem few_of_performAll {deeds : List (Deed ω)} {bound : Nat}
    (few : (x.performAll place deeds).registered.length < bound) :
    x.registered.length < bound := by
  induction deeds generalizing x with
  | nil => exact few
  | cons d deeds ih => exact History.few_of_perform (ih few)

theorem alongside_run {s : Session κ} {f : Nat → Nat} {deeds deeds' : List (Deed ω)}
    (hparallel : Session.Parallel place i f deeds deeds') (h : Alongside place i f a s x)
    (hx : x.Awaits place a) (few : (x.performAll place deeds').registered.length < 2 ^ 64) :
    Alongside place i f a (deeds.foldl (fun s d => s.perform d) s) (x.performAll place deeds') ∧
      (x.performAll place deeds').Awaits place a := by
  induction hparallel generalizing s x with
  | done => exact ⟨h, hx⟩
  | @both d _ _ hcaller hspares _ ih =>
      have hlater := awaits_perform hx (.inl hspares) (few_of_performAll few)
      refine ih ?_ hlater few
      cases h with
      | attends hf h =>
          rw [hf, Deed.relocate_id] at hlater hspares ⊢
          exact .attends rfl (attends_perform h hlater hspares hcaller)
      | declined h => exact .declined (declined_perform h hx _ d)
  | step now _ ih =>
      refine ih ?_ hx few
      cases h with
      | attends hf h => exact .attends hf (attends_step h hx)
      | declined h =>
          have hstep : (s.stepCaller i).2 = s := by simp [Session.stepCaller, h.caller]
          refine .declined ?_
          change Declined _ i a (s.stepCaller i).2 x
          rw [hstep]
          exact h
  | receive _ ih =>
      refine ih ?_ (awaits_perform hx (.inr rfl) (few_of_performAll few)) few
      cases h with
      | attends hf h => exact .attends hf (attends_take h)
      | declined h => exact .declined (declined_take h hx)

/-- The life with `go` when the call has just been made. -/
def ofGo (codec : κ) (before : List (Deed ω)) (a : Ask) : Shared κ :=
  let h := History.run codec (before ++ [.go a])
  { toHistory := h
    own := 0
    finished := (h.session.client.arrivals
      (History.run codec before).session.client.mailboxes.length).map (·, true) }

/-- The life with `go`: whatever was done before, the call is made, and then whatever
is done. -/
def goThen (codec : κ) (before : List (Deed ω)) (a : Ask) (deeds : List (Deed ω)) : Shared κ :=
  (ofGo codec before a).performAll (History.run codec before).session.client.mailboxes.length deeds

theorem toHistory_performAll (place : Nat) (deeds : List (Deed ω)) (x : Shared κ) :
    (x.performAll place deeds).toHistory = deeds.foldl History.perform x.toHistory := by
  induction deeds generalizing x with
  | nil => rfl
  | cons d deeds ih => exact ih (x.perform place d)

theorem toHistory_goThen (codec : κ) (before : List (Deed ω)) (a : Ask) (deeds : List (Deed ω)) :
    (goThen codec before a deeds).toHistory = History.run codec (before ++ .go a :: deeds) := by
  rw [goThen, toHistory_performAll, List.append_cons, History.run, List.foldl_append]
  rfl

section Start

variable (codec : κ) (before : List (Deed ω)) (a : Ask)

/-- Nothing was made for the mailbox that comes next. -/
theorem issued_next :
    (History.run codec before).issued (History.run codec before).session.client.mailboxes.length =
      [] := by
  refine List.filter_eq_nil_iff.mpr fun p hp => ?_
  simpa using Nat.ne_of_lt (History.housed_run codec before p hp)

theorem arrivals_next (few : (History.run codec before).registered.length < 2 ^ 64) :
    (History.run codec before).session.client.arrivals
      (History.run codec before).session.client.mailboxes.length = [] := by
  obtain ⟨told, harrivals, hissued⟩ := (History.books_run codec before few).arrivals_perm
    (History.run codec before).session.client.mailboxes.length
  have hnone := issued_next codec before
  rw [History.issued] at hnone
  rw [hnone, List.perm_nil, List.append_eq_nil_iff, List.map_eq_nil_iff] at hissued
  rw [hissued.2] at harrivals
  exact harrivals.eq_nil

theorem issued_ofGo : ∃ seq,
    (ofGo codec before a).issued (History.run codec before).session.client.mailboxes.length =
      [⟨{ a.call with seq }, a.shape,
        (History.run codec before).session.client.mailboxes.length⟩] := by
  have hnone := issued_next codec before
  rw [History.issued, List.filter_append, List.append_eq_nil_iff] at hnone
  change ∃ seq, (History.run codec (before ++ [.go a])).issued _ = _
  rw [History.run_append_singleton, History.issued, History.registered_perform,
    History.refused_perform]
  simp only [List.filter_append, hnone.1, hnone.2, Session.notices, Session.noteCall]
  cases (History.run codec before).session.client.isOver with
  | true => exact ⟨none, by simp [Ask.pending, Ask.call]⟩
  | false => exact ⟨some _, by simp [Ask.pending]; rfl⟩

theorem session_ofGo : (ofGo codec before a).session =
    (History.run codec before).session.perform (.go a : Deed ω) := by
  change (History.run codec (before ++ [.go a])).session = _
  rw [History.run_append_singleton]
  rfl

theorem sits_ofGo (few : (ofGo codec before a).registered.length < 2 ^ 64) :
    (ofGo codec before a).Sits (History.run codec before).session.client.mailboxes.length := by
  refine ⟨History.isHonest_run codec _, ?_, History.books_run codec _ few⟩
  intro hwaiting
  have hcallers : ((History.run codec before).session.perform (.go a : Deed ω)).callers =
      (History.run codec before).session.callers := by
    simp [Session.perform, Session.go]
  rw [session_ofGo, hcallers] at hwaiting
  exact Nat.lt_irrefl _ (History.waiting_lt_run codec before _ hwaiting)

/-- What arrives while the call is made, one call at most, is in its mailbox. -/
theorem delivered_ofGo (few : (ofGo codec before a).registered.length < 2 ^ 64) :
    ∃ calls : List Call, calls.length ≤ 1 ∧
      (ofGo codec before a).session.client.arrivals
        (History.run codec before).session.client.mailboxes.length = calls ∧
      (ofGo codec before a).session.client.mailboxes[
        (History.run codec before).session.client.mailboxes.length]? =
          some (Mailbox.deliver calls { capacity := defaultCapacity, handles := 1 }) := by
  have hfew := (sits_ofGo codec before a few).length_le
  obtain ⟨seq, hissued⟩ := issued_ofGo codec before a
  rw [hissued, List.length_singleton] at hfew
  have hclient : (ofGo codec before a).session.client =
      (((History.run codec before).session.client.addMailbox
        { capacity := defaultCapacity, handles := 0 }).2.issue a.call a.shape
        (History.run codec before).session.client.mailboxes.length).2 := by
    rw [session_ofGo]
    exact (Session.frame_issue ..).1
  obtain ⟨calls, harrivals, hmailbox⟩ := (History.run codec before).session.client.delivers_own
    defaultCapacity a.call a.shape
  rw [← hclient] at harrivals hmailbox
  rw [arrivals_next codec before (History.few_of_later few), List.nil_append] at harrivals
  rw [harrivals] at hfew
  exact ⟨calls, hfew, harrivals, hmailbox⟩

theorem awaits_ofGo (few : (ofGo codec before a).registered.length < 2 ^ 64) :
    (ofGo codec before a).Awaits (History.run codec before).session.client.mailboxes.length a := by
  obtain ⟨seq, hissued⟩ := issued_ofGo codec before a
  obtain ⟨calls, hone, harrivals, hmailbox⟩ := delivered_ofGo codec before a few
  obtain ⟨hcapacity, hheard, hhandles⟩ :=
    Mailbox.frame_deliver calls { capacity := defaultCapacity, handles := 1 }
  have hheld : (Mailbox.deliver calls { capacity := defaultCapacity, handles := 1 }).held =
      calls := by
    refine Mailbox.held_deliver_all rfl ?_
    change 0 + calls.length ≤ 10
    omega
  have hfinished : (ofGo codec before a).finished = calls.map (·, true) := by
    rw [← harrivals]
    rfl
  have hadmitted : (ofGo codec before a).admitted = calls := by
    rw [admitted, hfinished]
    simp [List.filter_map, Function.comp_def]
  refine ⟨sits_ofGo codec before a few, rfl, ⟨seq, hissued⟩, _,
    ⟨hmailbox, hcapacity, ?_, ?_, ?_, ?_, ?_, ?_, ?_⟩, hheard⟩
  · rw [hheld, defaultCapacity]
    omega
  · rw [hfinished, harrivals, List.map_map]
    exact List.map_id _
  · intro _
    rw [hadmitted, hheld]
    rfl
  · intro hdeaf
    rw [hheard] at hdeaf
    cases hdeaf
  · exact List.nil_prefix
  · rw [hhandles, harrivals, hissued, List.length_singleton]
    change 1 - calls.length + calls.length = 0 + 1
    omega
  · intro _ _ f hf
    rw [hfinished] at hf
    obtain ⟨_, _, rfl⟩ := List.mem_map.mp hf
    rfl

variable {codec before a}

/-- A caller who is not turned away makes the same call. -/
theorem attends_ofGo (few : (ofGo codec before a).registered.length < 2 ^ 64)
    (hi : i < (History.run codec before).session.callers.length) :
    Attends (History.run codec before).session.client.mailboxes.length i
      (((History.run codec before).session.opened i 1).issue a.call a.shape
        (History.run codec before).session.client.mailboxes.length) (ofGo codec before a) := by
  have hnone := arrivals_next codec before (History.few_of_later few)
  have hwaiting := History.waiting_lt_run codec before
  obtain ⟨told, htold, _⟩ := (awaits_ofGo codec before a few).arrives
  have hsession : (ofGo codec before a).session =
      ((History.run codec before).session.go a.call a.shape).2 := session_ofGo codec before a
  generalize (History.run codec before).session = s at *
  have hbeyond : ((s.opened i 1).issue a.call a.shape s.client.mailboxes.length).Beyond
      s.client.mailboxes.length (some i)
      ((ofGo codec before a).session.withCaller i (.waiting s.client.mailboxes.length)) := by
    rw [hsession, Session.go_withCaller]
    exact (Session.beyond_opened hi hwaiting 1 defaultCapacity).issue _ _ _
  obtain ⟨calls, harrivals, hmailbox⟩ := s.client.delivers_own 1 a.call a.shape
  have hclient : ((s.opened i 1).issue a.call a.shape s.client.mailboxes.length).client =
      ((s.client.addMailbox { capacity := 1, handles := 0 }).2.issue a.call a.shape
        s.client.mailboxes.length).2 := (Session.frame_issue ..).1
  rw [hnone, List.nil_append, ← hclient] at harrivals
  rw [← hclient] at hmailbox
  have hone : calls.length ≤ 1 := by
    rw [← harrivals, hbeyond.client.arrivals]
    change ((ofGo codec before a).session.client.arrivals _).length ≤ 1
    rw [htold]
    cases told <;> simp
  obtain ⟨hcapacity, hheard, _⟩ := Mailbox.frame_deliver calls { capacity := 1, handles := 1 }
  refine ⟨hbeyond, _, hmailbox, hcapacity, hheard, .waiting ?_ ?_⟩
  · rw [(Session.frame_issue ..).2.2.2.2]
    exact List.getElem?_set_self hi
  · rw [harrivals]
    exact Mailbox.held_deliver_all rfl (by simpa using hone)

/-- A caller who is turned away is told what the call with `go` is told. -/
theorem declined_ofGo
    (hcaller : (History.run codec before).session.callers[i]? = some (.fresh a.call a.shape))
    (hover : (History.run codec before).session.client.isOver = true) :
    Declined (History.run codec before).session.client.mailboxes.length i a
      ((History.run codec before).session.stepCaller i).2 (ofGo codec before a) := by
  have hsession := session_ofGo codec before a
  generalize (History.run codec before).session = s at *
  have hi : i < s.callers.length := (List.getElem?_eq_some_iff.mp hcaller).1
  have hdown := Session.turnsDown_perform (d := (.go a : Deed ω)) hover rfl
  rw [Session.stepCaller_of_over hover hcaller]
  refine ⟨hover, ?_, List.getElem?_set_self hi, ?_⟩
  · rw [hsession, Session.bare_perform_of_over hover rfl]
    rfl
  · rw [hsession, Client.arrivals, hdown.told]
    simp [Pending.signal, Ask.pending]

end Start

/-- A caller is given the result of the call that is received when the same call is made
with `go`, whatever the others do, and nobody else sees a difference. -/
theorem same_outcome (codec : κ) (before : List (Deed ω)) {i : Nat} {a : Ask} {s : Session κ}
    {f : Nat → Nat}
    (hcaller : (History.run codec before).session.callers[i]? = some (.fresh a.call a.shape))
    (hbegins : (History.run codec before).session.Begins i a s f) {deeds deeds' : List (Deed ω)}
    (hparallel : Session.Parallel (History.run codec before).session.client.mailboxes.length i f
      deeds deeds')
    (few : (History.run codec (before ++ .go a :: deeds')).registered.length < 2 ^ 64) :
    let place := (History.run codec before).session.client.mailboxes.length
    let x := goThen codec before a deeds'
    x.toHistory = History.run codec (before ++ .go a :: deeds') ∧
      ∃ told, SameOutcome place i a (deeds.foldl (fun s d => s.perform d) s) x told := by
  intro place x
  have hhistory := toHistory_goThen codec before a deeds'
  refine ⟨hhistory, ?_⟩
  have hfew : x.registered.length < 2 ^ 64 := by rwa [hhistory]
  have hstart : Alongside place i f a s (ofGo codec before a) := by
    have hi := (List.getElem?_eq_some_iff.mp hcaller).1
    have hattends := attends_ofGo (few_of_performAll hfew) hi
    cases hbegins with
    | late => exact .attends rfl hattends
    | step =>
        cases hover : (History.run codec before).session.client.isOver with
        | true => exact .declined (declined_ofGo hcaller hover)
        | false =>
            rw [Session.stepCaller_of_open hcaller hover, Session.shift_of_open hover]
            exact .attends rfl hattends
  obtain ⟨hend, hawaits⟩ :=
    alongside_run hparallel hstart (awaits_ofGo codec before a (few_of_performAll hfew)) hfew
  exact exists_sameOutcome hend hawaits

/-- One is answered while the caller waits, and while nobody has received yet. -/
theorem same_outcome_of_answer :
    let ask : Ask := ⟨0, "Arith.Multiply", .unit, .unit⟩
    let answer : Deed (List Cue) := .outside [.header ⟨"Arith.Multiply", 0, ""⟩, .body .unit]
    let deeds : List (Deed (List Cue)) :=
      [answer, .task .receiver 0, .task (.caller 0) 0, .task .receiver 0, .task (.caller 0) 0]
    let deeds' : List (Deed (List Cue)) :=
      [.take 0, answer, .task .receiver 0, .task .receiver 0, .take 0]
    let before : List (Deed (List Cue)) := [.call ask]
    let s := ((History.run ({} : Rehearsal) before).session.stepCaller 0).2
    let x := goThen ({} : Rehearsal) before ask deeds'
    x.received.map (·.result.toOption.isSome) = [true] ∧
      ∃ told, SameOutcome 0 0 ask (deeds.foldl (fun s d => s.perform d) s) x told := by
  intro ask answer deeds deeds' before s x
  have hcaller : (History.run ({} : Rehearsal) before).session.callers[0]? =
      some (.fresh ask.call ask.shape) := rfl
  have hparallel : Session.Parallel 0 0 id deeds deeds' :=
    .receive (.both (by simp [answer]) rfl (.both (by simp) rfl (.step 0 (.both (by simp) rfl
      (.step 0 (.receive .done))))))
  have hsame := same_outcome ({} : Rehearsal) before hcaller .step hparallel
    (by decide +kernel)
  exact ⟨by decide +kernel, hsame.2⟩

end Run

end Shared

end Switchboard
