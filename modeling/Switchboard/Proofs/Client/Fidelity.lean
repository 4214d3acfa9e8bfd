import Switchboard.Proofs.Client.Conversation

/-!
# Whatever is told is the right answer

A conversation keeps an account of itself (`Account`): which answers were read
and which were not, where the receiver stands in the frames of the next one, and
what the calls were told. The account is kept by every event as long as nothing
takes too long and the service answers in frames that fit (`Regular`). Its heart
is one argument. The next answer that the receiver meets is to a request that
the service heard, so a registered call asked it; as no request is answered
twice and a call is told only what it asked or that it cannot ask at all, this
call still waits (`Account.waiting`).
-/

namespace Switchboard

open Session (Deed Notice)

/-- Whoever closes nothing and is on this side is quiet and brings nothing. -/
theorem Session.quiet_of_isOwn {d : Deed Script.Twist} (h : d.isOwn = true) :
    d.IsQuiet ∧ d.arrivals = [] := by
  cases d with
  | close | hangUp | outside => cases h
  | go | goWith | call | completion | take | dropHandle | deafen | task => exact ⟨trivial, rfl⟩

/-! ## Frames of answers -/

/-- A header that can be read does not end the reading, nor does a body. -/
theorem digest_ne_ended {payload : ByteArray} {receiver : Receiver} (c : Client)
    (hreceiver : receiver ≠ .ended)
    (hheader : receiver = .header → ∃ response, Wire.Response.decode payload = .ok response) :
    (digest payload (c, receiver)).2 ≠ .ended := by
  cases receiver with
  | header =>
      obtain ⟨response, hdecode⟩ := hheader rfl
      simp only [digest, hdecode]
      cases c.remove response.seq with
      | none => simp
      | some found => exact Receiver.answering_ne _ _ (by simp) (by simp)
  | body | unknown | errorBody => simp [digest]
  | ended => exact absurd rfl hreceiver

theorem Whereabouts.signals {p : Pending} {seq : UInt64} {entries : List (UInt64 × Pending)}
    {held : List Pending} {signals : List (Nat × Call)}
    (h : Whereabouts p seq entries held signals) :
    signals = [] ∨ ∃ outcome, signals = [p.signal outcome] := by
  cases h with
  | waiting | inHand => exact .inl rfl
  | completed outcome => exact .inr ⟨outcome, rfl⟩

/-- Who is in nobody's hands and was not told anything waits. -/
theorem Whereabouts.waiting_of_nil {p : Pending} {seq : UInt64}
    {entries : List (UInt64 × Pending)} (h : Whereabouts p seq entries [] []) :
    entries = [(seq, p)] := by
  cases h
  rfl

theorem Receiver.eq_header {r : Receiver} (hnone : r.awaited = none) (hr : r ≠ .ended) :
    r = .header := by
  cases r with
  | header => rfl
  | ended => exact absurd rfl hr
  | body | unknown | errorBody => cases hnone

/-- Where only data comes no read is broken off. -/
theorem History.Carries.unbroken {codec : Framed Script} {deeds : List (Deed Script.Twist)}
    {before after : List ByteArray} {taken : Octets} {s : Session (Framed Script)}
    {f : Framed Script} {error : LinkError} (h : Carries codec (before ++ after) deeds)
    (hplaced : Placed codec deeds before taken s)
    (hdata : ∀ event ∈ s.codec.link.incoming, ∃ front, event = .data front)
    (hread : Framed.ReadStep codec.inbound.limit s.receiver.skips taken s.codec
      (.done (.error error)) f) (hintime : error ≠ .timeout .receive) : False := by
  obtain ⟨hclosed, _⟩ := h.broken hplaced hread hintime
  cases hread with
  | awaited _ hpoll => rcases hpoll with hpoll | hpoll <;> cases hpoll
  | tooLarge | timeout => cases hclosed
  | ended p _ _ hend =>
      have hended : .ended ∉ s.codec.link.incoming := fun hmem => by
        obtain ⟨front, heq⟩ := hdata _ hmem
        cases heq
      have hmore := hend [.data [0]]
      rw [Framed.unread, Incoming.octets_append, if_neg hended] at hmore
      simp [Incoming.octets] at hmore
  | failed p fault hfailure =>
      obtain ⟨front, heq⟩ := hdata _ hfailure
      cases heq

/-! ## What the others do to the account -/

namespace Reference

theorem Knows.steps {calls : List Pending} {r : Reference} (h : r.Knows calls)
    (ns : List Notice) :
    (ns.foldl Reference.step r).Knows (calls ++ ns.filterMap Notice.registered?) := by
  induction ns generalizing calls r with
  | nil => exact h.mono []
  | cons n ns ih =>
      have hsplit : calls ++ (n :: ns).filterMap Notice.registered? =
          calls ++ n.registered?.toList ++ ns.filterMap Notice.registered? := by
        cases n <;> simp [List.filterMap_cons]
      rw [List.foldl_cons, hsplit]
      exact ih (h.step n)

theorem Truthful.beside {v : Service} {limit : Nat} {done rest : List Query} {r : Reference}
    {ns : List Notice} {c c' : Client} {receiver receiver' : Receiver}
    (h : r.Truthful v limit done rest)
    (hchange : Session.Change ns (c, receiver) (c', receiver')) (hreceiver : receiver' = receiver)
    (hown : ∀ seq error, .unsent seq error ∈ ns →
      ∀ p, r.table.lookup seq = some p → p.parcel.verdict limit = .error error) :
    (ns.foldl Reference.step r).Truthful v limit done rest := by
  cases hchange with
  | mailboxes | turnedAway | closed => exact h
  | @issued _ client _ p =>
      rw [Session.noteCall]
      split
      · exact h
      · exact h.register { p with call := { p.call with seq := some c.nextSeq } }
  | unsent _ _ seq error => exact h.unsent (hown seq error (List.mem_singleton_self _))
  | matched response p =>
      exact absurd hreceiver (Receiver.answering_ne p response (by simp) (by simp))
  | cancelled | noHeader | unmatched | replied | passed | notPassed | refuted | refutedLast =>
      cases hreceiver

end Reference

/-! ## The account -/

namespace History

/-- So far nothing took too long, the numbers last, and whatever a call asks is
answered in frames that fit and as the call expects. -/
structure Regular (v : Service) (o : Opening) (h : History (Framed Script)) : Prop where
  few : h.registered.length < 2 ^ 64
  readsInTime : h.InTime
  writesInTime : h.WritesInTime
  suits : ∀ p ∈ h.registered, ∀ q, p.parcel.query o.writeLimit = some q →
    v.Suits o.readLimit p.shape q

theorem Regular.earlier {v : Service} {o : Opening} {h : History (Framed Script)}
    {d : Deed Script.Twist} (hlater : (h.perform d).Regular v o) : h.Regular v o where
  few := few_of_perform hlater.few
  readsInTime hmem := hlater.readsInTime (List.mem_append_left _ hmem)
  writesInTime seq hmem := hlater.writesInTime seq (List.mem_append_left _ hmem)
  suits p hp := hlater.suits p (by
    rw [registered_perform]
    exact List.mem_append_left _ hp)

/-- A client whose reading goes on and that nobody closed leads a quiet life. -/
theorem Regular.quiet {v : Service} {o : Opening} {deeds : List (Deed Script.Twist)}
    (h : (run o.codec deeds).Regular v o) (hquiet : ∀ d ∈ deeds, d.IsQuiet)
    (hreading : (run o.codec deeds).session.receiver ≠ .ended) : Quiet o deeds where
  quiet := hquiet
  isOpen := by
    have hshutdown : (run o.codec deeds).session.client.shutdown = false := by
      by_contra hdown
      exact hreading ((isSettled_run o.codec deeds).ended.mpr (by simpa using hdown))
    rw [Client.isOver, hshutdown, unclosed_of_quiet o.codec hquiet]
    rfl
  inTime := h.writesInTime
  few := h.few

end History

namespace Conversation

open History (Placed Carries Quiet Regular)

structure Account (v : Service) (o : Opening) (c : Conversation) where
  deeds : List (Deed Script.Twist)
  /-- The frames of answers that were read. -/
  before : List ByteArray
  after : List ByteArray
  /-- What was taken of the next frame. -/
  taken : Octets
  /-- The requests whose answers were read as a whole. -/
  done : List Query
  rest : List Query
  /-- What the calls should have been told. -/
  reference : Reference
  client : c.client = History.run o.codec deeds
  quiet : ∀ d ∈ deeds, d.IsQuiet
  reading : c.client.session.receiver ≠ .ended
  asked : ∀ a ∈ c.answered, c.heard[a.1]? = some a.2
  once : (c.answered.map (·.1)).Nodup
  answers : c.answers = done ++ rest
  frames : c.answers.flatMap v.frames = before ++ after
  stream : Incoming.octets (History.arrivals deeds) ++ c.outgoing =
    (before ++ after).flatMap frameOctets
  placed : Placed o.codec deeds before taken c.client.session
  follows : reference.Follows after c.client.session.client c.client.session.receiver
  knows : reference.Knows c.client.registered
  truthful : reference.Truthful v o.writeLimit done rest

namespace Account

variable {v : Service} {o : Opening} {c : Conversation}

theorem start (v : Service) (o : Opening) : Nonempty (Account v o (run v o [])) := by
  refine ⟨⟨[], [], [], [], [], [], { frames := [] }, rfl, by simp, by simp [run], by simp [run],
    by simp [run], rfl, rfl, rfl, .start rfl, ⟨⟨rfl, rfl⟩, rfl, fun _ => rfl⟩, ?_, ?_⟩⟩
  · exact ⟨by simp, by simp, by simp⟩
  · exact ⟨.header [], by simp, by simp⟩

theorem life (a : Account v o c) (h : c.client.Regular v o) : Quiet o a.deeds := by
  have hreading := a.reading
  rw [a.client] at h hreading
  exact h.quiet a.quiet hreading

theorem life_perform (a : Account v o c) {d : Deed Script.Twist} (hquiet : d.IsQuiet)
    (hreading : (c.client.session.perform d).receiver ≠ .ended)
    (h : (c.client.perform d).Regular v o) : Quiet o (a.deeds ++ [d]) := by
  have hrun : c.client.perform d = History.run o.codec (a.deeds ++ [d]) := by
    rw [History.run_append_singleton, ← a.client]
  rw [hrun] at h
  refine h.quiet ?_ ?_
  · intro e he
    rcases List.mem_append.mp he with hold | hnew
    · exact a.quiet e hold
    · rw [List.mem_singleton.mp hnew]
      exact hquiet
  · rw [← hrun]
    exact hreading

theorem books (a : Account v o c) (h : c.client.Regular v o) :
    c.client.session.client.Books c.client.session.receiver.held c.client.registered
      c.client.refused := by
  have few := h.few
  rw [a.client] at few ⊢
  exact History.books_run o.codec a.deeds few

/-- Whoever waits under a number is the registered call with the number. -/
theorem known (a : Account v o c) (h : c.client.Regular v o) {seq : UInt64} {p : Pending}
    (hlookup : a.reference.table.lookup seq = some p) :
    p ∈ c.client.registered ∧ p.parcel.request.seq = seq := by
  have hp := (a.knows.lookup hlookup).1
  refine ⟨hp, ?_⟩
  rw [a.follows.table] at hlookup
  obtain ⟨before, after, htable, _⟩ := List.lookup_eq_some_iff.mp hlookup
  have hkeyed := (a.books h).keyed (seq, p) (by simp [htable])
  rw [(a.books h).numbered.seq_eq hp] at hkeyed
  exact Option.some.inj hkeyed

/-- What was answered was asked by a registered call. -/
theorem asker (a : Account v o c) (h : c.client.Regular v o) {q : Query} (hq : q ∈ c.answers) :
    ∃ p ∈ c.client.registered, p.parcel.query o.writeLimit = some q := by
  obtain ⟨entry, hentry, rfl⟩ := List.mem_map.mp hq
  have hheard := List.mem_of_getElem? (a.asked entry hentry)
  have hlife := a.life h
  rw [heard, a.client] at hheard
  rw [a.client]
  exact hlife.asker hheard

/-- Nothing was answered twice. -/
theorem answers_nodup (a : Account v o c) (h : c.client.Regular v o) : c.answers.Nodup := by
  have hheard : c.heard.Nodup := by
    rw [heard, a.client]
    exact (a.life h).heard_nodup
  refine List.Nodup.map_on ?_ (List.Nodup.of_map _ a.once)
  intro entry hentry other hother hsame
  have hplace := a.asked entry hentry
  have hplace' := a.asked other hother
  rw [← hsame, ← hplace] at hplace'
  obtain ⟨hlt, _⟩ := List.getElem?_eq_some_iff.mp hplace
  have hindex := (List.getElem?_inj hlt hheard).mp hplace'.symm
  exact Prod.ext hindex hsame

/-- A deed comes, by which some octets of the answers may come to the client. -/
def next (a : Account v o c) {d : Deed Script.Twist} (hquiet : d.IsQuiet) {outgoing : Octets}
    (hoctets : Incoming.octets d.arrivals ++ outgoing = c.outgoing)
    {before after : List ByteArray} {taken : Octets} {done rest : List Query}
    {reference : Reference} (hreading : (c.client.session.perform d).receiver ≠ .ended)
    (hanswers : c.answers = done ++ rest) (hframes : before ++ after = a.before ++ a.after)
    (hplaced : Placed o.codec (a.deeds ++ [d]) before taken (c.client.session.perform d))
    (hfollows : reference.Follows after (c.client.session.perform d).client
      (c.client.session.perform d).receiver)
    (hknows : reference.Knows (c.client.perform d).registered)
    (htruthful : reference.Truthful v o.writeLimit done rest) :
    Account v o { c.live d with outgoing } where
  deeds := a.deeds ++ [d]
  before := before
  after := after
  taken := taken
  done := done
  rest := rest
  reference := reference
  client := by
    rw [History.run_append_singleton, ← a.client]
    rfl
  quiet e he := by
    rcases List.mem_append.mp he with hold | hnew
    · exact a.quiet e hold
    · rw [List.mem_singleton.mp hnew]
      exact hquiet
  reading := hreading
  asked entry hentry := by
    have hold : (queries c.client.session.codec.link.taken)[entry.1]? = some entry.2 :=
      a.asked entry hentry
    have htaken : c.client.session.codec.link.taken <+:
        (c.client.session.perform d).codec.link.taken := Session.taken_prefix_perform hquiet
    obtain ⟨more, hheard⟩ := queries_mono htaken
    obtain ⟨hlt, _⟩ := List.getElem?_eq_some_iff.mp hold
    show (queries (c.client.session.perform d).codec.link.taken)[entry.1]? = _
    rw [← hheard, List.getElem?_append_left hlt]
    exact hold
  once := a.once
  answers := hanswers
  frames := a.frames.trans hframes.symm
  stream := by
    have hended : .ended ∉ History.arrivals a.deeds := fun hmem => by
      obtain ⟨front, heq⟩ := History.data_of_quiet a.quiet _ hmem
      cases heq
    rw [History.arrivals_append_singleton, Incoming.octets_append, if_neg hended, List.append_assoc,
      hoctets, hframes]
    exact a.stream
  placed := hplaced
  follows := hfollows
  knows := hknows
  truthful := htruthful

/-- Whatever is done but by the receiver reads nothing of the answers. -/
theorem beside (a : Account v o c) {d : Deed Script.Twist} (hquiet : d.IsQuiet)
    (hd : ∀ now, d ≠ .task .receiver now) {outgoing : Octets}
    (hoctets : Incoming.octets d.arrivals ++ outgoing = c.outgoing)
    (h : (c.client.perform d).Regular v o) :
    Nonempty (Account v o { c.live d with outgoing }) := by
  have hbeside := c.client.session.beside_perform hd
  have hreading : (c.client.session.perform d).receiver ≠ .ended := by
    rw [hbeside.receiver]
    exact a.reading
  have hsound : c.client.session.client.Sound c.client.session.receiver.held := by
    rw [a.client]
    exact History.sound_run o.codec a.deeds
  have hhonest : ∀ caller ∈ c.client.session.callers, caller.IsHonest := by
    rw [a.client]
    exact History.isHonest_run o.codec a.deeds
  have hchange := Session.change_of_perform hhonest d
  refine ⟨a.next hquiet hoctets hreading a.answers rfl (a.placed.beside hbeside)
    (a.follows.beside hsound hchange hbeside.receiver) ?_ ?_⟩
  · rw [History.registered_perform]
    exact a.knows.steps _
  · refine a.truthful.beside hchange hbeside.receiver ?_
    intro seq error hmem p hlookup
    obtain ⟨hp, hseq⟩ := a.known h.earlier hlookup
    have hlater := a.life_perform hquiet hreading h
    rw [a.client] at hp hmem
    obtain ⟨p', hp', hseq', hverdict⟩ := hlater.unsent hmem
    have hearlier := hlater.earlier
    rwa [hearlier.numbered.eq_of_seq (Nat.le_of_lt hearlier.few) hp hp' (hseq.trans hseq'.symm)]

/-! ## What the receiver does to the account -/

theorem carries (a : Account v o c) (h : c.client.Regular v o) :
    Carries o.codec (a.before ++ a.after) a.deeds where
  small payload hpayload := by
    rw [← a.frames] at hpayload
    obtain ⟨q, hq, hframe⟩ := List.mem_flatMap.mp hpayload
    obtain ⟨p, hp, hquery⟩ := a.asker h hq
    obtain ⟨_, _, _, _, hsizes, _⟩ := (h.suits p hp q hquery).frames_eq
    exact hsizes payload hframe
  stream := by
    rw [← a.stream]
    exact List.prefix_append _ _
  whole hended := by
    obtain ⟨front, heq⟩ := History.data_of_quiet a.quiet _ hended
    cases heq
  faultless error hfailure := by
    obtain ⟨front, heq⟩ := History.data_of_quiet a.quiet _ hfailure
    cases heq
  unclosed := History.unclosed_of_quiet o.codec a.quiet
  inTime := a.client ▸ h.readsInTime

/-- A call that was signalled was told so in the account. -/
theorem told_of_signal (a : Account v o c) (h : c.client.Regular v o) {p : Pending}
    (hp : p ∈ c.client.registered) {outcome : Except CallError Wire.Value}
    (hsignal : c.client.session.client.signalsOf (some p.parcel.request.seq) =
      [p.signal outcome]) :
    ∃ t ∈ a.reference.told, t.1 = p ∧ p.signal t.2 = p.signal outcome := by
  have hnumbered := (a.books h).numbered
  rw [Client.signalsOf_of_numbered a.follows.told] at hsignal
  obtain ⟨t, hone, hsame⟩ := List.map_eq_singleton_iff.mp hsignal
  have ht : t ∈ a.reference.told.filter (·.1.call.seq = some p.parcel.request.seq) :=
    hone ▸ List.mem_singleton_self t
  obtain ⟨hmem, hseq⟩ := List.mem_filter.mp ht
  have hregistered := a.knows.told t hmem
  have hseq : t.1.call.seq = some p.parcel.request.seq := by simpa using hseq
  rw [hnumbered.seq_eq hregistered, Option.some.injEq] at hseq
  obtain rfl := hnumbered.eq_of_seq (Nat.le_of_lt h.few) hregistered hp hseq
  exact ⟨t, hmem, rfl, hsame⟩

/-- Before its answer is read, a call that asked something waits for it. -/
theorem waiting (a : Account v o c) (h : c.client.Regular v o)
    (hawaited : a.reference.awaited = none) {q : Query} {rest : List Query}
    (hrest : a.rest = q :: rest) {p : Pending} (hp : p ∈ c.client.registered)
    (hquery : p.parcel.query o.writeLimit = some q) :
    a.reference.table.lookup q.request.seq = some p := by
  have hbooks := a.books h
  have few := Nat.le_of_lt h.few
  obtain ⟨_, _, hrequest⟩ := Parcel.query_eq_some hquery
  rw [hrequest, a.follows.table]
  have hheld : c.client.session.receiver.held = [] := by
    rw [Receiver.eq_header (a.follows.awaited ▸ hawaited) a.reading]
    rfl
  have hplace := hbooks.whereabouts few (hbooks.numbered.getElem?_seq few hp)
  rw [hheld, List.filter_nil] at hplace
  generalize htable : c.client.session.client.table.filter
    (·.1 = p.parcel.request.seq) = entries at hplace
  generalize hsignals : c.client.session.client.signalsOf
    (some p.parcel.request.seq) = signals at hplace
  generalize hnobody : ([] : List Pending) = held at hplace
  cases hplace with
  | waiting =>
      have hmem : (p.parcel.request.seq, p) ∈ c.client.session.client.table.filter
          (·.1 = p.parcel.request.seq) := htable ▸ List.mem_singleton_self _
      cases hlookup : c.client.session.client.table.lookup p.parcel.request.seq with
      | none =>
          have hnone := List.lookup_eq_none_iff.mp hlookup _ (List.mem_filter.mp hmem).1
          simp at hnone
      | some p' =>
          rw [hbooks.filter_table few hlookup, List.mem_singleton] at hmem
          rw [(Prod.mk.inj hmem).2]
  | inHand => cases hnobody
  | completed outcome =>
      -- The call was told, so its answer was read, and there is only one.
      obtain ⟨t, ht, rfl, _⟩ := a.told_of_signal h hp hsignals
      obtain ⟨_, ⟨q', hq', hsame⟩ | hnone⟩ := a.truthful.told t ht
      · obtain rfl : q' = q := Option.some.inj (hsame.symm.trans hquery)
        have hnodup := a.answers_nodup h
        rw [a.answers, hrest, List.nodup_append] at hnodup
        exact absurd rfl (hnodup.2.2 q' hq' q' List.mem_cons_self)
      · rw [hnone] at hquery
        cases hquery

/-- A frame is read. If it is a header, it can be read and its call waits. -/
theorem read (a : Account v o c) (h : c.client.Regular v o) {payload : ByteArray}
    {left : List ByteArray} (hafter : a.after = payload :: left) :
    (c.client.session.receiver = .header →
        ∃ response, Wire.Response.decode payload = .ok response) ∧
      ∃ done rest, c.answers = done ++ rest ∧
        a.reference.read.Truthful v o.writeLimit done rest := by
  have hframes : a.reference.frames = payload :: left := (a.follows.frames a.reading).trans hafter
  cases hawaited : a.reference.awaited with
  | none =>
      have hstage := a.truthful.stage
      rw [hawaited, hframes] at hstage
      generalize hnext : payload :: left = frames at hstage
      generalize hall : a.rest = rest at hstage
      cases hstage with
      | header =>
          cases rest with
          | nil => cases hnext
          | cons q rest =>
              have hq : q ∈ c.answers := by
                rw [a.answers, hall]
                exact List.mem_append_right _ List.mem_cons_self
              obtain ⟨p, hp, hquery⟩ := a.asker h hq
              have hsuits := h.suits p hp q hquery
              have hlookup := a.waiting h hawaited hall hp hquery
              have htruthful := a.truthful
              rw [hall] at htruthful
              refine ⟨fun _ => ?_, a.done, q :: rest, hall ▸ a.answers,
                htruthful.header hawaited hframes hlookup hquery hsuits⟩
              obtain ⟨header, body, response, hpayloads, _, hdecode, _⟩ := hsuits.frames_eq
              rw [List.flatMap_cons, hpayloads] at hnext
              obtain ⟨rfl, _⟩ := List.cons.inj hnext
              exact ⟨response, hdecode⟩
  | some awaited =>
      obtain ⟨q, rest, hrest, htruthful⟩ := a.truthful.body hawaited
      refine ⟨fun hheader => ?_, a.done ++ [q], rest, ?_, htruthful⟩
      · have hnone := a.follows.awaited
        rw [hheader, hawaited] at hnone
        cases hnone
      · rw [a.answers, hrest, List.append_assoc]
        rfl

theorem unclosed (a : Account v o c) : c.client.session.client.closing = false := by
  rw [a.client]
  exact History.unclosed_of_quiet o.codec a.quiet

theorem calm (a : Account v o c) (h : c.client.Regular v o) :
    c.client.session.codec.link.IsCalm := by
  have hlife := a.life h
  rw [a.client]
  exact hlife.smooth.1.codec.calm

theorem inTime (a : Account v o c) {now : Nat}
    (h : (c.client.perform (.task .receiver now : Deed Script.Twist)).Regular v o) :
    Session.InTime (c.client.session.readEnding now) := by
  have hlater := h.readsInTime
  rw [a.client, ← History.run_append_singleton] at hlater
  rw [a.client]
  exact (History.inTime_receiver.mp hlater).2

/-- A read that is in time is not broken off. -/
theorem unbroken (a : Account v o c) (h : c.client.Regular v o) {error : LinkError}
    {f : Framed Script} (hintime : error ≠ .timeout .receive)
    (hread : c.client.session.codec.ReadStep o.codec.inbound.limit
      c.client.session.receiver.skips a.taken (.done (.error error)) f) : False :=
  (a.carries h).unbroken a.placed (a.calm h).incoming hread hintime

/-- Steps of the receiver register nobody. -/
theorem registered_receiver {h : History (Framed Script)} {now : Nat} :
    (h.perform (.task .receiver now : Deed Script.Twist)).registered = h.registered := by
  rw [History.registered_perform]
  simp only [Session.notices, Session.noteStep]
  cases h.session.readEnding now <;> simp

theorem receive (a : Account v o c) {now : Nat}
    (h : (c.client.perform (.task .receiver now : Deed Script.Twist)).Regular v o) :
    Nonempty (Account v o (c.live (.task .receiver now))) := by
  have hearlier := h.earlier
  have hopen := a.unclosed
  have hsound : c.client.session.client.Sound c.client.session.receiver.held := by
    rw [a.client]
    exact History.sound_run o.codec a.deeds
  have hknows (r : Reference) (hr : r.Knows c.client.registered) :
      r.Knows (c.client.perform (.task .receiver now : Deed Script.Twist)).registered := by
    rw [registered_receiver]
    exact hr
  have hintime := a.inTime h
  have hquiet : (.task .receiver now : Deed Script.Twist).IsQuiet := trivial
  have hreads := Session.receiverReads a.placed.reads now
  show Nonempty (Account v o { c.live (.task .receiver now) with outgoing := c.outgoing })
  generalize c.client.session.readEnding now = failure at hreads hintime
  generalize hs' : (c.client.session.stepReceiver now).2 = s' at hreads
  cases hreads with
  | ended hended => exact absurd hended a.reading
  | cancelled _ hclosing =>
      rw [hopen] at hclosing
      cases hclosing
  | awaited got _ htook hreads _ hclient =>
      -- The account does not see how far a read has come.
      obtain ⟨hsame, hstays⟩ := Prod.mk.inj hclient
      subst hs'
      refine ⟨a.next hquiet rfl ?_ a.answers rfl (a.placed.awaited htook hreads hstays) ?_
        (hknows _ a.knows) a.truthful⟩
      · show (c.client.session.stepReceiver now).2.receiver ≠ .ended
        rw [hstays]
        exact a.reading
      · show a.reference.Follows a.after (c.client.session.stepReceiver now).2.client
          (c.client.session.stepReceiver now).2.receiver
        rw [hsame, hstays]
        exact a.follows
  | frame got payload failure _ _ hwhole hclient =>
      obtain ⟨left, hafter⟩ := (a.carries hearlier).next a.placed hwhole
      obtain ⟨hheader, done, rest, hanswers, htruthful⟩ := a.read hearlier hafter
      have hdigested := (hafter ▸ a.follows).digest hsound a.reading hopen
      have hreading := digest_ne_ended c.client.session.client a.reading hheader
      rw [← hclient] at hdigested hreading
      subst hs'
      refine ⟨a.next hquiet rfl hreading hanswers ?_ (a.placed.frame hwhole) hdigested
        (hknows _ a.knows.read) htruthful⟩
      rw [hafter, List.append_assoc]
      rfl
  | broken error _ hread =>
      have herror : error ≠ .timeout .receive := by
        rintro rfl
        exact hintime rfl
      exact (a.unbroken hearlier herror hread).elim

/-! ## Every event -/

/-- One more request is answered. -/
def answer (a : Account v o c) {place : Nat} {q : Query} (hheard : c.heard[place]? = some q)
    (hnew : place ∉ c.answered.map (·.1)) :
    Account v o (c.answer v place q) where
  deeds := a.deeds
  before := a.before
  after := a.after ++ v.frames q
  taken := a.taken
  done := a.done
  rest := a.rest ++ [q]
  reference := { a.reference with frames := a.reference.frames ++ v.frames q }
  client := a.client
  quiet := a.quiet
  reading := a.reading
  asked entry hentry := by
    rcases List.mem_append.mp hentry with hold | hlast
    · exact a.asked entry hold
    · rw [List.mem_singleton.mp hlast]
      exact hheard
  once := by
    show ((c.answered ++ [(place, q)]).map (·.1)).Nodup
    rw [List.map_append]
    refine List.nodup_append.mpr ⟨a.once, List.nodup_singleton _, ?_⟩
    rintro other hother _ hplace rfl
    obtain rfl : other = place := List.mem_singleton.mp hplace
    exact hnew hother
  answers := by
    rw [answers_answer, a.answers, List.append_assoc]
  frames := by
    rw [answers_answer, List.flatMap_append, List.flatMap_singleton, a.frames, List.append_assoc]
  stream := by
    show _ ++ (c.outgoing ++ (v.frames q).flatMap frameOctets) = _
    rw [← List.append_assoc, a.stream, ← List.flatMap_append, List.append_assoc]
  placed := a.placed
  follows := ⟨⟨a.follows.table, a.follows.told⟩, a.follows.awaited, fun hreading =>
    congrArg (· ++ v.frames q) (a.follows.frames hreading)⟩
  knows := ⟨a.knows.table, a.knows.awaited, a.knows.told⟩
  truthful := a.truthful.more q

theorem perform (a : Account v o c) (e : Event) (h : (c.perform v e).client.Regular v o) :
    Nonempty (Account v o (c.perform v e)) := by
  cases e with
  | client d own =>
      by_cases hreceiver : ∃ now, d = .task .receiver now
      · obtain ⟨now, rfl⟩ := hreceiver
        exact a.receive h
      · obtain ⟨hquiet, hnothing⟩ := Session.quiet_of_isOwn own
        refine a.beside hquiet (fun now heq => hreceiver ⟨now, heq⟩) ?_ h
        rw [hnothing]
        rfl
  | accept credit =>
      have hquiet : (.outside (.accept credit .wait) : Deed Script.Twist).IsQuiet := rfl
      exact a.beside hquiet (by simp) rfl h
  | answer place =>
      show Nonempty (Account v o (c.turnTo v place))
      rcases c.turnTo_cases v place with ⟨hsame, _⟩ | ⟨q, hheard, hnew, hturned⟩
      · rw [hsame]
        exact ⟨a⟩
      · rw [hturned]
        exact ⟨a.answer hheard hnew⟩
  | deliver count =>
      have hquiet : (.outside (.arrive [.data (c.outgoing.take count)]) :
          Deed Script.Twist).IsQuiet := by
        intro event hevent
        exact ⟨_, List.mem_singleton.mp hevent⟩
      refine a.beside hquiet (by simp) ?_ h
      simp [Session.Deed.arrivals, Incoming.octets]

end Account

theorem regular_of_perform {v : Service} {o : Opening} {c : Conversation} {e : Event}
    (h : (c.perform v e).client.Regular v o) : c.client.Regular v o := by
  rcases c.client_perform v e with hsame | ⟨d, hlater⟩
  · rwa [hsame] at h
  · rw [hlater] at h
    exact h.earlier

/-- The account is kept in every conversation. -/
theorem account_run (v : Service) (o : Opening) (events : List Event)
    (h : (run v o events).client.Regular v o) : Nonempty (Account v o (run v o events)) := by
  induction events using List.reverseRecOn with
  | nil => exact Account.start v o
  | append_singleton events e ih =>
      rw [run_append_singleton] at h ⊢
      obtain ⟨a⟩ := ih (regular_of_perform h)
      exact a.perform e h

/-! ## At every moment -/

/-- What holds at every moment of a conversation. -/
structure Faithful (v : Service) (o : Opening) (c : Conversation) : Prop where
  /-- Every call that is made is registered. -/
  taken : c.client.refused = [] ∧ c.client.turnedAway = []
  /-- Each has a number of its own, under which it goes out and is told. -/
  numbered : Numbered c.client.registered
  /-- A call was told nothing yet, or it was told once what it must be told. -/
  told : ∀ p ∈ c.client.registered,
    c.client.session.client.signalsOf p.call.seq = [] ∨
      c.client.session.client.signalsOf p.call.seq = [p.signal (v.outcome o.writeLimit p)]
  /-- The service has heard a call at most once, and only those that can be sent. -/
  heard : c.heard.Subperm (c.client.registered.filterMap (·.parcel.query o.writeLimit))
  /-- Nothing is on the wire but requests of calls that can be sent, each once. -/
  stream : ∃ parcels : List Parcel,
    parcels.Subperm ((c.client.registered.map Pending.parcel).filter fun p =>
      (p.query o.writeLimit).isSome) ∧
    c.client.session.codec.link.taken <+: parcels.flatMap (·.octets o.writeLimit)

theorem Account.faithful {v : Service} {o : Opening} {c : Conversation} (a : Account v o c)
    (h : c.client.Regular v o) : c.Faithful v o where
  taken := by
    rw [a.client]
    exact (a.life h).all_taken
  numbered := (a.books h).numbered
  told p hp := by
    have hbooks := a.books h
    have few := Nat.le_of_lt h.few
    rw [hbooks.numbered.seq_eq hp]
    have hplace := hbooks.whereabouts few (hbooks.numbered.getElem?_seq few hp)
    rcases hplace.signals with hnone | ⟨outcome, hsignals⟩
    · exact .inl hnone
    · obtain ⟨t, ht, rfl, hsame⟩ := a.told_of_signal h hp hsignals
      rw [hsignals, ← hsame, (a.truthful.told t ht).1]
      exact .inr rfl
  heard := by
    have hlife := a.life h
    rw [Conversation.heard, a.client]
    exact hlife.heard
  stream := by
    have hlife := a.life h
    rw [a.client]
    exact hlife.stream

end Conversation

end Switchboard
