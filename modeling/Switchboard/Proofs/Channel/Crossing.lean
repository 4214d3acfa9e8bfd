import Switchboard.Proofs.Channel.Carrier
import Switchboard.Proofs.Channel.Talk

/-!
# Messages on their way

One end of a connection sends messages and the other receives them, and each has
its turns when it has them (`Crossing`). `Carries` says that at every moment the
octets on their way are the frames of the messages that are left. So what was
returned and what was read is the beginning of what is settled, and a turn that
changes nothing was not ready for anything (`Turned`).
-/

namespace Switchboard

open Wire (Value)

namespace Channel

/-! ## Two ends -/

/-- Two ends of a connection, one that sends and one that receives. -/
structure Crossing (L : Type) where
  link : L
  outbound : Outbound
  inbound : Inbound
  /-- The calls that have not returned. The first may have begun. -/
  calls : List Call
  replies : List (Except LinkError Unit) := []
  /-- The reads that have not returned. -/
  wants : List Want
  results : List (Except LinkError (Option Value)) := []

namespace Crossing

variable {L : Type}

def start (t : Talk) (link : L) : Crossing L where
  link := link
  outbound := { limit := t.limit, patience := t.sendWithin }
  inbound := { limit := t.limit, patience := t.readWithin }
  calls := t.calls
  wants := t.wants

/-- Nothing was given up because it took too long. -/
structure InTime (c : Crossing L) : Prop where
  replies : .error (.timeout .send) ∉ c.replies
  results : .error (.timeout .receive) ∉ c.results

/-- What has come stays. -/
structure Grows (c c' : Crossing L) : Prop where
  replies : c.replies <+: c'.replies
  results : c.results <+: c'.results

variable {c c' c'' : Crossing L}

theorem Grows.refl (c : Crossing L) : c.Grows c := ⟨List.prefix_refl _, List.prefix_refl _⟩

theorem Grows.trans (h : c.Grows c') (h' : c'.Grows c'') : c.Grows c'' :=
  ⟨h.replies.trans h'.replies, h.results.trans h'.results⟩

theorem Grows.inTime (h : c.Grows c') (hintime : c'.InTime) : c.InTime :=
  ⟨fun hmem => hintime.replies (h.replies.subset hmem),
    fun hmem => hintime.results (h.results.subset hmem)⟩

/-- The sending end begins a call, or it is refused. -/
def beginCall (call : Call) (others : List Call) (c : Crossing L) : Crossing L :=
  match call.sending.bind (c.outbound.start ·) with
  | .ok outbound => { c with outbound }
  | .error error => { c with calls := others, replies := c.replies ++ [.error error] }

theorem grows_beginCall (call : Call) (others : List Call) (c : Crossing L) :
    c.Grows (c.beginCall call others) := by
  unfold beginCall
  split
  · exact ⟨List.prefix_refl _, List.prefix_refl _⟩
  · exact ⟨List.prefix_append _ _, List.prefix_refl _⟩

variable [Link L]

/-- The sending end goes on with the call that it has begun. -/
def goOnCall (others : List Call) (now : Nat) (c : Crossing L) : Crossing L :=
  let (poll, outbound, link) := c.outbound.step .near now c.link
  let c := { c with outbound, link }
  match poll with
  | .again | .blocked => c
  | .done reply => { c with calls := others, replies := c.replies ++ [reply] }

def sendTurn (now : Nat) (c : Crossing L) : Crossing L :=
  match c.calls with
  | [] => c
  | call :: others =>
      match c.outbound.writing with
      | none => c.beginCall call others
      | some _ => c.goOnCall others now

/-- The receiving end goes on with the read that it has begun. -/
def goOnRead (want : Want) (others : List Want) (now : Nat) (c : Crossing L) : Crossing L :=
  let (poll, inbound, link) := c.inbound.step .far now c.link
  let c := { c with inbound, link }
  match poll with
  | .again | .blocked => c
  | .done received =>
      { c with wants := others, results := c.results ++ [received.bind want.make] }

def receiveTurn (now : Nat) (c : Crossing L) : Crossing L :=
  match c.wants with
  | [] => c
  | want :: others =>
      match c.inbound.reading with
      | none => { c with inbound := c.inbound.start (.ofSkip want.skips) now }
      | some _ => c.goOnRead want others now

def turn (side : Side) (now : Nat) (c : Crossing L) : Crossing L :=
  match side with
  | .near => c.sendTurn now
  | .far => c.receiveTurn now

/-- So many turns, of the sides and at the times that are laid down. -/
def run (schedule : Nat → Side) (clock : Nat → Nat) (c : Crossing L) : Nat → Crossing L
  | 0 => c
  | n + 1 => (run schedule clock c n).turn (schedule n) (clock n)

theorem grows_goOnCall (others : List Call) (now : Nat) (c : Crossing L) :
    c.Grows (c.goOnCall others now) := by
  unfold goOnCall
  dsimp only
  split
  · exact ⟨List.prefix_refl _, List.prefix_refl _⟩
  · exact ⟨List.prefix_refl _, List.prefix_refl _⟩
  · exact ⟨List.prefix_append _ _, List.prefix_refl _⟩

theorem grows_goOnRead (want : Want) (others : List Want) (now : Nat) (c : Crossing L) :
    c.Grows (c.goOnRead want others now) := by
  unfold goOnRead
  dsimp only
  split
  · exact ⟨List.prefix_refl _, List.prefix_refl _⟩
  · exact ⟨List.prefix_refl _, List.prefix_refl _⟩
  · exact ⟨List.prefix_refl _, List.prefix_append _ _⟩

theorem grows_turn (c : Crossing L) (side : Side) (now : Nat) : c.Grows (c.turn side now) := by
  cases side with
  | near =>
      show c.Grows (c.sendTurn now)
      unfold sendTurn
      split
      · exact .refl c
      · split
        · exact grows_beginCall _ _ c
        · exact grows_goOnCall _ now c
  | far =>
      show c.Grows (c.receiveTurn now)
      unfold receiveTurn
      split
      · exact .refl c
      · split
        · exact ⟨List.prefix_refl _, List.prefix_refl _⟩
        · exact grows_goOnRead _ _ now c

end Crossing

/-! ## The sending end -/

/-- The calls that have not begun. -/
def unbegun (o : Outbound) (calls : List Call) : List Call :=
  if o.writing.isSome then calls.tail else calls

/-- The octets that calls will write that have not begun. -/
def toCome (limit : Nat) (o : Outbound) (calls : List Call) : Octets :=
  (unbegun o calls).flatMap fun call => (call.sent limit).flatMap octets

/-- What the sending end has still to do. -/
def toSend (o : Outbound) (calls : List Call) : Nat :=
  ((unbegun o calls).map Call.cost).sum +
    if o.writing.isSome then o.burden else o.unsent.length

section Begun

variable {o : Outbound} {call : Call} {calls : List Call} {limit : Nat}

theorem toCome_of_none (hw : o.writing = none) :
    toCome limit o calls = calls.flatMap fun call => (call.sent limit).flatMap octets := by
  simp [toCome, unbegun, hw]

theorem toCome_of_some (hw : o.writing.isSome) :
    toCome limit o (call :: calls) = calls.flatMap fun call => (call.sent limit).flatMap octets := by
  simp [toCome, unbegun, hw]

theorem toSend_of_none (hw : o.writing = none) :
    toSend o calls = (calls.map Call.cost).sum + o.unsent.length := by
  simp [toSend, unbegun, hw]

theorem toSend_of_some (hw : o.writing.isSome) :
    toSend o (call :: calls) = (calls.map Call.cost).sum + o.burden := by
  simp [toSend, unbegun, hw]

end Begun

namespace Talk

/-- The sending end has made some of the calls and will make the others. -/
structure Sends (t : Talk) (o : Outbound) (calls : List Call)
    (replies : List (Except LinkError Unit)) : Prop where
  limit : o.limit = t.limit
  patience : o.patience = t.sendWithin
  fit : o.IsFit
  returned : replies ++ calls.map (·.reply t.limit) = t.replies
  begun : o.writing.isSome → ∃ call others, calls = call :: others ∧
    call.reply t.limit = .ok () ∧ (others = [] → o.Flushes)
  flushes : calls.getLast? = some .flush ∨ calls = [] ∧ o.buffer = []

variable {t : Talk} {o o' : Outbound} {call : Call} {calls : List Call}
  {replies : List (Except LinkError Unit)}

theorem Sends.last (h : t.Sends o [call] replies) : call = .flush := by
  rcases h.flushes with hlast | ⟨hnil, -⟩
  · exact Option.some.inj hlast
  · cases hnil

theorem Sends.refused (h : t.Sends o (call :: calls) replies) (hw : o.writing = none)
    {error : LinkError} (hreply : call.reply o.limit = .error error) :
    t.Sends o calls (replies ++ [.error error]) := by
  rw [h.limit] at hreply
  refine ⟨h.limit, h.patience, h.fit, ?_, by simp [hw], ?_⟩
  · rw [← h.returned, List.map_cons, hreply, List.append_assoc, List.singleton_append]
  · cases calls with
    | nil =>
        -- The last call is a flush, and none is refused.
        rw [h.last] at hreply
        cases hreply
    | cons next others =>
        rcases h.flushes with hlast | ⟨hnil, -⟩
        · exact .inl (by simpa using hlast)
        · cases hnil

theorem Sends.begin (h : t.Sends o (call :: calls) replies) {s : Sending}
    (hsending : call.sending = .ok s) (hreply : call.reply o.limit = .ok ()) :
    t.Sends { o with writing := some { later := s.parts } } (call :: calls) replies := by
  obtain ⟨hupright, hsound, htight, -, -⟩ := h.fit
  rw [h.limit] at hreply
  refine ⟨h.limit, h.patience, ⟨hupright, hsound, htight, ?_, Call.noShut_of_sending hsending⟩,
    h.returned, fun _ => ⟨call, calls, rfl, hreply, ?_⟩, ?_⟩
  · intro _ w hw
    obtain rfl := Option.some.inj hw
    rfl
  · rintro rfl
    rw [h.last] at hsending
    cases hsending
    exact .inl rfl
  · exact .inl (h.flushes.resolve_right (by simp))

theorem Sends.goesOn (h : t.Sends o (call :: calls) replies) (hw : o.writing.isSome)
    (hfit : o'.IsFit) (halike : o.Alike o') (hflushes : o.Flushes → o'.Flushes) :
    t.Sends o' (call :: calls) replies := by
  obtain ⟨_, _, heq, hreply, hlast⟩ := h.begun hw
  obtain ⟨rfl, rfl⟩ := List.cons.inj heq
  exact ⟨halike.limit.trans h.limit, halike.patience.trans h.patience, hfit, h.returned,
    fun _ => ⟨call, calls, rfl, hreply, fun hnil => hflushes (hlast hnil)⟩,
    .inl (h.flushes.resolve_right (by simp))⟩

theorem Sends.finished (h : t.Sends o (call :: calls) replies) (hw : o.writing.isSome)
    (hpending : o.pending = []) : t.Sends o.cancel calls (replies ++ [.ok ()]) := by
  obtain ⟨_, _, heq, hreply, hlast⟩ := h.begun hw
  obtain ⟨rfl, rfl⟩ := List.cons.inj heq
  obtain ⟨hupright, hsound, htight, -, -⟩ := h.fit
  refine ⟨h.limit, h.patience, ⟨hupright, hsound, htight, Outbound.isPatient_idle rfl, ?_⟩, ?_,
    by simp [Outbound.cancel], ?_⟩
  · simp [Outbound.pending, Outbound.cancel]
  · rw [← h.returned, List.map_cons, hreply, List.append_assoc, List.singleton_append]
  · cases calls with
    | nil =>
        rcases hlast rfl with hflush | ⟨-, hempty⟩
        · rw [hpending] at hflush
          cases hflush
        · exact .inr ⟨rfl, hempty⟩
    | cons next others =>
        have hflush := h.flushes.resolve_right (by simp)
        exact .inl (by simpa using hflush)

/-! ## The receiving end -/

/-- The receiving end has read some of the messages. These are left, and of the
first one these octets were taken. -/
structure Receives (t : Talk) (left : List Value) (taken : Octets) (i : Inbound)
    (wants : List Want) (results : List (Except LinkError (Option Value))) : Prop where
  limit : i.limit = t.limit
  patience : i.patience = t.readWithin
  yielded : results ++ List.zipWith Want.result wants left = t.results
  received : results.length + left.length = t.messages.length
  sendable : ∀ v ∈ left, IsSendable t.limit v
  begun : ∀ r, i.reading = some r → ∃ want others, wants = want :: others ∧
    (Progress.length want.skips []).feed t.limit taken = .more r.progress ∧
    (t.readWithin = none → r.deadline = none)
  idle : i.reading = none → taken = []

variable {left : List Value} {taken octets rest : Octets} {i : Inbound} {r : Reading}
  {want : Want} {wants : List Want} {results : List (Except LinkError (Option Value))}
  {result : Except LinkError Received} {progress : Progress}

theorem Receives.begin (h : t.Receives left taken i (want :: wants) results)
    (hreading : i.reading = none) (now : Nat) :
    t.Receives left taken (i.start (.ofSkip want.skips) now) (want :: wants) results := by
  refine ⟨h.limit, h.patience, h.yielded, h.received, h.sendable, ?_, ?_⟩
  · intro r hr
    obtain rfl := Option.some.inj hr
    refine ⟨want, wants, rfl, ?_, ?_⟩
    · rw [h.idle hreading, Progress.start_ofSkip]
      rfl
    · intro hnone
      rw [h.patience, hnone]
      rfl
  · intro hnone
    cases hnone

theorem Receives.goesOn (h : t.Receives left taken i (want :: wants) results)
    (hreading : i.reading = some r) (hfed : r.progress.feed i.limit octets = .more progress) :
    t.Receives left (taken ++ octets)
      { i with buffer := [], reading := some { r with progress } } (want :: wants) results := by
  obtain ⟨_, _, heq, hbefore, hdeadline⟩ := h.begun r hreading
  obtain ⟨rfl, rfl⟩ := List.cons.inj heq
  have hstart : (Progress.length want.skips []).IsFrame := by simp [Progress.IsFrame]
  refine ⟨h.limit, h.patience, h.yielded, h.received, h.sendable, ?_, ?_⟩
  · intro r' hr'
    obtain rfl := Option.some.inj hr'
    refine ⟨want, wants, rfl, ?_, hdeadline⟩
    rw [(Progress.feed_of_more hstart hbefore octets).1, ← h.limit]
    exact hfed
  · intro hnone
    cases hnone

/-- A read that is over has got the first of the messages that are left, and the
octets behind it are those of the others. -/
theorem Receives.finished (h : t.Receives left taken i (want :: wants) results)
    (hlimit : t.limit < 2 ^ 32) (hreading : i.reading = some r)
    (hfed : r.progress.feed i.limit octets = .done result rest) {more : Octets}
    (hstream : taken ++ (octets ++ more) = left.flatMap Channel.octets) :
    (∃ used, octets = used ++ rest) ∧ ∃ v others, left = v :: others ∧
      t.Receives others [] { i with buffer := rest, reading := none } wants
        (results ++ [result.bind want.make]) ∧
      rest ++ more = others.flatMap Channel.octets := by
  obtain ⟨_, _, heq, hbefore, hdeadline⟩ := h.begun r hreading
  obtain ⟨rfl, rfl⟩ := List.cons.inj heq
  have hstart : (Progress.length want.skips []).IsFrame := by simp [Progress.IsFrame]
  obtain ⟨htaken, hframe⟩ := Progress.feed_of_more hstart hbefore (octets ++ more)
  rw [h.limit] at hfed
  obtain ⟨hdone, used, hused, hpos⟩ := Progress.feed_of_done hframe hfed more
  refine ⟨⟨used, hused⟩, ?_⟩
  rw [hdone, hstream] at htaken
  cases left with
  | nil =>
      -- There is nothing to be read.
      have hnil := (List.append_eq_nil_iff.mp (List.append_eq_nil_iff.mp hstream).2).1
      rw [hused] at hnil
      have hlength := congrArg List.length hnil
      rw [List.length_append, List.length_nil] at hlength
      omega
  | cons v others =>
      obtain ⟨b, hb, hsmall⟩ := h.sendable v List.mem_cons_self
      rw [List.flatMap_cons, octets_of_payload hb,
        Progress.feed_frame hsmall (Nat.lt_of_le_of_lt hsmall hlimit)] at htaken
      obtain ⟨rfl, hrest⟩ := Fed.done.inj htaken
      refine ⟨v, others, rfl, ⟨h.limit, h.patience, ?_, ?_, ?_, ?_, fun _ => rfl⟩, hrest.symm⟩
      · rw [← h.yielded, List.zipWith_cons_cons, want.result_of_payload hb, List.append_assoc]
        rfl
      · have hreceived := h.received
        rw [List.length_cons] at hreceived
        rw [List.length_append, List.length_singleton]
        omega
      · intro w hw
        exact h.sendable w (List.mem_cons_of_mem _ hw)
      · intro r hr
        cases hr

end Talk

/-! ## Both ends -/

section Carries

variable {L : Type} [Link L]

/-- The octets that are not at the far end yet, those to come included. -/
def underway (carrier : Carrier L) (limit : Nat) (link : L) (o : Outbound) (calls : List Call) :
    Octets :=
  carrier.held link ++ (o.unsent ++ (o.unput ++ toCome limit o calls))

namespace Crossing

/-- The octets that are missing of the messages that are left. -/
def unread (carrier : Carrier L) (limit : Nat) (c : Crossing L) : Octets :=
  c.inbound.buffer ++ underway carrier limit c.link c.outbound c.calls

/-- What both ends have still to do. -/
def work (carrier : Carrier L) (limit : Nat) (c : Crossing L) : Nat :=
  toSend c.outbound c.calls + (c.unread carrier limit).length + 2 * c.wants.length +
    if c.inbound.reading.isSome then 0 else 1

/-- The octets on their way are those of the messages that are left. -/
structure Carries (carrier : Carrier L) (t : Talk) (left : List Value) (taken : Octets)
    (c : Crossing L) : Prop where
  isOpen : carrier.isOpen c.link
  sends : t.Sends c.outbound c.calls c.replies
  receives : t.Receives left taken c.inbound c.wants c.results
  stream : taken ++ c.unread carrier t.limit = left.flatMap octets

/-- An end can get on. -/
def IsReady (carrier : Carrier L) (c : Crossing L) : Side → Prop
  | .near => c.calls ≠ [] ∧ carrier.held c.link = []
  | .far => c.wants ≠ [] ∧ (c.inbound.reading = none ∨ c.inbound.buffer ++ carrier.held c.link ≠ [])

/-- What a turn comes to: something was done, or the end was not ready, or something
took too long. -/
inductive Turned (carrier : Carrier L) (t : Talk) (c : Crossing L) (side : Side) :
    Crossing L → Prop where
  | done {left : List Value} {taken : Octets} {c' : Crossing L}
      (hcarries : c'.Carries carrier t left taken)
      (hless : c'.work carrier t.limit < c.work carrier t.limit) : Turned carrier t c side c'
  | idle {link' : L} (hwaits : carrier.Waits (¬ c.IsReady carrier side) c.link link') :
      Turned carrier t c side { c with link := link' }
  | late {c' : Crossing L} (hpatience : t.sendWithin.isSome ∨ t.readWithin.isSome)
      (hlate : ¬ c'.InTime) : Turned carrier t c side c'

variable {carrier : Carrier L} {t : Talk} {left : List Value} {taken : Octets} {c c' : Crossing L}
  {side : Side}

theorem Carries.waits (h : c.Carries carrier t left taken) (hready : ¬ c.IsReady carrier side) :
    carrier.Waits (¬ c.IsReady carrier side) c.link c.link :=
  ⟨⟨h.isOpen, rfl⟩, .inr ⟨hready, Nat.le_refl _⟩⟩

theorem IsReady.relink (h : c.IsReady carrier side) {link : L} (hkeeps : carrier.Keeps c.link link) :
    IsReady carrier { c with link } side := by
  cases side with
  | near => exact ⟨h.1, hkeeps.held.trans h.2⟩
  | far =>
      refine ⟨h.1, h.2.imp_right fun hsome => ?_⟩
      rw [hkeeps.held]
      exact hsome

/-- Only the connection is another one, and it holds what it held. -/
theorem Carries.relink (h : c.Carries carrier t left taken) {link : L}
    (hkeeps : carrier.Keeps c.link link) : Carries carrier t left taken { c with link } := by
  refine ⟨hkeeps.isOpen, h.sends, h.receives, ?_⟩
  rw [unread, underway, hkeeps.held]
  exact h.stream

/-- The sending end leaves the receiving end as it is, and what it moves is still
under way. -/
theorem Carries.sent (h : c.Carries carrier t left taken) {link : L} {outbound : Outbound}
    {calls : List Call} {replies : List (Except LinkError Unit)}
    (hopen : carrier.isOpen link) (hsends : t.Sends outbound calls replies)
    (hstream : underway carrier t.limit link outbound calls =
      underway carrier t.limit c.link c.outbound c.calls)
    (hless : toSend outbound calls < toSend c.outbound c.calls) :
    Turned carrier t c side { c with link, outbound, calls, replies } := by
  have hunread : Crossing.unread carrier t.limit { c with link, outbound, calls, replies } =
      c.unread carrier t.limit := congrArg (c.inbound.buffer ++ ·) hstream
  refine .done ⟨hopen, hsends, h.receives, hunread ▸ h.stream⟩ ?_
  unfold work
  rw [hunread]
  dsimp only
  omega

theorem turned_beginCall (h : c.Carries carrier t left taken) {call : Call} {others : List Call}
    (hcalls : c.calls = call :: others) (hw : c.outbound.writing = none) :
    Turned carrier t c side (c.beginCall call others) := by
  have hsends := h.sends
  rw [hcalls] at hsends
  have hbegins := call.begins c.outbound
  have hput : c.outbound.unput = [] := by simp [Outbound.unput, Outbound.pending, hw]
  unfold beginCall
  generalize call.sending.bind (c.outbound.start ·) = begun at hbegins ⊢
  cases hbegins with
  | refused hreply =>
      have hnone : call.sent t.limit = [] := Call.sent_of_error (hsends.limit ▸ hreply)
      refine h.sent h.isOpen (hsends.refused hw hreply) ?_ ?_
      · rw [underway, underway, hcalls, toCome_of_none hw, toCome_of_none hw, List.flatMap_cons, hnone]
        rfl
      · have hpos := call.cost_pos
        rw [hcalls, toSend_of_none hw, toSend_of_none hw, List.map_cons, List.sum_cons]
        omega
  | @begun s hsending hreply =>
      have hoctets := Call.octets_of_sending hsending (hsends.limit ▸ hreply)
      have hunput : Outbound.unput { c.outbound with writing := some { later := s.parts } } =
          s.octets := s.octets_parts
      have hcost : call.cost = 2 * s.octets.length + (s.parts.flatMap (·.acts)).length +
          s.parts.length + 2 := by rw [Call.cost, hsending]
      refine h.sent h.isOpen (hcalls ▸ hsends.begin hsending hreply) ?_ ?_
      · rw [underway, underway, hcalls, toCome_of_none hw, toCome_of_some rfl, hunput, hput, hoctets,
          List.flatMap_cons]
        rfl
      · rw [hcalls, toSend_of_none hw, toSend_of_some rfl, Outbound.burden_of_some rfl, hunput]
        simp only [List.map_cons, List.sum_cons, Outbound.pending, Outbound.unsent, List.nil_append]
        omega

theorem turned_goOnCall (h : c.Carries carrier t left taken) {call : Call} {others : List Call}
    (hcalls : c.calls = call :: others) {w : Writing} (hw : c.outbound.writing = some w)
    (now : Nat) : Turned carrier t c .near (c.goOnCall others now) := by
  have hsends := h.sends
  rw [hcalls] at hsends
  have hbusy : c.outbound.writing.isSome := by
    rw [hw]
    rfl
  have hstep := Carrier.sendStep h.isOpen h.sends.fit hw now
  unfold goOnCall
  generalize c.outbound.step .near now c.link = step at hstep
  obtain ⟨poll, outbound', link'⟩ := step
  dsimp only at hstep ⊢
  cases hstep with
  | @again _ _ put sent hwriting hopen hfit halike hheld hput hsent hflushes hless =>
      refine h.sent hopen (hcalls ▸ hsends.goesOn hbusy hfit halike hflushes) ?_ ?_
      · rw [underway, underway, hcalls, toCome_of_some hwriting, toCome_of_some hbusy, hheld, hput]
        -- Some octets went one stretch further on their way.
        simp only [List.append_assoc]
        rw [← List.append_assoc sent, ← hsent]
        simp only [List.append_assoc]
      · rw [hcalls, toSend_of_some hbusy, toSend_of_some hwriting]
        exact Nat.add_lt_add_left hless _
  | blocked hwaits =>
      refine .idle (hwaits.mono fun hheld hready => ?_)
      exact hheld hready.2
  | finished hpending hkeeps =>
      have hput : c.outbound.unput = [] := by simp [Outbound.unput, hpending]
      have hless : c.outbound.unsent.length < c.outbound.burden := by
        rw [Outbound.burden_of_some hw]
        omega
      refine h.sent hkeeps.isOpen (hsends.finished hbusy hpending) ?_ ?_
      · rw [underway, underway, hcalls, toCome_of_some hbusy, toCome_of_none rfl, hkeeps.held, hput]
        rfl
      · rw [hcalls, toSend_of_some hbusy, toSend_of_none rfl]
        exact Nat.add_lt_add_left hless _
  | late hpatience =>
      refine .late (.inl (h.sends.patience ▸ hpatience)) fun hintime => ?_
      exact hintime.replies (List.mem_append_right _ List.mem_cons_self)

theorem turned_send (h : c.Carries carrier t left taken) (now : Nat) :
    Turned carrier t c .near (c.sendTurn now) := by
  unfold sendTurn
  cases hcalls : c.calls with
  | nil => exact .idle (h.waits fun hready => hready.1 hcalls)
  | cons call others =>
      cases hw : c.outbound.writing with
      | none => exact turned_beginCall h hcalls hw
      | some w => exact turned_goOnCall h hcalls hw now

/-- The receiving end leaves the sending end as it is. -/
theorem Carries.got (h : c.Carries carrier t left taken) {link : L} {inbound : Inbound}
    {wants : List Want} {results : List (Except LinkError (Option Value))} {left' : List Value}
    {taken' : Octets} (hopen : carrier.isOpen link)
    (hreceives : t.Receives left' taken' inbound wants results)
    (hstream : taken' ++ (inbound.buffer ++ underway carrier t.limit link c.outbound c.calls) =
      left'.flatMap octets)
    (hless : (inbound.buffer ++ underway carrier t.limit link c.outbound c.calls).length +
        2 * wants.length + (if inbound.reading.isSome then 0 else 1) <
      (c.unread carrier t.limit).length + 2 * c.wants.length +
        if c.inbound.reading.isSome then 0 else 1) :
    Turned carrier t c side { c with link, inbound, wants, results } := by
  refine .done ⟨hopen, h.sends, hreceives, hstream⟩ ?_
  unfold work unread at *
  dsimp only
  omega

/-- What a read is given comes from the front of what is not read. -/
theorem unread_eq {link : L} {front : Octets} (limit : Nat)
    (hoctets : c.inbound.buffer ++ carrier.held c.link = front ++ carrier.held link) :
    c.unread carrier limit = front ++ underway carrier limit link c.outbound c.calls := by
  rw [unread, underway, underway, ← List.append_assoc, hoctets, List.append_assoc]

theorem turned_goOnRead (hlimit : t.limit < 2 ^ 32) (h : c.Carries carrier t left taken)
    {want : Want} {others : List Want} (hwants : c.wants = want :: others) {r : Reading}
    (hreading : c.inbound.reading = some r) (now : Nat) :
    Turned carrier t c .far (c.goOnRead want others now) := by
  have hreceives := h.receives
  rw [hwants] at hreceives
  have hstep := Carrier.readStep h.isOpen hreading now
  have hstream := h.stream
  unfold goOnRead
  generalize c.inbound.step .far now c.link = step at hstep
  obtain ⟨poll, inbound, link⟩ := step
  dsimp only at hstep ⊢
  cases hstep with
  | @going front progress _ hsome hopen hoctets hfed =>
      have hpos := List.length_pos_iff.mpr hsome
      have hunread := unread_eq t.limit hoctets
      rw [hunread, ← List.append_assoc] at hstream
      refine h.got hopen (hwants ▸ hreceives.goesOn hreading hfed) hstream ?_
      rw [hunread, hwants, hreading]
      simp only [List.nil_append, List.length_append, Option.isSome_some, if_true]
      omega
  | @done front rest result _ hopen hoctets hfed =>
      have hunread := unread_eq t.limit hoctets
      rw [hunread] at hstream
      obtain ⟨⟨used, hused⟩, v, values, -, hvalues, hrest⟩ :=
        hreceives.finished hlimit hreading hfed hstream
      refine h.got hopen hvalues hrest ?_
      rw [hunread, hwants, hreading, hused]
      simp only [List.length_append, List.length_cons, Option.isSome_none, Option.isSome_some,
        if_true, Bool.false_eq_true, if_false]
      omega
  | blocked hempty hwaits =>
      refine .idle (hwaits.mono fun hheld hready => ?_)
      rcases hready.2 with hnone | hsome
      · rw [hreading] at hnone
        cases hnone
      · exact hsome (by rw [hempty, hheld, List.append_nil])
  | late hdue =>
      refine .late (.inr ?_) fun hintime => ?_
      · obtain ⟨_, _, -, -, hdeadline⟩ := hreceives.begun r hreading
        rw [Option.isSome_iff_ne_none]
        intro hnone
        rw [hdeadline hnone] at hdue
        cases hdue
      · exact hintime.results (List.mem_append_right _ List.mem_cons_self)

theorem turned_receive (hlimit : t.limit < 2 ^ 32) (h : c.Carries carrier t left taken)
    (now : Nat) : Turned carrier t c .far (c.receiveTurn now) := by
  unfold receiveTurn
  cases hwants : c.wants with
  | nil => exact .idle (h.waits fun hready => hready.1 hwants)
  | cons want others =>
      cases hreading : c.inbound.reading with
      | none =>
          have hreceives := h.receives
          rw [hwants] at hreceives
          refine h.got h.isOpen (hwants ▸ hreceives.begin hreading now) h.stream ?_
          simp [unread, Inbound.start, hreading, hwants]
      | some r => exact turned_goOnRead hlimit h hwants hreading now

/-- One turn of either end. -/
theorem turned (hlimit : t.limit < 2 ^ 32) (h : c.Carries carrier t left taken) (side : Side)
    (now : Nat) : Turned carrier t c side (c.turn side now) := by
  cases side with
  | near => exact turned_send h now
  | far => exact turned_receive hlimit h now

end Crossing

end Carries

end Channel

end Switchboard
