import Switchboard.Proofs.Client.Completion

/-!
# A conversation comes to its end

Whatever moves in a conversation uses up something that there is only so much
of. Those who want to call become fewer, then the requests that are not
answered, then the octets of answers on their way, and then what the tasks of
the client have still to read and to write (`Account.effort_lt`). So
nothing can move for ever, and as a conversation at rest is complete, every
conversation that goes on as long as something moves completes all its calls
(`completed_run`).
-/

namespace Switchboard

open Session (Deed Notice)

/-! ## Writing -/

/-- What is left to do for a request. -/
def Writer.toil (f : Framed Script) (w : Writer) : Nat :=
  if w.begun then f.effort w.parcel
  else 2 * (w.parcel.octets f.outbound.limit).length + 12 + if w.queued then 0 else 1

namespace Session

/-- What is left to do for all requests. -/
def toil (s : Session (Framed Script)) : Nat := (s.writers.map (·.toil s.codec)).sum

variable {s : Session (Framed Script)} {seq : UInt64} {w : Writer} {writers : List Writer}

/-- Nothing changes for those who have not begun. -/
theorem toil_others {f f' : Framed Script} (hidle : ∀ u ∈ writers, u.begun = false)
    (hlimit : f'.outbound.limit = f.outbound.limit) :
    (writers.map (·.toil f')).sum = (writers.map (·.toil f)).sum := by
  congr 1
  refine List.map_congr_left fun u hu => ?_
  simp [Writer.toil, hidle u hu, hlimit]

/-- The request with a number, and the others. -/
theorem toil_of_found (hdistinct : (writers.map (·.request.seq)).Nodup)
    (hfind : writers.find? (·.request.seq = seq) = some w) (f : Framed Script) :
    (writers.map (·.toil f)).sum =
      w.toil f + ((writers.filter (·.request.seq != seq)).map (·.toil f)).sum := by
  rw [((History.perm_leave hdistinct hfind).map _).sum_eq, List.map_cons, List.sum_cons]

theorem toil_amend (hdistinct : (writers.map (·.request.seq)).Nodup)
    (hfind : writers.find? (·.request.seq = seq) = some w) (g : Writer → Writer)
    (f : Framed Script) :
    ((amend seq g writers).map (·.toil f)).sum =
      (g w).toil f + ((writers.filter (·.request.seq != seq)).map (·.toil f)).sum := by
  have hothers : amend seq g (writers.filter (·.request.seq != seq)) =
      writers.filter (·.request.seq != seq) := by
    refine (List.map_congr_left fun u hu => ?_).trans (List.map_id _)
    have hne : u.request.seq ≠ seq := by simpa using (List.mem_filter.mp hu).2
    exact if_neg hne
  have hperm : (amend seq g writers).Perm (g w :: writers.filter (·.request.seq != seq)) := by
    have hmapped := (History.perm_leave hdistinct hfind).map
      fun u => if u.request.seq = seq then g u else u
    rw [List.map_cons, if_pos (seq_of_find hfind)] at hmapped
    exact hothers ▸ hmapped
  rw [(hperm.map _).sum_eq, List.map_cons, List.sum_cons]

/-- Whoever has begun has asked for the lock before. -/
theorem begun_of_unqueued (horderly : s.IsOrderly) (htidy : IsTidy s.writers s.lock.holder)
    (hw : w ∈ s.writers) (hqueued : w.queued = false) : w.begun = false := by
  by_contra hbegun
  have hholder := htidy w hw (by simpa using hbegun)
  obtain ⟨v, hv, hseq, hasked⟩ :=
    (horderly.queued w.request.seq).mp (by simp [Lock.queue, hholder])
  rw [horderly.eq_of_seq hv hw hseq, hqueued] at hasked
  cases hasked

/-- A step of a writer that is not blocked gets something done. -/
theorem toil_stepWriter (horderly : s.IsOrderly) (htidy : IsTidy s.writers s.lock.holder)
    (hopen : s.client.isOver = false)
    (hfind : s.writers.find? (·.request.seq = seq) = some w)
    (hidle : s.current = none → s.codec.outbound.writing = none) {now : Nat}
    (hgoes : s.current = some w.parcel → s.codec.Goes w.parcel
      (s.codec.write w.request w.args now).1 (s.codec.write w.request w.args now).2)
    (hlimit : (s.stepWriter seq now).2.codec.outbound.limit = s.codec.outbound.limit)
    (hmoves : (s.stepWriter seq now).1 ≠ .blocked) :
    (s.stepWriter seq now).2.toil < s.toil := by
  have hclosing : s.client.closing = false := (Bool.or_eq_false_iff.mp hopen).2
  have hdistinct := horderly.distinct
  have hstep := s.stepWriter_cases seq now
  generalize s.writeFailure seq now = failure at hstep
  generalize hs' : (s.stepWriter seq now).2 = s' at hstep hlimit ⊢
  rw [toil, toil, toil_of_found hdistinct hfind]
  cases hstep with
  | absent hnone =>
      rw [hnone] at hfind
      cases hfind
  | @asked u hfound hqueued =>
      obtain rfl : u = w := Option.some.inj (hfound.symm.trans hfind)
      have hbegun := begun_of_unqueued horderly htidy (List.mem_of_find?_eq_some hfind) hqueued
      show ((amend seq ({ · with queued := true }) s.writers).map (·.toil s.codec)).sum < _
      rw [toil_amend hdistinct hfind]
      simp [Writer.toil, hbegun, hqueued, Writer.parcel]
  | @queued u hfound hqueued hholder =>
      refine absurd ?_ hmoves
      simp [stepWriter, hfound, hqueued, hholder]
  | refused _ _ _ _ hover =>
      rw [hopen] at hover
      cases hover
  | @begun u hfound hqueued hholder hbegun =>
      obtain rfl : u = w := Option.some.inj (hfound.symm.trans hfind)
      have hcurrent : s.current = none := current_of_unbegun hholder hfind hbegun
      show ((amend seq ({ · with begun := true }) s.writers).map (·.toil s.codec)).sum < _
      rw [toil_amend hdistinct hfind]
      simp [Writer.toil, hbegun, hqueued, Writer.parcel, Framed.effort, hidle hcurrent]
  | cancelled _ _ _ _ hclosed =>
      rw [hclosing] at hclosed
      cases hclosed
  | @awaited u poll codec hfound hqueued hholder hbegun _ hwrite hpoll =>
      obtain rfl : u = w := Option.some.inj (hfound.symm.trans hfind)
      have hcurrent : s.current = some u.parcel := current_of_begun hholder hfind hbegun
      have hgoes := hgoes hcurrent
      rw [show s.codec.write u.request u.args now = (poll, codec) from hwrite] at hgoes
      rw [hholder] at htidy
      show (s.writers.map (·.toil codec)).sum < _
      rw [toil_of_found hdistinct hfind, toil_others htidy.idle_of_leave hlimit]
      cases hgoes with
      | again _ _ _ hless =>
          rw [Writer.toil, if_pos hbegun, Writer.toil, if_pos hbegun]
          exact Nat.add_lt_add_right hless _
      | blocked =>
          refine absurd ?_ hmoves
          rw [poll_stepWriter hfind hqueued hholder hbegun hclosing, hwrite]
          rfl
      | done =>
          obtain ⟨failure, hending⟩ := ending_done (u.parcel.verdict s.codec.outbound.limit)
          rw [hending] at hpoll
          cases hpoll
      | overdue => cases hpoll
  | @written u result codec hfound _ hholder hbegun _ hwrite =>
      obtain rfl : u = w := Option.some.inj (hfound.symm.trans hfind)
      rw [hholder] at htidy
      rw [codec_endWriter] at hlimit
      rw [writers_endWriter, codec_endWriter, toil_others htidy.idle_of_leave hlimit]
      have hpos : 0 < u.toil s.codec := by
        rw [Writer.toil, if_pos hbegun, Framed.effort]
        split <;> omega
      omega

theorem callers_stepWriter (seq : UInt64) (now : Nat) (s : Session (Framed Script)) :
    (s.stepWriter seq now).2.callers = s.callers := by
  have hstep := s.stepWriter_cases seq now
  generalize s.writeFailure seq now = failure at hstep
  generalize (s.stepWriter seq now).2 = s' at hstep ⊢
  cases hstep with
  | @written w result => cases result <;> rfl
  | _ => rfl

/-! ## Reading -/

theorem frame_stepReceiver (now : Nat) (s : Session (Framed Script)) :
    (s.stepReceiver now).2.writers = s.writers ∧ (s.stepReceiver now).2.callers = s.callers ∧
      s.codec.SameOutbound (s.stepReceiver now).2.codec := by
  have hcodec : s.codec.SameOutbound (s.stepReceiver now).2.codec := by
    rcases (reading_stepReceiver now s).2 with hsame | hreading
    · rw [hsame]
      exact .refl _
    · exact Framed.sameOutbound_of_reading hreading
  have hstep := s.stepReceiver_cases now
  generalize s.readEnding now = failure at hstep
  generalize (s.stepReceiver now).2 = s' at hstep hcodec ⊢
  cases hstep with
  | @header response codec =>
      obtain ⟨-, hwriters, -, hcallers⟩ := frame_route response { s with codec }
      exact ⟨hwriters, hcallers, hcodec⟩
  | _ => exact ⟨rfl, rfl, hcodec⟩

/-- A step of the receiver that is not blocked brings it nearer to the end. -/
theorem distance_stepReceiver {limit : Nat} {taken : Octets} {now : Nat}
    (h : s.receiver ≠ .ended → s.codec.Reads limit s.receiver.skips taken)
    (hreading : s.receiver ≠ .ended) (hclosing : s.client.closing = false)
    (hcalm : s.codec.link.IsCalm)
    (hintime : InTime (s.readEnding now))
    (hwhole : ∀ error f, error ≠ .timeout .receive →
      s.codec.ReadStep limit s.receiver.skips taken (.done (.error error)) f → False)
    (hmoves : (s.stepReceiver now).1 ≠ .blocked) :
    (s.stepReceiver now).2.distance < s.distance := by
  have hblocked := blocked_stepReceiver hclosing hreading now
  have hawaited (hending : s.readEnding now = none) := read_stepReceiver hclosing hreading hending
  have hreaches := (Framed.reaches_read hcalm (.ofSkip s.receiver.skips) now).1
  have hreads := receiverReads h now
  generalize s.readEnding now = failure at hreads hawaited hintime
  generalize hs' : (s.stepReceiver now).2 = s' at hreads hawaited ⊢
  cases hreads with
  | ended hended => exact absurd hended hreading
  | cancelled _ hclosed =>
      rw [hclosing] at hclosed
      cases hclosed
  | awaited _ _ _ _ _ hclient =>
      obtain ⟨hcodec, hnotdone⟩ := hawaited rfl
      rw [← hcodec] at hreaches
      rw [distance, distance, (Prod.mk.inj hclient).2]
      generalize hpoll : (s.codec.read (.ofSkip s.receiver.skips) now).1 = poll at hreaches
      cases hreaches with
      | begun hidle hbegun hunread =>
          rw [hunread, if_pos hidle, if_neg hbegun]
          omega
      | again hless => split <;> split <;> omega
      | blocked => exact absurd (hblocked.mpr hpoll) hmoves
      | done => exact absurd hpoll (hnotdone _)
  | frame got payload _ _ _ hcompletes => exact distance_lt_of_took hcompletes.took hcompletes.pos
  | broken error _ hread =>
      refine (hwhole error _ ?_ hread).elim
      rintro rfl
      exact hintime rfl

end Session

/-- Nothing took too long. -/
def Session.Notice.isTimely : Notice → Bool
  | .read (some (.transport (.timeout .receive))) => false
  | .unsent _ (.transport (.timeout .send)) => false
  | _ => true

/-! ## The effort of a conversation -/

namespace Conversation

open History (Quiet Regular)

/-- What the tasks of the client have to do. The credit of the connection counts
when it is used up, but less than what it was used for. -/
def work (c : Conversation) : Nat :=
  c.client.session.distance + 2 * c.client.session.toil +
    if c.client.session.codec.link.credit = some 0 then 1 else 0

def effort (c : Conversation) : ℕ ×ₗ ℕ ×ₗ ℕ ×ₗ ℕ :=
  toLex (c.client.session.callers.countP (·.isFresh),
    toLex (c.client.registered.length - c.answered.length,
      toLex (c.outgoing.length, c.work)))

section Effort

variable {v : Service} {o : Opening} {c c' : Conversation}

theorem effort_lt_of_work (hcallers : c'.client.session.callers = c.client.session.callers)
    (hregistered : c'.client.registered = c.client.registered) (hanswered : c'.answered = c.answered)
    (houtgoing : c'.outgoing = c.outgoing) (hwork : c'.work < c.work) : c'.effort < c.effort := by
  rw [effort, effort, hcallers, hregistered, hanswered, houtgoing]
  refine Prod.Lex.toLex_lt_toLex.mpr (.inr ⟨rfl, ?_⟩)
  refine Prod.Lex.toLex_lt_toLex.mpr (.inr ⟨rfl, ?_⟩)
  exact Prod.Lex.toLex_lt_toLex.mpr (.inr ⟨rfl, hwork⟩)

namespace Account

theorem effort_receiver (a : Account v o c) {now : Nat} (own)
    (h : (c.perform v (.client (.task .receiver now) own)).client.Regular v o)
    (hmoves : (c.client.session.stepReceiver now).1 ≠ .blocked) :
    (c.perform v (.client (.task .receiver now) own)).effort < c.effort := by
  obtain ⟨hwriters, hcallers, houtbound, _, _, hlink⟩ :=
    Session.frame_stepReceiver now c.client.session
  have hearlier : c.client.Regular v o := regular_of_perform h
  have hdistance := Session.distance_stepReceiver a.placed.reads a.reading a.unclosed
    (a.calm hearlier) (a.inTime h) (fun _ _ => a.unbroken hearlier) hmoves
  have htoil : (c.client.session.stepReceiver now).2.toil = c.client.session.toil := by
    rw [Session.toil, Session.toil, hwriters]
    congr 1
    refine List.map_congr_left fun w _ => ?_
    simp only [Writer.toil, Framed.effort, houtbound]
  refine effort_lt_of_work hcallers registered_receiver rfl rfl ?_
  have hcredit : (c.client.session.stepReceiver now).2.codec.link.credit =
      c.client.session.codec.link.credit := by
    rw [hlink]
  show (c.client.session.stepReceiver now).2.distance +
    2 * (c.client.session.stepReceiver now).2.toil +
      (if (c.client.session.stepReceiver now).2.codec.link.credit = some 0 then 1 else 0) < c.work
  rw [work, htoil, hcredit]
  omega

/-- What has been written changes nothing in how much may be put in a frame. -/
theorem limit_perform (a : Account v o c) (d : Deed Script.Twist) :
    (c.client.session.perform d).codec.outbound.limit = c.client.session.codec.outbound.limit := by
  obtain ⟨_, _, hlaid⟩ := History.laid_opening o a.deeds
  obtain ⟨_, _, hlaid'⟩ := History.laid_opening o (a.deeds ++ [d])
  have hbound := hlaid'.bound
  rw [History.run_append_singleton] at hbound
  rw [a.client]
  exact hbound.trans hlaid.bound.symm

theorem toil_writer (a : Account v o c) (h : c.client.Regular v o) {now : Nat} {w : Writer}
    (hw : w ∈ c.client.session.writers)
    (hmoves : (c.client.session.stepWriter w.request.seq now).1 ≠ .blocked) :
    (c.client.session.stepWriter w.request.seq now).2.toil < c.client.session.toil := by
  have hlife := a.life h
  have hlimit := a.limit_perform (.task (.writer w.request.seq) now)
  obtain ⟨_, _, hlaid⟩ := History.laid_opening o a.deeds
  rw [a.client] at hw hmoves hlimit ⊢
  have horderly := History.orderly_run o.codec a.deeds hlife.few
  exact Session.toil_stepWriter horderly (History.isTidy_run o.codec a.deeds) hlife.isOpen
    (horderly.find hw) hlaid.idle (fun hcurrent => hlife.goes hcurrent now) hlimit hmoves

theorem effort_writer (a : Account v o c) (h : c.client.Regular v o) {now : Nat} {w : Writer}
    (own : (.task (.writer w.request.seq) now : Deed Script.Twist).isOwn = true)
    (hw : w ∈ c.client.session.writers)
    (hmoves : (c.client.session.stepWriter w.request.seq now).1 ≠ .blocked) :
    (c.perform v (.client (.task (.writer w.request.seq) now) own)).effort < c.effort := by
  have htoil := a.toil_writer h hw hmoves
  obtain ⟨hreceiver, hinbound, hincoming⟩ :=
    Session.beside_stepWriter w.request.seq now c.client.session
  have hdistance : (c.client.session.stepWriter w.request.seq now).2.distance =
      c.client.session.distance := by
    rw [Session.distance, Session.distance, hreceiver, Framed.unread, Framed.unread, hinbound,
      hincoming]
  refine effort_lt_of_work (Session.callers_stepWriter ..) ?_ rfl rfl ?_
  · show (c.client.perform _).registered = _
    rw [History.registered_perform]
    simp only [Session.notices, Session.noteStep]
    cases c.client.session.writeFailure w.request.seq now <;> simp
  · show (c.client.session.stepWriter w.request.seq now).2.distance +
      2 * (c.client.session.stepWriter w.request.seq now).2.toil + _ < c.work
    rw [work, hdistance]
    split <;> omega

theorem effort_caller {place now : Nat} (own) {caller : Caller}
    (hplace : c.client.session.callers[place]? = some caller) (hfresh : caller.isFresh = true) :
    (c.perform v (.client (.task (.caller place) now) own)).effort < c.effort := by
  refine Prod.Lex.toLex_lt_toLex.mpr (.inl ?_)
  show (c.client.session.stepCaller place).2.callers.countP (·.isFresh) < _
  obtain ⟨caller', hstale, hcallers⟩ : ∃ caller' : Caller, caller'.isFresh = false ∧
      (c.client.session.stepCaller place).2.callers =
        c.client.session.callers.set place caller' := by
    have hstep := c.client.session.stepCaller_cases place
    generalize (c.client.session.stepCaller place).2 = s' at hstep ⊢
    cases hstep with
    | turnedAway | made => exact ⟨_, rfl, rfl⟩
    | absent hcaller | taken hcaller | bereft hcaller | awaited hcaller | finished hcaller =>
        rw [hcaller] at hplace
        cases hplace <;> cases hfresh
  obtain ⟨hlt, heq⟩ := List.getElem?_eq_some_iff.mp hplace
  have hone : 0 < c.client.session.callers.countP (·.isFresh) :=
    List.countP_pos_iff.mpr ⟨caller, heq ▸ List.getElem_mem hlt, hfresh⟩
  rw [hcallers, List.countP_set hlt, heq, hstale, if_pos hfresh, if_neg Bool.false_ne_true]
  omega

theorem answered_lt (a : Account v o c) (h : c.client.Regular v o) {place : Nat}
    (hplace : place < c.heard.length) (hnew : place ∉ c.answered.map (·.1)) :
    c.answered.length < c.client.registered.length := by
  have hheard : c.heard.length ≤ c.client.registered.length :=
    (a.faithful h).heard.length_le.trans (List.length_filterMap_le _ _)
  have hplaces : (place :: c.answered.map (·.1)) ⊆ List.range c.heard.length := by
    intro other hother
    rw [List.mem_range]
    rcases List.mem_cons.mp hother with rfl | hold
    · exact hplace
    · obtain ⟨entry, hentry, rfl⟩ := List.mem_map.mp hold
      exact (List.getElem?_eq_some_iff.mp (a.asked entry hentry)).1
  have hlength := ((List.nodup_cons.mpr ⟨hnew, a.once⟩).subperm hplaces).length_le
  rw [List.length_cons, List.length_map, List.length_range] at hlength
  omega

theorem effort_answer (a : Account v o c) (h : c.client.Regular v o) {place : Nat}
    (hplace : place < c.heard.length) (hnew : place ∉ c.answered.map (·.1)) :
    (c.perform v (.answer place)).effort < c.effort := by
  have hlt := a.answered_lt h hplace hnew
  show (c.turnTo v place).effort < _
  rcases c.turnTo_cases v place with ⟨_, hold⟩ | ⟨q, _, _, hturned⟩
  · exact absurd (hold _ (List.getElem?_eq_getElem hplace)) hnew
  · rw [hturned]
    refine Prod.Lex.toLex_lt_toLex.mpr (.inr ⟨rfl, ?_⟩)
    refine Prod.Lex.toLex_lt_toLex.mpr (.inl ?_)
    show c.client.registered.length - (c.answered ++ [(place, q)]).length < _
    rw [List.length_append, List.length_singleton]
    omega

theorem registered_outside (twist : Script.Twist) (h : History (Framed Script)) :
    (h.perform (.outside twist : Deed Script.Twist)).registered = h.registered := by
  rw [History.registered_perform]
  exact List.append_nil _

theorem effort_lt (a : Account v o c) {e : Event} (h : (c.perform v e).client.Regular v o)
    (hmoves : c.Moves e) : (c.perform v e).effort < c.effort := by
  cases e with
  | client d own =>
      cases d with
      | task t now =>
          cases t with
          | receiver => exact a.effort_receiver own h hmoves
          | writer seq =>
              obtain ⟨⟨w, hw, rfl⟩, hmoves⟩ := hmoves
              exact a.effort_writer (regular_of_perform h) own hw hmoves
          | caller place =>
              obtain ⟨caller, hplace, hfresh⟩ := hmoves
              exact effort_caller own hplace hfresh
      | go | goWith | call | completion | take | dropHandle | deafen | close | hangUp | outside =>
          exact hmoves.elim
  | accept credit =>
      obtain ⟨hnone, hsome⟩ := hmoves
      refine effort_lt_of_work rfl (registered_outside _ _) rfl rfl ?_
      show c.client.session.distance + 2 * c.client.session.toil +
        (if credit = some 0 then 1 else 0) < c.work
      rw [work, if_neg hsome, if_pos hnone]
      omega
  | answer place => exact a.effort_answer (regular_of_perform h) hmoves.1 hmoves.2
  | deliver count =>
      obtain ⟨hpos, hsome⟩ := hmoves
      have hlength := List.length_pos_iff.mpr hsome
      refine Prod.Lex.toLex_lt_toLex.mpr (.inr ⟨rfl, ?_⟩)
      rw [show (c.perform v (.deliver count)).client.registered = c.client.registered from
        registered_outside _ _]
      refine Prod.Lex.toLex_lt_toLex.mpr (.inr ⟨rfl, ?_⟩)
      refine Prod.Lex.toLex_lt_toLex.mpr (.inl ?_)
      show (c.outgoing.drop count).length < c.outgoing.length
      rw [List.length_drop]
      omega

end Account

end Effort

/-! ## The end -/

/-- A conversation, some events later. -/
def later (v : Service) (o : Opening) (events : List Event) (next : ℕ → Event) (n : ℕ) :
    Conversation :=
  run v o (events ++ (List.range n).map next)

/-- A conversation goes on as long as something moves: unless it is at rest when its
next event comes, that event gets something done. -/
structure GoesOn (v : Service) (o : Opening) (events : List Event) (next : ℕ → Event)
    (now : ℕ → Nat) : Prop where
  regular : ∀ n, (later v o events next n).client.Regular v o
  moves : ∀ n, ¬ (later v o events next n).AtRest (now n) →
    (later v o events next n).Moves (next n)

section End

variable {v : Service} {o : Opening} {events : List Event}

theorem later_succ (next : ℕ → Event) (n : ℕ) :
    later v o events next (n + 1) = (later v o events next n).perform v (next n) := by
  rw [later, List.range_succ, List.map_append, ← List.append_assoc, List.map_singleton,
    run_append_singleton]
  rfl

theorem complete_of_rest (h : (run v o events).client.Regular v o) {now : Nat}
    (hrest : (run v o events).AtRest now) : (run v o events).Complete v o := by
  obtain ⟨a⟩ := account_run v o events h
  exact a.complete h hrest

/-- There is only so much to do. -/
theorem GoesOn.complete {next : ℕ → Event} {now : ℕ → Nat} (h : GoesOn v o events next now) :
    ∃ n, (later v o events next n).Complete v o := by
  by_contra hnever
  have hless (n : ℕ) :
      (later v o events next (n + 1)).effort < (later v o events next n).effort := by
    have hmoves : (later v o events next n).Moves (next n) :=
      h.moves n fun hrest => hnever ⟨n, complete_of_rest (h.regular n) hrest⟩
    have hregular := h.regular (n + 1)
    obtain ⟨a⟩ := account_run v o _ (h.regular n)
    rw [later_succ] at hregular ⊢
    exact a.effort_lt hregular hmoves
  obtain ⟨n, hstays⟩ := WellFounded.not_rel_apply_succ (r := (· < ·))
    fun n => (later v o events next n).effort
  exact hstays (hless n)

/-- Calls that are made at any time, in any way and in any number, to a service that
answers each request it hears once, in any order and at any time, over a connection
that takes and brings octets in any pieces, each come to what the service answers to
their own method and arguments. Those that cannot be sent come to the failure of
their own request and leave nothing on the wire. -/
theorem completed_run (v : Service) (o : Opening) (events : List Event)
    (h : (run v o events).client.Regular v o) :
    (run v o events).Faithful v o ∧
      (∀ now, (run v o events).AtRest now → (run v o events).Complete v o) ∧
      ∀ next now, GoesOn v o events next now → ∃ n, (later v o events next n).Complete v o := by
  refine ⟨?_, ?_, ?_⟩
  · obtain ⟨a⟩ := account_run v o events h
    exact a.faithful h
  · intro now hrest
    exact complete_of_rest h hrest
  · intro next now hgoes
    exact hgoes.complete

end End

/-! ## Doubling -/

/-- A service that doubles numbers. -/
def doubling : Service :=
  .reading (fun _ => .number .u64) fun
    | "Arith.Double", .number .u64 n => .ok (.number .u64 (n * 2))
    | _, _ => .error "this is not known"

def doublingAsk (ticket : Nat) (method : String) (args : Wire.Value) : Ask :=
  { ticket, method, args, shape := .number .u64 }

/-- A call as it is registered, with its ticket for its number. -/
def doublingCall (ticket : Nat) (method : String) (args : Wire.Value) : Pending :=
  let p := (doublingAsk ticket method args).pending ticket
  { p with call := { p.call with seq := some (.ofNat ticket) } }

/-- A task of the client takes some steps. -/
def steps (t : Session.Task) (count : Nat) : List Event :=
  List.replicate count (.client (.task t 0) rfl)

/-- Three calls are made in three ways. The arguments of the second cannot be encoded,
and the third asks for what the service does not know and is answered first. The
connection is full in the middle of the first request, and the answers come in
pieces. -/
def doublingEvents : List Event :=
  [[.client (.completion 4) rfl,
      .client (.goWith (doublingAsk 0 "Arith.Double" (.number .u64 21)) 0) rfl,
      .client (.go (doublingAsk 1 "Arith.Double" (.failing "no"))) rfl,
      .client (.call (doublingAsk 2 "Arith.Halve" (.number .u64 1))) rfl],
    steps (.caller 0) 1, steps (.writer 0) 10, steps (.writer 2) 1, [.accept none],
    steps (.writer 0) 3, steps (.writer 1) 1, steps (.writer 2) 12, steps (.writer 1) 3,
    [.answer 1, .deliver 11], steps .receiver 3,
    [.answer 0, .deliver 60, .deliver 60], steps .receiver 16].flatten

def doublingOpening : Opening := { credit := some 13 }

def doublingRun : Conversation := run doubling doublingOpening doublingEvents

theorem registered_doubling : doublingRun.client.registered =
    [doublingCall 0 "Arith.Double" (.number .u64 21), doublingCall 1 "Arith.Double" (.failing "no"),
      doublingCall 2 "Arith.Halve" (.number .u64 1)] := by
  cbv

theorem suits_doubling : ∀ p ∈ doublingRun.client.registered, ∀ q,
    p.parcel.query maxPayload = some q → doubling.Suits maxPayload p.shape q := by
  rw [registered_doubling]
  intro p hp q hq
  simp only [List.mem_cons, List.not_mem_nil, or_false] at hp
  rcases hp with rfl | rfl | rfl
  · have hquery : (doublingCall 0 "Arith.Double" (.number .u64 21)).parcel.query maxPayload =
        some ⟨⟨"Arith.Double", 0⟩, Octets.toBytes [21, 0, 0, 0, 0, 0, 0, 0]⟩ := by
      cbv
    obtain rfl := Option.some.inj (hquery.symm.trans hq)
    have hanswer : doubling.answer "Arith.Double" (Octets.toBytes [21, 0, 0, 0, 0, 0, 0, 0]) =
        .ok (.number .u64 42) := by
      cbv
    exact .of_reply ⟨_, _, rfl, by decide +kernel, by decide +kernel, by decide +kernel⟩ hanswer rfl
  · have hquery : (doublingCall 1 "Arith.Double" (.failing "no")).parcel.query maxPayload =
        none := by
      cbv
    cases hquery.symm.trans hq
  · have hquery : (doublingCall 2 "Arith.Halve" (.number .u64 1)).parcel.query maxPayload =
        some ⟨⟨"Arith.Halve", 2⟩, Octets.toBytes [1, 0, 0, 0, 0, 0, 0, 0]⟩ := by
      cbv
    obtain rfl := Option.some.inj (hquery.symm.trans hq)
    have hanswer : doubling.answer "Arith.Halve" (Octets.toBytes [1, 0, 0, 0, 0, 0, 0, 0]) =
        .error "this is not known" := by
      cbv
    exact .of_error ⟨_, _, rfl, by decide +kernel, by decide +kernel, by decide +kernel⟩ hanswer
      (by decide)

theorem regular_doubling : doublingRun.client.Regular doubling doublingOpening := by
  have htimely : doublingRun.client.notices.all (·.isTimely) = true := by decide +kernel
  refine ⟨?_, ?_, ?_, suits_doubling⟩
  · rw [registered_doubling]
    decide
  · intro hmem
    cases List.all_eq_true.mp htimely _ hmem
  · intro seq hmem
    cases List.all_eq_true.mp htimely _ hmem

theorem atRest_doubling : doublingRun.AtRest 0 :=
  .intro (by cbv) (List.isEmpty_iff.mp (by decide +kernel)) (by decide +kernel)
    (by decide +kernel) (by decide +kernel) (by decide +kernel)

theorem completed_doubling : doublingRun.client.Regular doubling doublingOpening ∧
    doublingRun.AtRest 0 ∧ doublingRun.Faithful doubling doublingOpening ∧
      doublingRun.Complete doubling doublingOpening := by
  obtain ⟨hfaithful, hcomplete, _⟩ :=
    completed_run doubling doublingOpening doublingEvents regular_doubling
  exact ⟨regular_doubling, atRest_doubling, hfaithful, hcomplete 0 atRest_doubling⟩

/-- What the three calls were told. -/
example : doublingRun.client.session.client.signals.map
    (fun s => (s.1, s.2.seq, s.2.reply.isSome, s.2.error)) =
      [(1, some 1, false, some (.transport (.encode (.custom "no")))),
        (2, some 2, false, some (.server "this is not known")), (0, some 0, true, none)] := by
  decide +kernel

end Conversation

end Switchboard
