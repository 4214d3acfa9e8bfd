import Switchboard.Proofs.Client.Pieces

/-!
# What is still written when reading is over

When reading is over, the connection is dead and every call was told so. Nobody
begins to write any more: whoever gets the lock finds the client over and gives
it up. But the writing that was under way at that moment is left only when the
owner closes. Otherwise it goes on as soon as the other side takes something
again, for a call that failed long ago (`deserted_run`), and that one request is
all that can still come (`residue`).
-/

namespace Switchboard

open Session (Deed Notice)

/-- Whether a request is begun or gone on with. -/
def Touch.isWrite : Touch → Bool
  | .write _ => true
  | .close => false

/-! ## One deed -/

namespace Session

variable {ω κ : Type} [Codec κ] [Surroundings ω κ]

/-- When the client is over, nobody new gets the turn. -/
theorem current_perform {s : Session κ} (htidy : IsTidy s.writers s.lock.holder)
    (hover : s.client.isOver = true) (d : Deed ω) :
    (s.perform d).current = none ∨ (s.perform d).current = s.current := by
  by_cases hd : ∀ seq now, d ≠ .task (.writer seq) now
  · obtain ⟨_, _, hstands⟩ := s.bystands_perform hd
    exact Or.inr (hstands.turnOf_eq htidy)
  · push Not at hd
    obtain ⟨seq, now, rfl⟩ := hd
    have hturn := (turn_stepWriter (ω := ω) htidy seq now).1
    simp only [perform, step]
    generalize s.currentEnding (.task (.writer seq) now : Deed ω) = result at hturn
    generalize (s.stepWriter seq now).2 = s' at hturn ⊢
    cases hturn with
    | kept _ hcurrent => exact Or.inr hcurrent
    | refused _ _ _ _ hleft => exact Or.inl hleft
    | begun _ hopen =>
        rw [hover] at hopen
        cases hopen
    | cancelled _ _ _ _ hleft => exact Or.inl hleft
    | writing hcurrent _ _ _ _ hstill => exact Or.inr (hstill.trans hcurrent.symm)
    | written _ _ _ _ _ hleft => exact Or.inl hleft

/-- When the client is over, the codec is asked to go on with the request under
way, unless the owner has closed, or to close. -/
theorem touches_of_over {s : Session (Watched κ)} (htidy : IsTidy s.writers s.lock.holder)
    (hover : s.client.isOver = true) (d : Deed ω) :
    (s.perform d).codec.touches = s.codec.touches ∨
      (s.perform d).codec.touches = s.codec.touches ++ [Touch.close] ∨
      s.client.closing = false ∧ ∃ p, s.current = some p ∧
        (s.perform d).codec.touches = s.codec.touches ++ [Touch.write p.request.seq] := by
  by_cases hd : ∀ seq now, d ≠ .task (.writer seq) now
  · have htraffic := s.traffic_perform d
    generalize (s.perform d).client.closing = closing at htraffic
    generalize (s.perform d).lock = lock at htraffic
    generalize (s.perform d).codec = codec at htraffic ⊢
    cases htraffic with
    | idle => exact Or.inl rfl
    | closed => exact Or.inl rfl
    | outside => exact Or.inl rfl
    | read _ hreading => exact Or.inl (Watched.touches_of_reading hreading)
    | hungUp => exact Or.inr (Or.inl rfl)
    | asked seq now | refused seq now | cancelled seq now => exact absurd rfl (hd seq now)
    | writing now | written now => exact absurd rfl (hd _ now)
  · push Not at hd
    obtain ⟨seq, now, rfl⟩ := hd
    have hturn := (turn_stepWriter (ω := ω) htidy seq now).1
    simp only [perform, step]
    generalize s.currentEnding (.task (.writer seq) now : Deed ω) = result at hturn
    generalize (s.stepWriter seq now).2 = s' at hturn ⊢
    cases hturn with
    | kept _ _ hcodec => exact Or.inl (by rw [hcodec])
    | refused _ _ _ _ _ hcodec => exact Or.inl (by rw [hcodec])
    | begun _ hopen =>
        rw [hover] at hopen
        cases hopen
    | cancelled _ _ _ _ _ hcodec => exact Or.inl (by rw [hcodec]; rfl)
    | @writing w _ _ hcurrent hopen hwrite =>
        have htouch := congrArg (fun result => result.2.touches) hwrite
        exact Or.inr (Or.inr ⟨hopen, w.parcel, hcurrent, htouch.symm⟩)
    | @written w _ _ _ hcurrent hopen hwrite =>
        have htouch := congrArg (fun result => result.2.touches) hwrite
        exact Or.inr (Or.inr ⟨hopen, w.parcel, hcurrent, htouch.symm⟩)

omit [Codec κ] [Surroundings ω κ] in
/-- Somebody has the turn: with the lock, and having begun. -/
theorem writer_of_current {s : Session κ} {p : Parcel} (h : s.current = some p) :
    ∃ w, s.lock.holder = some (.writer p.request.seq) ∧ w.begun = true ∧
      s.writers.find? (·.request.seq = p.request.seq) = some w := by
  unfold current turnOf at h
  split at h
  · rename_i seq hholder
    obtain ⟨w, hw, rfl⟩ := Option.map_eq_some_iff.mp h
    obtain ⟨hfind, hbegun⟩ := Option.filter_eq_some_iff.mp hw
    obtain rfl := seq_of_find hfind
    exact ⟨w, hholder, hbegun, hfind⟩
  · cases h
  · cases h

omit [Surroundings ω κ] in
/-- With the turn, a step of the writer is a step of the writing. -/
theorem codec_stepWriter {s : Session κ} {seq : UInt64} {w : Writer}
    (hfind : s.writers.find? (·.request.seq = seq) = some w) (hqueued : w.queued = true)
    (hholder : s.lock.holder = some (.writer seq)) (hbegun : w.begun = true)
    (hopen : s.client.closing = false) (now : Nat) :
    (s.stepWriter seq now).2.codec = (Codec.write w.request w.args now s.codec).2 := by
  rcases hwrite : Codec.write w.request w.args now s.codec with ⟨_ | _ | result, codec⟩
  · simp [stepWriter, hfind, hqueued, hholder, hbegun, hopen, hwrite]
  · simp [stepWriter, hfind, hqueued, hholder, hbegun, hopen, hwrite]
  · simp [stepWriter, hfind, hqueued, hholder, hbegun, hopen, hwrite, codec_endWriter]

/-- Unless the owner has closed, whoever has the turn goes on writing. -/
theorem touches_of_current {s : Session (Watched κ)} {p : Parcel} (h : s.current = some p)
    (hopen : s.client.closing = false) :
    ∃ more : List (Deed ω), (more.foldl (fun s d => s.perform d) s).codec.touches =
      s.codec.touches ++ [Touch.write p.request.seq] := by
  have hwrites {s : Session (Watched κ)} {w : Writer} (hopen : s.client.closing = false)
      (hholder : s.lock.holder = some (.writer p.request.seq)) (hbegun : w.begun = true)
      (hqueued : w.queued = true)
      (hfind : s.writers.find? (·.request.seq = p.request.seq) = some w) :
      (s.perform (.task (.writer p.request.seq) 0 : Deed ω)).codec.touches =
        s.codec.touches ++ [Touch.write p.request.seq] := by
    have hcodec := codec_stepWriter hfind hqueued hholder hbegun hopen 0
    rw [← seq_of_find hfind] at hcodec ⊢
    exact congrArg Watched.touches hcodec
  obtain ⟨w, hholder, hbegun, hfind⟩ := writer_of_current h
  cases hqueued : w.queued with
  | true => exact ⟨[.task (.writer p.request.seq) 0], hwrites hopen hholder hbegun hqueued hfind⟩
  | false =>
      -- Whoever has not asked for the lock asks once more, and then writes.
      refine ⟨[.task (.writer p.request.seq) 0, .task (.writer p.request.seq) 0], ?_⟩
      have hasked : s.perform (.task (.writer p.request.seq) 0 : Deed ω) =
          { s with lock := s.lock.ask (.writer p.request.seq) }.updateWriter p.request.seq
            ({ · with queued := true }) := by
        simp [perform, step, stepWriter, hfind, hqueued]
      rw [List.foldl_cons, List.foldl_cons, List.foldl_nil, hasked]
      refine hwrites (w := { w with queued := true }) hopen ?_ hbegun rfl ?_
      · simp [updateWriter, Lock.ask, hholder]
      · have hamended := find_amend p.request.seq (f := ({ · with queued := true })) (fun _ => rfl)
          s.writers p.request.seq
        rw [hfind, Option.map_some, if_pos (seq_of_find hfind)] at hamended
        exact hamended

end Session

/-! ## What is left of a request -/

namespace Framed

/-- What the connection may still take when nobody begins any more: what is in
the buffer and is left to be put of the request under way. -/
def residue (s : Session (Framed Script)) : Octets :=
  match s.current, s.codec.outbound.writing with
  | none, _ => []
  | some p, none => s.codec.outbound.unsent ++ p.octets s.codec.outbound.limit
  | some _, some _ => s.codec.outbound.unsent ++ s.codec.outbound.unput

theorem residue_of_none {s : Session (Framed Script)} (h : s.current = none) : residue s = [] := by
  rw [residue, h]

theorem residue_of_same {s s' : Session (Framed Script)}
    (hcurrent : s'.current = s.current) (houtbound : s'.codec.outbound = s.codec.outbound) :
    residue s' = residue s := by
  rw [residue, residue, hcurrent, houtbound]

/-- From one moment to the other the connection took the front of what was left. -/
def Drains (sent : Octets) (s s' : Session (Framed Script)) : Prop :=
  s'.codec.link.taken = s.codec.link.taken ++ sent ∧ sent ++ residue s' <+: residue s

theorem Drains.nothing {s s' : Session (Framed Script)}
    (htaken : s'.codec.link.taken = s.codec.link.taken) (hresidue : residue s' <+: residue s) :
    Drains [] s s' :=
  ⟨htaken.trans (List.append_nil _).symm, hresidue⟩

/-- Nobody writes any more, so what is left is left for good. -/
theorem Drains.left {s s' : Session (Framed Script)} (hnone : s'.current = none)
    (htaken : s'.codec.link.taken = s.codec.link.taken) : Drains [] s s' := by
  refine .nothing htaken ?_
  rw [residue_of_none hnone]
  exact List.nil_prefix

theorem Drains.trans {s s' s'' : Session (Framed Script)} {sent sent' : Octets}
    (h : Drains sent s s') (h' : Drains sent' s' s'') : Drains (sent ++ sent') s s'' := by
  constructor
  · rw [h'.1, h.1, List.append_assoc]
  · rw [List.append_assoc]
    exact ((List.prefix_append_right_inj sent).mpr h'.2).trans h.2

/-- A step of the writing under way takes from the front of what is left. -/
theorem drains_write {s s' : Session (Framed Script)} {p : Parcel}
    (hsound : s.codec.outbound.IsSound) (hcurrent : s.current = some p)
    {poll : Poll (Except CallError Unit)}
    (hstep : s.codec.WriteStep p.request p.args poll s'.codec)
    (hafter : s'.current = none ∨ s'.current = some p ∧ Session.ending poll = none) :
    ∃ sent, Drains sent s s' := by
  generalize hcodec : s'.codec = codec at hstep
  rcases hafter with hnone | ⟨hstill, hpoll⟩
  · cases hstep with
    | begun => exact ⟨[], .left hnone (by rw [hcodec])⟩
    | refused => exact ⟨[], .left hnone (by rw [hcodec])⟩
    | @shipped poll outbound link hwriting hships =>
        obtain ⟨w, hw⟩ := Option.isSome_iff_exists.mp hwriting
        cases hships with
        | @going _ outbound link put sent _ _ _ htakes hput hsent =>
            refine ⟨sent, ?_, ?_⟩
            · rw [hcodec]
              exact htakes.taken
            · rw [residue_of_none hnone, List.append_nil, residue, hcurrent, hw]
              dsimp only
              rw [hput, ← List.append_assoc, hsent hsound, List.append_assoc]
              exact List.prefix_append _ _
        | finished => exact ⟨[], .left hnone (by rw [hcodec])⟩
        | failed _ _ _ htakes =>
            refine ⟨[], .left hnone ?_⟩
            rw [hcodec]
            exact htakes.taken.trans (List.append_nil _)
  · cases hstep with
    | @begun outbound hidle hbegins =>
        cases hbegins with
        | @ok w hoctets =>
            refine ⟨[], .nothing (by rw [hcodec]) ?_⟩
            rw [residue, residue, hstill, hcurrent, hcodec, hidle]
            dsimp only
            rw [hoctets]
            exact List.prefix_refl _
    | refused => cases hpoll
    | @shipped poll outbound link hwriting hships =>
        obtain ⟨w, hw⟩ := Option.isSome_iff_exists.mp hwriting
        cases hships with
        | @going _ outbound link put sent _ hmore _ htakes hput hsent =>
            obtain ⟨w', hw'⟩ := Option.isSome_iff_exists.mp hmore
            refine ⟨sent, ?_, ?_⟩
            · rw [hcodec]
              exact htakes.taken
            · rw [residue, residue, hstill, hcurrent, hcodec, hw, hw']
              dsimp only
              rw [hput, ← List.append_assoc, ← List.append_assoc, hsent hsound]
        | finished => cases hpoll
        | failed => cases hpoll

/-- What is done when the client is over takes at most from the front of what is
left. -/
theorem drains_perform {s : Session (Framed Script)} (htidy : IsTidy s.writers s.lock.holder)
    (hleaving : s.IsLeaving (·.outbound.aborted.toNat)) (hsound : s.codec.outbound.IsSound)
    (hover : s.client.isOver = true) (d : Deed Script.Twist) :
    ∃ sent, Drains sent s (s.perform d) := by
  by_cases hd : ∀ seq now, d ≠ .task (.writer seq) now
  · obtain ⟨_, _, hstands⟩ := s.bystands_perform hd
    have hcurrent : (s.perform d).current = s.current := hstands.turnOf_eq htidy
    have htraffic := s.traffic_perform d
    generalize s.perform d = s' at hcurrent htraffic ⊢
    have hstays (houtbound : s'.codec.outbound = s.codec.outbound)
        (htaken : s'.codec.link.taken = s.codec.link.taken) : ∃ sent, Drains sent s s' :=
      ⟨[], .nothing htaken (by rw [residue_of_same hcurrent houtbound])⟩
    generalize s'.client.closing = closing at htraffic
    generalize s'.lock = lock at htraffic
    generalize hcodec : s'.codec = codec at htraffic
    cases htraffic with
    | idle => exact hstays (by rw [hcodec]) (by rw [hcodec])
    | closed => exact hstays (by rw [hcodec]) (by rw [hcodec])
    | read _ hreading =>
        obtain ⟨houtbound, _, _, hlink⟩ := sameOutbound_of_reading hreading
        exact hstays (by rw [hcodec, houtbound]) (by rw [hcodec, hlink])
    | outside twist => exact hstays (by rw [hcodec]; rfl) (by rw [hcodec]; cases twist <;> rfl)
    | hungUp hholder =>
        have hnot : s.codec.outbound.aborted = false := by
          simpa using (hleaving.of_holder hholder).1
        have hnone : s.current = none := by
          rw [Session.current, hholder]
          rfl
        refine ⟨[], .left (hcurrent.trans hnone) ?_⟩
        rw [hcodec, show (Codec.close s.codec).2 = _ from s.codec.close_eq hnot]
    | asked seq now | refused seq now | cancelled seq now => exact absurd rfl (hd seq now)
    | writing now | written now => exact absurd rfl (hd _ now)
  · push Not at hd
    obtain ⟨seq, now, rfl⟩ := hd
    have hturn := (Session.turn_stepWriter (ω := Script.Twist) htidy seq now).1
    simp only [Session.perform, Session.step]
    generalize s.currentEnding (.task (.writer seq) now : Deed Script.Twist) = result at hturn
    generalize (s.stepWriter seq now).2 = s' at hturn ⊢
    cases hturn with
    | kept _ hcurrent hcodec =>
        refine ⟨[], .nothing (by rw [hcodec]) ?_⟩
        rw [residue_of_same hcurrent (by rw [hcodec])]
    | refused _ _ _ _ hleft hcodec => exact ⟨[], .left hleft (by rw [hcodec])⟩
    | begun _ hopen =>
        rw [hover] at hopen
        cases hopen
    | cancelled _ _ _ _ hleft hcodec => exact ⟨[], .left hleft (by rw [hcodec]; rfl)⟩
    | @writing w s' poll hcurrent _ hwrite hpoll _ hstill =>
        have hstep := s.codec.writeStep_write w.request w.args now
        rw [show s.codec.write w.request w.args now = _ from hwrite] at hstep
        exact drains_write hsound hcurrent hstep (Or.inr ⟨hstill, hpoll⟩)
    | @written w s' result _ hcurrent _ hwrite _ hleft =>
        have hstep := s.codec.writeStep_write w.request w.args now
        rw [show s.codec.write w.request w.args now = _ from hwrite] at hstep
        exact drains_write hsound hcurrent hstep (Or.inl hleft)

end Framed

/-! ## Every life -/

namespace History

variable {ω κ : Type} [Codec κ] [Surroundings ω κ]

/-- What happens to the writing half of a codec from one moment, at which reading
was over, to a later one. -/
structure Deserted (h later : History (Watched κ)) : Prop where
  /-- Nobody begins to write. -/
  current : later.session.current = none ∨ later.session.current = h.session.current
  /-- Besides closing, the codec is only asked to go on with the request that was
  under way, and not even that if the owner had closed. -/
  asked : ∃ since, later.session.codec.touches = h.session.codec.touches ++ since ∧
    ∀ touch ∈ since, touch = .close ∨ h.session.client.closing = false ∧
      ∃ p, h.session.current = some p ∧ touch = .write p.request.seq
  /-- Whoever gets the lock is told that the client is shut down and gives it up. -/
  refuses : ∀ (seq : UInt64) (w : Writer) (now : Nat),
    later.session.writers.find? (·.request.seq = seq) = some w → w.queued = true →
      later.session.lock.holder = some (.writer seq) → w.begun = false →
        later.session.stepWriter seq now = (.done (), { later.session with
          lock := later.session.lock.release
          writers := later.session.writers.filter (·.request.seq != seq)
          client := later.session.client.writeFailed seq .shutdown })

section Down

variable {codec : κ} {deeds : List (Deed ω)}

theorem over_of_down (hdown : (run codec deeds).session.client.shutdown = true)
    (more : List (Deed ω)) : (run codec (deeds ++ more)).session.client.isOver = true := by
  rw [Client.isOver, (onward_run codec deeds more).shutdown hdown, Bool.true_or]

/-- From the end of reading on, nobody gets the turn who did not have it. -/
theorem current_run (hdown : (run codec deeds).session.client.shutdown = true)
    (more : List (Deed ω)) :
    (run codec (deeds ++ more)).session.current = none ∨
      (run codec (deeds ++ more)).session.current = (run codec deeds).session.current := by
  induction more using List.reverseRecOn with
  | nil =>
      rw [List.append_nil]
      exact Or.inr rfl
  | append_singleton more d ih =>
      rw [← List.append_assoc, run_append_singleton]
      have hstep := Session.current_perform (isTidy_run codec _) (over_of_down hdown more) d
      rcases hstep with hnone | hsame
      · exact Or.inl hnone
      · rcases ih with hnone | hstill
        · exact Or.inl (hsame.trans hnone)
        · exact Or.inr (hsame.trans hstill)

end Down

theorem asked_run {codec : Watched κ} {deeds : List (Deed ω)}
    (hdown : (run codec deeds).session.client.shutdown = true) (more : List (Deed ω)) :
    ∃ since, (run codec (deeds ++ more)).session.codec.touches =
        (run codec deeds).session.codec.touches ++ since ∧
      ∀ touch ∈ since, touch = .close ∨ (run codec deeds).session.client.closing = false ∧
        ∃ p, (run codec deeds).session.current = some p ∧ touch = .write p.request.seq := by
  induction more using List.reverseRecOn with
  | nil => exact ⟨[], by simp, by simp⟩
  | append_singleton more d ih =>
      obtain ⟨since, htouches, hsince⟩ := ih
      have hone {touch : Touch} (htouch : touch = .close ∨
          (run codec deeds).session.client.closing = false ∧
            ∃ p, (run codec deeds).session.current = some p ∧ touch = .write p.request.seq)
          (hmore : ((run codec (deeds ++ more)).perform d).session.codec.touches =
            (run codec (deeds ++ more)).session.codec.touches ++ [touch]) :
          ∃ since, ((run codec (deeds ++ more)).perform d).session.codec.touches =
              (run codec deeds).session.codec.touches ++ since ∧
            ∀ touch ∈ since, touch = .close ∨
              (run codec deeds).session.client.closing = false ∧
                ∃ p, (run codec deeds).session.current = some p ∧ touch = .write p.request.seq := by
        refine ⟨since ++ [touch], by rw [hmore, htouches, List.append_assoc], ?_⟩
        intro other hother
        rcases List.mem_append.mp hother with hold | hnew
        · exact hsince other hold
        · rw [List.mem_singleton.mp hnew]
          exact htouch
      rw [← List.append_assoc, run_append_singleton]
      rcases Session.touches_of_over (isTidy_run codec _) (over_of_down hdown more) d with
        hsame | hclosed | ⟨hopen, p, hcurrent, hwritten⟩
      · exact ⟨since, hsame.trans htouches, hsince⟩
      · exact hone (Or.inl rfl) hclosed
      · -- Who has the turn now had it when reading ended.
        refine hone (Or.inr ⟨?_, p, ?_, rfl⟩) hwritten
        · cases hclosing : (run codec deeds).session.client.closing with
          | false => rfl
          | true =>
              rw [(onward_run codec deeds more).closing hclosing] at hopen
              cases hopen
        · rcases current_run hdown more with hnone | hstill
          · rw [hnone] at hcurrent
            cases hcurrent
          · rw [← hstill, hcurrent]

theorem deserted_run {codec : Watched κ} {deeds : List (Deed ω)}
    (hdown : (run codec deeds).session.client.shutdown = true) (more : List (Deed ω)) :
    Deserted (run codec deeds) (run codec (deeds ++ more)) where
  current := current_run hdown more
  asked := asked_run hdown more
  refuses seq w now hfind hqueued hholder hbegun := by
    simp [Session.stepWriter, hfind, hqueued, hholder, hbegun, over_of_down hdown more,
      Session.endWriter]

/-- Whatever is done, nothing is written any more, exactly if nobody was writing
when reading ended or the owner had closed. -/
theorem unwritten_iff {codec : Watched κ} {deeds : List (Deed ω)}
    (hdown : (run codec deeds).session.client.shutdown = true) :
    (∀ more, (run codec (deeds ++ more)).session.codec.touches.filter Touch.isWrite =
        (run codec deeds).session.codec.touches.filter Touch.isWrite) ↔
      (run codec deeds).session.current = none ∨
        (run codec deeds).session.client.closing = true := by
  constructor
  · intro hnever
    by_contra hboth
    push Not at hboth
    obtain ⟨hbusy, hopen⟩ := hboth
    obtain ⟨p, hcurrent⟩ := Option.ne_none_iff_exists'.mp hbusy
    obtain ⟨more, hwritten⟩ :=
      Session.touches_of_current (ω := ω) hcurrent (by simpa using hopen)
    have hsame := hnever more
    rw [session_run, List.foldl_append, ← session_run, hwritten, List.filter_append] at hsame
    simp [Touch.isWrite] at hsame
  · intro hquiet more
    obtain ⟨since, htouches, hsince⟩ := asked_run hdown more
    rw [htouches, List.filter_append, List.append_right_eq_self, List.filter_eq_nil_iff]
    intro touch htouch
    rcases hsince touch htouch with rfl | ⟨hopen, p, hcurrent, rfl⟩
    · simp [Touch.isWrite]
    · rcases hquiet with hnone | hclosing
      · rw [hnone] at hcurrent
        cases hcurrent
      · rw [hclosing] at hopen
        cases hopen

/-- Over frames, the connection takes at most what was left of the request under
way, front first. -/
theorem drains_run (link : Script) (inbound : Inbound) (limit : Nat) (patience : Option Nat)
    {life : List (Deed Script.Twist)}
    (hdown : (run (⟨link, inbound, { limit, patience }⟩ : Framed Script)
      life).session.client.shutdown = true) (rest : List (Deed Script.Twist)) :
    ∃ sent, Framed.Drains sent (run (⟨link, inbound, { limit, patience }⟩ : Framed Script)
      life).session (run (⟨link, inbound, { limit, patience }⟩ : Framed Script)
        (life ++ rest)).session := by
  induction rest using List.reverseRecOn with
  | nil =>
      rw [List.append_nil]
      exact ⟨[], .nothing rfl (List.prefix_refl _)⟩
  | append_singleton rest d ih =>
      obtain ⟨sent, hdrains⟩ := ih
      obtain ⟨_, _, hlaid⟩ := laid_run link inbound limit patience (life ++ rest)
      have hleaving := isLeaving_run Framed.counts_aborted
        (⟨link, inbound, { limit, patience }⟩ : Framed Script) rfl (life ++ rest)
      obtain ⟨sent', hnext⟩ := Framed.drains_perform (isTidy_run _ _) hleaving hlaid.sound
        (over_of_down hdown rest) d
      rw [← List.append_assoc, run_append_singleton]
      exact ⟨_, hdrains.trans hnext⟩

/-- When reading is over, no request is begun any more, whatever codec a client
speaks and whatever is done. The one that was under way goes on unless the owner
closed, and over frames what is left of it is all that still comes. -/
theorem deserted_iff (codec : κ) {deeds : List (Deed ω)}
    (hdown : (run ({ codec } : Watched κ) deeds).session.client.shutdown = true)
    (link : Script) (inbound : Inbound) (limit : Nat) (patience : Option Nat)
    {life : List (Deed Script.Twist)}
    (hdown' : (run (⟨link, inbound, { limit, patience }⟩ : Framed Script)
      life).session.client.shutdown = true) :
    let h := run ({ codec } : Watched κ) deeds
    let framed := run (⟨link, inbound, { limit, patience }⟩ : Framed Script)
    (∀ more, (run ({ codec } : Watched κ) (deeds ++ more)).unwatched = run codec (deeds ++ more) ∧
      Deserted h (run ({ codec } : Watched κ) (deeds ++ more))) ∧
    ((∀ more, (run ({ codec } : Watched κ) (deeds ++ more)).session.codec.touches.filter
          Touch.isWrite = h.session.codec.touches.filter Touch.isWrite) ↔
      h.session.current = none ∨ h.session.client.closing = true) ∧
    ∀ rest, ∃ sent, (framed (life ++ rest)).session.codec.link.taken =
        (framed life).session.codec.link.taken ++ sent ∧
      sent <+: Framed.residue (framed life).session ∧
      ((framed life).session.client.closing = true → sent = []) := by
  intro h framed
  refine ⟨fun more => ⟨unwatched_run codec _, deserted_run hdown more⟩, unwritten_iff hdown, ?_⟩
  intro rest
  obtain ⟨sent, htaken, hresidue⟩ := drains_run link inbound limit patience hdown' rest
  refine ⟨sent, htaken, (List.prefix_append _ _).trans hresidue, ?_⟩
  intro hclosing
  have hlast := (lastWords_framed ⟨link, inbound, { limit, patience }⟩ rfl life rest).taken hclosing
  rw [htaken] at hlast
  exact List.append_right_eq_self.mp hlast

/-- A call, of whose request the connection took ten octets before the stream
from the other side ended. -/
def halfSent : List (Deed Script.Twist) :=
  [Deed.go ⟨0, "Arith.Multiply", .unit, .unit⟩] ++ List.replicate 14 (Deed.task (.writer 0) 0) ++
    [Deed.outside (.arrive [.ended])] ++ List.replicate 3 (Deed.task .receiver 0)

/-- Then the other side takes whatever comes. -/
def resumed : List (Deed Script.Twist) :=
  [Deed.outside (.accept none .wait)] ++ List.replicate 10 (Deed.task (.writer 0) 0)

theorem deserted_of_half_sent :
    (run ({ codec := ⟨tightLink, {}, {}⟩ } : Watched (Framed Script))
        halfSent).session.client.shutdown = true ∧
      (run (⟨tightLink, {}, {}⟩ : Framed Script) halfSent).session.client.shutdown = true ∧
      ∃ sent, (run (⟨tightLink, {}, {}⟩ : Framed Script)
          (halfSent ++ resumed)).session.codec.link.taken =
        (run (⟨tightLink, {}, {}⟩ : Framed Script) halfSent).session.codec.link.taken ++ sent := by
  have hdown : (run ({ codec := ⟨tightLink, {}, {}⟩ } : Watched (Framed Script))
      halfSent).session.client.shutdown = true := by decide +kernel
  have hdown' : (run (⟨tightLink, {}, {}⟩ : Framed Script)
      halfSent).session.client.shutdown = true := by decide +kernel
  have hrun := deserted_iff (⟨tightLink, {}, {}⟩ : Framed Script) hdown tightLink {} maxPayload none
    hdown'
  obtain ⟨sent, htaken, _⟩ := hrun.2.2 resumed
  exact ⟨hdown, hdown', sent, htaken⟩

/-- The call failed when reading ended, and still its request is completed. -/
theorem completed_after_end :
    let h := run (⟨tightLink, {}, {}⟩ : Framed Script) halfSent
    let later := run (⟨tightLink, {}, {}⟩ : Framed Script) (halfSent ++ resumed)
    h.session.client.shutdown = true ∧
      h.session.client.signals.map (fun s => (s.2.seq, s.2.error)) =
        [(some 0, some .unexpectedEof)] ∧
      h.session.codec.link.taken.length = 10 ∧ later.session.codec.link.taken.length = 38 := by
  exact ⟨by decide +kernel, by decide +kernel, by decide +kernel, by decide +kernel⟩

end History

end Switchboard
