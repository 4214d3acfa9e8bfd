import Switchboard.Proofs.Client.Position

/-!
# Reading comes to an end

Once everything has come, the end of the stream included, the receiver of a
client that speaks in frames does not wait any more: each of its steps takes
something from the stream, or begins a read, or leaves the reading of a reply.
So finitely many steps end it, whenever they are taken (`ended_of_delivered`),
and none of its reads takes too long.
-/

namespace Switchboard

open Session (Deed Notice)

/-- How much there is to do for a receiver at the end of the stream: when a
reply is not read it goes on to the next header. -/
def Receiver.stage : Receiver → Nat
  | .body _ => 2
  | .header | .unknown | .errorBody .. | .ended => 0

theorem Receiver.stage_le (r : Receiver) : r.stage ≤ 2 := by
  cases r with
  | body => exact Nat.le_refl 2
  | header | unknown | errorBody | ended => exact Nat.zero_le 2

namespace Session

/-- How far a receiver is from the end of the stream. -/
def distance (s : Session (Framed Script)) : Nat :=
  4 * (s.codec.unread []).length + (if s.codec.inbound.reading = none then 1 else 0) +
    s.receiver.stage

/-- No read was given up because it took too long. -/
def InTime (failure : Option (Option CallError)) : Prop :=
  failure ≠ some (some (.transport (.timeout .receive)))

theorem inTime_none : InTime none := by simp [InTime]

/-- Only what took too long fails so. -/
theorem inTime_ofLink {error : LinkError} (h : error ≠ .timeout .receive) :
    InTime (some (some (.ofLink error))) := by
  cases error <;> simp_all [InTime, CallError.ofLink]

variable {s s' : Session (Framed Script)} {limit : Nat} {taken : Octets}
  {failure : Option (Option CallError)}

/-- Whatever is taken counts more than all that may come up again. -/
theorem distance_lt_of_took {got : Octets} (htook : s.codec.Took got s'.codec)
    (hgot : 0 < got.length) : s'.distance < s.distance := by
  have hlength := congrArg List.length (htook.unread [])
  rw [List.length_append] at hlength
  -- One octet counts four; a new read and the stage count three at most.
  have hstage := s'.receiver.stage_le
  rw [distance, distance]
  split <;> split <;> omega

/-- A read that has begun is over, and the receiver with it, unless it was the
read of a reply. -/
theorem distance_lt_of_ended (htook : s.codec.Took [] s'.codec)
    (hreading : s.codec.inbound.reading ≠ none) (hbody : s.receiver.stage = 2)
    (hheader : s'.receiver.stage = 0) : s'.distance < s.distance := by
  have hunread : s.codec.unread [] = s'.codec.unread [] := htook.unread []
  rw [distance, distance, hunread, hbody, hheader, if_neg hreading]
  split <;> omega

/-- With everything there, a step brings the receiver nearer to the end, and no
read takes too long. -/
theorem nearer_of_delivered (h : ReceiverReads limit taken s failure s')
    (hall : Incoming.Delivered s.codec.link.incoming) :
    (s'.receiver = .ended ∨
      s'.distance < s.distance ∧ Incoming.Delivered s'.codec.link.incoming) ∧
      InTime failure := by
  cases h with
  | ended hreceiver => exact ⟨.inl hreceiver, inTime_none⟩
  | cancelled _ _ _ hclient => exact ⟨.inl (Prod.mk.inj hclient).2, inTime_none⟩
  | awaited got _ htook _ hmoves hclient =>
      refine ⟨.inr ⟨?_, htook.delivered hall⟩, inTime_none⟩
      rcases hmoves hall with hgot | ⟨hidle, hbegun⟩
      · exact distance_lt_of_took htook hgot
      · have hlength := congrArg List.length (htook.unread [])
        rw [List.length_append] at hlength
        rw [distance, distance, (Prod.mk.inj hclient).2, if_pos hidle, if_neg hbegun]
        omega
  | frame got payload failure hfailure _ hwhole =>
      refine ⟨.inr ⟨distance_lt_of_took hwhole.took hwhole.pos, hwhole.took.delivered hall⟩, ?_⟩
      -- With a whole frame only its decoding can have failed.
      intro htimeout
      obtain ⟨fault, hfault⟩ := hfailure _ (Option.some.inj htimeout)
      cases hfault
  | broken error _ hread hcodec hidle hclient =>
      cases hread with
      | awaited _ hpoll => rcases hpoll with hpoll | hpoll <;> cases hpoll
      | tooLarge got length hgot htook =>
          have htook' := htook.trans_same hcodec
          exact ⟨.inr ⟨distance_lt_of_took htook' hgot, htook'.delivered hall⟩,
            inTime_ofLink (by simp)⟩
      | ended _ htook _ _ hreading =>
          refine ⟨?_, inTime_ofLink (by simp)⟩
          have htook' := htook.trans_same hcodec
          have hreceiver := congrArg Prod.snd hclient
          -- Only after a reply is there one more header to wait for.
          by_cases hbody : ∃ p, s.receiver = .body p
          · obtain ⟨p, hbody⟩ := hbody
            rw [hbody] at hreceiver
            refine .inr ⟨distance_lt_of_ended htook' hreading ?_ ?_, htook'.delivered hall⟩
            · rw [hbody]
              rfl
            · rw [show s'.receiver = .header from hreceiver]
              rfl
          · left
            rw [show s'.receiver = _ from hreceiver]
            exact receiver_breakOff _ _ fun p heq => hbody ⟨p, heq⟩
      | failed _ error hfailure =>
          rcases hall.2 _ hfailure with heq | ⟨_, heq⟩ <;> cases heq
      | timeout _ hsilent => exact absurd hall hsilent

/-- Some read is on its way or may begin, if reading is not over. -/
def IsReading (limit : Nat) (s : Session (Framed Script)) : Prop :=
  ∃ taken, s.receiver ≠ .ended → s.codec.Reads limit s.receiver.skips taken

theorem IsReading.receiverReads (h : ReceiverReads limit taken s failure s') :
    s'.IsReading limit := by
  cases h with
  | ended hreceiver => exact ⟨[], fun hended => absurd hreceiver hended⟩
  | cancelled _ _ _ hclient => exact ⟨[], fun hended => absurd (Prod.mk.inj hclient).2 hended⟩
  | awaited got _ _ hreads _ hclient =>
      refine ⟨taken ++ got, fun _ => ?_⟩
      rw [(Prod.mk.inj hclient).2]
      exact hreads
  | frame _ _ _ _ _ hwhole => exact ⟨[], fun _ => hwhole.idle.reads _⟩
  | broken _ _ _ _ hidle => exact ⟨[], fun _ => hidle.reads _⟩

theorem IsReading.beside {d : Deed Script.Twist} (h : s.IsReading limit) (hs : Beside d s s') :
    s'.IsReading limit := by
  obtain ⟨taken, hreads⟩ := h
  refine ⟨taken, fun hended => ?_⟩
  rw [hs.receiver] at hended ⊢
  obtain ⟨hlimit, hreading⟩ := hreads hended
  exact ⟨by rw [hs.inbound, hlimit], by rwa [hs.inbound]⟩

end Session

namespace History

/-- No read of the receiver took too long so far. -/
def InTime (h : History (Framed Script)) : Prop :=
  .read (some (.transport (.timeout .receive))) ∉ h.notices

variable {codec : Framed Script}

theorem inTime_receiver {deeds : List (Deed Script.Twist)} {now : Nat} :
    (run codec (deeds ++ [.task .receiver now])).InTime ↔
      (run codec deeds).InTime ∧ Session.InTime ((run codec deeds).session.readEnding now) := by
  have hlast (ending : Option (Option CallError)) :
      Notice.read (some (.transport (.timeout .receive))) ∈ (ending.map Notice.read).toList ↔
        ending = some (some (.transport (.timeout .receive))) := by
    cases ending <;> simp [eq_comm]
  rw [InTime, InTime, notices_receiver, List.mem_append, not_or, hlast, Session.InTime]

theorem isReading_run (hidle : codec.inbound.reading = none) (deeds : List (Deed Script.Twist)) :
    (run codec deeds).session.IsReading codec.inbound.limit := by
  induction deeds using List.reverseRecOn with
  | nil => exact ⟨[], fun _ => ⟨rfl, .inl ⟨hidle, rfl⟩⟩⟩
  | append_singleton deeds d ih =>
      by_cases hd : ∃ now, d = .task .receiver now
      · obtain ⟨now, rfl⟩ := hd
        obtain ⟨taken, hreads⟩ := ih
        rw [session_receiver]
        exact .receiverReads (Session.receiverReads hreads now)
      · rw [run_append_singleton]
        exact ih.beside (Session.beside_perform (fun now heq => hd ⟨now, heq⟩) _)

/-- As many steps of the receiver as it is far from the end finish the reading,
whenever they are taken, once everything is there. -/
theorem ended_of_delivered (hidle : codec.inbound.reading = none)
    {deeds : List (Deed Script.Twist)}
    (hall : Incoming.Delivered (run codec deeds).session.codec.link.incoming)
    (hintime : (run codec deeds).InTime) (nows : List Nat) :
    let h := run codec (deeds ++ nows.map (.task .receiver ·))
    h.InTime ∧ (h.session.receiver = .ended ∨
      h.session.distance + nows.length ≤ (run codec deeds).session.distance ∧
        Incoming.Delivered h.session.codec.link.incoming) := by
  induction nows using List.reverseRecOn with
  | nil =>
      rw [List.map_nil, List.append_nil]
      exact ⟨hintime, .inr ⟨Nat.le_refl _, hall⟩⟩
  | append_singleton nows now ih =>
      rw [List.map_append, ← List.append_assoc, List.map_singleton, List.length_append,
        List.length_singleton]
      generalize deeds ++ nows.map (.task .receiver ·) = later at ih
      obtain ⟨hintime, hend⟩ := ih
      dsimp only
      rw [inTime_receiver, session_receiver]
      rcases hend with hended | ⟨hdistance, hall⟩
      · obtain ⟨hending, hsame⟩ := Session.stepReceiver_ended hended now
        rw [hending, hsame]
        exact ⟨⟨hintime, Session.inTime_none⟩, .inl hended⟩
      · obtain ⟨taken, hreads⟩ := isReading_run hidle later
        obtain ⟨hnearer, hstep⟩ :=
          Session.nearer_of_delivered (Session.receiverReads hreads now) hall
        refine ⟨⟨hintime, hstep⟩, hnearer.imp id ?_⟩
        rintro ⟨hless, hall⟩
        exact ⟨by omega, hall⟩

end History

end Switchboard
