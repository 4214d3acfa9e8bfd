import Switchboard.Proofs.Client.Ending
import Switchboard.Proofs.Client.Reference
import Switchboard.Proofs.Client.Telling

/-!
# Responses reach their own calls

A client is given frames, in any pieces and at any times, while calls are made
at any moments in between. It tells its calls what the plain account of the
frames tells them, in the same order (`Follows`), and when everything has come
every call has been told. The argument goes step by step: the receiver reads the
next frame or finds the end of the stream just where the account does, and the
others do not read.
-/

namespace Switchboard

open Session (Deed Notice)

/-- The body that the receiver reads. -/
def Receiver.awaited : Receiver → Option Awaited
  | .body p => some (.reply p)
  | .errorBody p text => some (.refusal p text)
  | .unknown => some .nobody
  | .header | .ended => none

namespace Client

theorem Tells.numbered {told : List (Pending × Except CallError Wire.Value)} {c c' : Client}
    (h : c.Tells told c') (hnumbered : ∀ t ∈ told, t.1.call.seq.isSome = true) :
    c'.numberedSignals = c.numberedSignals ++ told.map fun t => t.1.signal t.2 := by
  have hall : (told.map fun t => t.1.signal t.2).filter (·.2.seq.isSome) =
      told.map fun t => t.1.signal t.2 := by
    rw [List.filter_eq_self]
    intro signal hsignal
    obtain ⟨t, ht, rfl⟩ := List.mem_map.mp hsignal
    rw [Pending.seq_signal]
    exact hnumbered t ht
  rw [numberedSignals, h, List.filter_append, hall, numberedSignals]

end Client

/-! ## The client and the account -/

namespace Reference

/-- The same calls have no outcome yet, and the others were told the same. -/
structure Agrees (r : Reference) (c : Client) : Prop where
  table : r.table = c.table
  told : c.numberedSignals = r.told.map fun t => t.1.signal t.2

namespace Agrees

variable {r : Reference} {c c' : Client} {held : List Pending} {p : Pending}

theorem alike (h : r.Agrees c) (hc : c.Alike c') : r.Agrees c' where
  table := by rw [hc.table, h.table]
  told := by rw [← h.told, Client.numberedSignals, hc.signals, Client.numberedSignals]

theorem tell (h : r.Agrees c) (hsound : c.Sound (p :: held))
    (outcome : Except CallError Wire.Value) : (r.tell p outcome).Agrees (c.finish p outcome) where
  table := h.table.trans (Client.frame_finish p outcome c).1.symm
  told := by
    have htold := (hsound.finish outcome).2.numbered fun t ht => by
      rw [List.mem_singleton.mp ht]
      exact (hsound.inHand p List.mem_cons_self).numbered
    rw [htold, h.told, Reference.tell, List.map_append]

theorem fail (h : r.Agrees c) (hsound : c.Sound held) {error : CallError}
    (hopen : c.closing = false) :
    (r.fail (Client.verdict false error)).Agrees (c.stop error) where
  table := (Client.frame_stop error c).1.symm
  told := by
    have htold := (hsound.stop error).2.numbered fun t ht => by
      obtain ⟨entry, hentry, rfl⟩ := List.mem_map.mp ht
      exact (hsound.waiting entry hentry).numbered
    rw [htold, h.told, hopen, ← h.table, Reference.fail, List.map_append]

theorem register (h : r.Agrees c) (hover : c.isOver = false) :
    (r.register { p with call := { p.call with seq := some c.nextSeq } }).Agrees
      (c.issue p.call p.shape p.mailbox).2 := by
  rw [Client.issue_open hover]
  exact ⟨congrArg (· ++ _) h.table, h.told⟩

theorem refuse (h : r.Agrees c) (hsound : c.Sound held) (hseq : p.call.seq = none)
    (hmailbox : p.mailbox < c.mailboxes.length) (hover : c.isOver = true) :
    r.Agrees (c.issue p.call p.shape p.mailbox).2 where
  table := by
    rw [Client.issue_over hover, h.table, (Client.frame_finish _ _ _).1]
    rfl
  told := by
    rw [← h.told, Client.numberedSignals, (hsound.refuse hmailbox hover).2, List.filter_append,
      Client.numberedSignals]
    simp [hseq]

theorem unsent (h : r.Agrees c) (hsound : c.Sound held) (seq : UInt64) (error : CallError) :
    (r.unsent seq error).Agrees (c.writeFailed seq error) := by
  rw [Reference.unsent, h.table]
  rcases c.writeFailed_cases seq error with ⟨hlookup, heq⟩ | ⟨p, hlookup, heq⟩
  · rw [heq, hlookup]
    exact h
  · rw [heq, hlookup]
    have hremove := Client.remove_eq_some_iff.mpr ⟨hlookup, rfl⟩
    have htaken : Agrees { r with table := c.table.filter (·.1 != seq) }
      { c with table := c.table.filter (·.1 != seq) } := ⟨rfl, h.told⟩
    exact htaken.tell (hsound.remove hremove).1 (.error error)

end Agrees

/-- The account is where the client is, with these frames still to come. -/
structure Follows (frames : List ByteArray) (r : Reference) (c : Client) (receiver : Receiver) :
    Prop extends r.Agrees c where
  awaited : r.awaited = receiver.awaited
  frames : receiver ≠ .ended → r.frames = frames

namespace Follows

variable {r : Reference} {c : Client} {receiver : Receiver} {frames : List ByteArray}
  {payload : ByteArray}

/-- At the end nobody is left whom the account and the client could tell. -/
theorem fail (error : CallError) (h : r.Agrees c) {held : List Pending} (hsound : c.Sound held)
    (hopen : c.closing = false) :
    (r.fail (Client.verdict false error)).Follows frames (c.stop error) .ended where
  toAgrees := h.fail hsound hopen
  awaited := rfl
  frames := fun hended => absurd rfl hended

theorem header (h : r.Follows (payload :: frames) c .header) (hsound : c.Sound [])
    (hopen : c.closing = false) :
    r.read.Follows frames (Switchboard.digest payload (c, .header)).1
      (Switchboard.digest payload (c, .header)).2 := by
  have hagrees : Agrees { r with frames } c := ⟨h.table, h.told⟩
  rw [read_header h.awaited (h.frames (by simp))]
  simp only [Reference.header, Switchboard.digest]
  cases hdecode : Wire.Response.decode payload with
  | error fault => exact fail (.transport (.decode fault)) hagrees hsound hopen
  | ok response =>
      have htable : r.table = c.table := h.table
      cases hlookup : c.table.lookup response.seq with
      | none =>
          simp only [htable, hlookup, Client.remove_eq_none_iff.mpr hlookup]
          have hlog := h.toAgrees.alike (.log (e := .unknownResponse response.seq) rfl c)
          exact ⟨⟨rfl, hlog.told⟩, rfl, fun _ => rfl⟩
      | some p =>
          simp only [htable, hlookup, Client.remove_eq_some_iff.mpr ⟨hlookup, rfl⟩]
          refine ⟨⟨rfl, h.told⟩, ?_, fun _ => rfl⟩
          rw [Receiver.answering]
          cases response.remoteError <;> rfl

/-- Wherever the receiver is, a frame does to its calls what the account says. -/
theorem digest (h : r.Follows (payload :: frames) c receiver) (hsound : c.Sound receiver.held)
    (hreceiver : receiver ≠ .ended) (hopen : c.closing = false) :
    r.read.Follows frames (Switchboard.digest payload (c, receiver)).1
      (Switchboard.digest payload (c, receiver)).2 := by
  have hagrees : Agrees { r with frames, awaited := none } c := ⟨h.table, h.told⟩
  have hawaited := h.awaited
  have hframes := h.frames hreceiver
  cases receiver with
  | header => exact h.header hsound hopen
  | body p =>
      rw [read_body hawaited hframes]
      exact ⟨hagrees.tell hsound _, rfl, fun _ => rfl⟩
  | errorBody p text =>
      rw [read_body hawaited hframes]
      exact ⟨hagrees.tell hsound _, rfl, fun _ => rfl⟩
  | unknown =>
      rw [read_body hawaited hframes]
      exact ⟨hagrees, rfl, fun _ => rfl⟩
  | ended => exact absurd rfl hreceiver

/-- Wherever the receiver is, the end of the stream does to its calls what the
account says. -/
theorem breakOff (h : r.Follows [] c receiver) (hsound : c.Sound receiver.held)
    (hreceiver : receiver ≠ .ended) (hopen : c.closing = false) :
    r.read.Follows [] (Switchboard.breakOff .eof (c, receiver)).1
      (Switchboard.breakOff .eof (c, receiver)).2 := by
  have hagrees : Agrees { r with awaited := none } c := ⟨h.table, h.told⟩
  have hawaited := h.awaited
  have hframes := h.frames hreceiver
  cases receiver with
  | header =>
      rw [read_noHeader hawaited hframes]
      exact fail .eof h.toAgrees hsound hopen
  | body p =>
      rw [read_noBody hawaited hframes]
      exact ⟨hagrees.tell hsound _, rfl, fun _ => hframes⟩
  | errorBody p text =>
      -- The call is told what the server said before the others fail.
      have hfinished := hagrees.tell hsound (.error (.server text))
      have hstopped := (hsound.finish (.error (.server text))).1
      rw [read_noBody hawaited hframes]
      exact fail (.readingErrorBody .eof) hfinished hstopped
        (by rw [(Client.frame_finish _ _ c).2.2.2.1, hopen])
  | unknown =>
      rw [read_noBody hawaited hframes]
      exact fail .eof hagrees hsound hopen
  | ended => exact absurd rfl hreceiver

/-- The others read nothing, and neither does the account. -/
theorem beside {ns : List Notice} {c' : Client} {receiver' : Receiver}
    (h : r.Follows frames c receiver) (hsound : c.Sound receiver.held)
    (hchange : Session.Change ns (c, receiver) (c', receiver'))
    (hreceiver : receiver' = receiver) :
    (ns.foldl Reference.step r).Follows frames c' receiver' := by
  cases hchange with
  | mailboxes _ halike => exact ⟨h.toAgrees.alike halike, h.awaited, h.frames⟩
  | turnedAway => exact h
  | @issued _ client _ p halike _ hseq hmailbox =>
      have hagrees := h.toAgrees.alike halike
      rw [Session.noteCall, ← halike.isOver]
      cases hover : client.isOver with
      | true =>
          exact ⟨hagrees.refuse (hsound.alike halike) hseq hmailbox hover, h.awaited, h.frames⟩
      | false =>
          rw [← halike.nextSeq]
          exact ⟨hagrees.register hover, h.awaited, h.frames⟩
  | unsent _ _ seq error =>
      have hsame : (r.unsent seq error).awaited = r.awaited ∧
          (r.unsent seq error).frames = r.frames := by
        unfold Reference.unsent
        split <;> exact ⟨rfl, rfl⟩
      refine ⟨h.toAgrees.unsent hsound seq error, hsame.1.trans h.awaited, fun hended => ?_⟩
      exact hsame.2.trans (h.frames hended)
  | closed => exact ⟨⟨h.table, h.told⟩, h.awaited, h.frames⟩
  | matched response p =>
      exact absurd hreceiver (Receiver.answering_ne p response (by simp) (by simp))
  | cancelled | noHeader | unmatched | replied | passed | notPassed | refuted | refutedLast =>
      cases hreceiver

end Follows

end Reference

namespace History

/-! ## A whole life -/

/-- What comes to a client is these frames and then the end of the stream, cut
into pieces and held up in any way, as far as it has come. Nobody has closed,
and no read took too long. -/
structure Carries (codec : Framed Script) (frames : List ByteArray)
    (deeds : List (Deed Script.Twist)) : Prop where
  small : ∀ payload ∈ frames, payload.size ≤ codec.inbound.limit ∧ payload.size < 2 ^ 32
  stream : codec.unread (arrivals deeds) <+: frames.flatMap frameOctets
  whole : .ended ∈ codec.link.incoming ++ arrivals deeds →
    codec.unread (arrivals deeds) = frames.flatMap frameOctets
  faultless : ∀ error, .failure error ∉ codec.link.incoming ++ arrivals deeds
  unclosed : (run codec deeds).session.client.closing = false
  inTime : (run codec deeds).InTime

variable {codec : Framed Script} {frames : List ByteArray} {deeds : List (Deed Script.Twist)}

/-- What comes later does not show before. -/
theorem Carries.earlier {d : Deed Script.Twist} (h : Carries codec frames (deeds ++ [d])) :
    Carries codec frames deeds where
  small := h.small
  stream := by
    refine List.IsPrefix.trans ?_ h.stream
    rw [arrivals_append_singleton, Framed.unread, Framed.unread, ← List.append_assoc,
      Incoming.octets_append (_ ++ _), ← List.append_assoc]
    exact List.prefix_append _ _
  whole hended := by
    have hmem : .ended ∈ codec.link.incoming ++ arrivals (deeds ++ [d]) := by
      rw [arrivals_append_singleton, ← List.append_assoc]
      exact List.mem_append_left _ hended
    rw [← h.whole hmem, arrivals_append_singleton, Framed.unread, Framed.unread,
      ← List.append_assoc, Incoming.octets_append (_ ++ _), if_pos hended, List.append_nil]
  faultless error hmem := by
    refine h.faultless error ?_
    rw [arrivals_append_singleton, ← List.append_assoc]
    exact List.mem_append_left _ hmem
  unclosed := by
    by_contra hclosing
    have hchange := Session.change_of_perform (isHonest_run codec deeds) d
    have hclosed := (Session.Onward.change hchange).closing (by simpa using hclosing)
    have hopen := h.unclosed
    rw [run_append_singleton] at hopen
    exact Bool.noConfusion (hclosed.symm.trans hopen)
  inTime hmem := by
    refine h.inTime ?_
    rw [run_append_singleton]
    exact List.mem_append_left _ hmem

/-- Where nothing more can come, all frames have come. -/
theorem Carries.all (h : Carries codec frames deeds) {octets : Octets}
    (hend : ∀ more, codec.unread (arrivals deeds ++ more) = octets) :
    octets = frames.flatMap frameOctets := by
  by_cases hended : .ended ∈ codec.link.incoming ++ arrivals deeds
  · rw [← h.whole hended, ← hend [], List.append_nil]
  · -- One more octet could still come and would count.
    have hmore := (hend [.data [0]]).trans (hend []).symm
    have hlength := congrArg List.length hmore
    simp [Framed.unread, ← List.append_assoc, Incoming.octets_append (_ ++ _), hended,
      Incoming.octets] at hlength

/-- Some of the frames were read and the others were not, and the account is
where the client is. -/
def InPace (codec : Framed Script) (frames : List ByteArray) (deeds : List (Deed Script.Twist)) :
    Prop :=
  ∃ before after taken, frames = before ++ after ∧
    Placed codec deeds before taken (run codec deeds).session ∧
      (reference frames (run codec deeds).notices).Follows after
        (run codec deeds).session.client (run codec deeds).session.receiver

/-- What is not read yet is the frames that were not read, without what the read
on its way has taken. -/
theorem Carries.left {before after : List ByteArray} {taken : Octets}
    {s : Session (Framed Script)} (h : Carries codec (before ++ after) deeds)
    (hplaced : Placed codec deeds before taken s) :
    ∃ rest, taken ++ s.codec.unread [] ++ rest = after.flatMap frameOctets := by
  obtain ⟨rest, hrest⟩ := h.stream
  have hstream := hplaced.stream []
  rw [List.append_nil] at hstream
  rw [hstream, List.flatMap_append, List.append_assoc _ taken, List.append_assoc] at hrest
  exact ⟨rest, List.append_cancel_left hrest⟩

/-- A frame that is read is the next one. -/
theorem Carries.next {before after : List ByteArray} {taken got : Octets} {payload : ByteArray}
    {s : Session (Framed Script)} {f : Framed Script} (h : Carries codec (before ++ after) deeds)
    (hplaced : Placed codec deeds before taken s)
    (hwhole : s.codec.Completes codec.inbound.limit taken got payload f) :
    ∃ left, after = payload :: left := by
  obtain ⟨rest, hleft⟩ := h.left hplaced
  have hfirst : [payload].flatMap frameOctets ++ (f.unread [] ++ rest) =
      after.flatMap frameOctets := by
    rw [List.flatMap_singleton, ← hwhole.frame, ← hleft, hwhole.took.unread []]
    simp only [List.append_assoc]
  obtain ⟨left, hafter, _⟩ := prefix_of_frames (by simpa using hwhole.short)
    (fun q hq => (h.small q (List.mem_append_right _ hq)).2) hfirst
  exact ⟨left, hafter⟩

/-- Nothing but the end of the stream breaks off a read, and only behind the
last frame. -/
theorem Carries.broken {before after : List ByteArray} {taken : Octets}
    {s : Session (Framed Script)} {f : Framed Script} {error : LinkError}
    (h : Carries codec (before ++ after) deeds) (hplaced : Placed codec deeds before taken s)
    (hread : Framed.ReadStep codec.inbound.limit s.receiver.skips taken s.codec
      (.done (.error error)) f) (hintime : error ≠ .timeout .receive) :
    error = .connectionClosed ∧ taken = [] ∧ after = [] ∧ s.codec.Took [] f := by
  have hsmall : ∀ payload ∈ after, payload.size ≤ codec.inbound.limit ∧ payload.size < 2 ^ 32 :=
    fun payload hp => h.small payload (List.mem_append_right _ hp)
  cases hread with
  | awaited _ hpoll => rcases hpoll with hpoll | hpoll <;> cases hpoll
  | tooLarge got length _ htook hfed =>
      obtain ⟨rest, hleft⟩ := h.left hplaced
      have hfront : (taken ++ got) ++ (f.unread [] ++ rest) = after.flatMap frameOctets := by
        rw [← hleft, htook.unread []]
        simp only [List.append_assoc]
      exact absurd hfed (no_error_of_frames hsmall hfront)
  | failed _ fault hfailure =>
      exact absurd (hplaced.failures fault hfailure) (h.faultless fault)
  | timeout => exact absurd rfl hintime
  | ended p htook hfed hend =>
      -- What the read has taken is all that was left, and it is no whole frame.
      have hall := h.all fun more => (hplaced.stream more).trans (by
        rw [hend more, List.append_nil])
      rw [List.flatMap_append] at hall
      have htaken := List.append_cancel_left hall
      cases after with
      | nil => exact ⟨rfl, htaken, rfl, htook⟩
      | cons payload after =>
          exact absurd htaken (Progress.no_frame_of_feed (.inl ⟨p, hfed⟩)
            (hsmall payload List.mem_cons_self).2 _)

theorem inPace_receiver {now : Nat} (h : InPace codec frames deeds)
    (hcarries : Carries codec frames (deeds ++ [.task .receiver now])) :
    InPace codec frames (deeds ++ [.task .receiver now]) := by
  obtain ⟨before, after, taken, rfl, hplaced, hfollows⟩ := h
  have hsound := sound_run codec deeds
  have hopen := hcarries.earlier.unclosed
  have hintime := (inTime_receiver.mp hcarries.inTime).2
  have hreads := Session.receiverReads hplaced.reads now
  rw [InPace, session_receiver, notices_receiver, reference_append]
  rcases eq_or_ne (run codec deeds).session.receiver .ended with hended | hreceiver
  · obtain ⟨hending, hsame⟩ := Session.stepReceiver_ended hended now
    rw [hending, hsame]
    exact ⟨before, after, _, rfl, hplaced.ended (.of_same rfl rfl) hended, hfollows⟩
  generalize (run codec deeds).session.readEnding now = failure at hreads hintime ⊢
  generalize ((run codec deeds).session.stepReceiver now).2 = s' at hreads ⊢
  cases hreads with
  | ended hended => exact absurd hended hreceiver
  | cancelled _ hclosing =>
      rw [hopen] at hclosing
      cases hclosing
  | awaited got _ htook hreads _ hclient =>
      -- The account does not see how far a read has come.
      obtain ⟨hsame, hstays⟩ := Prod.mk.inj hclient
      rw [hsame, hstays]
      exact ⟨before, after, _, rfl, hplaced.awaited htook hreads hstays, hfollows⟩
  | frame got payload failure _ _ hwhole hclient =>
      obtain ⟨left, rfl⟩ := hcarries.earlier.next hplaced hwhole
      have hdigested := hfollows.digest hsound hreceiver hopen
      rw [← hclient] at hdigested
      exact ⟨before ++ [payload], left, [], (List.append_assoc before [payload] left).symm,
        hplaced.frame hwhole, hdigested⟩
  | broken error _ hread hcodec hidle hclient =>
      have herror : error ≠ .timeout .receive := by
        rintro rfl
        exact hintime rfl
      obtain ⟨rfl, rfl, rfl, htook⟩ := hcarries.earlier.broken hplaced hread herror
      have hbroken := hfollows.breakOff hsound hreceiver hopen
      rw [show breakOff .eof _ = (s'.client, s'.receiver) from hclient.symm] at hbroken
      have htook' := htook.trans_same hcodec
      have hplaced' := hplaced.took now [] htook' (by simp) rfl fun _ => hidle.reads _
      rw [List.append_nil] at hplaced'
      exact ⟨before, [], [], rfl, hplaced', hbroken⟩

theorem inPace_run (hidle : codec.inbound.reading = none) (deeds : List (Deed Script.Twist))
    (h : Carries codec frames deeds) : InPace codec frames deeds := by
  induction deeds using List.reverseRecOn with
  | nil =>
      exact ⟨[], frames, [], rfl, .start hidle, ⟨⟨rfl, rfl⟩, rfl, fun _ => rfl⟩⟩
  | append_singleton deeds d ih =>
      have hpace := ih h.earlier
      by_cases hd : ∃ now, d = .task .receiver now
      · obtain ⟨now, rfl⟩ := hd
        exact inPace_receiver hpace h
      · obtain ⟨before, after, taken, hframes, hplaced, hfollows⟩ := hpace
        have hbeside := (run codec deeds).session.beside_perform fun now heq => hd ⟨now, heq⟩
        have hchange := Session.change_of_perform (isHonest_run codec deeds) d
        rw [InPace, run_append_singleton]
        refine ⟨before, after, taken, hframes, hplaced.beside hbeside, ?_⟩
        exact reference_append _ _ _ ▸
          hfollows.beside (sound_run codec deeds) hchange hbeside.receiver

/-- Steps of the receiver bring nothing. -/
theorem arrivals_receiver (deeds : List (Deed Script.Twist)) (nows : List Nat) :
    arrivals (deeds ++ nows.map (.task .receiver ·)) = arrivals deeds := by
  induction nows using List.reverseRecOn with
  | nil => rw [List.map_nil, List.append_nil]
  | append_singleton nows now ih =>
      rw [List.map_append, ← List.append_assoc, List.map_singleton, arrivals_append_singleton, ih]
      exact List.append_nil _

theorem closing_receiver (deeds : List (Deed Script.Twist)) (nows : List Nat) :
    (run codec (deeds ++ nows.map (.task .receiver ·))).session.client.closing =
      (run codec deeds).session.client.closing := by
  refine receiver_induction (motive := fun h => h.session.client.closing =
    (run codec deeds).session.client.closing) codec deeds rfl ?_ nows
  intro h now hsame
  rw [← hsame]
  exact Session.closing_stepReceiver now h.session

theorem registered_receiver (deeds : List (Deed Script.Twist)) (nows : List Nat) :
    (run codec (deeds ++ nows.map (.task .receiver ·))).registered =
      (run codec deeds).registered := by
  refine receiver_induction (motive := fun h => h.registered = (run codec deeds).registered)
    codec deeds rfl ?_ nows
  intro h now hsame
  have hnone : (h.session.notices (.task .receiver now : Deed Script.Twist)).filterMap
      Notice.registered? = [] := by
    simp only [Session.notices, Session.noteStep]
    cases h.session.readEnding now <;> rfl
  rw [registered_perform, hnone, List.append_nil, hsame]

theorem Carries.receiver (h : Carries codec frames deeds) {nows : List Nat}
    (hintime : (run codec (deeds ++ nows.map (.task .receiver ·))).InTime) :
    Carries codec frames (deeds ++ nows.map (.task .receiver ·)) where
  small := h.small
  stream := by
    rw [arrivals_receiver]
    exact h.stream
  whole := by
    rw [arrivals_receiver]
    exact h.whole
  faultless := by
    rw [arrivals_receiver]
    exact h.faultless
  unclosed := (closing_receiver deeds nows).trans h.unclosed
  inTime := hintime

/-- Every registered call has one outcome in the account, and was told it
once. -/
def ToldAll (frames : List ByteArray) (h : History (Framed Script)) : Prop :=
  ∀ (seq : UInt64) (p : Pending), h.registered[seq.toNat]? = some p → ∃ outcome,
    (reference frames h.notices).told.filter (·.1.call.seq = some seq) = [(p, outcome)] ∧
      h.session.client.signalsOf (some seq) = [p.signal outcome]

/-- When reading is over, the account has an outcome for every call. -/
theorem toldAll_of_ended (hidle : codec.inbound.reading = none) (h : Carries codec frames deeds)
    (few : (run codec deeds).registered.length < 2 ^ 64)
    (hended : (run codec deeds).session.receiver = .ended) : ToldAll frames (run codec deeds) := by
  intro seq p hp
  obtain ⟨outcome, hsignal⟩ := told_of_ended codec deeds few hended hp
  obtain ⟨_, _, _, _, _, hfollows⟩ := inPace_run hidle deeds h
  -- The account has one outcome under this number; it remains that it is for
  -- the call that was registered under it.
  have hknown := (Reference.knows_reference frames (run codec deeds).notices).told
  have htold := Client.signalsOf_of_numbered hfollows.told seq
  rw [hsignal] at htold
  obtain ⟨⟨q, result⟩, hone, hsame⟩ := List.map_eq_singleton_iff.mp htold.symm
  have hq : (q, result) ∈ (reference frames (run codec deeds).notices).told.filter
      (·.1.call.seq = some seq) := hone ▸ List.mem_singleton_self _
  obtain ⟨hmem, hseq⟩ := List.mem_filter.mp hq
  have hnumbered := (books_run codec deeds few).numbered.filter (Nat.le_of_lt few) seq
  have hregistered : q ∈ (run codec deeds).registered.filter (·.call.seq = some seq) :=
    List.mem_filter.mpr ⟨hknown _ hmem, hseq⟩
  rw [hnumbered, hp, Option.toList_some, List.mem_singleton] at hregistered
  subst hregistered
  exact ⟨result, hone, hsignal.trans (congrArg ([·]) hsame.symm)⟩

/-- The calls of a client that is given frames were at every moment told what
the account of the frames says, in the same order. When everything has come, as
many steps of the receiver as it is far from the end, whenever they are taken,
finish the reading and tell every call. -/
theorem signals_eq_reference (link : Script) (buffer : Octets) (limit : Nat)
    (patience : Option Nat) (outbound : Outbound) (frames : List ByteArray)
    (deeds : List (Deed Script.Twist))
    (h : Carries (Framed.fresh link buffer limit patience outbound) frames deeds) :
    let codec := Framed.fresh link buffer limit patience outbound
    (run codec deeds).session.client.numberedSignals =
        (reference frames (run codec deeds).notices).told.map (fun t => t.1.signal t.2) ∧
      (Incoming.Delivered (run codec deeds).session.codec.link.incoming →
        ∀ nows : List Nat, (run codec deeds).session.distance < nows.length →
          let last := run codec (deeds ++ nows.map (.task .receiver ·))
          last.session.receiver = .ended ∧
            last.session.client.numberedSignals =
              (reference frames last.notices).told.map (fun t => t.1.signal t.2) ∧
            ((run codec deeds).registered.length < 2 ^ 64 → ToldAll frames last)) := by
  intro codec
  refine ⟨?_, ?_⟩
  · obtain ⟨_, _, _, _, _, hfollows⟩ := inPace_run rfl deeds h
    exact hfollows.told
  · intro hall nows hnows last
    obtain ⟨hintime, hend⟩ := ended_of_delivered rfl hall h.inTime nows
    have hended : last.session.receiver = .ended := by
      rcases hend with hended | ⟨hdistance, _⟩
      · exact hended
      · omega
    have hlast := h.receiver hintime
    obtain ⟨_, _, _, _, _, hfollows⟩ := inPace_run rfl _ hlast
    refine ⟨hended, hfollows.told, fun few => toldAll_of_ended rfl hlast ?_ hended⟩
    rw [registered_receiver]
    exact few

/-! ## Crossed responses -/

/-- The header of a response without an error. -/
def headerOf (seq : UInt8) : ByteArray :=
  Octets.toBytes <|
    [0, 0, 0, 0, 0, 0, 0, 0] ++ [seq, 0, 0, 0, 0, 0, 0, 0] ++ [0, 0, 0, 0, 0, 0, 0, 0]

/-- A response to the second of two calls, one that answers no call, and one to
the first with an octet too many. -/
def crossedFrames : List ByteArray :=
  [headerOf 1, .empty, headerOf 5, Octets.toBytes [1, 2, 3], headerOf 0, Octets.toBytes [7]]

/-- They come in two pieces, cut within a header. -/
def crossedLink : Script :=
  let octets := crossedFrames.flatMap frameOctets
  { incoming := [.data (octets.take 17), .data (octets.drop 17), .ended] }

def crossedCalls : List (Deed Script.Twist) :=
  [.go ⟨0, "Arith.Multiply", .unit, .unit⟩, .go ⟨1, "Arith.Multiply", .unit, .unit⟩]

def crossedCodec : Framed Script := Framed.fresh crossedLink [] 24 none {}

theorem carries_crossed : Carries crossedCodec crossedFrames crossedCalls where
  small := by decide
  stream := ⟨[], by rfl⟩
  whole _ := by rfl
  faultless := by
    simp [crossedCodec, Framed.fresh, crossedLink, crossedCalls, arrivals, Session.Deed.arrivals]
  unclosed := rfl
  inTime := by
    obtain ⟨p, q, hnotices⟩ : ∃ p q, (run crossedCodec crossedCalls).notices =
        [.registered p, .registered q] := ⟨_, _, rfl⟩
    simp [InTime, hnotices]

theorem crossed_signals_eq_reference :
    Carries crossedCodec crossedFrames crossedCalls ∧
      ∀ nows : List Nat, 401 < nows.length → ToldAll crossedFrames
        (run crossedCodec (crossedCalls ++ nows.map (.task .receiver ·))) := by
  refine ⟨carries_crossed, fun nows hnows => ?_⟩
  obtain ⟨front, back, hincoming⟩ : ∃ front back,
      (run crossedCodec crossedCalls).session.codec.link.incoming =
        [.data front, .data back, .ended] := ⟨_, _, rfl⟩
  have hdelivered : Incoming.Delivered
      (run crossedCodec crossedCalls).session.codec.link.incoming := by
    rw [hincoming]
    exact ⟨by simp, by simp⟩
  have hdistance : (run crossedCodec crossedCalls).session.distance = 401 := by rfl
  have few : (run crossedCodec crossedCalls).registered.length < 2 ^ 64 := by
    rw [show (run crossedCodec crossedCalls).registered.length = 2 from rfl]
    decide
  have hlast := (signals_eq_reference _ _ _ _ _ _ _ carries_crossed).2 hdelivered nows
    (hdistance ▸ hnows)
  exact hlast.2.2 few

/-- The same life after as many steps as it takes. -/
def crossedReplies : History (Framed Script) :=
  run crossedCodec (crossedCalls ++ List.replicate 15 (.task .receiver 0))

example : crossedReplies.session.client.signals.map (fun s => (s.2.seq, s.2.reply, s.2.error)) =
    [(some 1, some .unit, none),
      (some 0, none, some (.readingBody (.transport (.decode .trailing))))] := by
  rfl

end History

end Switchboard
