import Switchboard.Proofs.Client.Position
import Switchboard.Proofs.Client.Telling

/-!
# Whether the receiver keeps step with the stream

A response is two frames, and a receiver that is about to read a header should
have consumed whole responses: then nothing inside a body can pass for a header.
It does, until the reading of a reply breaks off. That failure is told to the
one call whose reply it was, and the receiver goes on with whatever comes next
in the stream, in the middle of a response. Every other failure ends the
reading, so this is the only way to lose step (`aligned_iff_not_misread`).
-/

namespace Switchboard

open Session (Deed Notice)

/-! ## Replies that were not read -/

/-- The reply to a call was not read, which is worse than a whole frame without
the expected value in it. -/
def CallError.IsMisread (error : CallError) : Prop :=
  ∃ cause, error = .readingBody cause ∧ ∀ fault, cause ≠ .transport (.decode fault)

def Call.IsMisread (c : Call) : Prop := ∃ error, c.error = some error ∧ error.IsMisread

namespace CallError

theorem not_isMisread {error : CallError} (h : ∀ cause, error ≠ .readingBody cause) :
    ¬ error.IsMisread := by
  rintro ⟨cause, heq, _⟩
  exact h cause heq

theorem not_isMisread_ofLink (error : LinkError) : ¬ (ofLink error).IsMisread := by
  apply not_isMisread
  intro cause
  cases error <;> simp [ofLink]

theorem not_isMisread_verdict {error : CallError} (h : ¬ error.IsMisread) (closing : Bool) :
    ¬ (Client.verdict closing error).IsMisread := by
  cases error with
  | eof => cases closing <;> exact not_isMisread (by simp [Client.verdict])
  | shutdown | server | readingBody | readingErrorBody | unexpectedEof | unbufferedDone
    | unexpectedHttpResponse | dialHttp | codec | transport => exact h

end CallError

theorem Pending.isMisread_signal {p : Pending} (h : p.call.IsOpen)
    {outcome : Except CallError Wire.Value} (hsignal : (p.signal outcome).2.IsMisread) :
    ∃ error, outcome = .error error ∧ error.IsMisread := by
  obtain ⟨error, herror, hmisread⟩ := hsignal
  cases outcome with
  | error other =>
      obtain rfl : other = error := Option.some.inj herror
      exact ⟨other, rfl, hmisread⟩
  | ok reply =>
      rw [show (p.signal (.ok reply)).2.error = p.call.error from rfl, h.2] at herror
      cases herror

namespace Client

/-- No reply was misread so far. -/
def IsClean (c : Client) : Prop := ∀ signal ∈ c.signals, ¬ signal.2.IsMisread

theorem IsClean.tells {c c' : Client} (h : c.IsClean)
    {told : List (Pending × Except CallError Wire.Value)} (htells : c.Tells told c')
    (htold : ∀ t ∈ told, t.1.call.IsOpen ∧ ∀ error, t.2 = .error error → ¬ error.IsMisread) :
    c'.IsClean := by
  intro signal hsignal
  rw [htells, List.mem_append] at hsignal
  rcases hsignal with hold | hnew
  · exact h signal hold
  · obtain ⟨t, ht, rfl⟩ := List.mem_map.mp hnew
    intro hmisread
    obtain ⟨error, heq, herror⟩ := Pending.isMisread_signal (htold t ht).1 hmisread
    exact (htold t ht).2 error heq herror

theorem IsClean.stop {c : Client} (h : c.IsClean) {held : List Pending} (hsound : c.Sound held)
    {error : CallError} (herror : ¬ error.IsMisread) : (c.stop error).IsClean := by
  refine h.tells (hsound.stop error).2 ?_
  intro t ht
  obtain ⟨entry, hentry, rfl⟩ := List.mem_map.mp ht
  refine ⟨(hsound.waiting entry hentry).fresh, ?_⟩
  rintro other heq
  cases heq
  exact CallError.not_isMisread_verdict herror _

theorem IsClean.finish {c : Client} (h : c.IsClean) {held : List Pending} {p : Pending}
    (hsound : c.Sound (p :: held)) {outcome : Except CallError Wire.Value}
    (houtcome : ∀ error, outcome = .error error → ¬ error.IsMisread) :
    (c.finish p outcome).IsClean := by
  refine h.tells (hsound.finish outcome).2 ?_
  intro t ht
  obtain rfl := List.mem_singleton.mp ht
  exact ⟨(hsound.inHand p List.mem_cons_self).fresh, houtcome⟩

/-- A frame that was read as a whole is no misreading, whatever it holds. -/
theorem IsClean.digest {c : Client} {r : Receiver} (h : c.IsClean) (hsound : c.Sound r.held)
    (payload : ByteArray) : (Switchboard.digest payload (c, r)).1.IsClean := by
  cases r with
  | header =>
      simp only [Switchboard.digest]
      split
      · exact h.stop hsound (CallError.not_isMisread (by simp))
      · split
        · rename_i response _ _ _
          have htells : c.Tells [] (c.log (.unknownResponse response.seq)) := by
            simp [Tells, Event.signal?]
          exact h.tells htells (by simp)
        · rename_i hremove
          exact h.tells (hsound.remove hremove).2 (by simp)
  | body p =>
      refine h.finish hsound ?_
      intro error herror
      cases hdecode : Wire.decode p.shape payload with
      | ok value =>
          rw [hdecode] at herror
          cases herror
      | error fault =>
          rw [hdecode] at herror
          cases herror
          rintro ⟨cause, heq, hcause⟩
          exact hcause fault (CallError.readingBody.inj heq).symm
  | unknown => exact h
  | errorBody p text =>
      refine h.finish hsound ?_
      rintro error herror
      cases herror
      exact CallError.not_isMisread (by simp)
  | ended => exact h

/-- Of the failures to read a frame, only that of a reply is a misreading. -/
theorem IsClean.breakOff {c : Client} {r : Receiver} (h : c.IsClean) (hsound : c.Sound r.held)
    (error : LinkError) (hr : ∀ p, r ≠ .body p) :
    (Switchboard.breakOff (.ofLink error) (c, r)).1.IsClean := by
  cases r with
  | header => exact h.stop hsound (CallError.not_isMisread_ofLink error)
  | body p => exact absurd rfl (hr p)
  | unknown => exact h.stop hsound (CallError.not_isMisread_ofLink error)
  | errorBody p text =>
      have hfinished : (c.finish p (.error (.server text))).IsClean := by
        refine h.finish hsound ?_
        rintro other heq
        cases heq
        exact CallError.not_isMisread (by simp)
      exact hfinished.stop (hsound.finish (.error (.server text))).1
        (CallError.not_isMisread (by simp))
  | ended => exact h

/-- A reply whose reading breaks off is a misreading. -/
theorem misread_of_body {c : Client} {p : Pending} (hsound : c.Sound [p]) {error : LinkError}
    (herror : ∀ fault, error ≠ .decode fault) :
    ¬ (Switchboard.breakOff (.ofLink error) (c, .body p)).1.IsClean := by
  intro hclean
  have htells := (hsound.finish (.error (.readingBody (.ofLink error)))).2
  refine hclean (p.signal (.error (.readingBody (.ofLink error)))) ?_ ?_
  · rw [Switchboard.breakOff, htells]
    exact List.mem_append_right _ (List.mem_singleton_self _)
  · refine ⟨.readingBody (.ofLink error), rfl, .ofLink error, rfl, ?_⟩
    intro fault heq
    cases error with
    | decode other => exact herror other rfl
    | _ => cases heq

end Client

/-! ## One step -/

namespace Session

theorem error_of_write {r : Wire.Request} {args : Wire.Value} {now : Nat} {f f' : Framed Script}
    {error : CallError} (h : f.write r args now = (.done (.error error), f')) :
    ∃ cause, error = .ofLink cause := by
  unfold Framed.write at h
  split at h
  · split at h
    · cases h
    · rename_i cause _
      cases h
      exact ⟨cause, rfl⟩
  · generalize f.outbound.step .near now f.link = stepped at h
    obtain ⟨_ | _ | cause | _, outbound, link⟩ := stepped <;> cases h
    exact ⟨cause, rfl⟩

/-- What the writing of a request fails with is no misreading. -/
theorem not_isMisread_of_unsent {s : Session (Framed Script)} {d : Deed Script.Twist}
    {seq : UInt64} {error : CallError} (h : .unsent seq error ∈ s.notices d) :
    ¬ error.IsMisread := by
  obtain ⟨now, _, hfailure⟩ := exists_writer_of_unsent h
  have hstep := s.stepWriter_cases seq now
  rw [hfailure] at hstep
  generalize hending : some error = failure at hstep
  generalize (s.stepWriter seq now).2 = s' at hstep
  cases hstep with
  | refused | cancelled =>
      cases hending
      exact CallError.not_isMisread (by simp)
  | @written w result codec _ _ _ _ _ hwrite =>
      cases result with
      | ok => cases hending
      | error cause =>
          cases hending
          obtain ⟨link, rfl⟩ := error_of_write hwrite
          exact CallError.not_isMisread_ofLink link
  | absent | asked | queued | begun | awaited => cases hending

/-- Whatever the others do, they misread nothing. -/
theorem isClean_beside {s : Session (Framed Script)} {d : Deed Script.Twist}
    (hd : ∀ now, d ≠ .task .receiver now) (hhonest : ∀ caller ∈ s.callers, caller.IsHonest)
    (hsound : s.client.Sound s.receiver.held) (h : s.client.IsClean) :
    (s.perform d).client.IsClean := by
  have hchange := change_of_perform hhonest d
  have hreceiver := (s.beside_perform hd).receiver
  have hunsent (seq : UInt64) (error : CallError) (hmem : .unsent seq error ∈ s.notices d) :
      ¬ error.IsMisread := not_isMisread_of_unsent hmem
  generalize (s.perform d).client = c' at hchange ⊢
  generalize (s.perform d).receiver = r' at hchange hreceiver
  generalize s.notices d = ns at hchange hunsent
  generalize s.client = c at hsound h hchange
  generalize s.receiver = r at hsound hchange hreceiver
  cases hchange with
  | mailboxes _ halike =>
      have htells : c.Tells [] c' := halike.signals.trans (List.append_nil _).symm
      exact h.tells htells (by simp)
  | turnedAway => exact h
  | @issued _ client _ p halike hopen hseq hmailbox =>
      have hclient : client.IsClean := by
        rw [Client.IsClean, halike.signals]
        exact h
      cases hover : client.isOver with
      | true =>
          refine hclient.tells ((hsound.alike halike).refuse hmailbox hover).2 ?_
          intro t ht
          obtain rfl := List.mem_singleton.mp ht
          refine ⟨hopen, ?_⟩
          rintro error herror
          cases herror
          exact CallError.not_isMisread (by simp)
      | false =>
          exact hclient.tells ((hsound.alike halike).register hopen hmailbox hover).2 (by simp)
  | unsent _ _ seq error =>
      refine h.tells (hsound.writeFailed seq error).2 ?_
      intro t ht
      obtain ⟨p, hp, rfl⟩ := List.mem_map.mp ht
      obtain ⟨before, after, htable, _⟩ :=
        List.lookup_eq_some_iff.mp (Option.mem_toList.mp hp)
      refine ⟨(hsound.waiting (seq, p) (by simp [htable])).fresh, ?_⟩
      rintro other heq
      cases heq
      exact hunsent seq error (List.mem_singleton_self _)
  | closed => exact h
  | matched response p =>
      exact absurd hreceiver (Receiver.answering_ne p response (by simp) (by simp))
  | cancelled | noHeader | unmatched | replied | passed | notPassed | refuted | refutedLast =>
      cases hreceiver

end Session

/-! ## Whole responses -/

/-- The two frames of a response, one behind the other. -/
def pairOctets (pair : ByteArray × ByteArray) : Octets :=
  frameOctets pair.1 ++ frameOctets pair.2

/-- How many frames were read before, when the receiver reads this: whole
responses before a header, and a header more in the middle of a response. -/
def Receiver.Fits (count : Nat) : Receiver → Prop
  | .header => count % 2 = 0
  | .body _ | .unknown | .errorBody .. => count % 2 = 1
  | .ended => True

theorem Receiver.fits_digest {c : Client} {r : Receiver} {count : Nat} (h : r.Fits count)
    (payload : ByteArray) : (digest payload (c, r)).2.Fits (count + 1) := by
  cases r with
  | header =>
      have hodd : (count + 1) % 2 = 1 := by
        rw [Receiver.Fits] at h
        omega
      simp only [digest]
      split
      · trivial
      · split
        · exact hodd
        · rename_i response _ _ p _ _
          simp only [Receiver.answering]
          split <;> exact hodd
  | body | unknown | errorBody =>
      have hodd : count % 2 = 1 := h
      change (count + 1) % 2 = 0
      omega
  | ended => trivial

theorem pairs_of_frames : ∀ {frames : List ByteArray}, frames.length % 2 = 0 →
    ∃ pairs : List (ByteArray × ByteArray),
      frames = pairs.flatMap fun pair => [pair.1, pair.2]
  | [], _ => ⟨[], rfl⟩
  | [_], h => absurd h (by simp)
  | first :: second :: frames, h => by
      have hlength : frames.length % 2 = 0 := by
        simp only [List.length_cons] at h
        omega
      obtain ⟨pairs, rfl⟩ := pairs_of_frames hlength
      exact ⟨(first, second) :: pairs, rfl⟩

theorem flatMap_pairOctets (pairs : List (ByteArray × ByteArray)) :
    pairs.flatMap pairOctets =
      (pairs.flatMap fun pair => [pair.1, pair.2]).flatMap frameOctets := by
  simp only [List.flatMap_assoc, List.flatMap_cons, List.flatMap_nil, List.append_nil]
  rfl

theorem forall_pairs {pairs : List (ByteArray × ByteArray)} {P : ByteArray → Prop} :
    (∀ payload ∈ pairs.flatMap fun pair => [pair.1, pair.2], P payload) ↔
      ∀ pair ∈ pairs, P pair.1 ∧ P pair.2 := by
  simp only [List.mem_flatMap, List.mem_cons, List.not_mem_nil, or_false]
  constructor
  · intro h pair hpair
    exact ⟨h _ ⟨pair, hpair, .inl rfl⟩, h _ ⟨pair, hpair, .inr rfl⟩⟩
  · rintro h payload ⟨pair, hpair, rfl | rfl⟩
    · exact (h pair hpair).1
    · exact (h pair hpair).2

/-- A read that broke off has no whole frame, however long it was. -/
theorem Framed.ReadStep.no_frame {limit : Nat} {skip : Bool} {taken : Octets}
    {f f' : Framed Script} {error : LinkError}
    (h : Framed.ReadStep limit skip taken f (.done (.error error)) f') :
    (∃ got, f.Took got f' ∧ ∀ payload : ByteArray, payload.size < 2 ^ 32 → ∀ rest,
      taken ++ got ≠ frameOctets payload ++ rest) ∧ ∀ fault, error ≠ .decode fault := by
  cases h with
  | awaited got hpoll => rcases hpoll with hpoll | hpoll <;> cases hpoll
  | tooLarge got length _ htook hfed =>
      exact ⟨⟨got, htook, fun payload hsize =>
        Progress.no_frame_of_feed (.inr ⟨_, hfed⟩) hsize⟩, by simp⟩
  | ended p htook hfed =>
      refine ⟨⟨[], htook, fun payload hsize => ?_⟩, by simp⟩
      rw [List.append_nil]
      exact Progress.no_frame_of_feed (.inl ⟨p, hfed⟩) hsize
  | failed p other _ htook hfed =>
      refine ⟨⟨[], htook, fun payload hsize => ?_⟩, ?_⟩
      · rw [List.append_nil]
        exact Progress.no_frame_of_feed (.inl ⟨p, hfed⟩) hsize
      · intro fault
        cases p <;> simp only [Progress.onFailure, LinkError.ofRead, ne_eq, reduceCtorEq,
          not_false_eq_true] <;> split <;> simp
  | timeout p _ htook hfed =>
      refine ⟨⟨[], htook, fun payload hsize => ?_⟩, by simp⟩
      rw [List.append_nil]
      exact Progress.no_frame_of_feed (.inl ⟨p, hfed⟩) hsize

namespace History

/-- The receiver is about to read a header. -/
def IsAtHeader (h : History (Framed Script)) : Prop :=
  h.session.receiver = .header ∧ h.session.codec.inbound.reading = none

/-- What was consumed of all that came is whole responses. -/
def Aligned (codec : Framed Script) (deeds : List (Deed Script.Twist)) : Prop :=
  ∃ pairs : List (ByteArray × ByteArray),
    (∀ pair ∈ pairs, pair.1.size < 2 ^ 32 ∧ pair.2.size < 2 ^ 32) ∧
      codec.unread (arrivals deeds) =
        pairs.flatMap pairOctets ++ (run codec deeds).session.codec.unread []

variable {codec : Framed Script}

/-- A receiver that stands between two responses has consumed whole ones. -/
theorem aligned_of_placed {deeds : List (Deed Script.Twist)} {frames : List ByteArray}
    {taken : Octets} (h : Placed codec deeds frames taken (run codec deeds).session)
    (hfits : (run codec deeds).session.receiver.Fits frames.length)
    (hheader : (run codec deeds).IsAtHeader) : Aligned codec deeds := by
  obtain ⟨hreceiver, hreading⟩ := hheader
  rw [hreceiver] at hfits
  obtain ⟨pairs, rfl⟩ := pairs_of_frames hfits
  have htaken : taken = [] := by
    rcases (h.reads (by simp [hreceiver])).2 with ⟨_, htaken⟩ | ⟨r, hr, _⟩
    · exact htaken
    · rw [hreading] at hr
      cases hr
  refine ⟨pairs, forall_pairs.mp fun payload hp => (h.small payload hp).2, ?_⟩
  have hstream := h.stream []
  rw [htaken, List.append_nil, List.append_nil] at hstream
  rw [hstream, flatMap_pairOctets]

/-- A receiver that consumed a header and no whole frame behind it has not
consumed whole responses. -/
theorem not_aligned_of_placed {deeds : List (Deed Script.Twist)} {d : Deed Script.Twist}
    {frames : List ByteArray} {taken got : Octets}
    (h : Placed codec deeds frames taken (run codec deeds).session)
    (hodd : frames.length % 2 = 1) (harrivals : d.arrivals = [])
    (hunread : (run codec deeds).session.codec.unread [] =
      got ++ (run codec (deeds ++ [d])).session.codec.unread [])
    (hgot : ∀ payload : ByteArray, payload.size < 2 ^ 32 → ∀ rest,
      taken ++ got ≠ frameOctets payload ++ rest) : ¬ Aligned codec (deeds ++ [d]) := by
  rintro ⟨pairs, hsmall, hstream⟩
  have hplaced := h.stream []
  rw [List.append_nil, hunread, ← List.append_assoc, List.append_assoc _ taken] at hplaced
  rw [arrivals_append_singleton, harrivals, List.append_nil, hplaced, flatMap_pairOctets] at hstream
  have hpairs := forall_pairs (P := fun payload => payload.size < 2 ^ 32).mpr hsmall
  obtain ⟨left, hframes, hrest⟩ := prefix_of_frames (fun payload hp => (h.small payload hp).2)
    hpairs (List.append_cancel_right hstream)
  -- The whole responses would go on behind the header with a frame of its own.
  cases left with
  | nil =>
      -- Whole responses are an even number of frames.
      have hlength := congrArg List.length hframes
      simp at hlength
      omega
  | cons payload left =>
      have hmem : payload ∈ pairs.flatMap fun pair => [pair.1, pair.2] := by simp [hframes]
      exact hgot payload (hpairs payload hmem) (left.flatMap frameOctets) hrest

/-- The receiver keeps step, and no reply was misread so far. -/
def InStep (codec : Framed Script) (deeds : List (Deed Script.Twist)) : Prop :=
  (run codec deeds).session.client.IsClean ∧
    ∃ frames taken, Placed codec deeds frames taken (run codec deeds).session ∧
      (run codec deeds).session.receiver.Fits frames.length

/-- A reply was just misread, and the receiver goes on in the middle of a
response. -/
def LosesStep (codec : Framed Script) (deeds : List (Deed Script.Twist)) : Prop :=
  ¬ (run codec deeds).session.client.IsClean ∧ (run codec deeds).IsAtHeader ∧
    ¬ Aligned codec deeds

/-- Whatever the others do, the receiver keeps step. -/
theorem inStep_beside {deeds : List (Deed Script.Twist)} (h : InStep codec deeds)
    {d : Deed Script.Twist} (hd : ∀ now, d ≠ .task .receiver now) :
    InStep codec (deeds ++ [d]) := by
  obtain ⟨hclean, frames, taken, hplaced, hfits⟩ := h
  have hsound := sound_run codec deeds
  have hbeside := (run codec deeds).session.beside_perform hd
  rw [InStep, run_append_singleton]
  refine ⟨Session.isClean_beside hd (isHonest_run codec deeds) hsound hclean, frames, taken,
    hplaced.beside hbeside, ?_⟩
  rw [show ((run codec deeds).perform d).session.receiver = _ from hbeside.receiver]
  exact hfits

theorem inStep_or_losesStep_receiver {deeds : List (Deed Script.Twist)} (h : InStep codec deeds)
    (now : Nat) : InStep codec (deeds ++ [.task .receiver now]) ∨
      LosesStep codec (deeds ++ [.task .receiver now]) := by
  obtain ⟨hclean, frames, taken, hplaced, hfits⟩ := h
  have hsound := sound_run codec deeds
  have hreads := Session.receiverReads hplaced.reads now
  have hsession := session_receiver codec deeds now
  rw [InStep, hsession]
  generalize (run codec deeds).session.readEnding now = failure at hreads
  generalize ((run codec deeds).session.stepReceiver now).2 = s' at hreads hsession
  cases hreads with
  | ended hreceiver =>
      exact .inl ⟨hclean, frames, _, hplaced.ended (.of_same rfl rfl) hreceiver, hfits⟩
  | cancelled _ _ htook hclient =>
      obtain ⟨hstop, hended⟩ := Prod.mk.inj hclient
      rw [hstop, hended]
      exact .inl ⟨hclean.stop hsound (CallError.not_isMisread (by simp)), frames, _,
        hplaced.ended htook hended, trivial⟩
  | awaited got _ htook hreads _ hclient =>
      obtain ⟨hsame, hreceiver⟩ := Prod.mk.inj hclient
      rw [hsame, hreceiver]
      exact .inl ⟨hclean, frames, _, hplaced.awaited htook hreads hreceiver, hfits⟩
  | frame got payload _ _ _ hwhole hclient =>
      have hdigested := hclean.digest hsound payload
      have hfitted := Receiver.fits_digest (c := (run codec deeds).session.client) hfits payload
      rw [← hclient] at hdigested hfitted
      refine .inl ⟨hdigested, frames ++ [payload], [], hplaced.frame hwhole, ?_⟩
      rw [List.length_append]
      exact hfitted
  | @broken _ stopped error _ hread hcodec hidle hclient =>
      obtain ⟨⟨got, htook, hgot⟩, hlink⟩ := hread.no_frame
      have htook' := htook.trans_same hcodec
      -- Only the receiver of a reply goes on after a failure.
      by_cases hbody : ∃ p, (run codec deeds).session.receiver = .body p
      · -- It stands behind a header and part of a body.
        right
        obtain ⟨p, hbody⟩ := hbody
        rw [hbody] at hclient hsound hfits
        rw [LosesStep, IsAtHeader, hsession]
        refine ⟨?_, ⟨(Prod.mk.inj hclient).2, hidle.2⟩, ?_⟩
        · have hmisread := Client.misread_of_body hsound hlink
          rwa [← hclient] at hmisread
        · refine not_aligned_of_placed hplaced hfits rfl ?_ hgot
          rw [hsession]
          exact htook'.unread []
      · left
        have hother : ∀ p, (run codec deeds).session.receiver ≠ .body p :=
          fun p heq => hbody ⟨p, heq⟩
        have hbroken := hclean.breakOff hsound error hother
        have hended := receiver_breakOff (.ofLink error) (run codec deeds).session.client hother
        rw [← hclient] at hbroken hended
        refine ⟨hbroken, frames, taken ++ got, hplaced.ended htook' hended, ?_⟩
        rw [show s'.receiver = .ended from hended]
        trivial

theorem inStep_or_losesStep {deeds : List (Deed Script.Twist)} (h : InStep codec deeds)
    (d : Deed Script.Twist) : InStep codec (deeds ++ [d]) ∨ LosesStep codec (deeds ++ [d]) := by
  by_cases hd : ∃ now, d = .task .receiver now
  · obtain ⟨now, rfl⟩ := hd
    exact inStep_or_losesStep_receiver h now
  · exact .inl (inStep_beside h fun now heq => hd ⟨now, heq⟩)

/-- At every moment the receiver keeps step, or it has lost step at some moment
before. -/
theorem inStep_run (hidle : codec.inbound.reading = none) (deeds : List (Deed Script.Twist)) :
    InStep codec deeds ∨ ∃ earlier, earlier <+: deeds ∧ LosesStep codec earlier := by
  induction deeds using List.reverseRecOn with
  | nil =>
      left
      exact ⟨by simp [Client.IsClean, Client.signals], [], [], .start hidle, rfl⟩
  | append_singleton deeds d ih =>
      rcases ih with hstep | ⟨earlier, hprefix, hlost⟩
      · rcases inStep_or_losesStep hstep d with hstep | hlost
        · exact .inl hstep
        · exact .inr ⟨_, List.prefix_refl _, hlost⟩
      · exact .inr ⟨earlier, hprefix.trans (List.prefix_append _ _), hlost⟩

/-- The receiver of a client that speaks in frames has consumed whole responses
whenever it goes back to reading a header, exactly when no reply was misread. In
any case the client is shut down when the reading is over. -/
theorem aligned_iff_not_misread (link : Script) (buffer : Octets) (limit : Nat)
    (patience : Option Nat) (outbound : Outbound) (deeds : List (Deed Script.Twist)) :
    let codec := Framed.fresh link buffer limit patience outbound
    ((∀ earlier, earlier <+: deeds → (run codec earlier).IsAtHeader → Aligned codec earlier) ↔
        ∀ signal ∈ (run codec deeds).session.client.signals, ¬ signal.2.IsMisread) ∧
      ((run codec deeds).session.receiver = .ended ↔
        (run codec deeds).session.client.shutdown = true) := by
  intro codec
  have hidle : codec.inbound.reading = none := rfl
  refine ⟨⟨?_, ?_⟩, (isSettled_run codec deeds).ended⟩
  · -- A misreading puts the receiver at a header where it is not aligned.
    intro haligned
    rcases inStep_run hidle deeds with hstep | ⟨earlier, hprefix, _, hheader, hnot⟩
    · exact hstep.1
    · exact absurd (haligned earlier hprefix hheader) hnot
  · -- Signals stay, so without a misreading at the end there was none before.
    intro hclean earlier hprefix hheader
    rcases inStep_run hidle earlier with ⟨_, frames, taken, hplaced, hfits⟩ |
      ⟨before, hbefore, hmisread, _⟩
    · exact aligned_of_placed hplaced hfits hheader
    · exact absurd (fun signal hsignal =>
        hclean signal (mem_signals_of_earlier (hbefore.trans hprefix) hsignal)) hmisread

/-! ## Losing step -/

/-- The frame of a header that answers a call and reports no error. -/
def headerOctets (seq : UInt8) : Octets :=
  [0, 0, 0, 24] ++ [0, 0, 0, 0, 0, 0, 0, 0] ++ [seq, 0, 0, 0, 0, 0, 0, 0] ++
    [0, 0, 0, 0, 0, 0, 0, 0]

/-- Two calls and one response, to the first. Its body is over the limit, and
inside it is what would be a response to the second. -/
def oversizedReply : History (Framed Script) :=
  let ask : Ask := ⟨0, "Arith.Multiply", .unit, .unit⟩
  let octets := headerOctets 0 ++ [0, 0, 0, 32] ++ headerOctets 1 ++ [0, 0, 0, 0]
  run (Framed.fresh { incoming := [.data octets] } [] 24 none {})
    ([.go ask, .go ask] ++ List.replicate 9 (.task .receiver 0) : List (Deed Script.Twist))

/-- The second call succeeds, with octets out of the body of the first. -/
theorem body_passes_for_response :
    oversizedReply.session.client.signals.map (fun s => (s.2.seq, s.2.reply, s.2.error)) =
      [(some 0, none,
          some (.readingBody (.transport (.invalidFrame (.tooLarge 32))))),
        (some 1, some .unit, none)] ∧
      oversizedReply.session.client.shutdown = false := by
  exact ⟨by rfl, by rfl⟩

end History

end Switchboard
