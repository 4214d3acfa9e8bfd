import Switchboard.Proofs.Client.Alignment
import Switchboard.Proofs.Client.Ending
import Switchboard.Proofs.Client.Occasions
import Switchboard.Proofs.Client.Pieces

/-!
# Which failures concern one call only

A failure that is told to a call is confined to it if nothing else is different
after that: the client is as open as it was, everybody else who waits waits on,
and both directions of the stream stand between two frames. Whether a failure is
called local is decided by its form alone (`CallError.isCallLocal`). The two
agree for most failures, and `isCallLocal_iff_confined` says for which they do
not. A reply that is cut short is called local, although what is left of it stays
in the stream. A refusal is called local even if the client goes down with it.
And a request that is not written is never called local, although in most cases
nothing or all of it is laid down and the client is as well as before.
-/

namespace Switchboard

open Session (Deed Notice)

/-! ## Reads that end with a frame -/

namespace Framed

variable {limit : Nat} {skip : Bool} {f f' : Framed Script}

/-- What the read under way has taken when it is over is one whole frame. -/
def EndsFrame (limit : Nat) (skip : Bool) (f f' : Framed Script) : Prop :=
  ∀ taken, f.Reads limit skip taken → ∃ got payload, f.Completes limit taken got payload f'

theorem Took.unique {got got' : Octets} (h : f.Took got f') (h' : f.Took got' f') : got = got' :=
  List.append_cancel_right ((h.unread []).symm.trans (h'.unread []))

/-- A read that broke off has no frame. -/
theorem not_completes {taken : Octets} {f'' : Framed Script} {error : LinkError}
    (hread : ReadStep limit skip taken f (.done (.error error)) f') (hsame : f'.SameInbound f'')
    (got : Octets) (payload : ByteArray) : ¬ f.Completes limit taken got payload f'' := by
  intro hwhole
  obtain ⟨⟨other, htook, hnone⟩, _⟩ := hread.no_frame
  refine hnone payload hwhole.short [] ?_
  rw [(htook.trans_same hsame).unique hwhole.took, hwhole.frame, List.append_nil]

end Framed

theorem CallError.ofLink_ne_decode {error : LinkError} (h : ∀ fault, error ≠ .decode fault)
    (fault : DecodeFault) : ofLink error ≠ .transport (.decode fault) := by
  cases error with
  | decode other => exact absurd rfl (h other)
  | _ => exact nofun

namespace Session

variable {s : Session (Framed Script)} {limit : Nat}

/-- A read that is over has taken a frame, unless it failed otherwise than in
decoding one. -/
theorem endsFrame_iff (hreading : s.IsReading limit) (hended : s.receiver ≠ .ended) {now : Nat}
    {failure : Option CallError} (hread : s.readEnding now = some failure) :
    Framed.EndsFrame limit s.receiver.skips s.codec (s.stepReceiver now).2.codec ↔
      ∀ error, failure = some error → ∃ fault, error = .transport (.decode fault) := by
  obtain ⟨taken, htaken⟩ := hreading
  have hstep := receiverReads htaken now
  constructor
  · intro hends
    obtain ⟨got, payload, hwhole⟩ := hends taken (htaken hended)
    rw [hread] at hstep
    generalize hending : some failure = ending at hstep
    generalize (s.stepReceiver now).2 = s' at hstep hwhole
    cases hstep with
    | frame _ _ _ hfailure =>
        rw [Option.some.inj hending]
        exact hfailure
    | broken error _ hbroken hcodec =>
        exact absurd hwhole (Framed.not_completes hbroken hcodec got payload)
    | ended | cancelled | awaited => cases hending
  · intro hfailure other hother
    have hstep := receiverReads (fun _ => hother) now
    rw [hread] at hstep
    generalize hending : some failure = ending at hstep
    generalize (s.stepReceiver now).2 = s' at hstep ⊢
    cases hstep with
    | frame got payload _ _ _ hwhole => exact ⟨got, payload, hwhole⟩
    | broken error _ hbroken =>
        obtain ⟨fault, hfault⟩ := hfailure _ (Option.some.inj hending)
        exact absurd hfault (CallError.ofLink_ne_decode hbroken.no_frame.2 fault)
    | ended | cancelled | awaited => cases hending

/-! ## What is left alone -/

/-- What is laid down of the request under way is nothing, or all of it. -/
def LeavesWhole (longest : Nat) (s : Session (Framed Script)) : Prop :=
  ∀ p part, s.current = some p → History.IsPart longest s.codec.outbound (some p) part →
    part = [] ∨ part = p.octets longest

/-- With a deed one call is told what became of it, and nothing else is
different. -/
structure Confined (limit longest : Nat) (d : Deed Script.Twist) (signal : Nat × Call)
    (s s' : Session (Framed Script)) : Prop where
  shutdown : s'.client.shutdown = s.client.shutdown
  closing : s'.client.closing = s.client.closing
  alone : s'.client.signals = s.client.signals ++ [signal]
  others : ∀ entry ∈ s.client.table, signal.2.seq ≠ some entry.1 → entry ∈ s'.client.table
  /-- If something was read, it is a frame. -/
  inward : ∀ now, d = .task .receiver now →
    Framed.EndsFrame limit s.receiver.skips s.codec s'.codec
  /-- If something was written, it is a request or nothing. -/
  outward : s.currentEnding d ≠ none → s.LeavesWhole longest

/-- A step of the writer of a request. -/
def Deed.IsWriting (d : Deed Script.Twist) : Prop := ∃ seq now, d = .task (.writer seq) now

/-- The call is told that it was refused by a receiver that leaves. -/
def IsLastRefused (s : Session (Framed Script)) (d : Deed Script.Twist) (error : CallError) :
    Prop :=
  (∃ text, error = .server text) ∧ s.leaves d ≠ none

/-- The kinds of failures that a deed can tell a call, by what is said of each and
what is true of it. -/
inductive Failing (limit longest : Nat) (d : Deed Script.Twist) (signal : Nat × Call)
    (s s' : Session (Framed Script)) (error : CallError) : Prop where
  /-- The call was refused, or its reply had the wrong form. -/
  | answered (hd : ¬ d.IsWriting) (hstays : s.leaves d = none)
      (hlocal : error.isCallLocal = true) (hread : ¬ error.IsMisread)
      (hconfined : Confined limit longest d signal s s')
  | misread (hd : ¬ d.IsWriting) (hstays : s.leaves d = none) (hmisread : error.IsMisread)
      (hopen : ¬ Confined limit longest d signal s s')
  | unsent (hd : d.IsWriting) (hlocal : error.isCallLocal = false)
      (hconfined : Confined limit longest d signal s s' ↔ s.LeavesWhole longest)
      (hrefused : ∀ refusal, Framed.Refuses refusal → error = .ofLink refusal →
        s.LeavesWhole longest)
  | lastRefused (htext : ∃ text, error = .server text) (hleaves : s.leaves d ≠ none)
  | drained (hlocal : error.isCallLocal = false) (hleaves : s.leaves d ≠ none)

end Session

namespace CallError

theorem isCallLocal_ofLink (error : LinkError) : (ofLink error).isCallLocal = false := by
  cases error <;> rfl

theorem isCallLocal_verdict {error : CallError} (h : error.isCallLocal = false) (closing : Bool) :
    (Client.verdict closing error).isCallLocal = false := by
  cases error with
  | eof => cases closing <;> rfl
  | _ => exact h

theorem isMisread_readingBody (cause : CallError) :
    (readingBody cause).IsMisread ↔ ∀ fault, cause ≠ .transport (.decode fault) := by
  constructor
  · rintro ⟨_, ⟨⟩, hcause⟩
    exact hcause
  · intro hcause
    exact ⟨cause, rfl, hcause⟩

theorem IsMisread.isCallLocal {error : CallError} (h : error.IsMisread) :
    error.isCallLocal = true := by
  obtain ⟨cause, rfl, _⟩ := h
  rfl

end CallError

namespace Session

variable {s : Session (Framed Script)} {limit longest : Nat} {d : Deed Script.Twist}

/-- A request that is not written, as nobody shut the client down, is the one that
is being written, and its writing ends. -/
theorem unsent_of_writeFailure {seq : UInt64} {now : Nat} {error : CallError}
    (h : s.writeFailure seq now = some error) (hne : error ≠ .shutdown) :
    ∃ p : Parcel, s.current = some p ∧
      (s.codec.write p.request p.args now).1 = .done (.error error) ∧
      s.currentEnding (.task (.writer seq) now : Deed Script.Twist) = some (.error error) := by
  have hstep := s.stepWriter_cases seq now
  rw [h] at hstep
  generalize hending : some error = failure at hstep
  generalize (s.stepWriter seq now).2 = s' at hstep
  cases hstep with
  | refused | cancelled => exact absurd (Option.some.inj hending) hne
  | @written w result codec hfind hqueued hholder hbegun hclosing hwrite =>
      cases result with
      | ok => cases hending
      | error other =>
          cases hending
          refine ⟨w.parcel, current_of_begun hholder hfind hbegun, congrArg Prod.fst hwrite, ?_⟩
          simp [currentEnding, hholder, hfind, hqueued, hbegun, hclosing, hwrite]
  | absent | asked | queued | begun | awaited => cases hending

/-- Of a request that has no encoding or is too long nothing is laid down. -/
theorem leavesWhole_of_refuses {p : Parcel} {now : Nat} {refusal : LinkError}
    (hrefuses : Framed.Refuses refusal)
    (hwrite : (s.codec.write p.request p.args now).1 = .done (.error (.ofLink refusal))) :
    s.LeavesWhole longest := by
  have hidle : s.codec.outbound.writing = none := by
    have hstep := s.codec.writeStep_write p.request p.args now
    rw [hwrite] at hstep
    generalize hpoll : Poll.done (Except.error (CallError.ofLink refusal)) = poll at hstep
    generalize (s.codec.write p.request p.args now).2 = f' at hstep
    cases hstep with
    | begun hidle => exact hidle
    | refused hidle => exact hidle
    | shipped _ hships =>
        -- Once it is begun, a writing fails in other ways.
        cases hships with
        | going hpolls => rcases hpolls with rfl | rfl <;> cases hpoll
        | finished => cases hpoll
        | failed hbreaks =>
            have hsame := Except.error.inj (Poll.done.inj hpoll)
            exact absurd hsame.symm (History.ofLink_ne hbreaks hrefuses)
  intro q part hq hpart
  exact Or.inl (hpart.1 hidle)

/-- Who is told alone by a deed that spares everybody else. -/
theorem Confined.of_spares {s' : Session (Framed Script)} {signal : Nat × Call}
    {seq : Option UInt64} (hspares : s.client.Spares seq s'.client)
    (hseq : seq = none ∨ seq = signal.2.seq)
    (halone : s'.client.signals = s.client.signals ++ [signal])
    (hinward : ∀ now, d = .task .receiver now →
      Framed.EndsFrame limit s.receiver.skips s.codec s'.codec)
    (houtward : s.currentEnding d ≠ none → s.LeavesWhole longest) :
    Confined limit longest d signal s s' where
  shutdown := hspares.shutdown
  closing := hspares.closing
  alone := halone
  others entry hentry hother := by
    refine hspares.mem_table hentry ?_
    rcases hseq with rfl | rfl
    · exact nofun
    · exact hother.symm
  inward := hinward
  outward := houtward

/-- A call that is told at the end of a read of a receiver that goes on. -/
theorem failing_of_read (hreading : s.IsReading limit) {now : Nat} {p : Pending}
    {failure : Option CallError} {error : CallError} {signal : Nat × Call}
    (hreceiver : s.receiver.held = [p]) (hread : s.readEnding now = some failure)
    (hstays : s.lastWord now = none)
    (hspares : s.client.Spares none (s.stepReceiver now).2.client)
    (halone : (s.stepReceiver now).2.client.signals = s.client.signals ++ [signal])
    (hlocal : error.isCallLocal = true)
    (hmisread : error.IsMisread ↔
      ¬ ∀ cause, failure = some cause → ∃ fault, cause = .transport (.decode fault)) :
    Failing limit longest (.task .receiver now) signal s (s.stepReceiver now).2 error := by
  have hwriting : ¬ (Deed.task .receiver now : Deed Script.Twist).IsWriting := by
    rintro ⟨_, _, heq⟩
    cases heq
  have hended : s.receiver ≠ .ended := by
    intro hended
    rw [hended] at hreceiver
    cases hreceiver
  have hends := endsFrame_iff hreading hended hread
  by_cases hframe : ∀ cause, failure = some cause → ∃ fault, cause = .transport (.decode fault)
  · refine .answered hwriting hstays hlocal (fun h => hmisread.mp h hframe) ?_
    refine .of_spares hspares (Or.inl rfl) halone ?_ ?_
    · rintro _ ⟨⟩
      exact hends.mpr hframe
    · exact fun hending => absurd rfl hending
  · refine .misread hwriting hstays (hmisread.mpr hframe) ?_
    intro hconfined
    exact hframe (hends.mp (hconfined.inward now rfl))

/-- A call that is told that its request is not written. -/
theorem failing_of_unsent (hsound : s.client.Sound s.receiver.held) {seq : UInt64} {now : Nat}
    {p : Pending} {error : CallError} (hfailure : s.writeFailure seq now = some error)
    (hne : error ≠ .shutdown) (hlookup : s.client.table.lookup seq = some p)
    {s' : Session (Framed Script)} (hspares : s.client.Spares (some seq) s'.client)
    (halone : s'.client.signals = s.client.signals ++ [p.signal (.error error)]) :
    Failing limit longest (.task (.writer seq) now) (p.signal (.error error)) s s' error := by
  have hseq : p.call.seq = some seq := by
    obtain ⟨before, behind, htable, _⟩ := List.lookup_eq_some_iff.mp hlookup
    exact hsound.keyed (seq, p) (by simp [htable])
  obtain ⟨q, _, hwrite, hending⟩ := unsent_of_writeFailure hfailure hne
  obtain ⟨cause, rfl⟩ := error_of_write (Prod.ext hwrite rfl)
  refine .unsent ⟨seq, now, rfl⟩ (CallError.isCallLocal_ofLink cause) ⟨?_, ?_⟩ ?_
  · intro hconfined
    exact hconfined.outward (by rw [hending]; exact nofun)
  · intro hwhole
    refine .of_spares hspares (Or.inr ?_) halone nofun (fun _ => hwhole)
    rw [Pending.seq_signal, hseq]
  · intro refusal hrefuses hrefusal
    rw [hrefusal] at hwrite
    exact leavesWhole_of_refuses hrefuses hwrite

/-- A call that is told by a receiver that leaves. -/
theorem failing_of_leaving {s' : Session (Framed Script)} {cause error : CallError}
    {signal : Nat × Call} (hleaves : s.leaves d = some cause)
    {t : Pending × Except CallError Wire.Value}
    (ht : t ∈ s.receiver.lastTold ++ s.client.drained cause) (hfailed : t.2 = .error error) :
    Failing limit longest d signal s s' error := by
  have hstops : s.leaves d ≠ none := by
    rw [hleaves]
    exact nofun
  rcases List.mem_append.mp ht with hinHand | hwaiting
  · refine .lastRefused ?_ hstops
    unfold Receiver.lastTold at hinHand
    split at hinHand
    · rw [List.mem_singleton.mp hinHand] at hfailed
      exact ⟨_, (Except.error.inj hfailed).symm⟩
    all_goals cases hinHand
  · obtain ⟨entry, _, rfl⟩ := List.mem_map.mp hwaiting
    refine .drained ?_ hstops
    rw [← Except.error.inj hfailed]
    apply CallError.isCallLocal_verdict
    rcases leaves_cases hleaves with rfl | ⟨cause, rfl⟩ | ⟨cause, rfl⟩
    · rfl
    · exact CallError.isCallLocal_ofLink cause
    · rfl

/-- Every failure that is told is of one of the kinds. -/
theorem failing_of_announces (hreading : s.IsReading limit)
    (hsound : s.client.Sound s.receiver.held)
    {told : List (Pending × Except CallError Wire.Value)}
    (h : s.Announces d told (s.perform d).client (s.perform d).receiver) {signal : Nat × Call}
    (hsignal : signal ∈ told.map fun t => t.1.signal t.2) {error : CallError}
    (herror : signal.2.error = some error) (hne : error ≠ .shutdown) :
    Failing limit longest d signal s (s.perform d) error := by
  obtain ⟨hoccasion, htells, hopen⟩ := h
  obtain ⟨t, ht, rfl⟩ := List.mem_map.mp hsignal
  have hfailed : t.2 = .error error := (hopen t ht).eq_of_failed herror
  generalize hafter : ((s.perform d).client, (s.perform d).receiver) = after at hoccasion
  cases hoccasion with
  | nobody => cases ht
  | late =>
      rw [List.mem_singleton.mp ht] at hfailed
      exact absurd (Except.error.inj hfailed).symm hne
  | @unsent c seq now other hd hfailure hspares =>
      obtain ⟨p, hp, rfl⟩ := List.mem_map.mp ht
      cases hfailed
      have hlookup := Option.mem_toList.mp hp
      have hclient : (s.perform d).client = c := congrArg Prod.fst hafter
      rw [hlookup] at htells
      subst hd
      exact failing_of_unsent hsound hfailure hne hlookup (hclient ▸ hspares) htells
  | @replied c now p result hd hreceiver hread hspares =>
      rw [List.mem_singleton.mp ht] at hfailed ⊢
      have hclient : (s.perform d).client = c := congrArg Prod.fst hafter
      cases result with
      | ok value => cases hfailed
      | error cause =>
          cases hfailed
          have hending : s.readEnding now = some (some cause) := by
            simp [readEnding, hreceiver, hread, ending]
          subst hd
          refine failing_of_read hreading (by rw [hreceiver]; rfl) hending ?_
            (hclient ▸ hspares) htells rfl ?_
          · rw [lastWord, hreceiver]
          · simp [CallError.isMisread_readingBody]
  | @refuted c now p text hd hreceiver hread hspares =>
      rw [List.mem_singleton.mp ht] at hfailed ⊢
      have hclient : (s.perform d).client = c := congrArg Prod.fst hafter
      cases hfailed
      have hending : s.readEnding now = some none := by
        simp [readEnding, hreceiver, hread, ending]
      subst hd
      refine failing_of_read hreading (by rw [hreceiver]; rfl) hending ?_
        (hclient ▸ hspares) htells rfl ?_
      · simp [lastWord, hreceiver, hread, ending]
      · have hnot : ¬ (CallError.server text).IsMisread := CallError.not_isMisread (by simp)
        simpa using hnot
  | left hleaves => exact failing_of_leaving hleaves ht hfailed

/-- What is said of a failure of each kind, against what is true of it. -/
theorem Failing.judged {s' : Session (Framed Script)} {signal : Nat × Call} {error : CallError}
    (h : Failing limit longest d signal s s' error)
    (hdown : (s.client.shutdown = false ∧ s'.client.shutdown = true) ↔ s.leaves d ≠ none) :
    ((error.isCallLocal = true ↔ Confined limit longest d signal s s') ↔
        ¬ (error.IsMisread ∨ s.IsLastRefused d error ∨ d.IsWriting ∧ s.LeavesWhole longest)) ∧
      ((error.isCallLocal = false ↔ s.client.shutdown = false ∧ s'.client.shutdown = true) ↔
        ¬ (s.IsLastRefused d error ∨ d.IsWriting)) ∧
      ∀ refusal, Framed.Refuses refusal → error = .ofLink refusal → d.IsWriting →
        s.LeavesWhole longest := by
  -- A client that goes down is not as it was, and nobody writes in such a moment.
  have hopen (hleaves : s.leaves d ≠ none) : ¬ Confined limit longest d signal s s' := by
    intro hconfined
    obtain ⟨hup, hover⟩ := hdown.mpr hleaves
    cases hover.symm.trans (hconfined.shutdown.trans hup)
  have hwriting (hd : d.IsWriting) : s.leaves d = none := by
    obtain ⟨seq, now, rfl⟩ := hd
    rfl
  rw [hdown]
  cases h with
  | answered hd hstays hlocal hread hconfined =>
      simp [hlocal, hconfined, hread, hd, IsLastRefused, hstays]
  | misread hd hstays hmisread hnot =>
      simp [hmisread.isCallLocal, hnot, hmisread, hd, IsLastRefused, hstays]
  | unsent hd hlocal hconfined hrefused =>
      have hread : ¬ error.IsMisread := fun hmisread => by
        cases hlocal.symm.trans hmisread.isCallLocal
      refine ⟨?_, ?_, fun refusal hrefuses heq _ => hrefused refusal hrefuses heq⟩
      · simp [hlocal, hconfined, hread, hd, IsLastRefused, hwriting hd]
      · simp [hlocal, hd, hwriting hd]
  | lastRefused htext hleaves =>
      have hlast : s.IsLastRefused d error := ⟨htext, hleaves⟩
      obtain ⟨text, rfl⟩ := htext
      refine ⟨?_, ?_, fun _ _ _ hd => absurd (hwriting hd) hleaves⟩
      · simp [hopen hleaves, hlast, CallError.isCallLocal]
      · simp [hlast, CallError.isCallLocal, hleaves]
  | drained hlocal hleaves =>
      have hread : ¬ error.IsMisread := fun hmisread => by
        cases hlocal.symm.trans hmisread.isCallLocal
      have hd : ¬ d.IsWriting := fun hd => hleaves (hwriting hd)
      have hlast : ¬ s.IsLastRefused d error := by
        rintro ⟨⟨text, rfl⟩, _⟩
        cases hlocal
      refine ⟨?_, ?_, fun _ _ _ hwrites => absurd hwrites hd⟩
      · simp [hlocal, hopen hleaves, hread, hlast, hd]
      · simp [hlocal, hlast, hd, hleaves]

end Session

namespace History

/-- A client goes down with a deed when its receiver leaves. -/
theorem leaves_iff (codec : Framed Script) (deeds : List (Deed Script.Twist))
    (d : Deed Script.Twist) :
    ((run codec deeds).session.client.shutdown = false ∧
        (run codec (deeds ++ [d])).session.client.shutdown = true) ↔
      (run codec deeds).session.leaves d ≠ none := by
  obtain ⟨told, hoccasion, _⟩ := announces_run codec deeds d
  constructor
  · rintro ⟨hup, hdown⟩ hstays
    rw [(hoccasion.of_stays hstays).1, hup] at hdown
    cases hdown
  · intro hleaves
    obtain ⟨error, herror⟩ := Option.ne_none_iff_exists'.mp hleaves
    obtain ⟨_, _, _, hdown, _⟩ := hoccasion.of_leaves herror
    refine ⟨?_, hdown⟩
    -- Who has left before does not leave now.
    apply Bool.eq_false_of_not_eq_true
    intro hdown
    exact hleaves (Session.leaves_of_ended ((isSettled_run codec deeds).ended.mpr hdown) d)

/-- What `isCallLocal` says of a failure that is told is true but for three kinds. It
calls a failure local that is not confined if a reply is cut short or a receiver
that leaves has refused the call. And if a request is not written, the failure is
not called local, which is wrong whenever nothing or all of the request was laid
down, as when it has no encoding or is too long; the client does not go down. -/
theorem isCallLocal_iff_confined (link : Script) (buffer : Octets) (limit : Nat)
    (patience : Option Nat) (longest : Nat) (stamina : Option Nat)
    (deeds : List (Deed Script.Twist)) (d : Deed Script.Twist) :
    let codec := Framed.fresh link buffer limit patience { limit := longest, patience := stamina }
    let s := (run codec deeds).session
    let s' := (run codec (deeds ++ [d])).session
    ∀ signal ∈ s'.client.signals.drop s.client.signals.length, ∀ error,
      signal.2.error = some error → error ≠ .shutdown →
        ((error.isCallLocal = true ↔ Session.Confined limit longest d signal s s') ↔
          ¬ (error.IsMisread ∨ s.IsLastRefused d error ∨
            d.IsWriting ∧ s.LeavesWhole longest)) ∧
        ((error.isCallLocal = false ↔ s.client.shutdown = false ∧ s'.client.shutdown = true) ↔
          ¬ (s.IsLastRefused d error ∨ d.IsWriting)) ∧
        ∀ refusal, Framed.Refuses refusal → error = .ofLink refusal → d.IsWriting →
          s.LeavesWhole longest := by
  intro codec s s' signal hsignal error herror hne
  obtain ⟨told, hannounces⟩ := Session.announces_perform (isHonest_run codec deeds)
    (sound_run codec deeds) d
  refine Session.Failing.judged ?_ (leaves_iff codec deeds d)
  have hsession : s' = s.perform d := congrArg History.session (run_append_singleton codec deeds d)
  rw [hsession, show (s.perform d).client.signals = _ from hannounces.2.1,
    List.drop_left] at hsignal
  rw [hsession]
  exact Session.failing_of_announces (isReading_run rfl deeds) (sound_run codec deeds) hannounces
    hsignal herror hne

/-- Two calls. The arguments of the first refuse to be encoded, and its writer has
the lock and is about to find out. -/
def unencodable : List (Deed Script.Twist) :=
  [.go ⟨0, "Arith.Multiply", .failing "no", .unit⟩, .go ⟨1, "Arith.Multiply", .unit, .unit⟩,
    .task (.writer 0) 0, .task (.writer 0) 0]

/-- What the second call does after that: its request is written, and answered. -/
def answeredAfter : List (Deed Script.Twist) :=
  List.replicate 13 (.task (.writer 1) 0) ++
    [.outside (.arrive [.data (headerOctets 1 ++ [0, 0, 0, 0])])] ++
    List.replicate 4 (.task .receiver 0)

/-- The life of such a client on a connection without faults. -/
def politeRun (deeds : List (Deed Script.Twist)) : History (Framed Script) :=
  run (Framed.fresh {} [] maxPayload none {}) deeds

/-- What the first call comes to. -/
def refusedSignal : Nat × Call :=
  (0, ⟨0, "Arith.Multiply", .failing "no", some 0, none,
    some (.transport (.encode (.custom "no")))⟩)

theorem isCallLocal_of_unencodable :
    (politeRun unencodable).session.LeavesWhole maxPayload ∧
      ¬ ((CallError.transport (.encode (.custom "no"))).isCallLocal = true ↔
        Session.Confined maxPayload maxPayload (.task (.writer 0) 0) refusedSignal
          (politeRun unencodable).session
          (politeRun (unencodable ++ [.task (.writer 0) 0])).session) := by
  have hlast : (politeRun (unencodable ++ [.task (.writer 0) 0])).session.client.signals.drop
      (politeRun unencodable).session.client.signals.length = [refusedSignal] := by rfl
  have hjudged := isCallLocal_iff_confined {} [] maxPayload none maxPayload none unencodable
    (.task (.writer 0) 0) refusedSignal (hlast ▸ List.mem_singleton_self _)
    (.transport (.encode (.custom "no"))) rfl nofun
  have hwriting : (Session.Deed.task (.writer 0) 0 : Deed Script.Twist).IsWriting := ⟨0, 0, rfl⟩
  have hwhole := hjudged.2.2 (.encode (.custom "no")) (.encode _) rfl hwriting
  exact ⟨hwhole, fun hagrees => hjudged.1.mp hagrees (Or.inr (Or.inr ⟨hwriting, hwhole⟩))⟩

/-- The failure is told as one that is not confined to its call, but it is: nothing
is laid down, nobody else is told anything, the client is up, and the second call
has its reply in the end. -/
theorem confined_of_unencodable :
    (politeRun (unencodable ++ [.task (.writer 0) 0])).session.client.signals =
        (politeRun unencodable).session.client.signals ++ [refusedSignal] ∧
      refusedSignal.2.error = some (.transport (.encode (.custom "no"))) ∧
      (CallError.transport (.encode (.custom "no"))).isCallLocal = false ∧
      Session.Confined maxPayload maxPayload (.task (.writer 0) 0) refusedSignal
        (politeRun unencodable).session
        (politeRun (unencodable ++ [.task (.writer 0) 0])).session ∧
      (politeRun (unencodable ++ [.task (.writer 0) 0] ++ answeredAfter)).session.client.shutdown =
        false ∧
      (politeRun (unencodable ++ [.task (.writer 0) 0] ++ answeredAfter)).session.client.signals.map
          (fun s => (s.2.seq, s.2.reply, s.2.error)) =
        [(some 0, none, some (.transport (.encode (.custom "no")))),
          (some 1, some .unit, none)] := by
  have htable : (politeRun (unencodable ++ [.task (.writer 0) 0])).session.client.table =
      (politeRun unencodable).session.client.table.filter (·.1 != 0) := by rfl
  have hseq : refusedSignal.2.seq = some 0 := by rfl
  have hidle : (politeRun unencodable).session.codec.outbound.writing = none := by rfl
  refine ⟨by rfl, by rfl, by rfl, ⟨by rfl, by rfl, by rfl, ?_, nofun, ?_⟩, by rfl, by rfl⟩
  · intro entry hentry hother
    rw [htable, List.mem_filter]
    rw [hseq] at hother
    refine ⟨hentry, bne_iff_ne.mpr ?_⟩
    intro hfirst
    exact hother (by rw [hfirst])
  · intro _ p part _ hpart
    exact Or.inl (hpart.1 hidle)

end History

end Switchboard
