import Switchboard.Proofs.Client.Silence
import Switchboard.Proofs.Client.Refusal
import Switchboard.Proofs.Client.Telling

/-!
# What is told after the owner has closed

The owner who closes asked for the end, so whoever still waits is told that the
client is shut down, and nothing is reported. This holds of all but one kind of
life. The close may come while the receiver reads past something that no call
waits for. That read is not left, and if it fails, its failure is what the
waiting calls are told and what is reported, as if nobody had closed.

`Parting` says all that can be told and reported from the close to any later
moment. The calls told are divided into the one that the receiver had in hand
and those before and after it.
-/

namespace Switchboard

open Session (Deed Notice)

/-- The failure, if the event reports one that ended the client. -/
def Event.alarm? : Event → Option CallError
  | .protocolError error => some error
  | _ => none

/-- The failure of a read, if the notice is of one. -/
def Session.Notice.read? : Notice → Option (Option CallError)
  | .read failure => some failure
  | _ => none

/-- How the reads of the receiver ended, oldest first. -/
def History.reads {κ : Type} (h : History κ) : List (Option CallError) :=
  h.notices.filterMap Notice.read?

theorem History.reads_perform {ω κ : Type} [Codec κ] [Surroundings ω κ] (h : History κ)
    (d : Deed ω) :
    (h.perform d).reads = h.reads ++ (h.session.notices d).filterMap Notice.read? :=
  List.filterMap_append

/-- A call that comes to have an error was finished with it. -/
theorem Call.IsOpen.eq_of_failed {c : Call} (h : c.IsOpen)
    {outcome : Except CallError Wire.Value} {error : CallError}
    (hfailed : (c.finish outcome).error = some error) : outcome = .error error := by
  cases outcome with
  | ok reply =>
      rw [Call.finish, h.2] at hfailed
      cases hfailed
  | error other => exact congrArg _ (Option.some.inj hfailed)

/-! ## Reports of the end -/

namespace Client

/-- The failures that were reported to have ended the client. -/
def alarms (c : Client) : List CallError := c.events.filterMap Event.alarm?

@[simp] theorem alarms_log (e : Event) (c : Client) :
    (c.log e).alarms = c.alarms ++ e.alarm?.toList := by
  cases h : e.alarm? <;> simp [log, alarms, h]

@[simp] theorem alarms_addMailbox (m : Mailbox) (c : Client) :
    (c.addMailbox m).2.alarms = c.alarms := rfl

@[simp] theorem alarms_updateMailbox (place : Nat) (f : Mailbox → Mailbox) (c : Client) :
    (c.updateMailbox place f).alarms = c.alarms := rfl

@[simp] theorem alarms_finish (p : Pending) (outcome : Except CallError Wire.Value) (c : Client) :
    (c.finish p outcome).alarms = c.alarms := by
  unfold finish
  split
  · rfl
  · dsimp only
    split <;> simp [alarms, log, Event.alarm?]

@[simp] theorem alarms_issue (call : Call) (shape : Wire.Shape) (mailbox : Nat) (c : Client) :
    (c.issue call shape mailbox).2.alarms = c.alarms := by
  by_cases hover : c.isOver = true
  · rw [issue_over hover, alarms_finish, alarms_updateMailbox]
  · rw [issue_open (by simpa using hover)]
    rfl

@[simp] theorem alarms_writeFailed (seq : UInt64) (error : CallError) (c : Client) :
    (c.writeFailed seq error).alarms = c.alarms := by
  rcases c.writeFailed_cases seq error with ⟨-, heq⟩ | ⟨p, -, heq⟩
  · rw [heq]
  · rw [heq]
    exact alarms_finish _ _ _

theorem alarms_completion {capacity place : Nat} {c c' : Client}
    (h : c.completion capacity = .ok (place, c')) : c'.alarms = c.alarms := by
  unfold completion at h
  split at h
  · cases h
  · cases h
    rfl

theorem alarms_takeCall {place : Nat} {call : Call} {c c' : Client}
    (h : c.takeCall place = some (call, c')) : c'.alarms = c.alarms := by
  unfold takeCall at h
  split at h
  · cases h
  · obtain ⟨_, _, heq⟩ := Option.map_eq_some_iff.mp h
    cases heq
    rfl

@[simp] theorem alarms_drain (told : CallError) (entries : List (UInt64 × Pending)) (c : Client) :
    (c.drain told entries).alarms = c.alarms := by
  induction entries generalizing c with
  | nil => rfl
  | cons entry entries ih =>
      change ((c.finish entry.2 (.error told)).drain told entries).alarms = c.alarms
      rw [ih, alarms_finish]

/-- Reading that ends is reported, unless the owner asked for that. -/
theorem alarms_stop (error : CallError) (c : Client) :
    (c.stop error).alarms = c.alarms ++
      if isExpected c.closing error then [] else [verdict c.closing error] := by
  rw [stop_eq]
  split
  · rw [List.append_nil, id, alarms_drain]
    rfl
  · rw [alarms_log, alarms_drain]
    rfl

/-- Why a client is given up although its owner closed it, when reading ends
with `error`. -/
def breach (error : CallError) : Option CallError := if error = .eof then none else some error

theorem verdict_of_closing (error : CallError) :
    verdict true error = (breach error).getD .shutdown := by
  cases error <;> rfl

theorem isExpected_of_closing (error : CallError) :
    (if isExpected true error then [] else [verdict true error]) = (breach error).toList := by
  cases error <;> rfl

/-- Once the owner has closed, the end of the stream is a shutdown and is not
reported. Any other end is told and reported as it is. -/
theorem stop_of_closing {held : List Pending} {c : Client} (hclosing : c.closing = true)
    (hsound : c.Sound held) (error : CallError) :
    c.Tells (c.table.map fun entry => (entry.2, .error ((breach error).getD .shutdown)))
        (c.stop error) ∧
      (c.stop error).alarms = c.alarms ++ (breach error).toList := by
  constructor
  · rw [← verdict_of_closing, ← hclosing]
    exact (hsound.stop error).2
  · rw [alarms_stop, hclosing, isExpected_of_closing]

/-! ## Whoever waits -/

namespace Books

variable {held registered refused : List Pending} {c : Client}

/-- A call in the table is in no other place. -/
theorem waiting (h : Books held registered refused c) (few : registered.length ≤ 2 ^ 64)
    {seq : UInt64} {p : Pending} (hentry : (seq, p) ∈ c.table) :
    registered[seq.toNat]? = some p ∧ held.filter (·.call.seq = some seq) = [] ∧
      c.signalsOf (some seq) = [] := by
  have hmem : p ∈ registered := h.mem_registered
    (List.mem_append_left _ (List.mem_map_of_mem (f := Prod.snd) hentry))
  obtain ⟨n, hn⟩ := List.mem_iff_getElem?.mp hmem
  have hplace : registered[seq.toNat]? = some p := by
    obtain ⟨hlt, _⟩ := List.getElem?_eq_some_iff.mp hn
    have hnumber : some (UInt64.ofNat n) = some seq :=
      (h.numbered n p hn).symm.trans (h.keyed _ hentry)
    rw [← Option.some.inj hnumber, UInt64.toNat_ofNat_of_lt' (Nat.lt_of_lt_of_le hlt few)]
    exact hn
  have hwhere := h.whereabouts few hplace
  have hfilter : (seq, p) ∈ c.table.filter (·.1 = seq) := by simp [hentry]
  refine ⟨hplace, ?_⟩
  generalize c.table.filter (·.1 = seq) = table at hwhere hfilter
  generalize held.filter (·.call.seq = some seq) = inHand at hwhere ⊢
  generalize c.signalsOf (some seq) = signals at hwhere ⊢
  cases hwhere with
  | waiting => exact ⟨rfl, rfl⟩
  | inHand => cases hfilter
  | completed => cases hfilter

/-- A registered call was told nothing, or once what became of it. -/
theorem signalsOf_cases (h : Books held registered refused c) (few : registered.length ≤ 2 ^ 64)
    {seq : UInt64} {p : Pending} (hp : registered[seq.toNat]? = some p) :
    c.signalsOf (some seq) = [] ∨ ∃ outcome, c.signalsOf (some seq) = [p.signal outcome] := by
  have hwhere := h.whereabouts few hp
  generalize c.table.filter (·.1 = seq) = table at hwhere
  generalize held.filter (·.call.seq = some seq) = inHand at hwhere
  generalize c.signalsOf (some seq) = signals at hwhere ⊢
  cases hwhere with
  | waiting => exact Or.inl rfl
  | inHand => exact Or.inl rfl
  | completed outcome => exact Or.inr ⟨outcome, rfl⟩

end Books

end Client

/-! ## The read that the close came into -/

/-- Why a client is given up although its owner closed it, when the read that
was going on at the close ends as it does. The reply to a call may fail without
harm, and the wait for a header is left. -/
def Receiver.breach (failure : Option CallError) : Receiver → Option CallError
  | .unknown => failure.bind Client.breach
  | .errorBody .. => failure.map .readingErrorBody
  | .header | .body _ | .ended => none

/-- What has become of the read that was going on at the close: how it ended, for
which call, and what the receiver does. -/
inductive Receiver.Departs (r : Receiver) :
    List (Option CallError) → List Pending → Receiver → Prop where
  | reading : Departs r [] [] r
  | called (h : r = .header) : Departs r [] [] .ended
  /-- It ended well enough for the receiver to come back for another header. -/
  | back {failure : Option CallError} (h : r.breach failure = none) :
      Departs r [failure] r.held .header
  | gone (failure : Option CallError) : Departs r [failure] r.held .ended

/-- Neither is the receiver back nor is it done, so it still reads. -/
theorem Receiver.Departs.eq_of_inResponse {r r' : Receiver} {ends : List (Option CallError)}
    {held : List Pending} (h : r.Departs ends held r') (hin : r'.InResponse) :
    ends = [] ∧ held = [] ∧ r = r' := by
  cases h with
  | reading => exact ⟨rfl, rfl, rfl⟩
  | called => exact hin.elim
  | back => exact hin.elim
  | gone => exact hin.elim

/-- Nobody else comes into the hands of the receiver. -/
theorem Receiver.Departs.subset {r r' : Receiver} {ends : List (Option CallError)}
    {held : List Pending} (h : r.Departs ends held r') : held ⊆ r.held := by
  cases h with
  | reading => exact List.nil_subset _
  | called => exact List.nil_subset _
  | back => exact List.Subset.refl _
  | gone => exact List.Subset.refl _

/-- A read that an owner who closed does not interrupt comes to its end: the call
in hand is told, and when that is the end of the client, so are the others. -/
structure Receiver.Concludes (failure : Option CallError)
    (own told : List (Pending × Except CallError Wire.Value)) (c : Client) (r : Receiver)
    (c' : Client) (r' : Receiver) : Prop where
  inHand : own.map Prod.fst = r.held
  receiver : r' = .ended ∨ r' = .header ∧ r.breach failure = none
  tells : c.Tells (own ++ told) c'
  others : ∀ t ∈ told, t.2 = .error ((r.breach failure).getD .shutdown)
  alarms : c'.alarms = c.alarms ++ (r.breach failure).toList

/-- What was told and reported between two moments, of which the owner closed at
the first. -/
structure Parting {κ : Type} (h later : History κ) (ends : List (Option CallError))
    (before own after : List (Pending × Except CallError Wire.Value)) : Prop where
  reads : later.reads = h.reads ++ ends
  departs : h.session.receiver.Departs ends (own.map Prod.fst) later.session.receiver
  told : h.session.client.Tells (before ++ own ++ after) later.session.client
  /-- All but the call in hand. -/
  others : ∀ t ∈ before ++ after, t.2 = .error .shutdown ∨
    ∃ error ∈ ends.filterMap h.session.receiver.breach, t.2 = .error error
  alarms : later.session.client.alarms =
    h.session.client.alarms ++ ends.filterMap h.session.receiver.breach

namespace Parting

variable {ω κ : Type} [Codec κ] [Surroundings ω κ] {h later later' : History κ}
  {ends : List (Option CallError)}
  {before own after : List (Pending × Except CallError Wire.Value)}

omit [Codec κ] in
/-- Everybody else is told of a shutdown and nothing is reported, exactly if the
read that was going on did not end the client. -/
theorem peaceful_iff (hp : Parting h later ends before own after) :
    ((∀ t ∈ before ++ after, t.2 = .error .shutdown) ∧
        later.session.client.alarms = h.session.client.alarms) ↔
      ends.filterMap h.session.receiver.breach = [] := by
  constructor
  · rintro ⟨_, halarms⟩
    have hbreaches := hp.alarms
    rw [halarms] at hbreaches
    exact List.self_eq_append_right.mp hbreaches
  · intro hnone
    refine ⟨fun t ht => ?_, ?_⟩
    · rcases hp.others t ht with htold | ⟨error, herror, _⟩
      · exact htold
      · rw [hnone] at herror
        cases herror
    · rw [hp.alarms, hnone, List.append_nil]

omit [Codec κ] in
/-- No read ended, and whoever was told was told of a shutdown. -/
theorem beside (hp : Parting h later ends before own after)
    (hreads : later'.reads = later.reads)
    (hdeparts : h.session.receiver.Departs ends (own.map Prod.fst) later'.session.receiver)
    {told : List (Pending × Except CallError Wire.Value)}
    (htold : later.session.client.Tells told later'.session.client)
    (hshutdown : ∀ t ∈ told, t.2 = .error .shutdown)
    (halarms : later'.session.client.alarms = later.session.client.alarms) :
    Parting h later' ends before own (after ++ told) where
  reads := hreads.trans hp.reads
  departs := hdeparts
  told := by simpa only [List.append_assoc] using hp.told.trans htold
  others t ht := by
    rw [← List.append_assoc, List.mem_append] at ht
    rcases ht with hold | hnew
    · exact hp.others t hold
    · exact Or.inl (hshutdown t hnew)
  alarms := halarms.trans hp.alarms

omit [Codec κ] in
/-- Nothing that counts is different. -/
theorem still (hp : Parting h later ends before own after)
    (hreads : later'.reads = later.reads)
    (hclient : later'.session.client = later.session.client)
    (hreceiver : later'.session.receiver = later.session.receiver) :
    Parting h later' ends before own (after ++ []) := by
  refine hp.beside hreads (hreceiver ▸ hp.departs) ?_ (by simp) (by rw [hclient])
  rw [hclient]
  exact (List.append_nil _).symm

omit [Codec κ] in
/-- The read that the close came into is concluded. -/
theorem concluded {failure : Option CallError} (hp : Parting h later [] before [] after)
    (hreceiver : h.session.receiver = later.session.receiver)
    (hreads : later'.reads = later.reads ++ [failure])
    {own told : List (Pending × Except CallError Wire.Value)}
    (hconcludes : Receiver.Concludes failure own told later.session.client
      later.session.receiver later'.session.client later'.session.receiver) :
    Parting h later' [failure] (before ++ after) own told where
  reads := by rw [hreads, hp.reads, List.append_nil]
  departs := by
    rw [hconcludes.inHand, ← hreceiver]
    rcases hconcludes.receiver with hended | ⟨hheader, hbreach⟩
    · exact hended ▸ .gone failure
    · exact hheader ▸ .back (hreceiver ▸ hbreach)
  told := by
    simpa only [List.append_nil, List.append_assoc] using hp.told.trans hconcludes.tells
  others t ht := by
    rcases List.mem_append.mp ht with hold | hnew
    · rcases hp.others t hold with hshutdown | ⟨_, herror, _⟩
      · exact Or.inl hshutdown
      · cases herror
    · have hsaid := hconcludes.others t hnew
      rw [hreceiver]
      cases hbreach : later.session.receiver.breach failure with
      | none => exact Or.inl (by rw [hsaid, hbreach]; rfl)
      | some error => exact Or.inr ⟨error, by simp [hbreach], by rw [hsaid, hbreach]; rfl⟩
  alarms := by
    rw [hconcludes.alarms, hp.alarms, hreceiver]
    cases hbreach : later.session.receiver.breach failure <;> simp [hbreach]

end Parting

/-! ## One deed -/

namespace Session

variable {ω κ : Type} [Codec κ] [Surroundings ω κ]

/-- Only the receiver goes on with a read, and only the receiver reports that the
client is of no more use. -/
theorem apart_perform {s : Session κ} {d : Deed ω} (hd : ∀ now, d ≠ .task .receiver now) :
    (s.perform d).receiver = s.receiver ∧
      (s.perform d).client.alarms = s.client.alarms := by
  cases d with
  | go a =>
      simp only [perform, go, frame_issue, true_and]
      rw [Client.alarms_issue, Client.alarms_addMailbox]
  | goWith a mailbox =>
      simp only [perform]
      split
      · simp
      · exact ⟨rfl, rfl⟩
  | call a => exact ⟨rfl, rfl⟩
  | completion capacity =>
      simp only [perform]
      split
      · exact ⟨rfl, Client.alarms_completion ‹_›⟩
      · exact ⟨rfl, rfl⟩
  | take mailbox =>
      simp only [perform]
      split
      · exact ⟨rfl, Client.alarms_takeCall ‹_›⟩
      · exact ⟨rfl, rfl⟩
  | dropHandle mailbox => exact ⟨rfl, rfl⟩
  | deafen mailbox => exact ⟨rfl, rfl⟩
  | task t now =>
      cases t with
      | receiver => exact absurd rfl (hd now)
      | writer seq =>
          have hstep := s.stepWriter_cases seq now
          simp only [perform, step]
          generalize s.writeFailure seq now = failure at hstep
          generalize (s.stepWriter seq now).2 = s' at hstep ⊢
          cases hstep with
          | @written w result => cases result <;> simp [endWriter]
          | refused => simp [endWriter]
          | cancelled => simp [endWriter]
          | absent | asked | queued | begun | awaited => exact ⟨rfl, rfl⟩
      | caller place =>
          have hstep := s.stepCaller_cases place
          simp only [perform, step]
          generalize (s.stepCaller place).2 = s' at hstep ⊢
          cases hstep with
          | taken _ htake => exact ⟨rfl, Client.alarms_takeCall htake⟩
          | made =>
              simp only [frame_issue, true_and]
              rw [Client.alarms_issue, Client.alarms_addMailbox]
          | absent | turnedAway | bereft | awaited | finished => exact ⟨rfl, rfl⟩
  | close =>
      cases hover : s.client.isOver with
      | true => simp [perform, beginClose, Client.beginClose, hover]
      | false =>
          simp only [perform, beginClose, Client.beginClose, hover]
          exact ⟨rfl, rfl⟩
  | hangUp =>
      simp only [perform, stepClose]
      split <;> exact ⟨rfl, rfl⟩
  | outside event => exact ⟨rfl, rfl⟩

omit [Surroundings ω κ] in
/-- Nobody else reads. -/
theorem reads_notices {s : Session κ} {d : Deed ω} (hd : ∀ now, d ≠ .task .receiver now) :
    (s.notices d).filterMap Notice.read? = [] := by
  have hcall (p : Pending) : (noteCall p s.client).read? = none := by
    unfold noteCall
    split <;> rfl
  cases d with
  | go a => simp [notices, hcall]
  | goWith a mailbox =>
      simp only [notices]
      split
      · simp [hcall]
      · rfl
  | task t now =>
      cases t with
      | receiver => exact absurd rfl (hd now)
      | writer seq =>
          cases hwrite : s.writeFailure seq now <;> simp [notices, noteStep, hwrite, Notice.read?]
      | caller place =>
          simp only [notices, noteStep]
          split
          · split
            · rfl
            · simp [hcall]
          · rfl
  | call | completion | take | dropHandle | deafen | close | hangUp | outside => rfl

omit [Surroundings ω κ] in
/-- After the owner has closed, a request that is not written is not written
because of that. -/
theorem unsent_of_closing {s : Session κ} (hclosing : s.client.closing = true) {d : Deed ω}
    {seq : UInt64} {error : CallError} (hunsent : .unsent seq error ∈ s.notices d) :
    error = .shutdown := by
  obtain ⟨now, _, hfailure⟩ := exists_writer_of_unsent hunsent
  have hstep := s.stepWriter_cases seq now
  rw [hfailure] at hstep
  generalize hending : some error = failure at hstep
  generalize (s.stepWriter seq now).2 = s' at hstep
  cases hstep with
  | refused | cancelled => exact Option.some.inj hending
  | written _ _ _ _ hopen => rw [hclosing] at hopen; cases hopen
  | absent | asked | queued | begun | awaited => cases hending

/-- Beside the receiver, whoever is told anything after the owner has closed is
told of a shutdown. -/
theorem shutdown_of_change {ns : List Notice} {c c' : Client} {r r' : Receiver}
    (hchange : Change ns (c, r) (c', r')) (hreceiver : r' = r) (hclosing : c.closing = true)
    (hsound : c.Sound r.held) (hunsent : ∀ seq error, .unsent seq error ∈ ns → error = .shutdown) :
    ∃ told, c.Tells told c' ∧ ∀ t ∈ told, t.2 = .error .shutdown := by
  have hnobody {c' : Client} (hsame : c'.signals = c.signals) :
      ∃ told, c.Tells told c' ∧ ∀ t ∈ told, t.2 = .error .shutdown :=
    ⟨[], hsame.trans (List.append_nil _).symm, by simp⟩
  cases hchange with
  | mailboxes _ halike => exact hnobody halike.signals
  | turnedAway => exact hnobody rfl
  | @issued _ client _ p halike _ _ hmailbox =>
      have hover : client.isOver = true := by
        rw [halike.isOver, Client.isOver, hclosing, Bool.or_true]
      obtain ⟨_, htold⟩ := (hsound.alike halike).refuse hmailbox hover
      refine ⟨[(p, .error .shutdown)], ?_, by simp⟩
      rw [Client.Tells, ← halike.signals]
      exact htold
  | unsent _ _ seq error =>
      obtain rfl := hunsent seq error List.mem_cons_self
      refine ⟨_, (hsound.writeFailed seq .shutdown).2, ?_⟩
      intro t ht
      obtain ⟨_, _, rfl⟩ := List.mem_map.mp ht
      rfl
  | closed => exact hnobody rfl
  | matched _ _ hopen => rw [hclosing] at hopen; cases hopen
  | cancelled | noHeader | unmatched | replied | passed | notPassed | refuted | refutedLast =>
      cases hreceiver

omit [Surroundings ω κ] in
/-- In a response the receiver goes on, or concludes the read. -/
theorem concludes_stepReceiver {s : Session κ} (hin : s.receiver.InResponse)
    (hclosing : s.client.closing = true) (hsound : s.client.Sound s.receiver.held) (now : Nat) :
    s.readEnding now = none ∧ (s.stepReceiver now).2.client = s.client ∧
        (s.stepReceiver now).2.receiver = s.receiver ∨
      ∃ failure own told, s.readEnding now = some failure ∧
        Receiver.Concludes failure own told s.client s.receiver
          (s.stepReceiver now).2.client (s.stepReceiver now).2.receiver := by
  have hstep := s.stepReceiver_cases now
  generalize s.readEnding now = ending at hstep ⊢
  generalize (s.stepReceiver now).2 = s' at hstep ⊢
  cases hstep with
  | ended => exact Or.inl ⟨rfl, rfl, rfl⟩
  | bodyAwaited => exact Or.inl ⟨rfl, rfl, rfl⟩
  | discardAwaited => exact Or.inl ⟨rfl, rfl, rfl⟩
  | cancelled hreceiver => rw [hreceiver] at hin; exact hin.elim
  | headerAwaited hreceiver => rw [hreceiver] at hin; exact hin.elim
  | header hreceiver => rw [hreceiver] at hin; exact hin.elim
  | noHeader hreceiver => rw [hreceiver] at hin; exact hin.elim
  | @body p result codec hreceiver =>
      rw [hreceiver] at hsound ⊢
      obtain ⟨failure, hfailure⟩ : ∃ failure, Session.ending (.done result) = some failure := by
        cases result with
        | ok => exact ⟨_, rfl⟩
        | error => exact ⟨_, rfl⟩
      obtain ⟨_, htold⟩ := hsound.finish (result.mapError .readingBody)
      exact Or.inr ⟨failure, [(p, result.mapError .readingBody)], [], hfailure, rfl,
        Or.inr ⟨rfl, rfl⟩, htold, by simp, by simp [Receiver.breach]⟩
  | passed hreceiver =>
      rw [hreceiver]
      exact Or.inr ⟨none, [], [], rfl, rfl, Or.inr ⟨rfl, rfl⟩, (List.append_nil _).symm,
        by simp, by simp [Receiver.breach]⟩
  | @notPassed error codec hreceiver =>
      rw [hreceiver]
      obtain ⟨htold, halarms⟩ := Client.stop_of_closing hclosing hsound error
      refine Or.inr ⟨some error, [], _, rfl, rfl, Or.inl rfl, htold, ?_, halarms⟩
      intro t ht
      obtain ⟨_, _, rfl⟩ := List.mem_map.mp ht
      rfl
  | @refuted p text codec hreceiver =>
      rw [hreceiver] at hsound ⊢
      obtain ⟨_, htold⟩ := hsound.finish (.error (.server text))
      exact Or.inr ⟨none, [(p, .error (.server text))], [], rfl, rfl, Or.inr ⟨rfl, rfl⟩, htold,
        by simp, by simp [Receiver.breach]⟩
  | @refutedLast p text error codec hreceiver =>
      rw [hreceiver] at hsound ⊢
      obtain ⟨hfinished, hown⟩ := hsound.finish (.error (.server text))
      have hclosing' : (s.client.finish p (.error (.server text))).closing = true := by
        rw [(Client.frame_finish p _ _).2.2.2.1, hclosing]
      obtain ⟨htold, halarms⟩ :=
        Client.stop_of_closing hclosing' hfinished (.readingErrorBody error)
      rw [Client.alarms_finish] at halarms
      refine Or.inr ⟨some error, [(p, .error (.server text))], _, rfl, rfl, Or.inl rfl,
        hown.trans htold, ?_, halarms⟩
      intro t ht
      obtain ⟨_, _, rfl⟩ := List.mem_map.mp ht
      rfl

end Session

namespace Parting

variable {ω κ : Type} [Codec κ] [Surroundings ω κ] {h later : History κ}
  {ends : List (Option CallError)}
  {before own after : List (Pending × Except CallError Wire.Value)}

theorem perform_of_ne (hp : Parting h later ends before own after)
    (hclosing : later.session.client.closing = true)
    (hsound : later.session.client.Sound later.session.receiver.held)
    (hhonest : ∀ caller ∈ later.session.callers, caller.IsHonest)
    {d : Deed ω} (hd : ∀ now, d ≠ .task .receiver now) :
    ∃ told, Parting h (later.perform d) ends before own (after ++ told) := by
  obtain ⟨hreceiver, halarms⟩ := Session.apart_perform (s := later.session) hd
  obtain ⟨told, htold, hshutdown⟩ := Session.shutdown_of_change
    (Session.change_of_perform hhonest d) hreceiver hclosing hsound
    fun seq error => Session.unsent_of_closing hclosing
  refine ⟨told, hp.beside ?_ ?_ htold hshutdown halarms⟩
  · rw [History.reads_perform, Session.reads_notices hd, List.append_nil]
  · change h.session.receiver.Departs ends _ (later.session.perform d).receiver
    rw [hreceiver]
    exact hp.departs

theorem perform_receiver (hp : Parting h later ends before own after)
    (hclosing : later.session.client.closing = true)
    (hsound : later.session.client.Sound later.session.receiver.held) (now : Nat) :
    ∃ ends before own after,
      Parting h (later.perform (.task .receiver now : Deed ω)) ends before own after := by
  have hreads : (later.perform (.task .receiver now : Deed ω)).reads =
      later.reads ++ (later.session.readEnding now).toList := by
    cases hread : later.session.readEnding now <;>
      simp [History.reads_perform, Session.notices, Session.noteStep, hread, Notice.read?]
  cases hreceiver : later.session.receiver with
  | ended =>
      have hidle := Session.stepReceiver_ended hreceiver now
      rw [hidle.1] at hreads
      refine ⟨_, _, _, _, hp.still (by simpa using hreads) ?_ ?_⟩
      · exact congrArg Session.client hidle.2
      · exact congrArg Session.receiver hidle.2
  | header =>
      have hleft : later.session.readEnding now = none := by
        simp [Session.readEnding, hreceiver, hclosing]
      have hstep : (later.session.stepReceiver now).2.client = later.session.client.stop .eof ∧
          (later.session.stepReceiver now).2.receiver = .ended := by
        rw [Session.stepReceiver, hreceiver, hclosing]
        exact ⟨rfl, rfl⟩
      obtain ⟨htold, halarms⟩ := Client.stop_of_closing hclosing hsound .eof
      rw [hleft] at hreads
      refine ⟨_, _, _, _, hp.beside (by simpa using hreads) ?_ (hstep.1 ▸ htold) ?_
        (hstep.1 ▸ halarms.trans (List.append_nil _))⟩
      · have hdeparts := hp.departs
        rw [hreceiver] at hdeparts
        refine hstep.2 ▸ ?_
        generalize hr : h.session.receiver = r at hdeparts
        generalize own.map Prod.fst = held at hdeparts
        cases hdeparts with
        | reading => exact .called rfl
        | back => exact .gone _
      · intro t ht
        obtain ⟨_, _, rfl⟩ := List.mem_map.mp ht
        rfl
  | body | unknown | errorBody =>
      have hin : later.session.receiver.InResponse := by rw [hreceiver]; trivial
      obtain ⟨rfl, hown, hr⟩ := hp.departs.eq_of_inResponse hin
      obtain rfl := List.map_eq_nil_iff.mp hown
      rcases Session.concludes_stepReceiver hin hclosing hsound now with
        ⟨hending, hclient, hsame⟩ | ⟨failure, own, told, hending, hconcludes⟩
      · rw [hending] at hreads
        exact ⟨_, _, _, _, hp.still (by simpa using hreads) hclient hsame⟩
      · rw [hending] at hreads
        exact ⟨_, _, _, _, hp.concluded hr hreads hconcludes⟩

omit [Codec κ] [Surroundings ω κ] in
/-- Whoever was in the table at the close and was told since is not the call in
hand, so it was told what the others were. -/
theorem told_of_waiting (hp : Parting h later ends before own after)
    {registered refused refused' : List Pending} (few : registered.length ≤ 2 ^ 64)
    (hbooks : h.session.client.Books h.session.receiver.held registered refused)
    (hbooks' : later.session.client.Books later.session.receiver.held registered refused')
    {seq : UInt64} {p : Pending} (hentry : (seq, p) ∈ h.session.client.table) :
    later.session.client.signalsOf (some seq) = [] ∨
      ∃ error, later.session.client.signalsOf (some seq) = [p.signal (.error error)] ∧
        (error = .shutdown ∨ error ∈ ends.filterMap h.session.receiver.breach) := by
  obtain ⟨hplace, hheld, hsilent⟩ := hbooks.waiting few hentry
  rcases hbooks'.signalsOf_cases few hplace with hnone | ⟨outcome, hsignals⟩
  · exact Or.inl hnone
  · right
    have htold : p.signal outcome ∈ (before ++ own ++ after).map fun t => t.1.signal t.2 := by
      have hmem : p.signal outcome ∈ later.session.client.signalsOf (some seq) := by
        rw [hsignals]
        exact List.mem_singleton_self _
      rw [Client.signalsOf, hp.told, List.filter_append] at hmem
      rcases List.mem_append.mp hmem with hold | hnew
      · rw [← Client.signalsOf, hsilent] at hold
        cases hold
      · exact (List.mem_filter.mp hnew).1
    obtain ⟨t, ht, heq⟩ := List.mem_map.mp htold
    have hseq : t.1.call.seq = some seq := by
      have hnumber := congrArg (fun signal : Nat × Call => signal.2.seq) heq
      simp only [Pending.seq_signal] at hnumber
      rw [hnumber]
      exact hbooks.keyed _ hentry
    have hother : t ∈ before ++ after := by
      have hown : t ∉ own := by
        intro hown
        have hinHand : t.1 ∈ h.session.receiver.held.filter (·.call.seq = some seq) :=
          List.mem_filter.mpr ⟨hp.departs.subset (List.mem_map_of_mem hown), by simpa using hseq⟩
        rw [hheld] at hinHand
        cases hinHand
      rw [List.append_assoc, List.mem_append, List.mem_append] at ht
      rw [List.mem_append]
      tauto
    have hopen : p.call.IsOpen := by
      refine hbooks.fresh p (List.mem_append_left _ (hbooks.mem_registered ?_))
      exact List.mem_append_left _ (List.mem_map_of_mem (f := Prod.snd) hentry)
    have hfailed {error : CallError} (herror : t.2 = .error error) : outcome = .error error := by
      have hcall := congrArg (fun signal : Nat × Call => signal.2.error) heq
      rw [herror] at hcall
      exact hopen.eq_of_failed hcall.symm
    rcases hp.others t hother with hshutdown | ⟨error, herror, hsaid⟩
    · rw [hfailed hshutdown] at hsignals
      exact ⟨.shutdown, hsignals, Or.inl rfl⟩
    · rw [hfailed hsaid] at hsignals
      exact ⟨error, hsignals, Or.inr herror⟩

end Parting

/-! ## From the close on -/

namespace History

variable {ω κ : Type} [Codec κ] [Surroundings ω κ]

/-- A client that is not over is closed when its owner closes it. -/
theorem closing_close {codec : κ} {deeds : List (Deed ω)}
    (hopen : (run codec deeds).session.client.isOver = false) :
    (run codec (deeds ++ [Deed.close])).session.client =
      { (run codec deeds).session.client with closing := true } := by
  rw [run_append_singleton]
  simp only [perform, Session.perform, Session.beginClose, Client.beginClose, hopen]
  rfl

theorem parting_run {codec : κ} {deeds : List (Deed ω)}
    (hopen : (run codec deeds).session.client.isOver = false) (more : List (Deed ω)) :
    ∃ ends before own after,
      Parting (run codec deeds) (run codec (deeds ++ [Deed.close] ++ more)) ends before own after := by
  have hclosed := closing_close hopen
  induction more using List.reverseRecOn with
  | nil =>
      have hapart := Session.apart_perform (s := (run codec deeds).session)
        (d := (.close : Deed ω)) (fun now => nofun)
      have hreads := Session.reads_notices (s := (run codec deeds).session)
        (d := (.close : Deed ω)) (fun now => nofun)
      rw [List.append_nil, run_append_singleton] at *
      refine ⟨[], [], [], [], ?_, ?_, ?_, by simp, ?_⟩
      · rw [reads, perform, List.filterMap_append, hreads]
        rfl
      · refine hapart.1 ▸ ?_
        exact .reading
      · rw [hclosed]
        exact (List.append_nil _).symm
      · exact hapart.2.trans (List.append_nil _).symm
  | append_singleton more d ih =>
      obtain ⟨ends, before, own, after, hp⟩ := ih
      have hclosing : (run codec (deeds ++ [Deed.close] ++ more)).session.client.closing = true :=
        (onward_run codec (deeds ++ [Deed.close]) more).closing (by rw [hclosed])
      have hsound := sound_run codec (deeds ++ [Deed.close] ++ more)
      rw [← List.append_assoc, run_append_singleton]
      by_cases hd : ∀ now, d ≠ .task .receiver now
      · obtain ⟨told, hnext⟩ := hp.perform_of_ne hclosing hsound (isHonest_run codec _) hd
        exact ⟨_, _, _, _, hnext⟩
      · push Not at hd
        obtain ⟨now, rfl⟩ := hd
        exact hp.perform_receiver hclosing hsound now

/-- Whatever codec a client speaks and whatever is done after its owner closed
it: but for the call in the receiver's hands, everybody is told of a shutdown and
nothing is reported, unless the read that the close came into was one past
something that no call waits for, and failed. -/
theorem parting_iff {codec : κ} {deeds : List (Deed ω)}
    (hopen : (run codec deeds).session.client.isOver = false) (more : List (Deed ω)) :
    let h := run codec deeds
    let later := run codec (deeds ++ [Deed.close] ++ more)
    ∃ ends before own after, Parting h later ends before own after ∧
      (((∀ t ∈ before ++ after, t.2 = .error .shutdown) ∧
          later.session.client.alarms = h.session.client.alarms) ↔
        ends.filterMap h.session.receiver.breach = []) ∧
      (h.registered.length < 2 ^ 64 → ∀ seq p, (seq, p) ∈ h.session.client.table →
        later.session.client.signalsOf (some seq) = [] ∨
          ∃ error, later.session.client.signalsOf (some seq) = [p.signal (.error error)] ∧
            (error = .shutdown ∨ error ∈ ends.filterMap h.session.receiver.breach)) := by
  intro h later
  obtain ⟨ends, before, own, after, hp⟩ := parting_run hopen more
  refine ⟨ends, before, own, after, hp, hp.peaceful_iff, ?_⟩
  intro few seq p hentry
  have hover : (run codec (deeds ++ [Deed.close])).session.client.isOver = true := by
    rw [closing_close hopen, Client.isOver, Bool.or_true]
  have hregistered : later.registered = h.registered := by
    rw [show later.registered = _ from (dwindles_run hover more).2, run_append_singleton,
      registered_perform]
    exact List.append_nil _
  have hbooks' := books_run codec (deeds ++ [Deed.close] ++ more)
    (show later.registered.length < 2 ^ 64 by rw [hregistered]; exact few)
  rw [show (run codec (deeds ++ [Deed.close] ++ more)).registered = _ from hregistered] at hbooks'
  exact hp.told_of_waiting (Nat.le_of_lt few) (books_run codec deeds few) hbooks' hentry

/-- Two calls. The first is refused by the other side, and before what follows
the refusal has come, the owner closes. -/
def refusing : List (Deed (List Cue)) :=
  let ask : Ask := ⟨0, "Arith.Multiply", .unit, .unit⟩
  [.go ask, .go ask, .outside [.header ⟨"Arith.Multiply", 0, "boom"⟩], .task .receiver 0]

theorem parting_of_refusing :
    (run ({} : Rehearsal) refusing).session.client.isOver = false ∧
      ∃ ends before own after,
        Parting (run ({} : Rehearsal) refusing)
          (run ({} : Rehearsal) (refusing ++ [Deed.close] ++ [Deed.outside [.body .unit]]))
          ends before own after := by
  have hopen : (run ({} : Rehearsal) refusing).session.client.isOver = false := by rfl
  obtain ⟨ends, before, own, after, hp, _⟩ := parting_iff hopen [.outside [.body .unit]]
  exact ⟨hopen, ends, before, own, after, hp⟩

/-- When the stream then ends where the body should be, the second call is told
so instead of a shutdown, and the end is reported. -/
theorem wronged_after_close :
    let later := run ({} : Rehearsal)
      (refusing ++ [Deed.close] ++ [Deed.outside [.failure .eof], .task .receiver 0])
    (run ({} : Rehearsal) refusing).session.client.table.map Prod.fst = [1] ∧
      (later.session.client.signalsOf (some 1)).map (·.2.error) =
        [some (.readingErrorBody .eof)] ∧
      later.session.client.alarms = [.readingErrorBody .eof] := by
  exact ⟨by rfl, by rfl, by rfl⟩

end History

end Switchboard
