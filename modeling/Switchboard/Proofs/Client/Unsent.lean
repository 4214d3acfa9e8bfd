import Switchboard.Proofs.Client.Occasions
import Switchboard.Proofs.Client.Quiet

/-!
# A request that is not written

When the writing of a request fails, its call is told why, if it still waits, and
nothing else is different (`FailsAlone`). The call may have been taken out of the
table already, by an answer that was faster or by the end of reading; then nobody is
told anything.

After that its number is spent: nobody waits under it, and nobody will, since numbers
are given out once and only new calls enter the table (`spent_of_later`). The other
side does not know that the call is lost and may answer it after all. Such an answer
finds nobody and is read past (`IsStray`), however much else happens in the meantime.
-/

namespace Switchboard

open Session (Deed Notice)

namespace Session

variable {ω κ : Type} [Codec κ]

/-- The answer whose header the next step of the receiver has, if it has one. -/
def arrival (now : Nat) (s : Session κ) : Option Wire.Response :=
  match s.receiver with
  | .header =>
      if s.client.closing then none
      else match (Codec.readHeader now s.codec).1 with
        | .done (.ok response) => some response
        | .done (.error _) | .again | .blocked => none
  | .body _ | .unknown | .errorBody .. | .ended => none

/-- The failure of one request is the failure of its call, if that still waits, and of
nothing else. -/
structure FailsAlone (seq : UInt64) (error : CallError) (s s' : Session κ) : Prop where
  told : ∀ p, s.client.table.lookup seq = some p →
    p.call.seq = some seq ∧ p.call.IsOpen ∧ s.client.Tells [(p, .error error)] s'.client
  nobody : s.client.table.lookup seq = none → s'.client = s.client
  spares : s.client.Spares (some seq) s'.client
  receiver : s'.receiver = s.receiver

/-- One step of a receiver that reads past a body: the client stays as it is unless
the codec fails to get past the body. -/
inductive Passing : Option (Option CallError) → Client × Receiver → Client × Receiver → Prop where
  | awaited (c : Client) : Passing none (c, .unknown) (c, .unknown)
  | passed (c : Client) : Passing (some none) (c, .unknown) (c, .header)
  | failed (c : Client) (error : CallError) :
      Passing (some (some error)) (c, .unknown) (c.stop error, .ended)

theorem failsAlone_stepWriter {s : Session κ} (hsound : s.client.Sound s.receiver.held)
    {seq : UInt64} {now : Nat} {error : CallError}
    (hfailure : s.writeFailure seq now = some error) :
    s.FailsAlone seq error (s.stepWriter seq now).2 := by
  obtain ⟨hclient, hreceiver⟩ := stepWriter_of_failure hfailure
  refine ⟨?_, ?_, hclient ▸ .writeFailed seq error s.client, hreceiver⟩
  · intro p hp
    have htold := (hsound.writeFailed seq error).2
    rw [hp, Option.toList_some, List.map_singleton, ← hclient] at htold
    obtain ⟨front, back, htable, _⟩ := List.lookup_eq_some_iff.mp hp
    have hentry : (seq, p) ∈ s.client.table := by simp [htable]
    exact ⟨hsound.keyed (seq, p) hentry, (hsound.waiting (seq, p) hentry).fresh, htold⟩
  · intro hnone
    rw [hclient, Client.writeFailed, Client.remove_eq_none_iff.mpr hnone]

/-- Only a request with a number that was given out can fail. -/
theorem seq_lt_of_writeFailure {s : Session κ} (horderly : s.IsOrderly) {seq : UInt64}
    {now : Nat} {error : CallError} (hfailure : s.writeFailure seq now = some error) :
    seq < s.client.nextSeq := by
  cases hfind : s.writers.find? (·.request.seq = seq) with
  | none =>
      rw [writeFailure, hfind] at hfailure
      cases hfailure
  | some w =>
      rw [← seq_of_find hfind]
      exact horderly.known w (List.mem_of_find?_eq_some hfind)

/-- An answer that finds nobody is reported, and nothing else comes of it at first. -/
theorem stepReceiver_of_stray {s : Session κ} {now : Nat} {response : Wire.Response}
    (harrival : s.arrival now = some response)
    (hgone : ∀ entry ∈ s.client.table, entry.1 ≠ response.seq) :
    (s.stepReceiver now).2.client = s.client.log (.unknownResponse response.seq) ∧
      (s.stepReceiver now).2.receiver = .unknown := by
  have hnone : s.client.remove response.seq = none := by
    rw [Client.remove_eq_none_iff, List.lookup_eq_none_iff]
    intro entry hentry
    simpa using (hgone entry hentry).symm
  have hstep := s.stepReceiver_cases now
  generalize s.readEnding now = failure at hstep
  generalize (s.stepReceiver now).2 = s' at hstep ⊢
  unfold arrival at harrival
  cases hstep with
  | @header other codec hreceiver hclosing hread =>
      rw [hreceiver] at harrival
      simp only [hclosing, hread, Bool.false_eq_true, if_false, Option.some.injEq] at harrival
      subst harrival
      rw [route, hnone]
      exact ⟨rfl, rfl⟩
  | headerAwaited hreceiver hclosing hread hpoll =>
      rename_i poll _
      rw [hreceiver] at harrival
      simp only [hclosing, hread, Bool.false_eq_true, if_false] at harrival
      rcases poll with _ | _ | _ | _
      · cases harrival
      · cases harrival
      · cases harrival
      · cases hpoll
  | noHeader hreceiver hclosing hread => simp [hreceiver, hclosing, hread] at harrival
  | cancelled hreceiver hclosing => simp [hreceiver, hclosing] at harrival
  | ended hreceiver | bodyAwaited hreceiver | body hreceiver | passed hreceiver
  | notPassed hreceiver | refuted hreceiver | refutedLast hreceiver =>
      rw [hreceiver] at harrival
      cases harrival
  | discardAwaited hreceiver =>
      rcases hreceiver with hreceiver | ⟨_, _, hreceiver⟩
      · rw [hreceiver] at harrival
        cases harrival
      · rw [hreceiver] at harrival
        cases harrival

theorem passing_stepReceiver {s : Session κ} (hreceiver : s.receiver = .unknown) (now : Nat) :
    Passing (s.readEnding now) (s.client, s.receiver)
      ((s.stepReceiver now).2.client, (s.stepReceiver now).2.receiver) := by
  have hstep := s.stepReceiver_cases now
  rw [hreceiver]
  generalize s.readEnding now = failure at hstep ⊢
  generalize (s.stepReceiver now).2 = s' at hstep ⊢
  cases hstep with
  | discardAwaited =>
      rw [hreceiver]
      exact .awaited _
  | passed => exact .passed _
  | notPassed => exact .failed _ _
  | ended h | cancelled h | headerAwaited h | header h | noHeader h | bodyAwaited h | body h
  | refuted h | refutedLast h => cases hreceiver.symm.trans h

/-- Nothing but a step of the receiver ends the reading past a body. -/
theorem Change.unknown_of_silent {ns : List Notice} {c c' : Client} {r : Receiver}
    (h : Change ns (c, .unknown) (c', r)) (hsilent : ns.filterMap Notice.read? = []) :
    r = .unknown := by
  cases h with
  | mailboxes | turnedAway | issued | unsent | closed => rfl
  | passed | notPassed => cases hsilent

end Session

namespace History

variable {ω κ : Type} [Codec κ] [Surroundings ω κ]

/-- The number was given out, and nobody waits under it. -/
structure IsSpent (seq : UInt64) (h : History κ) : Prop where
  given : seq.toNat < h.registered.length
  gone : ∀ entry ∈ h.session.client.table, entry.1 ≠ seq

/-- The answer to whose header the receiver gets with its next step is read past: it
is reported, and until the receiver is done with it, each of its steps leaves the
client as it is, unless the codec fails. -/
structure IsStray (codec : κ) (deeds : List (Deed ω)) (now : Nat) (response : Wire.Response) :
    Prop where
  reported : (run codec (deeds ++ [.task .receiver now])).session.client =
    (run codec deeds).session.client.log (.unknownResponse response.seq)
  passed : ∀ meanwhile : List (Deed ω),
    (run codec (deeds ++ [.task .receiver now] ++ meanwhile)).reads =
      (run codec (deeds ++ [.task .receiver now])).reads →
    ∀ later,
      let s := (run codec (deeds ++ [.task .receiver now] ++ meanwhile)).session
      Session.Passing (s.readEnding later) (s.client, s.receiver)
        ((s.stepReceiver later).2.client, (s.stepReceiver later).2.receiver)

/-- Nobody comes to wait under a number that is spent. -/
theorem spent_of_later (codec : κ) (deeds more : List (Deed ω))
    (few : (run codec (deeds ++ more)).registered.length < 2 ^ 64) {seq : UInt64}
    (hspent : (run codec deeds).IsSpent seq) : (run codec (deeds ++ more)).IsSpent seq := by
  induction more using List.reverseRecOn with
  | nil => rwa [List.append_nil]
  | append_singleton more d ih =>
      rw [← List.append_assoc] at few ⊢
      obtain ⟨hgiven, hgone⟩ := ih (few_of_later few)
      have hbooks := books_run codec (deeds ++ more) (few_of_later few)
      have hsound := sound_run codec (deeds ++ more ++ [d])
      have hchange := Session.change_of_perform (isHonest_run codec (deeds ++ more)) d
      refine ⟨?_, ?_⟩
      · rw [run_append_singleton, registered_perform, List.length_append]
        exact Nat.lt_add_right _ hgiven
      · intro entry hentry hseq
        have hkey := hsound.keyed entry hentry
        rw [run_append_singleton] at hentry
        rcases hchange.mem_table hentry with hold | hnew
        · exact hgone entry hold hseq
        · -- The call that had the number is another one than the new call.
          have hfirst := hbooks.numbered seq.toNat _ (List.getElem?_eq_getElem hgiven)
          refine seq_ne_of_new few (List.getElem_mem hgiven) hnew ?_
          rw [Pending.parcel, Pending.parcel, hfirst, hkey, hseq, UInt64.ofNat_toNat]

/-- The reads that have ended stay the first ones. -/
theorem reads_prefix (codec : κ) (deeds more : List (Deed ω)) :
    (run codec deeds).reads <+: (run codec (deeds ++ more)).reads := by
  induction more using List.reverseRecOn with
  | nil => rw [List.append_nil]
  | append_singleton more d ih =>
      rw [← List.append_assoc, run_append_singleton, reads_perform]
      exact ih.trans (List.prefix_append _ _)

/-- While no read ends, the receiver reads past the same body. -/
theorem unknown_of_silent (codec : κ) (deeds meanwhile : List (Deed ω))
    (hunknown : (run codec deeds).session.receiver = .unknown)
    (hsilent : (run codec (deeds ++ meanwhile)).reads = (run codec deeds).reads) :
    (run codec (deeds ++ meanwhile)).session.receiver = .unknown := by
  induction meanwhile using List.reverseRecOn with
  | nil => rwa [List.append_nil]
  | append_singleton meanwhile d ih =>
      obtain ⟨ends, hends⟩ := reads_prefix codec deeds meanwhile
      have hchange := Session.change_of_perform (isHonest_run codec (deeds ++ meanwhile)) d
      rw [← List.append_assoc, run_append_singleton, reads_perform, ← hends, List.append_assoc,
        List.append_right_eq_self, List.append_eq_nil_iff] at hsilent
      obtain ⟨rfl, hnone⟩ := hsilent
      rw [ih (by rw [← hends, List.append_nil])] at hchange
      rw [← List.append_assoc, run_append_singleton]
      exact hchange.unknown_of_silent hnone

theorem isStray_of_spent (codec : κ) (deeds : List (Deed ω)) {now : Nat}
    {response : Wire.Response} (hspent : (run codec deeds).IsSpent response.seq)
    (harrival : (run codec deeds).session.arrival now = some response) :
    IsStray codec deeds now response := by
  obtain ⟨hclient, hunknown⟩ := Session.stepReceiver_of_stray harrival hspent.gone
  rw [← session_receiver] at hclient hunknown
  refine ⟨hclient, ?_⟩
  intro meanwhile hsilent later s
  exact Session.passing_stepReceiver (unknown_of_silent codec _ meanwhile hunknown hsilent) later

/-- When the writing of a request fails, then, whatever codec the client speaks and
whatever was done before, at most its own call is told so, once, and all else stays as
it is. Whatever is done later, nobody waits under its number any more, and an answer
that carries the number is read past. -/
theorem failsAlone_run (codec : κ) (deeds : List (Deed ω)) {seq : UInt64} {now : Nat}
    {error : CallError} (hfailure : (run codec deeds).session.writeFailure seq now = some error)
    (more : List (Deed ω))
    (few : (run codec (deeds ++ [.task (.writer seq) now] ++ more)).registered.length < 2 ^ 64) :
    (run codec deeds).session.FailsAlone seq error
        (run codec (deeds ++ [.task (.writer seq) now])).session ∧
      (∀ entry ∈ (run codec (deeds ++ [.task (.writer seq) now] ++ more)).session.client.table,
        entry.1 ≠ seq) ∧
      ∀ later response,
        (run codec (deeds ++ [.task (.writer seq) now] ++ more)).session.arrival later =
          some response →
        response.seq = seq →
        IsStray codec (deeds ++ [.task (.writer seq) now] ++ more) later response := by
  have halone : (run codec deeds).session.FailsAlone seq error
      (run codec (deeds ++ [.task (.writer seq) now])).session := by
    rw [run_append_singleton]
    exact Session.failsAlone_stepWriter (sound_run codec deeds) hfailure
  have hearlier := few_of_later (few_of_later few)
  have hspent : (run codec (deeds ++ [.task (.writer seq) now])).IsSpent seq := by
    refine ⟨?_, ?_⟩
    · have hlt := Session.seq_lt_of_writeFailure (orderly_run codec deeds hearlier) hfailure
      rw [UInt64.lt_iff_toNat_lt, (books_run codec deeds hearlier).counted] at hlt
      rw [run_append_singleton, registered_perform, List.length_append]
      exact Nat.lt_add_right _ hlt
    · intro entry hentry
      rw [halone.spares.table, List.mem_filter] at hentry
      simpa using hentry.2
  have hlater := spent_of_later codec _ more few hspent
  refine ⟨halone, hlater.gone, ?_⟩
  rintro later response harrival rfl
  exact isStray_of_spent codec _ hlater harrival

/-- Two calls; the connection refuses the request of the first. It is answered all the
same, behind which comes the answer to the second. -/
theorem failsAlone_of_refused :
    let ask : Ask := ⟨0, "Arith.Multiply", .unit, .unit⟩
    let codec : Rehearsal := { failures := [(0, .codec "write refused")] }
    let deeds : List (Deed (List Cue)) :=
      [.go ask, .go ask, .task (.writer 0) 0, .task (.writer 0) 0]
    let answers : List (Deed (List Cue)) :=
      [.outside [.header ⟨"Arith.Multiply", 0, ""⟩, .body .unit,
        .header ⟨"Arith.Multiply", 1, ""⟩, .body .unit]]
    let failed := deeds ++ [.task (.writer 0) 0]
    (run codec deeds).session.FailsAlone 0 (.codec "write refused") (run codec failed).session ∧
      IsStray codec (failed ++ answers) 0 ⟨"Arith.Multiply", 0, ""⟩ := by
  intro ask codec deeds answers failed
  have hfailure : (run codec deeds).session.writeFailure 0 0 = some (.codec "write refused") := by
    rfl
  have few : (run codec (failed ++ answers)).registered.length < 2 ^ 64 := by decide
  have harrival : (run codec (failed ++ answers)).session.arrival 0 =
      some ⟨"Arith.Multiply", 0, ""⟩ := by rfl
  obtain ⟨halone, _, hstray⟩ := failsAlone_run codec deeds hfailure answers few
  exact ⟨halone, hstray 0 _ harrival rfl⟩

end History

end Switchboard
